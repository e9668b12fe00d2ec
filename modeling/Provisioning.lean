import Provisioning.Build.Operation
import Provisioning.Main
import Provisioning.Proofs.Dispatch
import Provisioning.Proofs.Script.Custody
import Provisioning.Proofs.Build.Calls
import Provisioning.Proofs.Build.Operation
import Provisioning.Proofs.Build.Download
import Provisioning.Proofs.Evaluation
import Provisioning.Proofs.Session.Document
import Provisioning.Proofs.Vagrantfile.Reading
import Provisioning.Proofs.Writing.Script
import Provisioning.Proofs.TwoHosts.Script
import Provisioning.Proofs.TwoPlatforms.Evaluation
import Provisioning.Proofs.SyncedFolders
import Provisioning.Proofs.Registry.History
import Provisioning.Proofs.StatementForms
import Provisioning.Proofs.FailedStatements
import Provisioning.Proofs.Cache.Holdings
import Provisioning.Proofs.CachePlace
import Provisioning.Proofs.Shell.Reader
import Provisioning.Proofs.Shell.Reading
import Provisioning.Proofs.Recipe.Scripts
import Provisioning.Proofs.Shell.Quoted
import Provisioning.Proofs.Recipe.Versions
import Provisioning.Proofs.Shell.Banner
import Provisioning.Proofs.Config.Conversion
import Provisioning.Proofs.Config.Unfolding
import Provisioning.Proofs.Config.Length
import Provisioning.Proofs.Config.Looks
import Provisioning.Proofs.Shell.PathToken
import Provisioning.Proofs.Shell.Closing
import Provisioning.Proofs.Registry.Unflatten
import Provisioning.Proofs.Script.Reaches
import Provisioning.Proofs.StatementCalls
import Provisioning.Proofs.Text.Ends
import Provisioning.Proofs.Config.Arguments
import Provisioning.Proofs.Cache.Files
import Provisioning.Proofs.GuestCache
import Provisioning.Proofs.Shell.Substitution
import Provisioning.Proofs.Shell.Commands
import Provisioning.Proofs.Shell.Mounted
import Provisioning.Proofs.Recipe.Folders
import Provisioning.Proofs.Host.Growth
import Provisioning.Proofs.Host.Making
import Provisioning.Proofs.HostFrame
import Provisioning.Proofs.CommandLine.Words
import Provisioning.Proofs.Interpreters
import Provisioning.Proofs.Rendering
import Provisioning.Proofs.Registry.FailedCalls
import Provisioning.Proofs.Registry.Maps
import Provisioning.Proofs.OptionLayers
import Provisioning.Proofs.Session.Summary
