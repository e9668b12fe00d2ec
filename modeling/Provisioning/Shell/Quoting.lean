/-! Text as it is written into a shell script. A banner has every active character escaped, a path
token only blanks and parentheses, so that a tilde and a glob stay active, and a double-quoted word
the characters that are active between double quotes. -/

namespace Provisioning.Shell

/-- The characters that a banner escapes. -/
def bannerActive : List Char :=
  ['\\', '\x27', '\x22', '<', '>', '|', '(', ')', '&', ';', '$', '\x60', '*', '?', '[', ']', '\x7b',
    '\x7d', '#', '~', '!']

/-- A line break becomes a space, so that a banner is one line. -/
def escapeBannerChars : List Char → List Char
  | [] => []
  | c :: cs =>
    if c = '\n' ∨ c = '\r' then ' ' :: escapeBannerChars cs
    else if c ∈ bannerActive then '\\' :: c :: escapeBannerChars cs
    else c :: escapeBannerChars cs

def escapeBanner (text : String) : String := String.ofList (escapeBannerChars text.toList)

/-- The characters that a path token escapes. -/
def pathActive : List Char := [' ', '(', ')']

/-- A backslash keeps the character after it as it is. -/
def escapePathChars : List Char → List Char
  | [] => []
  | ['\\'] => ['\\']
  | '\\' :: c :: cs => '\\' :: c :: escapePathChars cs
  | c :: cs => if c ∈ pathActive then '\\' :: c :: escapePathChars cs else c :: escapePathChars cs

def escapePath (text : String) : String := String.ofList (escapePathChars text.toList)

/-- The characters that stay active between double quotes. -/
def quoteActive : List Char := ['\\', '\x22', '$', '\x60']

def escapeQuotedChars : List Char → List Char
  | [] => []
  | c :: cs => if c ∈ quoteActive then '\\' :: c :: escapeQuotedChars cs else c :: escapeQuotedChars cs

def doubleQuoteChars (cs : List Char) : List Char := '\x22' :: (escapeQuotedChars cs ++ ['\x22'])

def doubleQuote (text : String) : String := String.ofList (doubleQuoteChars text.toList)

end Provisioning.Shell
