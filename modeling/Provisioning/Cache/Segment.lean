import Provisioning.Text.Ascii

/-! A text as one name of a file system. A letter or a digit of ASCII stands for itself; every other
byte of the text's UTF-8 form is an underscore and two hexadecimal digits. Decoding accepts only what
encoding produces. -/

namespace Provisioning.Cache.Segment

/-- The characters of one byte. -/
def encodeByte (b : UInt8) : List Char :=
  if Text.isAlphanumByte b then [Char.ofNat b.toNat]
  else ['_', Text.upperHexDigit (b.toNat / 16), Text.upperHexDigit (b.toNat % 16)]

def encodeBytes (bytes : List UInt8) : List Char := bytes.flatMap encodeByte

def encode (text : String) : String := String.ofList (encodeBytes (Text.utf8 text))

/-- The bytes of a text can be cut at an index: a character begins there or the text ends. -/
def isBoundary (bytes : List UInt8) (i : Nat) : Bool :=
  match bytes[i]? with
  | some b => decide b.IsUTF8FirstByte
  | none => i == bytes.length

/-- The bytes between two indices, unless one of them is outside of the text or inside of a character. -/
def window? (bytes : List UInt8) (start stop : Nat) : Option (List UInt8) :=
  if isBoundary bytes start && isBoundary bytes stop then some ((bytes.drop start).take (stop - start)) else none

def hexValue? (b : UInt8) : Option Nat := Text.upperHexValue? (Char.ofNat b.toNat)

/-- The byte that the two digits from an index on stand for. -/
def escaped? (bytes : List UInt8) (i : Nat) : Option UInt8 :=
  match window? bytes i (i + 2) with
  | some [high, low] =>
    match hexValue? high, hexValue? low with
    | some h, some l => some (UInt8.ofNat (16 * h + l))
    | _, _ => none
  | _ => none

/-- Decodes from an index on. Refuses an escape of lower-case digits, an escaped letter or digit, and any other
byte. -/
def decodeFrom? (bytes : List UInt8) (i : Nat) : Option (List UInt8) :=
  if h : i < bytes.length then
    if bytes[i] = '_'.toUInt8 then
      (escaped? bytes (i + 1)).bind fun b =>
        if Text.isAlphanumByte b then none else (decodeFrom? bytes (i + 3)).map (b :: ·)
    else if Text.isAlphanumByte bytes[i] then (decodeFrom? bytes (i + 1)).map (bytes[i] :: ·)
    else none
  else some []
termination_by bytes.length - i

def decode? (segment : String) : Option String :=
  (decodeFrom? (Text.utf8 segment) 0).bind Text.ofUtf8?

end Provisioning.Cache.Segment
