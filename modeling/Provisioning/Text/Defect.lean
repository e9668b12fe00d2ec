import Provisioning.Decimal.Layout

/-! Where and how bytes fail to be UTF-8. -/

namespace Provisioning.Text

/-- Bytes that are no character. A character that the end of the bytes cuts off has no size. -/
structure Defect where
  index : Nat
  size? : Option Nat
deriving DecidableEq, Repr

def Defect.message (d : Defect) : String :=
  let place := " from index " ++ Decimal.digitText d.index
  match d.size? with
  | some n => "invalid utf-8 sequence of " ++ Decimal.digitText n ++ " bytes" ++ place
  | none => "incomplete utf-8 byte sequence" ++ place

/-- The bounds of the bytes after a first byte, if a character starts with it. -/
def continuations? (b : UInt8) : Option (List (UInt8 × UInt8)) :=
  if b ≤ 0x7F then some []
  else if b < 0xC2 then none
  else if b ≤ 0xDF then some [(0x80, 0xBF)]
  else if b = 0xE0 then some [(0xA0, 0xBF), (0x80, 0xBF)]
  else if b = 0xED then some [(0x80, 0x9F), (0x80, 0xBF)]
  else if b ≤ 0xEF then some [(0x80, 0xBF), (0x80, 0xBF)]
  else if b = 0xF0 then some [(0x90, 0xBF), (0x80, 0xBF), (0x80, 0xBF)]
  else if b ≤ 0xF3 then some [(0x80, 0xBF), (0x80, 0xBF), (0x80, 0xBF)]
  else if b = 0xF4 then some [(0x80, 0x8F), (0x80, 0xBF), (0x80, 0xBF)]
  else none

/-- The defect of a character at `index` of which `seen` bytes are right, if the next ones do not keep the
bounds. -/
def tailDefect? (index seen : Nat) : List (UInt8 × UInt8) → List UInt8 → Option Defect
  | [], _ => none
  | _, [] => some ⟨index, none⟩
  | (low, high) :: bounds, b :: rest =>
    if low ≤ b ∧ b ≤ high then tailDefect? index (seen + 1) bounds rest else some ⟨index, some seen⟩

/-- The first defect of bytes that start at `index`. -/
def defectFrom? (index : Nat) : List UInt8 → Option Defect
  | [] => none
  | b :: rest =>
    match continuations? b with
    | none => some ⟨index, some 1⟩
    | some bounds =>
      match tailDefect? index 1 bounds rest with
      | some d => some d
      | none => defectFrom? (index + 1 + bounds.length) (rest.drop bounds.length)
termination_by bytes => bytes.length

def defect? (bytes : List UInt8) : Option Defect := defectFrom? 0 bytes

end Provisioning.Text
