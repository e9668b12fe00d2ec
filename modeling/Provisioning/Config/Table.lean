import Provisioning.Config.Value

/-! Tables. A table has a row of values for the keys from one on and slots for all other keys. Each key
has a home among the slots; a key whose home is taken goes to the last slot that was never used. A table
without such a slot grows, and how much of it is the row is decided then, so that more than half of the
row is in use. The length of a table with gaps depends on how the table grew and on where its end was seen
last. -/

namespace Provisioning.Config

structure Slot where
  /-- A slot that was never used has no key. -/
  key? : Option Key
  /-- The value of a removed key is `nil`. -/
  value : Value
deriving Repr, Inhabited

structure Table where
  /-- The values of the keys `1`, `2`, and so on; `nil` in a gap. -/
  row : Array Value
  /-- The length of the row, or a smaller number where the row was seen to end. -/
  edge : Nat
  /-- All other keys; a power of two of them, or none. -/
  slots : Array Slot
  /-- All slots from here on have been used. -/
  unused : Nat
deriving Repr, Inhabited

namespace Table

def empty : Table := ⟨#[], 0, #[], 0⟩

/-- The least power of two that is `n` at least, `p` being tried first; `fuel` bounds the exponent. -/
def powerFrom (n : Nat) : Nat → Nat → Nat
  | 0, p => p
  | fuel + 1, p => if n ≤ p then p else powerFrom n fuel (2 * p)

/-- The least power of two that is `n` at least, or zero if `n` is. -/
def roomFor (n : Nat) : Nat := if n = 0 then 0 else powerFrom n 64 1

/-- A table with room for a row and for other keys. -/
def withRoom (row others : Nat) : Table :=
  ⟨Array.replicate row .nil, row, Array.replicate (roomFor others) default, roomFor others⟩

/-! ### Places -/

/-- The place of a key in the row. -/
def place? (t : Table) : Key → Option Nat
  | .integer n =>
    if 1 ≤ n.toInt ∧ n.toInt ≤ t.row.size then some (n.toInt.toNat - 1) else none
  | _ => none

/-- The number of a float: its exponent and the first 31 bits of its fraction, added in 32 bits and folded
to 31. -/
def floatNumber (bits : UInt64) : Nat :=
  match Decimal.Binary.ofBits bits with
  | .finite b =>
    let size := Nat.log2 b.mantissa + 1
    let fraction : Int := ((b.mantissa <<< 31) >>> size : Nat)
    let n := (b.exponent + size + (if b.negative then -fraction else fraction)) % 0x100000000
    (if n < 0x80000000 then n else 0xFFFFFFFF - n).toNat
  | _ => 0

/-- The home of a key. -/
def home (t : Table) (k : Key) : Nat :=
  let n := t.slots.size
  let odd := max 1 (n - 1)
  match k with
  | .boolean b => (if b then 1 else 0) % n
  | .integer i => i.toUInt64.toNat % odd
  | .number bits => floatNumber bits % odd
  | .string s => (s.foldl (fun h b => (31 * h + b.toNat) % 0x100000000) 0) % n
  | .table a => a % odd
  | .function a => a % odd
  | .thread a => a % odd
  | .fault a => a % odd

/-- Whether the slot `i` is the one of a key. -/
def holds (t : Table) (i : Nat) (k : Key) : Bool :=
  match t.slots[i]? with
  | some s => s.key? = some k
  | none => false

/-- The slot of a key, in its home or elsewhere. -/
def slot? (t : Table) (k : Key) : Option Nat :=
  if t.holds (t.home k) k then some (t.home k) else t.slots.findIdx? fun s => s.key? = some k

/-- The value of a key, `nil` if there is none. -/
def get (t : Table) (k : Key) : Value :=
  match t.place? k with
  | some i => t.row[i]?.getD .nil
  | none => ((t.slot? k).bind fun i => t.slots[i]?.map (·.value)).getD .nil

/-- The value of a positive integer as key. -/
def item (t : Table) (n : Nat) : Value := t.get (.integer (Int64.ofNat n))

/-- The keys of the slots with their values. -/
def others (t : Table) : List (Key × Value) :=
  t.slots.toList.filterMap fun s =>
    match s.key? with
    | some k => if s.value.isNil then none else some (k, s.value)
    | none => none

/-- The keys of the row after the first `n` with their values. -/
def rowAfter (t : Table) (n : Nat) : List (Key × Value) :=
  ((t.row.toList.drop n).zipIdx n).filterMap fun (v, i) =>
    if v.isNil then none else some (.integer (Int64.ofNat (i + 1)), v)

/-- The pairs of the table: the row and then the slots. -/
def pairs (t : Table) : List (Key × Value) := t.rowAfter 0 ++ t.others

/-! ### Growing -/

/-- The last slot before `n` that was never used. -/
def lastUnused? (t : Table) : Nat → Option Nat
  | 0 => none
  | n + 1 => if (t.slots[n]?.bind (·.key?)).isNone then some n else lastUnused? t n

/-- Adds a key that has no slot, if there is room. A key that is not at home gives way to one that is. -/
def add? (t : Table) (k : Key) (v : Value) : Option Table :=
  let h := t.home k
  match t.slots[h]? with
  | none => none
  | some s =>
    if s.value.isNil then some { t with slots := t.slots.setIfInBounds h ⟨some k, v⟩ }
    else
      match t.lastUnused? t.unused with
      | none => none
      | some f =>
        if s.key?.any fun other => t.home other ≠ h then
          let slots := (t.slots.setIfInBounds f s).setIfInBounds h ⟨some k, v⟩
          some { t with slots, unused := f }
        else some { t with slots := t.slots.setIfInBounds f ⟨some k, v⟩, unused := f }

/-- Adds a key to a table that has room for it. -/
def put (t : Table) (k : Key) (v : Value) : Table :=
  match t.place? k with
  | some i => { t with row := t.row.setIfInBounds i v }
  | none => (t.add? k v).getD t

/-- The same pairs in a row and in slots of new sizes. -/
def resized (t : Table) (row others : Nat) : Table :=
  let start := withRoom row others
  let kept := (t.row.toList.take row).zipIdx
  let start := { start with row := kept.foldl (fun r (v, i) => r.setIfInBounds i v) start.row }
  (t.rowAfter row ++ t.others).foldl (fun t (k, v) => t.put k v) start

/-- The largest key of a row, as a power of two. -/
def maxRowBits : Nat := 31

def rowIndex? : Key → Option Nat
  | .integer n =>
    if 1 ≤ n.toInt ∧ n.toInt ≤ Nat.pow 2 maxRowBits then some n.toInt.toNat else none
  | _ => none

/-- The largest power of two such that more than half of the numbers up to it are in the list. -/
def rowSize (indices : List Nat) : Nat :=
  (((List.range (maxRowBits + 1)).map (Nat.pow 2)).filter fun n =>
    n / 2 < (indices.filter (· ≤ n)).length).getLast?.getD 0

/-- Room for the pairs and for one more key. -/
def grow (t : Table) (k : Key) : Table :=
  let keys := k :: t.pairs.map (·.1)
  let indices := keys.filterMap rowIndex?
  let size := rowSize indices
  t.resized size (keys.length - (indices.filter (· ≤ size)).length)

/-- Whether a key is of the row and beyond the edge. -/
def isBeyond (t : Table) (k : Key) : Bool :=
  match t.place? k with
  | some i => t.edge ≤ i
  | none => false

/-- A look at a key of the row beyond the edge moves the edge there. -/
def reach (t : Table) (k : Key) : Table :=
  match t.place? k with
  | some i => if t.edge ≤ i then { t with edge := i + 1 } else t
  | none => t

/-- Sets the value of a key. A key without a value is not added for `nil`. -/
def set (t : Table) (k : Key) (v : Value) : Table :=
  match t.place? k with
  | some i => { t with row := t.row.setIfInBounds i v, edge := max t.edge (i + 1) }
  | none =>
    match t.slot? k with
    | some i => { t with slots := t.slots.setIfInBounds i ⟨some k, v⟩ }
    | none =>
      if v.isNil then t
      else
        match t.add? k v with
        | some t => t
        | none => (t.grow k).put k v

/-- Puts values in the places after the first `start`. The row reaches as far as the values at least. -/
def fill (t : Table) (start : Nat) (values : List Value) : Table :=
  let last := start + values.length
  let t := if t.row.size < last then t.resized last t.slots.size else t
  { t with row := (values.zipIdx start).foldl (fun r (v, i) => r.setIfInBounds i v) t.row }

/-! ### Length -/

/-- Between `low` and `high`, where there is an item at `low` or it is zero and there is none at `high`,
the last number of a run that has items, found by halving; `fuel` bounds the halvings. -/
def between (t : Table) : Nat → Nat → Nat → Nat
  | 0, low, _ => low
  | fuel + 1, low, high =>
    if high ≤ low + 1 then low
    else
      let middle := (low + high) / 2
      if (t.item middle).isNil then between t fuel low middle else between t fuel middle high

/-- Doubles `n`, which has an item, until there is none, and halves from there. The greatest integer is
tried last. -/
def beyond (t : Table) : Nat → Nat → Nat
  | 0, n => n
  | fuel + 1, n =>
    let greatest := greatestInteger.toNat
    if n ≤ greatest / 2 then
      if (t.item (2 * n)).isNil then between t 64 n (2 * n) else beyond t fuel (2 * n)
    else if (t.item greatest).isNil then between t 64 n greatest
    else greatest

/-- A number `n` such that there is an item at `n`, or `n` is zero, and none at `n + 1`; in a table with
gaps there are several. The search starts at the edge. With it, the new edge. -/
def border (t : Table) : Nat × Nat :=
  let size := t.row.size
  if 0 < t.edge ∧ (t.item t.edge).isNil then
    let n :=
      if 2 ≤ t.edge ∧ !(t.item (t.edge - 1)).isNil then t.edge - 1 else t.between 64 0 t.edge
    (n, if size = roomFor size ∧ size / 2 < n then n else t.edge)
  else if t.edge < size ∧ (t.item (t.edge + 1)).isNil then (t.edge, t.edge)
  else if t.edge < size ∧ (t.item size).isNil then
    let n := t.between 64 t.edge size
    (n, n)
  else if t.slots.isEmpty || (t.item (size + 1)).isNil then (size, t.edge)
  else (t.beyond 64 (max 1 size), t.edge)

def length (t : Table) : Nat := t.border.1

/-- The table after its length was asked for. -/
def measured (t : Table) : Table := { t with edge := t.border.2 }

end Table

end Provisioning.Config
