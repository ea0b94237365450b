import RoadAudit.Numeric.BigEndian
import RoadAudit.Numeric.Word

/-! # The wire format

Protocol Buffers messages as lists of numbered fields. A field is a key, which joins its number
and its kind, and a value; whole numbers are written in base 128 with the least digit first. Groups
are an old kind of value that is only ever skipped. -/

namespace RoadAudit

/-- The value of a field, by its kind. -/
inductive WireValue where
  | varint (n : Nat)
  /-- Eight bytes as a number, the least byte first. -/
  | fixed64 (n : Nat)
  | delimited (bytes : List UInt8)
  | fixed32 (n : Nat)
  | group
deriving DecidableEq, Repr

abbrev WireField := Nat × WireValue

namespace Wire

/-- A number in base 128, each byte but the last marked. -/
def putVarint (n : Nat) : List UInt8 :=
  if n < 128 then [UInt8.ofNat n] else UInt8.ofNat (n % 128 + 128) :: putVarint (n / 128)

/-- A number of at most `count` bytes; when only one byte is left it may carry just one bit, so
that ten bytes make 64 bits. -/
def takeVarint : (count : Nat) → List UInt8 → Option (Nat × List UInt8)
  | 0, _ => none
  | _ + 1, [] => none
  | count + 1, b :: rest =>
    if b.toNat < 128 then
      if count = 0 ∧ 1 < b.toNat then none else some (b.toNat, rest)
    else (takeVarint count rest).map fun (n, rest) => (b.toNat - 128 + 128 * n, rest)

/-- A number of up to 64 bits, and what follows it. -/
def varint? (bytes : List UInt8) : Option (Nat × List UInt8) := takeVarint 10 bytes

def fixed? (width : Nat) (bytes : List UInt8) : Option (Nat × List UInt8) :=
  (takeBytes? width bytes).map fun (bs, rest) => (ofBigEndian bs.reverse, rest)

def putFixed (width n : Nat) : List UInt8 := (bigEndian width n).reverse

def delimited? (bytes : List UInt8) : Option (List UInt8 × List UInt8) := do
  let (n, rest) ← varint? bytes
  takeBytes? n rest

/-- The number and the kind in a key of at most 32 bits; there is no field zero. -/
def key? (bytes : List UInt8) : Option (Nat × Nat × List UInt8) := do
  let (k, rest) ← varint? bytes
  if k < Word.size32 ∧ 8 ≤ k then some (k / 8, k % 8, rest) else none

def plain? (kind : Nat) (bytes : List UInt8) : Option (WireValue × List UInt8) :=
  match kind with
  | 0 => (varint? bytes).map fun (n, rest) => (.varint n, rest)
  | 1 => (fixed? 8 bytes).map fun (n, rest) => (.fixed64 n, rest)
  | 2 => (delimited? bytes).map fun (bs, rest) => (.delimited bs, rest)
  | 5 => (fixed? 4 bytes).map fun (n, rest) => (.fixed32 n, rest)
  | _ => none

/-- What follows the end of the group `number`, inside which groups may be nested `depth` deep.
Every step takes at least one byte. -/
def afterGroup? : (fuel depth number : Nat) → List UInt8 → Option (List UInt8)
  | 0, _, _, _ => none
  | fuel + 1, depth, number, bytes => do
    let (inner, kind, rest) ← key? bytes
    if kind = 4 then
      if inner = number then some rest else none
    else if depth = 0 then none
    else if kind = 3 then
      let rest ← afterGroup? fuel (depth - 1) inner rest
      afterGroup? fuel depth number rest
    else
      let (_, rest) ← plain? kind rest
      afterGroup? fuel depth number rest

def field? (depth : Nat) (bytes : List UInt8) : Option (WireField × List UInt8) := do
  let (number, kind, rest) ← key? bytes
  if kind = 3 then
    let rest ← afterGroup? rest.length depth number rest
    some ((number, .group), rest)
  else
    let (v, rest) ← plain? kind rest
    some ((number, v), rest)

/-- The fields of a message, at most `fuel` of them. -/
def fieldsWithin? : (fuel depth : Nat) → List UInt8 → Option (List WireField)
  | 0, _, bytes => if bytes.isEmpty then some [] else none
  | fuel + 1, depth, bytes =>
    if bytes.isEmpty then some []
    else do
      let (f, rest) ← field? depth bytes
      (fieldsWithin? fuel depth rest).map (f :: ·)

def fields? (depth : Nat) (bytes : List UInt8) : Option (List WireField) :=
  fieldsWithin? bytes.length depth bytes

def putField : WireField → List UInt8
  | (number, .varint n) => putVarint (8 * number) ++ putVarint n
  | (number, .fixed64 n) => putVarint (8 * number + 1) ++ putFixed 8 n
  | (number, .delimited bytes) => putVarint (8 * number + 2) ++ putVarint bytes.length ++ bytes
  | (number, .fixed32 n) => putVarint (8 * number + 5) ++ putFixed 4 n
  | (number, .group) => putVarint (8 * number + 3) ++ putVarint (8 * number + 4)

def putFields (fields : List WireField) : List UInt8 := fields.flatMap putField

end Wire

end RoadAudit
