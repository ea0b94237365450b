import RoadAudit.IdTable.Basic

/-! # Id table files

A file is four letters, a layout byte, the number of words in four bytes and the words in eight
bytes each, all with the most significant byte first. -/

namespace RoadAudit

namespace IdTable

def magic : List UInt8 := [0x54, 0x49, 0x44, 0x53]

def layoutByte : IdLayout → UInt8
  | .nodes => 0
  | .ways => 1

def layoutOf? (b : UInt8) : Option IdLayout :=
  if b = 0 then some .nodes else if b = 1 then some .ways else none

theorem layoutOf?_layoutByte (l : IdLayout) : layoutOf? (layoutByte l) = some l := by
  cases l <;> rfl

def encode (t : IdTable) : List UInt8 :=
  magic ++ layoutByte t.layout :: bigEndian 4 t.size
    ++ t.words.toList.flatMap fun w => bigEndian 8 w.toNat

/-- The words in bytes taken eight by eight; a rest of fewer is left out. -/
def wordsOf : List UInt8 → List UInt64
  | a :: b :: c :: d :: e :: f :: g :: h :: rest =>
    UInt64.ofNat (ofBigEndian [a, b, c, d, e, f, g, h]) :: wordsOf rest
  | _ => []

/-- The table in a file. The letters and the layout are judged before it is known whether the
header is complete. -/
def decode (bytes : List UInt8) : Except IdTableError IdTable :=
  match takeBytes? 4 bytes with
  | none => .error .unexpectedEnd
  | some (start, bytes) =>
    if start ≠ magic then .error .badMagic
    else
      match bytes with
      | [] => .error .unexpectedEnd
      | b :: bytes =>
        match layoutOf? b with
        | none => .error .unknownLayout
        | some layout =>
          match takeBytes? 4 bytes with
          | none => .error .unexpectedEnd
          | some (count, body) =>
            if body.length ≠ 8 * ofBigEndian count then .error .wrongEntryCount
            else .ok ⟨layout, (wordsOf body).toArray⟩

end IdTable

end RoadAudit
