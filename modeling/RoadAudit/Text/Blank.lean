/-! # Blanks

The characters with the Unicode property White_Space, and texts without those at their ends. -/

namespace RoadAudit

def blankCodes : List Nat :=
  [0x9, 0xA, 0xB, 0xC, 0xD, 0x20, 0x85, 0xA0, 0x1680, 0x2000, 0x2001, 0x2002, 0x2003, 0x2004,
    0x2005, 0x2006, 0x2007, 0x2008, 0x2009, 0x200A, 0x2028, 0x2029, 0x202F, 0x205F, 0x3000]

def isBlank (c : Char) : Bool := blankCodes.contains c.toNat

theorem isBlank_of_isWhitespace {c : Char} (h : c.isWhitespace) : isBlank c := by
  simp only [Char.isWhitespace, Bool.or_eq_true, decide_eq_true_eq] at h
  rcases h with ((rfl | rfl) | rfl) | rfl <;> decide

/-- The characters with the property Pattern_White_Space, which never changes and so suits the
blanks of a notation. -/
def isPatternBlank (c : Char) : Bool :=
  [0x9, 0xA, 0xB, 0xC, 0xD, 0x20, 0x85, 0x200E, 0x200F, 0x2028, 0x2029].contains c.toNat

def trimBlanks (cs : List Char) : List Char :=
  ((cs.dropWhile isBlank).reverse.dropWhile isBlank).reverse

/-- The parts of a text between the occurrences of a separator; there is always at least one. -/
def partsAt (separator : Char) : List Char → List (List Char)
  | [] => [[]]
  | c :: rest =>
    if c = separator then [] :: partsAt separator rest
    else
      match partsAt separator rest with
      | part :: parts => (c :: part) :: parts
      | [] => [[c]]

theorem partsAt_ne_nil (separator : Char) (cs : List Char) : partsAt separator cs ≠ [] := by
  cases cs with
  | nil => simp [partsAt]
  | cons c rest =>
    simp only [partsAt]
    split
    · simp
    · split <;> simp

end RoadAudit
