/-! # Words

Whole numbers in words of 32 and 64 bits, and the powers that numbers are scaled by. -/

namespace RoadAudit

def twoPow (n : Nat) : Nat := Nat.pow 2 n

def tenPow (n : Nat) : Nat := Nat.pow 10 n

namespace Word

def size32 : Nat := 4294967296

def size64 : Nat := 18446744073709551616

def least : Int := -2147483648

def greatest : Int := 2147483647

def isSigned (n : Int) : Bool := least ≤ n && n ≤ greatest

/-- A number that has 32 bits with a sign; for any other one the error. -/
def checked {ε : Type} (error : ε) (n : Int) : Except ε Int :=
  if isSigned n then .ok n else .error error

def cut (n : Int) : Int := min (max n least) greatest

def toBits (n : Int) : Nat := (n % size32).toNat

def ofBits (n : Nat) : Int := if n ≤ greatest.toNat then n else (n : Int) - size32

end Word

end RoadAudit
