/-! # Digits

Writing and reading of numbers in a base up to sixteen.
-/
namespace NoteFormula.Text

def isDigit (c : Char) : Bool := '0' ≤ c && c ≤ '9'

theorem isDigit_iff {c : Char} : isDigit c = true ↔ 48 ≤ c.toNat ∧ c.toNat ≤ 57 := by
  simp only [isDigit, Bool.and_eq_true, decide_eq_true_eq]
  rfl

def decimalDigits (n : Nat) : List Char := Nat.toDigits 10 n

/-- The number that decimal digits spell, most significant first. -/
def ofDigits (cs : List Char) : Nat := Nat.ofDigitChars 10 cs 0

def decimalInt (n : Int) : List Char :=
  if n < 0 then '-' :: decimalDigits n.natAbs else decimalDigits n.natAbs

def padLeft (width : Nat) (cs : List Char) : List Char := List.replicate (width - cs.length) '0' ++ cs

/-- Lower-case hexadecimal, at least `width` digits. -/
def hex (width n : Nat) : List Char := padLeft width (Nat.toDigits 16 n)

def digitValue? (c : Char) : Option Nat :=
  if '0' ≤ c && c ≤ '9' then some (c.toNat - '0'.toNat)
  else if 'a' ≤ c && c ≤ 'f' then some (c.toNat - 'a'.toNat + 10)
  else if 'A' ≤ c && c ≤ 'F' then some (c.toNat - 'A'.toNat + 10)
  else none

def isHexDigit (c : Char) : Bool := (digitValue? c).isSome

/-- The number that digits of `base` spell; characters that are no digits count nothing. -/
def ofBase (base : Nat) (cs : List Char) : Nat :=
  cs.foldl (fun n c => n * base + (digitValue? c).getD 0) 0

end NoteFormula.Text
