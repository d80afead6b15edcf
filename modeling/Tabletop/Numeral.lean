/-!
Signed decimal numerals read against a range of integers. A numeral is read from the left; the
first character that is no digit makes it malformed, and the first digit that takes the value out
of the range ends the reading at once, whatever follows.
-/

namespace Tabletop

/-- A range of integers, both ends included. -/
structure Interval where
  lo : Int
  hi : Int

instance : Membership Int Interval where
  mem i n := i.lo ≤ n ∧ n ≤ i.hi

instance (n : Int) (i : Interval) : Decidable (n ∈ i) :=
  inferInstanceAs (Decidable (i.lo ≤ n ∧ n ≤ i.hi))

theorem Interval.mem_iff {n : Int} {i : Interval} : n ∈ i ↔ i.lo ≤ n ∧ n ≤ i.hi :=
  Iff.rfl

/-- The values of a signed 32-bit integer. -/
def Interval.signed32 : Interval := ⟨-2147483648, 2147483647⟩

/-- The values of a signed 64-bit integer. -/
def Interval.signed64 : Interval := ⟨-9223372036854775808, 9223372036854775807⟩

namespace Numeral

/-- What a numeral says about a range: a value in it, a value beyond one of its ends, or nothing. -/
inductive Scan where
  | value (n : Int)
  | beyond (negative : Bool)
  | malformed
  deriving DecidableEq

/-- The value of an ASCII decimal digit. -/
def digit? (c : Char) : Option Nat :=
  if c.isDigit then some (c.toNat - '0'.toNat) else none

/-- Appends a decimal digit to a value, away from zero on the side of its sign. -/
def extend (negative : Bool) (n : Int) (d : Nat) : Int :=
  if negative then n * 10 - d else n * 10 + d

/-- Reads digits after a value that is already in the range. -/
def scanDigits (i : Interval) (negative : Bool) (n : Int) : List Char → Scan
  | [] => .value n
  | c :: cs =>
    match digit? c with
    | none => .malformed
    | some d =>
      if extend negative n d ∈ i then scanDigits i negative (extend negative n d) cs
      else .beyond negative

/-- Reads an optional sign and at least one digit. -/
def scan (i : Interval) : List Char → Scan
  | [] => .malformed
  | '-' :: c :: cs => scanDigits i true 0 (c :: cs)
  | '+' :: c :: cs => scanDigits i false 0 (c :: cs)
  | c :: cs => scanDigits i false 0 (c :: cs)

/-- The value of a text that is a numeral within the range. -/
def read? (i : Interval) (s : String) : Option Int :=
  match scan i s.toList with
  | .value n => some n
  | _ => none

end Numeral

end Tabletop
