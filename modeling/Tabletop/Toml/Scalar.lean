import Tabletop.Numeral
import Tabletop.Toml.Token

/-!
The single values that a document can write without brackets. Numbers keep as much as a reader of
integers can ask for: an integer its value, a float whether a double can hold it. An integer is told
by its outline alone; that its digits make no number comes to light only when it is asked for.
-/

namespace Tabletop.Toml

inductive Scalar where
  | text (s : String)
  | integer (value? : Option Int)
  | float (finite : Bool)
  | boolean (b : Bool)
  | dateTime
  deriving DecidableEq

/-- The value of digits in a base up to sixteen. -/
def ofDigits (base : Nat) (cs : List Char) : Nat :=
  cs.foldl (fun n c => n * base + (hexValue? c).getD 0) 0

/-- Digits of a base below or equal to sixteen. -/
def isDigitOf (base : Nat) (c : Char) : Bool :=
  (hexValue? c).any (· < base)

/-- Whether each underscore has a digit on both sides, in a text that comes after a digit or not. -/
def isGroupedAfter (isDigit : Char → Bool) (digit : Bool) : List Char → Bool
  | [] => true
  | ['_'] => false
  | '_' :: c :: cs => digit && isDigit c && isGroupedAfter isDigit true cs
  | c :: cs => isGroupedAfter isDigit (isDigit c) cs

/-- Whether each underscore has a digit on both sides. -/
def isGrouped (isDigit : Char → Bool) (cs : List Char) : Bool :=
  isGroupedAfter isDigit false cs

/-- The digits of a number, at least one; underscores do not count. -/
def digits? (isDigit : Char → Bool) (cs : List Char) : Option (List Char) :=
  some (cs.filter (· != '_')) |>.filter fun ds => !ds.isEmpty && ds.all isDigit

def natural? (base : Nat) (cs : List Char) : Option Int :=
  (digits? (isDigitOf base) cs).map fun ds => (ofDigits base ds : Int)

/-- A text without its sign. -/
def unsigned : List Char → List Char
  | '-' :: cs => cs
  | '+' :: cs => cs
  | cs => cs

/-- Whether a decimal number starts with no needless zero. -/
def startsPlainly (cs : List Char) : Bool :=
  cs.head? != some '0' || cs.length == 1

/-- The integer after `0x`, `0o` or `0b`. Its digits may be missing. -/
def Scalar.ofBase? (base : Nat) (cs : List Char) : Option Scalar :=
  if cs.all (fun c => c == '_' || isDigitOf base c) && isGrouped (isDigitOf base) cs then
    some (.integer (natural? base cs))
  else none

/-- A decimal integer. Behind its first underscore anything without a space may follow, as long as
each underscore stands between hexadecimal digits. -/
def Scalar.ofDecimal? (cs : List Char) : Option Scalar :=
  let body := unsigned cs
  let tail := body.dropWhile Char.isDigit
  if !body.isEmpty && startsPlainly body && (tail.isEmpty || tail.head? == some '_')
      && !tail.contains ' ' && isGrouped (isDigitOf 16) body then
    some <| .integer <| (natural? 10 body).map fun n => if cs.head? = some '-' then -n else n
  else none

/-- Whether the decimal number with these digits and this exponent rounds to a finite double: it
does below the middle between the largest double and the next power of two. -/
def isFinite (ds : List Char) (exponent : Int) : Bool :=
  let ds := ds.dropWhile (· == '0')
  let size : Int := ds.length + exponent
  let bound := Nat.pow 2 1024 - Nat.pow 2 970
  ds.isEmpty || size ≤ 308 ||
    (size ≤ 309 &&
      ofDigits 10 ds * Nat.pow 10 exponent.toNat < bound * Nat.pow 10 (-exponent).toNat)

/-- The exponent after its letter; a missing one is zero. -/
def exponent? : List Char → Option Int
  | [] => some 0
  | _ :: '-' :: cs => (digits? Char.isDigit cs).map fun ds => -(ofDigits 10 ds : Int)
  | _ :: '+' :: cs => (digits? Char.isDigit cs).map fun ds => (ofDigits 10 ds : Int)
  | _ :: cs => (digits? Char.isDigit cs).map fun ds => (ofDigits 10 ds : Int)

/-- The digits after a decimal point; without a point there are none. -/
def fraction? : List Char → Option (List Char)
  | [] => some []
  | _ :: cs => digits? Char.isDigit cs

/-- The character that announces an exponent. -/
def isExponent (c : Char) : Bool :=
  c == 'e' || c == 'E'

/-- A float with a fraction, an exponent or both. -/
def Scalar.ofFloat? (cs : List Char) : Option Scalar := do
  let body := unsigned cs
  let mantissa := body.takeWhile (!isExponent ·)
  let whole := mantissa.takeWhile (· != '.')
  let digits ← digits? Char.isDigit whole
  let fraction ← fraction? (mantissa.dropWhile (· != '.'))
  let exponent ← exponent? (body.dropWhile (!isExponent ·))
  if startsPlainly whole && isGrouped Char.isDigit body then
    return .float (isFinite (digits ++ fraction) (exponent - fraction.length))
  else none

/-! ### Dates and times -/

/-- The value of exactly `width` decimal digits. -/
def field? (width : Nat) (cs : List Char) : Option Nat :=
  if cs.length = width ∧ cs.all Char.isDigit then some (ofDigits 10 cs) else none

/-- A field of two digits within bounds. -/
def isField (lo hi : Nat) (cs : List Char) : Bool :=
  (field? 2 cs).any fun n => lo ≤ n && n ≤ hi

def isLeap (year : Nat) : Bool :=
  year % 4 == 0 && (year % 100 != 0 || year % 400 == 0)

def daysIn (year month : Nat) : Nat :=
  if month = 2 then if isLeap year then 29 else 28
  else if month ∈ [4, 6, 9, 11] then 30
  else 31

/-- A day of the calendar, `YYYY-MM-DD`. -/
def isDate (cs : List Char) : Bool :=
  match cs.splitOn '-' with
  | [year, month, day] =>
    match field? 4 year, field? 2 month with
    | some y, some m => 1 ≤ m && m ≤ 12 && isField 1 (daysIn y m) day
    | _, _ => false
  | _ => false

/-- The seconds of a time with any number of places. -/
def isSecond (cs : List Char) : Bool :=
  match cs.splitOn '.' with
  | [second] => isField 0 60 second
  | [second, places] => isField 0 60 second && !places.isEmpty && places.all Char.isDigit
  | _ => false

/-- A time of day, `HH:MM` or `HH:MM:SS`. -/
def isTime (cs : List Char) : Bool :=
  match cs.splitOn ':' with
  | [hour, minute] => isField 0 23 hour && isField 0 59 minute
  | [hour, minute, second] => isField 0 23 hour && isField 0 59 minute && isSecond second
  | _ => false

/-- The distance from universal time: none, `Z`, or signed hours and minutes. -/
def isOffset : List Char → Bool
  | [] => true
  | ['Z'] => true
  | ['z'] => true
  | c :: cs =>
    (c == '+' || c == '-') &&
      match cs.splitOn ':' with
      | [hour, minute] => isField 0 23 hour && isField 0 59 minute
      | _ => false

/-- A date, a time, or a date and a time with an optional offset. -/
def isDateTime (cs : List Char) : Bool :=
  let startsOffset : Char → Bool := fun c => c ∈ ['Z', 'z', '+', '-']
  isTime cs ||
    isDate (cs.take 10) &&
      match cs.drop 10 with
      | [] => true
      | c :: rest =>
        c ∈ ['T', 't', ' '] && isTime (rest.takeWhile (!startsOffset ·)) &&
          isOffset (rest.dropWhile (!startsOffset ·))

/-- A number: without a sign it can be in a base; else it is a float if it is spelled out or has a
point or an exponent, and an integer if not. -/
def Scalar.ofNumber? : List Char → Option Scalar
  | '0' :: 'x' :: cs => ofBase? 16 cs
  | '0' :: 'o' :: cs => ofBase? 8 cs
  | '0' :: 'b' :: cs => ofBase? 2 cs
  | cs =>
    if unsigned cs = "inf".toList ∨ unsigned cs = "nan".toList then some (.float true)
    else if (unsigned cs).any fun c => c == '.' || isExponent c then ofFloat? cs
    else ofDecimal? cs

/-- The value written as a bare text. -/
def Scalar.ofBare? (cs : List Char) : Option Scalar :=
  if cs = "true".toList then some (.boolean true)
  else if cs = "false".toList then some (.boolean false)
  else if isDateTime cs then some .dateTime
  else ofNumber? cs

/-- The integers that 128 bits hold with a sign or without. -/
def wideIntegers : Interval :=
  ⟨-170141183460469231731687303715884105728, 340282366920938463463374607431768211455⟩

/-- A value that every reader can be given: an integer that 128 bits hold, and a float that a double
can hold. -/
def Scalar.isRepresentable : Scalar → Bool
  | integer value? => value?.any (· ∈ wideIntegers)
  | float finite => finite
  | _ => true

end Tabletop.Toml
