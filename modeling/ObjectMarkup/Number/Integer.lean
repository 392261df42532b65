/-
Reading a whole number in decimal.  A fault is decided from left to right: a character that is no
digit is reported where it stands, and a number that leaves its range is reported at the digit that
takes it out, also when something worse comes later.
-/
namespace ObjectMarkup

/-- Why a text is no number of a given range. -/
inductive IntegerFault where
  | empty
  | invalidDigit
  | tooLarge
  | tooSmall
deriving DecidableEq, Repr

def IntegerFault.message : IntegerFault → String
  | .empty => "cannot parse integer from empty string"
  | .invalidDigit => "invalid digit found in string"
  | .tooLarge => "number too large to fit in target type"
  | .tooSmall => "number too small to fit in target type"

/-- The numbers from `least` to `greatest`.  A minus sign is read only when `least` is negative. -/
structure IntegerRange where
  least : Int
  greatest : Int
deriving DecidableEq, Repr

namespace IntegerRange

/-- The 64-bit two's complement numbers. -/
def signed64 : IntegerRange := ⟨-9223372036854775808, 9223372036854775807⟩

/-- The 64-bit words. -/
def unsigned64 : IntegerRange := ⟨0, 18446744073709551615⟩

/-- The value of a decimal digit. -/
def digitValue (c : Char) : Int := c.toNat - 48

/-- Reads digits onto `acc`, away from zero in the direction of the sign. -/
def readDigits (range : IntegerRange) (negative : Bool) : Int → List Char → Except IntegerFault Int
  | acc, [] => .ok acc
  | acc, c :: cs =>
    if c.isDigit then
      let next := if negative then acc * 10 - digitValue c else acc * 10 + digitValue c
      if range.greatest < next then .error .tooLarge
      else if next < range.least then .error .tooSmall
      else readDigits range negative next cs
    else .error .invalidDigit

/-- Reads an optional sign and at least one digit, and nothing around them. -/
def read (range : IntegerRange) (s : String) : Except IntegerFault Int :=
  match s.toList with
  | [] => .error .empty
  | '+' :: cs => if cs.isEmpty then .error .invalidDigit else readDigits range false 0 cs
  | '-' :: cs =>
    if cs.isEmpty || 0 ≤ range.least then .error .invalidDigit else readDigits range true 0 cs
  | cs => readDigits range false 0 cs

end IntegerRange
end ObjectMarkup
