/-
Reading a binary floating-point number from decimal text: an optional sign, then `inf`, `infinity`
or `nan` in any case of letters, or digits with at most one point and an optional exponent.  At
least one digit has to stand before the exponent, on either side of the point.
-/
namespace ObjectMarkup

/-- Why a text is no floating-point number. -/
inductive FloatFault where
  | empty
  | invalid
deriving DecidableEq, Repr

def FloatFault.message : FloatFault → String
  | .empty => "cannot parse float from empty string"
  | .invalid => "invalid float literal"

/-- The number `digits * 10 ^ exponent`. -/
structure Decimal where
  digits : Nat
  exponent : Int
deriving DecidableEq, Repr

namespace Decimal

/-- The nearest double.  Numbers that round to infinity or to zero whatever their digits are
answered from their size alone, so that no huge power of ten is computed. -/
def toFloat (d : Decimal) : Float :=
  let size : Int := (Nat.toDigits 10 d.digits).length + d.exponent
  if d.digits == 0 then 0.0
  else if 311 ≤ size then 1.0 / 0.0
  else if size ≤ -330 then 0.0
  else Float.ofScientific d.digits (d.exponent < 0) d.exponent.natAbs

def natOfDigits (cs : List Char) : Nat :=
  cs.foldl (fun n c => n * 10 + (c.toNat - 48)) 0

/-- Reads an exponent after its letter: an optional sign and at least one digit. -/
def readExponent (cs : List Char) : Option Int :=
  let (negative, ds) := match cs with
    | '+' :: r => (false, r)
    | '-' :: r => (true, r)
    | r => (false, r)
  if ds.isEmpty || !ds.all Char.isDigit then none
  else
    let n : Int := natOfDigits ds
    some (if negative then -n else n)

/-- Reads digits, a point among them or none, and an exponent. -/
def read? (cs : List Char) : Option Decimal :=
  let whole := cs.takeWhile Char.isDigit
  let rest := cs.dropWhile Char.isDigit
  let (fraction, rest) := match rest with
    | '.' :: r => (r.takeWhile Char.isDigit, r.dropWhile Char.isDigit)
    | r => ([], r)
  let number (e : Int) : Decimal := ⟨natOfDigits (whole ++ fraction), e - fraction.length⟩
  if whole.isEmpty && fraction.isEmpty then none
  else match rest with
    | [] => some (number 0)
    | c :: r => if c == 'e' || c == 'E' then (readExponent r).map number else none

/-- Reads the magnitude of a number: digits or a name. -/
def readMagnitude? (cs : List Char) : Option Float :=
  match read? cs with
  | some d => some d.toFloat
  | none =>
    match String.ofList (cs.map Char.toLower) with
    | "inf" | "infinity" => some (1.0 / 0.0)
    | "nan" => some (0.0 / 0.0)
    | _ => none

end Decimal

/-- Reads a floating-point number, rounded to the nearest double. -/
def readFloat (s : String) : Except FloatFault Float :=
  let magnitude (cs : List Char) : Except FloatFault Float :=
    match Decimal.readMagnitude? cs with
    | some x => .ok x
    | none => .error .invalid
  match s.toList with
  | [] => .error .empty
  | '+' :: cs => magnitude cs
  | '-' :: cs => (magnitude cs).map (- ·)
  | cs => magnitude cs

end ObjectMarkup
