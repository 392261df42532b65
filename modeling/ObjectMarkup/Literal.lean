/-
From literals to values.  White space around a number, a truth value or the name of a type does not
count; a string keeps all of it.  A failure shows the literal as it was written.
-/
import ObjectMarkup.Error
import ObjectMarkup.Number.Decimal
import ObjectMarkup.Number.Integer
import ObjectMarkup.Text.Blank

namespace ObjectMarkup
namespace Literal

/-- Reads a truth value in any case of letters. -/
def readBool? (s : String) : Option Bool :=
  match Text.lowerAscii (Text.trim s) with
  | "true" => some true
  | "false" => some false
  | _ => none

/-- The value of a literal for a value type, or why it has none. -/
def read (target : ValueType) (literal : String) : Except String Value :=
  match target with
  | .any | .string => .ok (.str literal)
  | .integer =>
    match IntegerRange.signed64.read (Text.trim literal) with
    | .ok n => .ok (.int n)
    | .error fault => .error fault.message
  | .float =>
    match readFloat (Text.trim literal) with
    | .ok x => .ok (.float x)
    | .error fault => .error fault.message
  | .boolean =>
    match readBool? literal with
    | some b => .ok (.bool b)
    | none => .error "expected 'true' or 'false'"
  | .type =>
    if Text.allBlank literal then .error "empty type name"
    else .ok (.type (Text.trim literal))

/-- The failure of a literal of a member. -/
def failure (m : Member) (literal reason : String) : ConversionError :=
  { literal, target := m.valueType, member := m.qualifiedName, reason }

/-- Converts a literal to the value type of its member. -/
def convert (m : Member) (literal : String) : Except ConversionError Value :=
  match read m.valueType literal with
  | .ok v => .ok v
  | .error reason => .error (failure m literal reason)

end Literal
end ObjectMarkup
