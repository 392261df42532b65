/-
Literals in print: between double quotes, with a backslash before a quote or a backslash, short
escapes for the common controls, and the code point in hexadecimal for every other character that
is not shown as it is.  An apostrophe needs no escape between double quotes.
-/
import ObjectMarkup.Text.Shown

namespace ObjectMarkup
namespace Text

def codePoint (c : Char) : List Char :=
  ['\\', 'u', '{'] ++ Nat.toDigits 16 c.toNat ++ ['}']

/-- How one character stands between the quotes. -/
def escapeChar (c : Char) : List Char :=
  if c == '"' || c == '\\' then ['\\', c]
  else if c == '\n' then ['\\', 'n']
  else if c == '\t' then ['\\', 't']
  else if c == '\r' then ['\\', 'r']
  else if c == '\x00' then ['\\', '0']
  else if isShown c then [c]
  else codePoint c

def quote (s : String) : String :=
  String.ofList ('"' :: (s.toList.flatMap escapeChar ++ ['"']))

end Text
end ObjectMarkup
