/-
The words of TOML: white space and comments, keys, strings, numbers and moments in time.  A reader
answers the value it has read and what follows it, or `none` where the text is no TOML.
-/
import ObjectMarkup.Number.Decimal
import ObjectMarkup.Number.Integer
import ObjectMarkup.Toml.Value

namespace ObjectMarkup
namespace Toml

/-- A reader takes something off the front of the text. -/
abbrev Reader (α : Type) := List Char → Option (α × List Char)

/-! ## Blanks and comments -/

def isSpace (c : Char) : Bool := c == ' ' || c == '\t'

def skipSpace (cs : List Char) : List Char := cs.dropWhile isSpace

/-- Takes a line break off the front. -/
def newline? : List Char → Option (List Char)
  | '\n' :: cs => some cs
  | '\r' :: '\n' :: cs => some cs
  | _ => none

/-- A character that may stand as it is in a comment or a string: no controls of ASCII but the
tab. -/
def isPlain (c : Char) : Bool := c == '\t' || (0x20 ≤ c.toNat && c.toNat != 0x7f)

/-- Takes the comment off the front, if there is one. -/
def skipComment : List Char → List Char
  | '#' :: cs => cs.dropWhile isPlain
  | cs => cs

/-- The rest of a line behind its contents: space and a comment, up to a line break or the end. -/
def lineEnd? (cs : List Char) : Option (List Char) :=
  match skipComment (skipSpace cs) with
  | [] => some []
  | cs => newline? cs

/-- Takes space, comments and line breaks off the front, at most `fuel` lines of them. -/
def skipLines : Nat → List Char → List Char
  | 0, cs => cs
  | fuel + 1, cs =>
    let cs := skipComment (skipSpace cs)
    match newline? cs with
    | some cs => skipLines fuel cs
    | none => cs

/-- Takes space and line breaks off the front. -/
def skipBreaks : List Char → List Char
  | '\n' :: cs => skipBreaks cs
  | '\r' :: '\n' :: cs => skipBreaks cs
  | c :: cs => if isSpace c then skipBreaks cs else c :: cs
  | [] => []

/-! ## Strings -/

def hexValue? (c : Char) : Option Nat :=
  let n := c.toNat
  if '0'.toNat ≤ n && n ≤ '9'.toNat then some (n - '0'.toNat)
  else if 'a'.toNat ≤ n && n ≤ 'f'.toNat then some (n - 'a'.toNat + 10)
  else if 'A'.toNat ≤ n && n ≤ 'F'.toNat then some (n - 'A'.toNat + 10)
  else none

def hexNumber? : Nat → List Char → Option Nat
  | acc, [] => some acc
  | acc, c :: cs => (hexValue? c).bind fun d => hexNumber? (acc * 16 + d) cs

/-- The character of a code point in hexadecimal digits. -/
def codePoint? (digits : List Char) : Option Char := do
  let n ← hexNumber? 0 digits
  if n.isValidChar then some (Char.ofNat n) else none

/-- Reads what follows a backslash. -/
def escape? : Reader Char
  | 'b' :: cs => some ('\x08', cs)
  | 't' :: cs => some ('\t', cs)
  | 'n' :: cs => some ('\n', cs)
  | 'f' :: cs => some ('\x0c', cs)
  | 'r' :: cs => some ('\r', cs)
  | '"' :: cs => some ('"', cs)
  | '\\' :: cs => some ('\\', cs)
  | 'u' :: a :: b :: c :: d :: cs => (codePoint? [a, b, c, d]).map (·, cs)
  | 'U' :: a :: b :: c :: d :: e :: f :: g :: h :: cs =>
    (codePoint? [a, b, c, d, e, f, g, h]).map (·, cs)
  | _ => none

/-- How a string is delimited: by quotes, in which a backslash escapes, or by apostrophes, in which
nothing does; on one line or on several. -/
structure StringForm where
  delimiter : Char
  escapes : Bool
  isMultiline : Bool
deriving DecidableEq, Repr

/-- Reads a string behind its opening delimiter.  A string on several lines closes with three
delimiters; one or two more before them belong to it. -/
def stringBody (form : StringForm) : Nat → List Char → Reader String
  | 0, _, _ => none
  | _ + 1, _, [] => none
  | fuel + 1, acc, c :: cs =>
    if c == form.delimiter then
      if form.isMultiline then
        let run := 1 + (cs.takeWhile (· == c)).length
        let rest := cs.dropWhile (· == c)
        if run < 3 then stringBody form fuel (List.replicate run c ++ acc) rest
        else if run ≤ 5 then
          some (String.ofList (List.replicate (run - 3) c ++ acc).reverse, rest)
        else none
      else some (String.ofList acc.reverse, cs)
    else if c == '\\' && form.escapes then
      match if form.isMultiline then newline? (skipSpace cs) else none with
      | some rest => stringBody form fuel acc (skipBreaks rest)
      | none => do
        let (e, rest) ← escape? cs
        stringBody form fuel (e :: acc) rest
    else if isPlain c then stringBody form fuel (c :: acc) cs
    else if form.isMultiline then do
      let rest ← newline? (c :: cs)
      stringBody form fuel ('\n' :: acc) rest
    else none

/-- Reads a string on one line behind its opening delimiter. -/
def lineString (delimiter : Char) : Reader String := fun cs =>
  stringBody ⟨delimiter, delimiter == '"', false⟩ (cs.length + 1) [] cs

/-- Reads a string of either form.  A line break right after three delimiters is dropped. -/
def string? : Reader String
  | c :: cs =>
    if c == '"' || c == '\'' then
      match cs with
      | d :: e :: rest =>
        if d == c && e == c then
          let body := (newline? rest).getD rest
          stringBody ⟨c, c == '"', true⟩ (body.length + 1) [] body
        else lineString c cs
      | cs => lineString c cs
    else none
  | [] => none

/-! ## Keys -/

def isBareKeyChar (c : Char) : Bool := c.isAlphanum || c == '_' || c == '-'

def simpleKey? : Reader String
  | '"' :: cs => lineString '"' cs
  | '\'' :: cs => lineString '\'' cs
  | cs =>
    let word := cs.takeWhile isBareKeyChar
    if word.isEmpty then none else some (String.ofList word, cs.dropWhile isBareKeyChar)

/-- Reads a dotted key of at most `fuel` parts, the last part apart. -/
def dottedKey? : Nat → Reader (List String × String)
  | 0, _ => none
  | fuel + 1, cs => do
    let (key, cs) ← simpleKey? (skipSpace cs)
    match skipSpace cs with
    | '.' :: cs => do
      let ((path, last), cs) ← dottedKey? fuel cs
      return ((key :: path, last), cs)
    | cs => return (([], key), cs)

/-! ## Numbers and moments -/

/-- Digits with single underscores between them, the underscores taken out. -/
def digitsOf? (isDigit : Char → Bool) : List Char → Option (List Char)
  | [] => none
  | [c] => if isDigit c then some [c] else none
  | c :: '_' :: cs => if isDigit c then (digitsOf? isDigit cs).map (c :: ·) else none
  | c :: cs => if isDigit c then (digitsOf? isDigit cs).map (c :: ·) else none

/-- Decimal digits without a needless zero in front. -/
def wholeDigits? (cs : List Char) : Option (List Char) := do
  let ds ← digitsOf? Char.isDigit cs
  match ds with
  | '0' :: _ :: _ => none
  | ds => some ds

def splitSign : List Char → List Char × List Char
  | '+' :: cs => (['+'], cs)
  | '-' :: cs => (['-'], cs)
  | cs => ([], cs)

/-- A number of the range, in a base up to sixteen. -/
def inBase? (base : Nat) (cs : List Char) : Option Int := do
  let ds ← digitsOf? (fun c => (hexValue? c).any (· < base)) cs
  let n := ds.foldl (fun n c => n * base + (hexValue? c).getD 0) 0
  if (n : Int) ≤ IntegerRange.signed64.greatest then some n else none

def integer? (word : List Char) : Option Int :=
  match word with
  | '0' :: 'x' :: cs => inBase? 16 cs
  | '0' :: 'o' :: cs => inBase? 8 cs
  | '0' :: 'b' :: cs => inBase? 2 cs
  | word => do
    let (sign, cs) := splitSign word
    let ds ← wholeDigits? cs
    (IntegerRange.signed64.read (String.ofList (sign ++ ds))).toOption

def isExponentLetter (c : Char) : Bool := c == 'e' || c == 'E'

/-- The exponent of a float: its letter, a sign and digits. -/
def exponent? : List Char → Option (List Char)
  | c :: cs =>
    let (sign, cs) := splitSign cs
    if isExponentLetter c then (digitsOf? Char.isDigit cs).map fun ds => 'e' :: (sign ++ ds)
    else none
  | [] => none

/-- What follows the whole part of a float: a point with digits, an exponent, or both. -/
def fraction? : List Char → Option (List Char)
  | '.' :: cs => do
    let ds ← digitsOf? Char.isDigit (cs.takeWhile fun c => !isExponentLetter c)
    match cs.dropWhile fun c => !isExponentLetter c with
    | [] => some ('.' :: ds)
    | cs => (exponent? cs).map fun e => '.' :: (ds ++ e)
  | cs => exponent? cs

/-- A float, which has a point or an exponent or is one of the named ones.  A number too large for
a double is none. -/
def float? (word : List Char) : Option Float :=
  let (sign, cs) := splitSign word
  if cs == ['i', 'n', 'f'] || cs == ['n', 'a', 'n'] then
    (readFloat (String.ofList word)).toOption
  else do
    let isWhole (c : Char) : Bool := c != '.' && !isExponentLetter c
    let whole ← wholeDigits? (cs.takeWhile isWhole)
    let tail ← fraction? (cs.dropWhile isWhole)
    let x ← (readFloat (String.ofList (sign ++ whole ++ tail))).toOption
    if x == 1.0 / 0.0 then none else some x

/-- The number that exactly `count` digits write. -/
def fixedDigits? (count : Nat) (cs : List Char) : Option (Nat × List Char) :=
  let ds := cs.take count
  if ds.length == count && ds.all Char.isDigit then
    some (Decimal.natOfDigits ds, cs.drop count)
  else none

def daysIn (year month : Nat) : Nat :=
  if month == 2 then
    if year % 4 == 0 && (year % 100 != 0 || year % 400 == 0) then 29 else 28
  else if month == 4 || month == 6 || month == 9 || month == 11 then 30 else 31

def expect (c : Char) : List Char → Option (List Char)
  | d :: cs => if d == c then some cs else none
  | [] => none

/-- Reads a date that the calendar has. -/
def date? (cs : List Char) : Option (List Char) := do
  let (year, cs) ← fixedDigits? 4 cs
  let cs ← expect '-' cs
  let (month, cs) ← fixedDigits? 2 cs
  let cs ← expect '-' cs
  let (day, cs) ← fixedDigits? 2 cs
  if 1 ≤ month && month ≤ 12 && 1 ≤ day && day ≤ daysIn year month then some cs else none

/-- Reads hours and minutes. -/
def clock? (cs : List Char) : Option (List Char) := do
  let (hour, cs) ← fixedDigits? 2 cs
  let cs ← expect ':' cs
  let (minute, cs) ← fixedDigits? 2 cs
  if hour ≤ 23 && minute ≤ 59 then some cs else none

/-- Reads a time of day, with seconds and at will with a fraction of one. -/
def time? (cs : List Char) : Option (List Char) := do
  let cs ← clock? cs
  let cs ← expect ':' cs
  let (second, cs) ← fixedDigits? 2 cs
  if 60 < second then none
  else match cs with
    | '.' :: r =>
      if (r.takeWhile Char.isDigit).isEmpty then none else some (r.dropWhile Char.isDigit)
    | cs => some cs

/-- Whether the text is an offset from universal time, or nothing. -/
def isOffset : List Char → Bool
  | [] => true
  | ['Z'] | ['z'] => true
  | '+' :: cs => clock? cs == some []
  | '-' :: cs => clock? cs == some []
  | _ => false

/-- Whether the text is a time of day and an offset, or a time of day alone. -/
def isTime (cs : List Char) : Bool := (time? cs).any isOffset

/-- Whether the text is a date, a time, or both with a letter between them. -/
def isMoment (word : List Char) : Bool :=
  match date? word with
  | some [] => true
  | some (c :: cs) => (c == 'T' || c == 't') && isTime cs
  | none => time? word == some []

def isWordChar (c : Char) : Bool :=
  c.isAlphanum || c == '_' || c == '+' || c == '-' || c == '.' || c == ':'

/-- Reads a truth value, a number or a moment.  A date may be followed by a space and a time. -/
def word? : Reader Value := fun cs =>
  let word := cs.takeWhile isWordChar
  let rest := cs.dropWhile isWordChar
  if word == ['t', 'r', 'u', 'e'] then some (.boolean true, rest)
  else if word == ['f', 'a', 'l', 's', 'e'] then some (.boolean false, rest)
  else if date? word == some [] then
    match rest with
    | ' ' :: r =>
      let time := r.takeWhile isWordChar
      if time.isEmpty then some (.moment, rest)
      else if isTime time then some (.moment, r.dropWhile isWordChar)
      else none
    | rest => some (.moment, rest)
  else if isMoment word then some (.moment, rest)
  else match integer? word with
    | some n => some (.integer n, rest)
    | none => (float? word).map fun x => (.float x, rest)

end Toml
end ObjectMarkup
