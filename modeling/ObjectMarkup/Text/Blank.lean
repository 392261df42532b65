/-
White space as markup and configuration see it: the Unicode property `White_Space`, which has
twenty-five characters where `Char.isWhitespace` knows four.  `allBlank` asks whether a text is
made of nothing else, and `trim` removes it at both ends and nowhere else.
-/
namespace ObjectMarkup
namespace Text

/-- The characters with the Unicode property `White_Space`. -/
def isBlank (c : Char) : Bool :=
  let n := c.toNat
  (0x09 ≤ n && n ≤ 0x0d) || n == 0x20 || n == 0x85 || n == 0xa0 || n == 0x1680 ||
    (0x2000 ≤ n && n ≤ 0x200a) || n == 0x2028 || n == 0x2029 || n == 0x202f || n == 0x205f ||
    n == 0x3000

/-- White space and nothing else; the empty text is blank. -/
def allBlank (s : String) : Bool :=
  s.toList.all isBlank

def trimChars (cs : List Char) : List Char :=
  ((cs.dropWhile isBlank).reverse.dropWhile isBlank).reverse

/-- Drops the white space before the first and after the last other character. -/
def trim (s : String) : String :=
  String.ofList (trimChars s.toList)

theorem all_isBlank_dropWhile (cs : List Char) :
    (cs.dropWhile isBlank).all isBlank = cs.all isBlank := by
  induction cs with
  | nil => rfl
  | cons c cs ih =>
    cases h : isBlank c with
    | true => rw [List.dropWhile_cons_of_pos h, ih, List.all_cons, h, Bool.true_and]
    | false => rw [List.dropWhile_cons_of_neg (by simp [h])]

/-- Trimming takes away all of a text only when it is blank. -/
theorem allBlank_trim (s : String) : allBlank (trim s) = allBlank s := by
  simp [allBlank, trim, trimChars, all_isBlank_dropWhile]

/-- Lower-cases the letters `A` to `Z`, and no others. -/
def lowerAscii (s : String) : String :=
  String.ofList (s.toList.map Char.toLower)

end Text
end ObjectMarkup
