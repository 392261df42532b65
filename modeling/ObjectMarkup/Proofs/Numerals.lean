/-
Numerals: an optional sign and digits.

Reading digits goes away from zero, so that a number that leaves its range does not come back, and
the digits that take it out are the first fault unless something else than a digit stands before
them (`readDigits_outcome`).  A numeral in range is read to its number, and each fault has its own
cause (`read_eq_ok_iff` and the ones after it).
-/
import ObjectMarkup.Number.Integer

namespace ObjectMarkup

/-! ## What a text spells -/

namespace Numeral

/-- The sign of a text, which is negative or not, and what comes after it. -/
def divide : List Char → Bool × List Char
  | '+' :: cs => (false, cs)
  | '-' :: cs => (true, cs)
  | cs => (false, cs)

theorem divide_of_no_sign {cs : List Char} (hplus : ∀ rest, cs = '+' :: rest → False)
    (hminus : ∀ rest, cs = '-' :: rest → False) : divide cs = (false, cs) := by
  rw [divide.eq_def]
  split
  · next rest => exact absurd rfl (hplus rest)
  · next rest => exact absurd rfl (hminus rest)
  · rfl

def isNegative (s : String) : Bool := (divide s.toList).1

/-- A text without its sign. -/
def unsigned (s : String) : List Char := (divide s.toList).2

/-- Decimal digits and nothing else. -/
def Digits (cs : List Char) : Prop := ∀ c ∈ cs, c.isDigit = true

/-- A number with its sign. -/
def signed (negative : Bool) (n : Nat) : Int := if negative then -(n : Int) else n

/-- The number that digits behind a sign stand for. -/
def value (negative : Bool) (ds : List Char) : Int := signed negative (Nat.ofDigitChars 10 ds 0)

/-- The text is an optional sign and one or more digits, which stand for `n`. -/
def Spells (s : String) (n : Int) : Prop :=
  unsigned s ≠ [] ∧ Digits (unsigned s) ∧ n = value (isNegative s) (unsigned s)

/-- Reading the digits after the sign comes to the number `n` before anything else stands there. -/
def Passes (s : String) (n : Int) : Prop :=
  ∃ ds, ds <+: unsigned s ∧ Digits ds ∧ n = value (isNegative s) ds

/-! ### Decimal texts -/

theorem not_isDigit_sign {c : Char} (h : c.isDigit = true) : c ≠ '+' ∧ c ≠ '-' := by
  constructor <;> rintro rfl <;> exact absurd h (by decide)

theorem divide_of_digits {cs : List Char} (h : Digits cs) : divide cs = (false, cs) :=
  divide_of_no_sign
    (fun _ hcs => (not_isDigit_sign (h '+' (hcs ▸ List.mem_cons_self))).1 rfl)
    (fun _ hcs => (not_isDigit_sign (h '-' (hcs ▸ List.mem_cons_self))).2 rfl)

theorem digits_toDigits (n : Nat) : Digits (Nat.toDigits 10 n) := fun _ hc =>
  Nat.isDigit_of_mem_toDigits (by decide) (by decide) hc

/-- The decimal text of a number spells it. -/
theorem spells_toString (n : Int) : Spells (toString n) n := by
  rw [Int.toString_eq_repr, Int.repr_eq_if]
  split
  · next hn =>
    have hdivide : divide n.toNat.repr.toList = (false, Nat.toDigits 10 n.toNat) := by
      rw [Nat.repr_eq_ofList_toDigits, String.toList_ofList]
      exact divide_of_digits (digits_toDigits n.toNat)
    rw [Spells, unsigned, isNegative, hdivide]
    refine ⟨Nat.toDigits_ne_nil, digits_toDigits n.toNat, ?_⟩
    rw [value, signed, Nat.ofDigitChars_ten_toDigits]
    exact (Int.toNat_of_nonneg hn).symm
  · next hn =>
    have hdivide : divide ("-" ++ (-n).toNat.repr).toList = (true, Nat.toDigits 10 (-n).toNat) := by
      rw [Nat.repr_eq_ofList_toDigits, String.toList_append]
      change divide ('-' :: (String.ofList _).toList) = _
      rw [String.toList_ofList, divide]
    rw [Spells, unsigned, isNegative, hdivide]
    refine ⟨Nat.toDigits_ne_nil, digits_toDigits (-n).toNat, ?_⟩
    rw [value, signed, Nat.ofDigitChars_ten_toDigits, if_pos rfl]
    omega

end Numeral

open Numeral

namespace IntegerRange

variable {range : IntegerRange} {negative : Bool} {init : Nat} {cs ds : List Char}

def Holds (range : IntegerRange) (n : Int) : Prop :=
  range.least ≤ n ∧ n ≤ range.greatest

/-! ## Reading digits -/

theorem le_ofDigitChars (init : Nat) (ds : List Char) : init ≤ Nat.ofDigitChars 10 ds init := by
  induction ds generalizing init with
  | nil => exact Nat.le_refl _
  | cons c ds ih =>
    rw [Nat.ofDigitChars_cons]
    exact Nat.le_trans (by omega) (ih _)

/-- A number further from zero than another one in range is the one that leaves the range first. -/
theorem Holds.toward {n k : Nat} (hzero : range.Holds 0) (h : range.Holds (signed negative n))
    (hk : k ≤ n) : range.Holds (signed negative k) := by
  cases negative <;> simp only [Holds, signed] at * <;> constructor <;> simp at * <;> omega

/-- What comes of reading the digits `cs` onto `init`. -/
inductive Outcome (range : IntegerRange) (negative : Bool) (init : Nat) (cs : List Char) :
    Except IntegerFault Int → Prop
  | number : Digits cs → range.Holds (signed negative (Nat.ofDigitChars 10 cs init)) →
      Outcome range negative init cs (.ok (signed negative (Nat.ofDigitChars 10 cs init)))
  | large {ds : List Char} : ds <+: cs → Digits ds →
      range.greatest < signed negative (Nat.ofDigitChars 10 ds init) →
      Outcome range negative init cs (.error .tooLarge)
  | small {ds : List Char} : ds <+: cs → Digits ds →
      signed negative (Nat.ofDigitChars 10 ds init) < range.least →
      Outcome range negative init cs (.error .tooSmall)
  | invalid : ¬ Digits cs → (∀ ds, ds <+: cs → Digits ds →
      range.Holds (signed negative (Nat.ofDigitChars 10 ds init))) →
      Outcome range negative init cs (.error .invalidDigit)

theorem next_eq {c : Char} (hc : c.isDigit = true) :
    (if negative then signed negative init * 10 - digitValue c
      else signed negative init * 10 + digitValue c) =
        signed negative (10 * init + (c.toNat - '0'.toNat)) := by
  have hdigit : 48 ≤ c.toNat := (Char.isDigit_iff_toNat.1 hc).1
  have hzero : '0'.toNat = 48 := rfl
  cases negative <;> simp [signed, digitValue] <;> omega

theorem Outcome.cons {c : Char} {answer : Except IntegerFault Int} (hc : c.isDigit = true)
    (hinit : range.Holds (signed negative init))
    (h : Outcome range negative (10 * init + (c.toNat - '0'.toNat)) cs answer) :
    Outcome range negative init (c :: cs) answer := by
  have hdigits : ∀ {ds}, Digits (c :: ds) ↔ Digits ds := by simp [Digits, hc]
  cases h with
  | number hcs hholds =>
    rw [← Nat.ofDigitChars_cons] at hholds ⊢
    exact .number (hdigits.2 hcs) hholds
  | @large ds hds hcs hover =>
    rw [← Nat.ofDigitChars_cons] at hover
    exact .large ((List.prefix_cons_inj c).2 hds) (hdigits.2 hcs) hover
  | @small ds hds hcs hunder =>
    rw [← Nat.ofDigitChars_cons] at hunder
    exact .small ((List.prefix_cons_inj c).2 hds) (hdigits.2 hcs) hunder
  | invalid hcs hholds =>
    refine .invalid (fun h => hcs (hdigits.1 h)) fun ds hds hall => ?_
    cases ds with
    | nil => exact hinit
    | cons d ds =>
      obtain ⟨rfl, hprefix⟩ := List.cons_prefix_cons.1 hds
      rw [Nat.ofDigitChars_cons]
      exact hholds ds hprefix (hdigits.1 hall)

/-- From a number in range. -/
theorem readDigits_outcome (hinit : range.Holds (signed negative init)) :
    Outcome range negative init cs (readDigits range negative (signed negative init) cs) := by
  induction cs generalizing init with
  | nil => exact .number (by simp [Digits]) hinit
  | cons c cs ih =>
    rw [readDigits]
    split
    · next hc =>
      have hfirst : [c] <+: c :: cs := ⟨cs, rfl⟩
      have hdigit : Digits [c] := by simpa [Digits] using hc
      have hone : Nat.ofDigitChars 10 [c] init = 10 * init + (c.toNat - '0'.toNat) := by
        rw [Nat.ofDigitChars_cons, Nat.ofDigitChars_nil]
      simp only [next_eq hc, ← hone]
      split
      · next hlarge =>
        exact .large hfirst hdigit hlarge
      · split
        · next hsmall => exact .small hfirst hdigit hsmall
        · next hlarge hsmall =>
          exact .cons hc hinit (hone ▸ ih ⟨Int.not_lt.1 hsmall, Int.not_lt.1 hlarge⟩)
    · next hc =>
      refine .invalid (fun h => hc (h c List.mem_cons_self)) fun ds hds hdigits => ?_
      cases ds with
      | nil => exact hinit
      | cons d ds =>
        obtain ⟨rfl, -⟩ := List.cons_prefix_cons.1 hds
        exact absurd (hdigits d List.mem_cons_self) hc

/-! ## Reading a text -/

/-- The sign is read off, and digits have to follow. -/
theorem read_eq (hleast : range.least < 0) (s : String) :
    range.read s = if s.toList = [] then .error .empty
      else if unsigned s = [] then .error .invalidDigit
      else readDigits range (isNegative s) 0 (unsigned s) := by
  have hnot : ¬ 0 ≤ range.least := Int.not_le.2 hleast
  rw [read, unsigned, isNegative]
  generalize s.toList = cs
  split
  · rfl
  · next cs => cases cs <;> simp [divide]
  · next cs => cases cs <;> simp [divide, hnot]
  · next cs hne hplus hminus =>
    rw [divide_of_no_sign hplus hminus, if_neg hne, if_neg hne]

/-- What comes of reading a text. -/
inductive Reads (range : IntegerRange) (s : String) : Except IntegerFault Int → Prop
  | number {n : Int} : Spells s n → range.Holds n → Reads range s (.ok n)
  | empty : s = "" → Reads range s (.error .empty)
  | large {n : Int} : Passes s n → range.greatest < n → Reads range s (.error .tooLarge)
  | small {n : Int} : Passes s n → n < range.least → Reads range s (.error .tooSmall)
  | invalid : s ≠ "" → (∀ n, Passes s n → range.Holds n) → (∀ n, ¬ Spells s n) →
      Reads range s (.error .invalidDigit)

theorem passes_of_unsigned_nil {s : String} {n : Int} (hs : unsigned s = []) (h : Passes s n) :
    n = 0 := by
  obtain ⟨ds, hds, -, rfl⟩ := h
  rw [hs, List.prefix_nil] at hds
  rw [hds, value, Nat.ofDigitChars_nil]
  cases isNegative s <;> rfl

theorem reads (hleast : range.least < 0) (hgreatest : 0 ≤ range.greatest) (s : String) :
    Reads range s (range.read s) := by
  have hzero : range.Holds 0 := ⟨Int.le_of_lt hleast, hgreatest⟩
  rw [read_eq hleast]
  split
  · next hempty => exact .empty (String.toList_eq_nil_iff.1 hempty)
  next hempty =>
  have hne : s ≠ "" := fun h => hempty (String.toList_eq_nil_iff.2 h)
  split
  · next hs =>
    exact .invalid hne (fun n h => passes_of_unsigned_nil hs h ▸ hzero) fun n h => h.1 hs
  · next hs =>
    have hsigned : signed (isNegative s) 0 = 0 := by cases isNegative s <;> rfl
    have houtcome := @readDigits_outcome range (isNegative s) 0 (unsigned s) (hsigned.symm ▸ hzero)
    rw [hsigned] at houtcome
    generalize readDigits range (isNegative s) 0 (unsigned s) = answer at houtcome ⊢
    cases houtcome with
    | number hdigits hholds => exact .number ⟨hs, hdigits, rfl⟩ hholds
    | large hds hdigits hover => exact .large ⟨_, hds, hdigits, rfl⟩ hover
    | small hds hdigits hunder => exact .small ⟨_, hds, hdigits, rfl⟩ hunder
    | invalid hdigits hholds =>
      refine .invalid hne ?_ fun n h => hdigits h.2.1
      rintro n ⟨ds, hds, hall, rfl⟩
      exact hholds ds hds hall

/-- A number in range is in range all the way. -/
theorem holds_of_passes (hzero : range.Holds 0) {s : String} {n k : Int} (h : range.Holds n)
    (hn : Spells s n) (hk : Passes s k) : range.Holds k := by
  obtain ⟨-, -, rfl⟩ := hn
  obtain ⟨ds, ⟨rest, hrest⟩, -, rfl⟩ := hk
  rw [← hrest] at h
  refine Holds.toward hzero h ?_
  rw [Nat.ofDigitChars_append]
  exact le_ofDigitChars _ rest

/-- A text leaves its range in one direction. -/
theorem not_small_of_large (hzero : range.Holds 0) {s : String} {n k : Int} (hn : Passes s n)
    (hlarge : range.greatest < n) (hk : Passes s k) : ¬ k < range.least := by
  obtain ⟨ds, -, -, rfl⟩ := hn
  obtain ⟨es, -, -, rfl⟩ := hk
  obtain ⟨hleast, hgreatest⟩ := hzero
  cases hsign : isNegative s <;> simp only [hsign, value, signed, if_true, if_false,
    Bool.false_eq_true] at hlarge ⊢ <;> omega

section

variable (hleast : range.least < 0) (hgreatest : 0 ≤ range.greatest) {s : String}

include hleast hgreatest

/-- A numeral is read to its number when that is in range. -/
theorem read_eq_ok_iff {n : Int} : range.read s = .ok n ↔ Spells s n ∧ range.Holds n := by
  have hzero : range.Holds 0 := ⟨Int.le_of_lt hleast, hgreatest⟩
  have h := reads hleast hgreatest s
  generalize range.read s = answer at h ⊢
  refine ⟨?_, fun ⟨hspells, hholds⟩ => ?_⟩
  · rintro rfl
    cases h with
    | number hspells hholds => exact ⟨hspells, hholds⟩
  · cases h with
    | number hspells' _ => rw [hspells.2.2, hspells'.2.2]
    | empty hs => exact absurd (by rw [hs]; rfl) hspells.1
    | large hpasses hover =>
      exact absurd (holds_of_passes hzero hholds hspells hpasses).2 (Int.not_le.2 hover)
    | small hpasses hunder =>
      exact absurd (holds_of_passes hzero hholds hspells hpasses).1 (Int.not_le.2 hunder)
    | invalid _ _ hnot => exact absurd hspells (hnot n)

theorem read_empty_iff : range.read s = .error .empty ↔ s = "" := by
  have h := reads hleast hgreatest s
  refine ⟨fun heq => ?_, ?_⟩
  · rw [heq] at h
    cases h with
    | empty hs => exact hs
  · rintro rfl
    rfl

/-- A text that leaves its range is refused, whatever comes after that. -/
theorem read_of_passes {n : Int} (hpasses : Passes s n) (hout : ¬ range.Holds n) :
    range.read s = .error (if range.greatest < n then .tooLarge else .tooSmall) := by
  have hzero : range.Holds 0 := ⟨Int.le_of_lt hleast, hgreatest⟩
  have h := reads hleast hgreatest s
  generalize range.read s = answer at h ⊢
  cases h with
  | number hspells hholds => exact absurd (holds_of_passes hzero hholds hspells hpasses) hout
  | empty hs =>
    rw [passes_of_unsigned_nil (by rw [hs]; rfl) hpasses] at hout
    exact absurd hzero hout
  | large hpasses' hlarge =>
    have hleast := Int.not_lt.1 (not_small_of_large hzero hpasses' hlarge hpasses)
    rw [if_pos (Int.not_le.1 fun hle => hout ⟨hleast, hle⟩)]
  | small hpasses' hsmall =>
    rw [if_neg fun hlarge => not_small_of_large hzero hpasses hlarge hpasses' hsmall]
  | invalid _ hall _ => exact absurd (hall n hpasses) hout

theorem read_tooLarge_iff :
    range.read s = .error .tooLarge ↔ ∃ n, Passes s n ∧ range.greatest < n := by
  have h := reads hleast hgreatest s
  refine ⟨fun heq => ?_, fun ⟨n, hpasses, hlarge⟩ => ?_⟩
  · rw [heq] at h
    cases h with
    | large hpasses hlarge => exact ⟨_, hpasses, hlarge⟩
  · rw [read_of_passes hleast hgreatest hpasses fun hholds => Int.not_le.2 hlarge hholds.2,
      if_pos hlarge]

theorem read_tooSmall_iff :
    range.read s = .error .tooSmall ↔ ∃ n, Passes s n ∧ n < range.least := by
  have h := reads hleast hgreatest s
  refine ⟨fun heq => ?_, fun ⟨n, hpasses, hsmall⟩ => ?_⟩
  · rw [heq] at h
    cases h with
    | small hpasses hsmall => exact ⟨_, hpasses, hsmall⟩
  · rw [read_of_passes hleast hgreatest hpasses fun hholds => Int.not_le.2 hsmall hholds.1,
      if_neg (by omega)]

theorem read_invalidDigit_iff :
    range.read s = .error .invalidDigit ↔
      s ≠ "" ∧ (∀ n, Passes s n → range.Holds n) ∧ ∀ n, ¬ Spells s n := by
  have h := reads hleast hgreatest s
  generalize range.read s = answer at h ⊢
  refine ⟨?_, fun ⟨hne, hall, hnot⟩ => ?_⟩
  · rintro rfl
    cases h with
    | invalid hne hall hnot => exact ⟨hne, hall, hnot⟩
  · cases h with
    | number hspells _ => exact absurd hspells (hnot _)
    | empty hs => exact absurd hs hne
    | large hpasses hover => exact absurd (hall _ hpasses).2 (Int.not_le.2 hover)
    | small hpasses hunder => exact absurd (hall _ hpasses).1 (Int.not_le.2 hunder)
    | invalid _ _ _ => rfl

end

end IntegerRange
end ObjectMarkup
