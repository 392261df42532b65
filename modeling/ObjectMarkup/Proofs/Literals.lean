/-
Which literals a member takes.

White space around a number, a truth value or the name of a type is dropped, and what is left has
to be a numeral in range, `true` or `false` in any case of letters, or the name of a known type.  A
failure keeps the literal as it was written and the member it was for (`convert_grammar`).
-/
import Mathlib.Algebra.Ring.Int.Defs
import Mathlib.Data.List.TakeWhile
import ObjectMarkup.Proofs.Numerals
import ObjectMarkup.Widget.Catalogue

namespace ObjectMarkup

/-! ## Trimming -/

namespace Text

/-- A text that is not empty and has no white space at its ends. -/
def IsTight (cs : List Char) : Prop :=
  (∃ c rest, cs = c :: rest ∧ isBlank c = false) ∧ ∃ front c, cs = front ++ [c] ∧ isBlank c = false

theorem dropWhile_blank_append {blank cs : List Char} {c : Char}
    (hblank : blank.all isBlank = true) (hc : isBlank c = false) :
    (blank ++ c :: cs).dropWhile isBlank = c :: cs := by
  induction blank with
  | nil => exact List.dropWhile_cons_of_neg (by simp [hc])
  | cons b blank ih =>
    obtain ⟨hb, hblank⟩ := Bool.and_eq_true_iff.1 hblank
    rw [List.cons_append, List.dropWhile_cons_of_pos hb, ih hblank]

theorem trimChars_surrounded {front cs back : List Char} (hfront : front.all isBlank = true)
    (hback : back.all isBlank = true) (hcs : IsTight cs) :
    trimChars (front ++ cs ++ back) = cs := by
  obtain ⟨⟨c, rest, hfirst, hc⟩, init, d, hlast, hd⟩ := hcs
  have hleft : (front ++ cs ++ back).dropWhile isBlank = cs ++ back := by
    rw [hfirst, List.append_assoc, List.cons_append]
    exact dropWhile_blank_append hfront hc
  have hright : (cs ++ back).reverse.dropWhile isBlank = cs.reverse := by
    rw [hlast, List.reverse_append, List.reverse_append, List.reverse_singleton]
    exact dropWhile_blank_append (by rwa [List.all_reverse]) hd
  rw [trimChars, hleft, hright, List.reverse_reverse]

/-- White space around a text that has none at its ends is what is trimmed. -/
theorem trim_surrounded {front s back : String} (hfront : allBlank front = true)
    (hback : allBlank back = true) (hs : IsTight s.toList) : trim (front ++ s ++ back) = s := by
  rw [trim, String.toList_append, String.toList_append, trimChars_surrounded hfront hback hs,
    String.ofList_toList]

theorem isTight_of_forall {cs : List Char} (hne : cs ≠ []) (h : ∀ c ∈ cs, isBlank c = false) :
    IsTight cs := by
  refine ⟨?_, cs.dropLast, cs.getLast hne, (List.dropLast_concat_getLast hne).symm,
    h _ (List.getLast_mem hne)⟩
  cases cs with
  | nil => exact absurd rfl hne
  | cons c rest => exact ⟨c, rest, rfl, h c List.mem_cons_self⟩

theorem trim_eq_empty_iff {s : String} : trim s = "" ↔ allBlank s = true := by
  refine ⟨fun h => by rw [← allBlank_trim, h]; rfl, fun h => ?_⟩
  have hnil : s.toList.dropWhile isBlank = [] :=
    List.dropWhile_eq_nil_iff.2 (List.all_eq_true.1 h)
  rw [trim, trimChars, hnil]
  rfl

end Text

/-! ## Converting -/

open Numeral

theorem Numeral.mem_unsigned {s : String} {c : Char} (h : c ∈ s.toList) :
    c = '+' ∨ c = '-' ∨ c ∈ unsigned s := by
  rw [unsigned, divide.eq_def]
  split
  · next hs => rw [hs] at h; simpa [or_left_comm] using (List.mem_cons.1 h).imp_right .inr
  · next hs => rw [hs] at h; simpa using .inr (List.mem_cons.1 h)
  · exact .inr (.inr h)

theorem isBlank_of_isDigit {c : Char} (h : c.isDigit = true) : Text.isBlank c = false := by
  obtain ⟨hleast, hgreatest⟩ : 48 ≤ c.toNat ∧ c.toNat ≤ 57 := Char.isDigit_iff_toNat.1 h
  simp only [Text.isBlank, Bool.or_eq_false_iff, Bool.and_eq_false_iff, decide_eq_false_iff_not,
    beq_eq_false_iff_ne]
  omega

/-- There is no white space in a numeral. -/
theorem Numeral.Spells.isTight {s : String} {n : Int} (h : Spells s n) :
    Text.IsTight s.toList := by
  obtain ⟨hne, hdigits, -⟩ := h
  refine Text.isTight_of_forall (fun hs => hne (by rw [unsigned, hs]; rfl)) fun c hc => ?_
  rcases mem_unsigned hc with rfl | rfl | hc
  · decide
  · decide
  · exact isBlank_of_isDigit (hdigits c hc)

theorem IntegerFault.message_inj {a b : IntegerFault} : a.message = b.message ↔ a = b := by
  cases a <;> cases b <;> simp [message]

namespace Literal

variable {m : Member} {literal : String}

/-- A failure names the member and the literal as it was written. -/
theorem convert_error {e : ConversionError} (h : convert m literal = .error e) :
    ∃ reason, e = failure m literal reason := by
  rw [convert] at h
  split at h
  · cases h
  · next reason _ => exact ⟨reason, (Except.error.inj h).symm⟩

theorem convert_integer (h : m.valueType = .integer) :
    convert m literal = match IntegerRange.signed64.read (Text.trim literal) with
      | .ok n => .ok (.int n)
      | .error fault => .error (failure m literal fault.message) := by
  rw [convert, h, read]
  cases IntegerRange.signed64.read (Text.trim literal) <;> rfl

theorem convert_integer_ok (h : m.valueType = .integer) {v : Value} :
    convert m literal = .ok v ↔
      ∃ n, v = .int n ∧ IntegerRange.signed64.read (Text.trim literal) = .ok n := by
  rw [convert_integer h]
  cases IntegerRange.signed64.read (Text.trim literal) <;> simp [eq_comm]

theorem convert_integer_error (h : m.valueType = .integer) {fault : IntegerFault} :
    convert m literal = .error (failure m literal fault.message) ↔
      IntegerRange.signed64.read (Text.trim literal) = .error fault := by
  rw [convert_integer h]
  cases IntegerRange.signed64.read (Text.trim literal) <;>
    simp [failure, IntegerFault.message_inj]

theorem readBool?_eq_some {b : Bool} :
    readBool? literal = some b ↔
      Text.lowerAscii (Text.trim literal) = if b then "true" else "false" := by
  rw [readBool?]
  split
  · next h => rw [h]; cases b <;> simp
  · next h => rw [h]; cases b <;> simp
  · next htrue hfalse => cases b with
    | true => simpa using htrue
    | false => simpa using hfalse

theorem convert_boolean (h : m.valueType = .boolean) {v : Value} :
    convert m literal = .ok v ↔
      ∃ b, v = .bool b ∧ Text.lowerAscii (Text.trim literal) = if b then "true" else "false" := by
  simp only [← readBool?_eq_some]
  rw [convert, h, read]
  cases readBool? literal <;> simp [eq_comm]

theorem convert_type (h : m.valueType = .type) {v : Value} :
    convert m literal = .ok v ↔ Text.trim literal ≠ "" ∧ v = .type (Text.trim literal) := by
  rw [convert, h, read, ne_eq, Text.trim_eq_empty_iff]
  cases Text.allBlank literal <;> simp [eq_comm]

theorem convert_text (h : m.valueType = .string ∨ m.valueType = .any) :
    convert m literal = .ok (.str literal) := by
  rw [convert]
  rcases h with h | h <;> rw [h, read]

end Literal

namespace Catalogue

variable {σ : Type} (c : Catalogue σ) {m : Member} {literal : String}

theorem resolve_isSome_iff {name : String} :
    (c.resolve name).isSome = true ↔ ∃ d ∈ c.types, d.type = name := by
  rw [resolve, Option.isSome_map, find?, List.find?_isSome]
  simp

/-- A catalogue is asked for the names of types only. -/
theorem convert_eq (h : m.valueType ≠ .type) : c.convert m literal = Literal.convert m literal := by
  have hne : ∀ name, Literal.convert m literal ≠ .ok (.type name) := by
    intro name heq
    cases htype : m.valueType with
    | type => exact h htype
    | any => rw [Literal.convert_text (.inr htype)] at heq; cases heq
    | string => rw [Literal.convert_text (.inl htype)] at heq; cases heq
    | integer =>
      obtain ⟨n, hn, -⟩ := (Literal.convert_integer_ok htype).1 heq
      cases hn
    | boolean =>
      obtain ⟨b, hb, -⟩ := (Literal.convert_boolean htype).1 heq
      cases hb
    | float =>
      rw [Literal.convert, htype, Literal.read] at heq
      generalize readFloat (Text.trim literal) = x at heq
      cases x <;> cases heq
  rw [convert]
  split
  · next name heq => exact absurd heq (hne name)
  · rfl

theorem convert_type (h : m.valueType = .type) {v : Value} :
    c.convert m literal = .ok v ↔ Text.trim literal ≠ "" ∧
      (∃ d ∈ c.types, d.type = Text.trim literal) ∧ v = .type (Text.trim literal) := by
  rw [← resolve_isSome_iff, convert]
  by_cases hname : Text.trim literal = ""
  · have hfails : ∀ v, Literal.convert m literal ≠ .ok v := fun v hv =>
      ((Literal.convert_type h).1 hv).1 hname
    split
    · next name heq => exact absurd heq (hfails _)
    · simp [hname, hfails]
  · rw [(Literal.convert_type h).2 ⟨hname, rfl⟩]
    cases hresolve : (c.resolve (Text.trim literal)).isSome <;> simp [hname, hresolve, eq_comm]

theorem convert_error {e : ConversionError} (h : c.convert m literal = .error e) :
    e.member = m.qualifiedName ∧ e.literal = literal := by
  rw [convert] at h
  split at h
  · split at h
    · cases h
    · rw [← Except.error.inj h]
      exact ⟨rfl, rfl⟩
  · obtain ⟨reason, rfl⟩ := Literal.convert_error h
    exact ⟨rfl, rfl⟩

/-- What literals are converted to, by the type of the values that their member takes: numbers in
range, truth values in any case of letters and known types, each with white space around it, and
text as it stands. -/
theorem convert_grammar :
    (∀ {m : Member} {literal : String}, m.valueType = .integer →
      (∀ v, c.convert m literal = .ok v ↔ ∃ n, v = .int n ∧
        Spells (Text.trim literal) n ∧ -2 ^ 63 ≤ n ∧ n ≤ 2 ^ 63 - 1) ∧
      (c.convert m literal = .error (Literal.failure m literal IntegerFault.empty.message) ↔
        Text.trim literal = "") ∧
      (c.convert m literal = .error (Literal.failure m literal IntegerFault.tooLarge.message) ↔
        ∃ n, Passes (Text.trim literal) n ∧ 2 ^ 63 - 1 < n) ∧
      (c.convert m literal = .error (Literal.failure m literal IntegerFault.tooSmall.message) ↔
        ∃ n, Passes (Text.trim literal) n ∧ n < -2 ^ 63) ∧
      (c.convert m literal = .error (Literal.failure m literal IntegerFault.invalidDigit.message) ↔
        Text.trim literal ≠ "" ∧
        (∀ n, Passes (Text.trim literal) n → -2 ^ 63 ≤ n ∧ n ≤ 2 ^ 63 - 1) ∧
        ∀ n, ¬ Spells (Text.trim literal) n)) ∧
    (∀ {m : Member} {n : Int} {front back : String}, m.valueType = .integer →
      -2 ^ 63 ≤ n → n ≤ 2 ^ 63 - 1 → Text.allBlank front = true → Text.allBlank back = true →
      c.convert m (front ++ toString n ++ back) = .ok (.int n)) ∧
    (∀ {m : Member} {literal : String}, m.valueType = .boolean → ∀ v,
      c.convert m literal = .ok v ↔ ∃ b, v = .bool b ∧
        Text.lowerAscii (Text.trim literal) = if b then "true" else "false") ∧
    (∀ {m : Member} {literal : String}, m.valueType = .type → ∀ v,
      (c.convert m literal = .ok v ↔ Text.trim literal ≠ "" ∧
        (∃ d ∈ c.types, d.type = Text.trim literal) ∧ v = .type (Text.trim literal)) ∧
      (Literal.convert m literal = .ok v ↔
        Text.trim literal ≠ "" ∧ v = .type (Text.trim literal))) ∧
    (∀ {m : Member} {literal : String}, m.valueType = .string ∨ m.valueType = .any →
      c.convert m literal = .ok (.str literal)) ∧
    (∀ {m : Member} {literal : String}, m.valueType ≠ .type →
      c.convert m literal = Literal.convert m literal) ∧
    (∀ {m : Member} {literal : String} {e : ConversionError},
      c.convert m literal = .error e ∨ Literal.convert m literal = .error e →
      e.member = m.qualifiedName ∧ e.literal = literal) := by
  have hleast : IntegerRange.signed64.least < 0 := by decide
  have hgreatest : 0 ≤ IntegerRange.signed64.greatest := by decide
  refine ⟨fun {m literal} h => ?_, fun {m n front back} h hn hn' hfront hback => ?_,
    fun {m literal} h v => ?_, fun {m literal} h v => ⟨c.convert_type h, Literal.convert_type h⟩,
    fun {m literal} h => ?_, c.convert_eq, fun {m literal e} h => ?_⟩
  · rw [c.convert_eq (by simp [h])]
    refine ⟨fun v => ?_,
      (Literal.convert_integer_error h).trans (IntegerRange.read_empty_iff hleast hgreatest),
      (Literal.convert_integer_error h).trans (IntegerRange.read_tooLarge_iff hleast hgreatest),
      (Literal.convert_integer_error h).trans (IntegerRange.read_tooSmall_iff hleast hgreatest),
      (Literal.convert_integer_error h).trans (IntegerRange.read_invalidDigit_iff hleast hgreatest)⟩
    rw [Literal.convert_integer_ok h]
    exact exists_congr fun n => and_congr_right fun _ =>
      IntegerRange.read_eq_ok_iff hleast hgreatest
  · have hspells := spells_toString n
    rw [c.convert_eq (by simp [h]), Literal.convert_integer_ok h,
      Text.trim_surrounded hfront hback hspells.isTight]
    exact ⟨n, rfl, (IntegerRange.read_eq_ok_iff hleast hgreatest).2 ⟨hspells, hn, hn'⟩⟩
  · rw [c.convert_eq (by simp [h])]
    exact Literal.convert_boolean h
  · rw [c.convert_eq (by rcases h with h | h <;> simp [h])]
    exact Literal.convert_text h
  · rcases h with h | h
    · exact c.convert_error h
    · obtain ⟨reason, rfl⟩ := Literal.convert_error h
      exact ⟨rfl, rfl⟩

/-- A row, a number that leaves its range before a letter, a truth value, a type and a title. -/
theorem convert_grammar_widgets :
    Widget.catalogue.convert (Widget.attachedInteger "Grid" "Row") "\n-7 " = .ok (.int (-7)) ∧
    Widget.catalogue.convert (Widget.attachedInteger "Grid" "Row") "-9223372036854775809x" =
      .error (Literal.failure (Widget.attachedInteger "Grid" "Row") "-9223372036854775809x"
        IntegerFault.tooSmall.message) ∧
    Widget.catalogue.convert ⟨"Button", "Flat", .standard, .boolean, [], false, false, false⟩
      " TRUE" = .ok (.bool true) ∧
    Widget.catalogue.convert ⟨"Style", "Target", .standard, .type, [], false, false, false⟩
      "Grid\n" = .ok (.type "Grid") ∧
    Widget.catalogue.convert (Widget.stringMember "Window" "Title") " Main" =
      .ok (.str " Main") := by
  obtain ⟨hinteger, hround, hboolean, htype, htext, -⟩ := convert_grammar Widget.catalogue
  have hsmall : Passes (Text.trim "-9223372036854775809x") (-9223372036854775809) :=
    ⟨"9223372036854775809".toList, by decide, by simp [Digits], by decide⟩
  refine ⟨?_, (hinteger rfl).2.2.2.1.2 ⟨_, hsmall, by decide⟩,
    (hboolean rfl _).2 ⟨true, rfl, by decide⟩,
    ((htype rfl _).1).2 ⟨by decide, ?_, rfl⟩, htext (.inl rfl)⟩
  · rw [show "\n-7 " = "\n" ++ toString (-7 : Int) ++ " " by decide]
    exact hround rfl (by decide) (by decide) (by decide) (by decide)
  · exact (resolve_isSome_iff Widget.catalogue).1 (by decide)

end Catalogue
end ObjectMarkup
