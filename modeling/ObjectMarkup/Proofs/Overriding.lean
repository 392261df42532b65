/-
Overriding settings.

An override that is accepted changes the two settings that it is for and no others, and what it
leaves is valid (`override_leaves`).  One that is refused may have changed them all the same: a
depth that can be read is in place before the root scope is read and before the outcome is
validated, so that a failure leaves the settings as they were only if no such depth was given.
-/
import ObjectMarkup.Settings

namespace ObjectMarkup
namespace Settings

/-! ## One setting -/

/-- The depth that a text gives. -/
def depthOf (text : String) : Except SettingsFault Nat :=
  match IntegerRange.unsigned64.read (Text.trim text) with
  | .ok n => .ok n.toNat
  | .error _ => .error (.depthNotANumber text)

/-- What a setting becomes under an override: what the text gives, and without a text what it is. -/
def Becomes {α : Type} (read : String → Except SettingsFault α) (before : α) :
    Option String → α → Prop
  | none, after => after = before
  | some text, after => read text = .ok after

/-- The text of an override gives no value. -/
def Unreadable {α : Type} (read : String → Except SettingsFault α) (o : Option String)
    (e : SettingsFault) : Prop :=
  ∃ text, o = some text ∧ read text = .error e

variable {s s' : Settings} {o : Overrides} {e : SettingsFault}

theorem overrideDepth_cases (s : Settings) (o : Option String) :
    (∃ n, Becomes depthOf s.maxDepth o n ∧ s.overrideDepth o = .ok { s with maxDepth := n }) ∨
    ∃ e, Unreadable depthOf o e ∧ s.overrideDepth o = .error e := by
  cases o with
  | none => exact .inl ⟨s.maxDepth, rfl, rfl⟩
  | some text =>
    rw [overrideDepth]
    cases hread : IntegerRange.unsigned64.read (Text.trim text) with
    | ok n => exact .inl ⟨n.toNat, by rw [Becomes, depthOf, hread], rfl⟩
    | error fault => exact .inr ⟨_, ⟨text, rfl, by rw [depthOf, hread]⟩, rfl⟩

theorem overrideRootScope_cases (s : Settings) (o : Option String) :
    (∃ r, Becomes RootScope.read s.rootScope o r ∧
      s.overrideRootScope o = .ok { s with rootScope := r }) ∨
    ∃ e, Unreadable RootScope.read o e ∧ s.overrideRootScope o = .error e := by
  cases o with
  | none => exact .inl ⟨s.rootScope, rfl, rfl⟩
  | some text =>
    rw [overrideRootScope]
    cases hread : RootScope.read text with
    | ok r => exact .inl ⟨r, hread, rfl⟩
    | error e => exact .inr ⟨e, ⟨text, rfl, hread⟩, rfl⟩

namespace Becomes

variable {α : Type} {read : String → Except SettingsFault α} {before a b : α}
  {text : String} {given : Option String}

theorem not_unreadable (h : Becomes read before given a) : ¬ Unreadable read given e := by
  rintro ⟨text, rfl, hread⟩
  have hread' : read text = .ok a := h
  cases hread.symm.trans hread'

theorem unique (ha : Becomes read before given a) (hb : Becomes read before given b) : a = b := by
  cases given with
  | none => exact Eq.trans ha (Eq.symm hb)
  | some text => exact Except.ok.inj (Eq.trans (Eq.symm ha) hb)

/-- A setting stays what it is if no text is given that reads as something else. -/
theorem eq_before (h : Becomes read before given a)
    (hall : ∀ text b, given = some text → read text = .ok b → b = before) : a = before := by
  cases given with
  | none => exact h
  | some text => exact hall text a rfl h

theorem eq_of_read (h : Becomes read before given a) (htext : given = some text)
    (hread : read text = .ok b) : b = a := by
  subst htext
  exact Except.ok.inj (hread.symm.trans h)

end Becomes

/-! ## Both settings -/

/-- The settings with another depth and another root scope. -/
def withBoth (s : Settings) (depth : Nat) (rootScope : RootScope) : Settings :=
  { s with maxDepth := depth, rootScope }

/-- How overriding ends, with the settings that it leaves. -/
inductive Overriding (o : Overrides) (s : Settings) :
    EStateM.Result SettingsFault Settings Unit → Prop
  | accepted {n : Nat} {r : RootScope} : Becomes depthOf s.maxDepth o.maxDepth n →
      Becomes RootScope.read s.rootScope o.rootScope r →
      (s.withBoth n r).validate = .ok () → Overriding o s (.ok () (s.withBoth n r))
  | depth {e : SettingsFault} : Unreadable depthOf o.maxDepth e → Overriding o s (.error e s)
  | rootScope {n : Nat} {e : SettingsFault} : Becomes depthOf s.maxDepth o.maxDepth n →
      Unreadable RootScope.read o.rootScope e →
      Overriding o s (.error e (s.withBoth n s.rootScope))
  | invalid {n : Nat} {r : RootScope} {e : SettingsFault} :
      Becomes depthOf s.maxDepth o.maxDepth n → Becomes RootScope.read s.rootScope o.rootScope r →
      (s.withBoth n r).validate = .error e → Overriding o s (.error e (s.withBoth n r))

theorem override_overriding (o : Overrides) (s : Settings) : Overriding o s (override o s) := by
  rw [override]
  rcases s.overrideDepth_cases o.maxDepth with ⟨n, hn, hdepth⟩ | ⟨e, he, hdepth⟩
  · simp only [hdepth]
    rcases ({ s with maxDepth := n } : Settings).overrideRootScope_cases o.rootScope with
      ⟨r, hr, hroot⟩ | ⟨e, he, hroot⟩
    · simp only [hroot]
      change Overriding o s (match (s.withBoth n r).validate with
        | .error e => .error e (s.withBoth n r)
        | .ok _ => .ok () (s.withBoth n r))
      cases hvalid : (s.withBoth n r).validate with
      | ok _ => exact .accepted hn hr hvalid
      | error e => exact .invalid hn hr hvalid
    · simp only [hroot]
      exact .rootScope hn he
  · simp only [hdepth]
    exact .depth he

/-- What is wrong with valid settings once their depth and their root scope are others is the
depth. -/
theorem validate_withBoth (h : s.validate = .ok ()) {n : Nat} {r : RootScope} :
    (s.withBoth n r).validate = if n < 2 then .error .tooShallow else .ok () := by
  have hdirective : isDirective s.reading.nameDirective = true := by
    rw [validate] at h
    split at h
    · cases h
    · split at h
      · cases h
      · next hnot => simpa using hnot
  rw [validate, withBoth]
  simp only [hdirective, Bool.not_true, Bool.false_eq_true, if_false]

theorem le_maxDepth_of_validate (h : s.validate = .ok ()) : 2 ≤ s.maxDepth := by
  rw [validate] at h
  split at h
  · cases h
  · omega

/-- What overriding valid settings does.  It is accepted when both texts can be read and the depth
is two at least, and then the settings hold what was read and differ in nothing else.  A failure
leaves the settings as they were unless there is a depth to be read that is another than the one
before: that depth is left in place then, and with it the root scope if it was the depth that
failed. -/
theorem override_leaves (h : s.validate = .ok ()) (o : Overrides) :
    (∀ s', override o s = .ok () s' ↔ s'.validate = .ok () ∧
      ∃ n r, Becomes depthOf s.maxDepth o.maxDepth n ∧
        Becomes RootScope.read s.rootScope o.rootScope r ∧ s' = s.withBoth n r) ∧
    (∀ e s', override o s = .error e s' →
      (s' = s ↔ ∀ text n, o.maxDepth = some text → depthOf text = .ok n → n = s.maxDepth) ∧
      ∃ n r, s' = s.withBoth n r ∧
        (n = s.maxDepth ∨ Becomes depthOf s.maxDepth o.maxDepth n) ∧
        (r = s.rootScope ∨
          e = .tooShallow ∧ Becomes RootScope.read s.rootScope o.rootScope r)) := by
  have houtcome := override_overriding o s
  generalize override o s = answer at houtcome ⊢
  refine ⟨fun s' => ⟨?_, ?_⟩, ?_⟩
  · rintro rfl
    cases houtcome with
    | @accepted n r hn hr hvalid => exact ⟨hvalid, n, r, hn, hr, rfl⟩
  · rintro ⟨hvalid, n, r, hn, hr, rfl⟩
    cases houtcome with
    | accepted hn' hr' _ => rw [hn.unique hn', hr.unique hr']
    | depth he => exact absurd he hn.not_unreadable
    | rootScope _ he => exact absurd he hr.not_unreadable
    | invalid hn' hr' he =>
      rw [← hn.unique hn', ← hr.unique hr', hvalid] at he
      cases he
  · rintro e s' rfl
    cases houtcome with
    | depth he =>
      refine ⟨⟨fun _ text n htext hread => ?_, fun _ => rfl⟩, s.maxDepth, s.rootScope, rfl,
        .inl rfl, .inl rfl⟩
      obtain ⟨other, hother, herror⟩ := he
      obtain rfl : text = other := Option.some.inj (htext.symm.trans hother)
      cases herror.symm.trans hread
    | @rootScope n _ hn _ =>
      refine ⟨⟨fun hsame text k htext hread => ?_, fun hall => ?_⟩, n, s.rootScope, rfl, .inr hn,
        .inl rfl⟩
      · exact (hn.eq_of_read htext hread).trans (congrArg maxDepth hsame)
      · rw [hn.eq_before hall]
        rfl
    | @invalid n r _ hn hr he =>
      -- the depth before was two at least, and the one that is left is less
      have hdepth := le_maxDepth_of_validate h
      rw [validate_withBoth h] at he
      split at he
      · next hless =>
        obtain rfl : SettingsFault.tooShallow = e := Except.error.inj he
        have hne : n ≠ s.maxDepth := by omega
        exact ⟨⟨fun hsame => absurd (congrArg maxDepth hsame) hne,
          fun hall => absurd (hn.eq_before hall) hne⟩, n, r, rfl, .inr hn, .inr ⟨rfl, hr⟩⟩
      · cases he

/-- A depth is taken over with a root scope.  Where the depth is no number, the settings are as they
were. -/
theorem override_leaves_twelve :
    ({} : Settings).validate = .ok () ∧
    override ⟨some " +12", some "Inherit"⟩ {} =
      .ok () { maxDepth := 12, rootScope := .inherit } ∧
    ∃ s, override ⟨some "deep", some "Inherit"⟩ {} = .error (.depthNotANumber "deep") s ∧
      s = {} := by
  have hvalid : ({} : Settings).validate = .ok () := rfl
  obtain ⟨haccepted, -⟩ := override_leaves hvalid ⟨some " +12", some "Inherit"⟩
  obtain ⟨-, hfailed⟩ := override_leaves hvalid ⟨some "deep", some "Inherit"⟩
  refine ⟨hvalid, (haccepted _).2 ⟨rfl, 12, .inherit, rfl, rfl, rfl⟩, _, rfl, ?_⟩
  refine (hfailed (.depthNotANumber "deep") _ rfl).1.2 fun text n htext hread => ?_
  obtain rfl : "deep" = text := Option.some.inj htext
  cases hread

/-- A depth stays in place when the root scope after it cannot be read, and one that is refused
stays in place itself, so that the settings are not valid any more. -/
theorem override_apart_global :
    ({} : Settings).validate = .ok () ∧
    override ⟨some "12", some "global"⟩ {} =
      .error (.unknownRootScope "global") { maxDepth := 12 } ∧
    ({ maxDepth := 12 } : Settings) ≠ {} ∧
    override ⟨some "1", none⟩ {} = .error .tooShallow { maxDepth := 1 } ∧
    ({ maxDepth := 1 } : Settings).validate = .error .tooShallow :=
  ⟨rfl, rfl, by decide, rfl, rfl⟩

end Settings
end ObjectMarkup
