/-
What the parts of an action do to a state.  With these equations `simp` carries an action out one
operation after the other, and stops at the calls whose outcome is open.

`Action.Ends` says what an action can end with, whatever state it starts from.  An answer, which has
no state, is taken apart by the equations of `Answer`.
-/
import ObjectMarkup.World

namespace ObjectMarkup

/-! ## Answers -/

namespace Answer

variable {ε α β : Type}

@[simp] theorem bind_eq_ok {x : Except ε α} {f : α → Except ε β} {b : β} :
    (x >>= f) = .ok b ↔ ∃ a, x = .ok a ∧ f a = .ok b := by
  cases x <;> simp [bind, Except.bind]

theorem bind_eq_error {x : Except ε α} {f : α → Except ε β} {e : ε} :
    (x >>= f) = .error e ↔ x = .error e ∨ ∃ a, x = .ok a ∧ f a = .error e := by
  cases x <;> simp [bind, Except.bind]

@[simp] theorem pure_eq_ok {a b : α} : (pure a : Except ε α) = .ok b ↔ a = b := by
  simp [pure, Except.pure]

@[simp] theorem throw_ne_ok {e : ε} {a : α} : (throw e : Except ε α) ≠ .ok a := by
  simp [throw, throwThe, MonadExceptOf.throw]

@[simp] theorem map_eq_ok {x : Except ε α} {f : α → β} {b : β} :
    x.map f = .ok b ↔ ∃ a, x = .ok a ∧ f a = b := by
  cases x <;> simp [Except.map]

end Answer

/-! ## Actions -/

namespace Action

variable {ε σ α β : Type} (s : σ)

@[simp] theorem pure_apply (a : α) : (pure a : EStateM ε σ α) s = .ok a s := rfl

@[simp] theorem bind_apply (x : EStateM ε σ α) (f : α → EStateM ε σ β) :
    (x >>= f) s = match x s with
      | .ok a s => f a s
      | .error e s => .error e s := rfl

@[simp] theorem map_apply (f : α → β) (x : EStateM ε σ α) :
    (f <$> x) s = match x s with
      | .ok a s => .ok (f a) s
      | .error e s => .error e s := rfl

@[simp] theorem get_apply : (get : EStateM ε σ σ) s = .ok s s := rfl

@[simp] theorem set_apply (t : σ) : (set t : EStateM ε σ PUnit) s = .ok ⟨⟩ t := rfl

@[simp] theorem modify_apply (f : σ → σ) : (modify f : EStateM ε σ PUnit) s = .ok ⟨⟩ (f s) := rfl

@[simp] theorem throw_apply (e : ε) : (throw e : EStateM ε σ α) s = .error e s := rfl

theorem bind_eq_ok {x : EStateM ε σ α} {f : α → EStateM ε σ β} {b : β} {s'' : σ} :
    (x >>= f) s = .ok b s'' ↔ ∃ a s', x s = .ok a s' ∧ f a s' = .ok b s'' := by
  rw [bind_apply]
  cases x s <;> simp [and_assoc]

end Action

/-! ## What an action ends with -/

/-- The action ends with a value of `Q` or an error of `P`. -/
def Action.Ends {ε σ α : Type} (x : EStateM ε σ α) (Q : α → Prop) (P : ε → Prop) : Prop :=
  ∀ s, match x s with
    | .ok a _ => Q a
    | .error e _ => P e

namespace Action.Ends

variable {ε σ α β : Type} {Q : α → Prop} {R : β → Prop} {P : ε → Prop}

theorem value {x : EStateM ε σ α} (h : Ends x Q P) {s s' : σ} {a : α} (hx : x s = .ok a s') :
    Q a := by
  have := h s
  simpa [hx] using this

theorem error {x : EStateM ε σ α} (h : Ends x Q P) {s s' : σ} {e : ε} (hx : x s = .error e s') :
    P e := by
  have := h s
  simpa [hx] using this

theorem pure {a : α} (h : Q a) : Ends (Pure.pure a : EStateM ε σ α) Q P := fun _ => h

theorem throw {e : ε} (h : P e) : Ends (MonadExcept.throw e : EStateM ε σ α) Q P := fun _ => h

theorem get : Ends (MonadState.get : EStateM ε σ σ) (fun _ => True) P := fun _ => trivial

theorem set {s : σ} : Ends (MonadStateOf.set s : EStateM ε σ PUnit) (fun _ => True) P :=
  fun _ => trivial

theorem update {f : σ → σ} : Ends (modify f : EStateM ε σ PUnit) (fun _ => True) P :=
  fun _ => trivial

theorem bind {x : EStateM ε σ α} {f : α → EStateM ε σ β} (hx : Ends x Q P)
    (hf : ∀ a, Q a → Ends (f a) R P) : Ends (x >>= f) R P := by
  intro s
  rw [bind_apply]
  cases h : x s with
  | ok a s' => exact hf a (hx.value h) s'
  | error e s' => exact hx.error h

end Action.Ends

namespace Build

open ObjectMarkup.Action (Ends)

variable {σ α ε : Type} {Q : α → Prop} {P : Error → Prop}

theorem always_ends (act : World σ → α × World σ) : Ends (Build.always act) (fun _ => True) P :=
  fun _ => trivial

theorem ofExcept_ends {answer : World σ → Except Error α}
    (hQ : ∀ w a, answer w = .ok a → Q a) (hP : ∀ w e, answer w = .error e → P e) :
    Ends (Build.ofExcept answer) Q P := by
  intro w
  rw [ofExcept]
  cases h : answer w with
  | ok a => exact hQ w a h
  | error e => exact hP w e h

theorem onHeap_ends {wrap : ε → Error} {act : EStateM ε σ α}
    (h : Ends act Q fun e => P (wrap e)) : Ends (Build.onHeap wrap act) Q P := by
  intro w
  rw [onHeap]
  cases hact : act w.heap with
  | ok a heap => exact h.value hact
  | error e heap => exact h.error hact

theorem onHeap_ends_of_wrap {wrap : ε → Error} {act : EStateM ε σ α} (h : ∀ e, P (wrap e)) :
    Ends (Build.onHeap wrap act) (fun _ => True) P :=
  onHeap_ends fun heap => by
    cases act heap with
    | ok a heap => trivial
    | error e heap => exact h e

theorem ofExcept_eq_ok {answer : World σ → Except Error α} {w w' : World σ} {a : α}
    (h : Build.ofExcept answer w = .ok a w') : answer w = .ok a ∧ w' = w := by
  rw [ofExcept] at h
  split at h
  · next b hanswer =>
    cases h
    exact ⟨hanswer, rfl⟩
  · cases h

end Build

/-! ## What an action does to the state -/

/-- The states before and after the action, if it succeeds, are related by `R`. -/
def Action.Moves {ε σ α : Type} (R : σ → σ → Prop) (x : EStateM ε σ α) : Prop :=
  ∀ s a s', x s = .ok a s' → R s s'

namespace Action.Moves

variable {ε σ α β : Type} {R : σ → σ → Prop}

theorem pure [Std.Refl R] (a : α) : Moves R (Pure.pure a : EStateM ε σ α) := by
  intro s b s' h
  cases h
  exact Std.Refl.refl s

theorem get [Std.Refl R] : Moves R (MonadState.get : EStateM ε σ σ) := by
  intro s b s' h
  cases h
  exact Std.Refl.refl s

theorem throw (e : ε) : Moves R (MonadExcept.throw e : EStateM ε σ α) := by
  intro s b s' h
  cases h

theorem bind [Trans R R R] {x : EStateM ε σ α} {f : α → EStateM ε σ β} (hx : Moves R x)
    (hf : ∀ a, Moves R (f a)) : Moves R (x >>= f) := by
  intro s b s'' h
  obtain ⟨a, s', hxs, hfs⟩ := (bind_eq_ok s).1 h
  exact Trans.trans (hx s a s' hxs) (hf a s' b s'' hfs)

end Action.Moves

/-- The state that an action leaves, whatever it ends with. -/
def Action.endState {ε σ α : Type} : EStateM.Result ε σ α → σ
  | .ok _ s => s
  | .error _ s => s

/-- The state that an action leaves if it succeeds. -/
def Action.success? {ε σ α : Type} : EStateM.Result ε σ α → Option σ
  | .ok _ s => some s
  | .error _ _ => none

/-- The states before and after the action are related by `R`, whatever it ends with. -/
def Action.Leaves {ε σ α : Type} (R : σ → σ → Prop) (x : EStateM ε σ α) : Prop :=
  ∀ s, R s (endState (x s))

namespace Action

variable {ε σ α β : Type} {R : σ → σ → Prop}

/-- Of an action whose success passes a test the outcome is known. -/
theorem of_success? {r : EStateM.Result ε σ Unit} {test : σ → Bool}
    (h : (success? r).any test = true) : ∃ s, r = .ok () s ∧ test s = true := by
  cases r with
  | ok _ s => exact ⟨s, rfl, h⟩
  | error _ _ => cases h

theorem endState_bind (x : EStateM ε σ α) (f : α → EStateM ε σ β) (s : σ) :
    endState ((x >>= f) s) = match x s with
      | .ok a s => endState (f a s)
      | .error _ s => s := by
  rw [bind_apply]
  cases x s <;> rfl

namespace Leaves

theorem of_ok {x : EStateM ε σ α} (h : Leaves R x) {s s' : σ} {a : α} (hx : x s = .ok a s') :
    R s s' := by
  have hs := h s
  rwa [hx] at hs

theorem of_error {x : EStateM ε σ α} (h : Leaves R x) {s s' : σ} {e : ε}
    (hx : x s = .error e s') : R s s' := by
  have hs := h s
  rwa [hx] at hs

theorem pure [Std.Refl R] (a : α) : Leaves R (Pure.pure a : EStateM ε σ α) :=
  fun s => Std.Refl.refl s

theorem get [Std.Refl R] : Leaves R (MonadState.get : EStateM ε σ σ) :=
  fun s => Std.Refl.refl s

theorem throw [Std.Refl R] (e : ε) : Leaves R (MonadExcept.throw e : EStateM ε σ α) :=
  fun s => Std.Refl.refl s

theorem update {f : σ → σ} (hf : ∀ s, R s (f s)) :
    Leaves R (modify f : EStateM ε σ PUnit) := hf

theorem bind [Trans R R R] {x : EStateM ε σ α} {f : α → EStateM ε σ β} (hx : Leaves R x)
    (hf : ∀ a, Leaves R (f a)) : Leaves R (x >>= f) := by
  intro s
  rw [endState_bind]
  cases h : x s with
  | error e s' => exact hx.of_error h
  | ok a s' => exact Trans.trans (hx.of_ok h) (hf a s')

end Leaves
end Action

namespace Build

open ObjectMarkup.Action (Leaves)

variable {σ α : Type} {R : World σ → World σ → Prop}

theorem always_leaves {act : World σ → α × World σ} (h : ∀ w, R w (act w).2) :
    Leaves R (Build.always act) := h

end Build
end ObjectMarkup
