/-
Two actions side by side.

A link says which states of two systems belong together.  It says so at a stage: what belongs
together may grow while the actions run, and a stage never goes back.  Two actions are alike when
from states that belong together they end alike, with values that are related or with the same
error, and again in states that belong together, at a later stage.

Alike parts make alike actions (`Alike.bind` and its companions), so that two constructions are
compared call by call.
-/
import ObjectMarkup.Proofs.Action

namespace ObjectMarkup

/-- The pairs of states that belong together, at each stage. -/
structure Link (ι σ τ : Type) where
  le : ι → ι → Prop
  refl : ∀ i, le i i
  trans : ∀ {i j k}, le i j → le j k → le i k
  states : ι → σ → τ → Prop

namespace Link

variable {ι σ τ ε α β γ δ : Type} (L : Link ι σ τ)

/-- Two outcomes that are alike, at a stage not before `i`. -/
inductive Ends (i : ι) (Q : ι → α → β → Prop) :
    EStateM.Result ε σ α → EStateM.Result ε τ β → Prop
  | ok {j : ι} {a : α} {b : β} {s : σ} {t : τ} :
      L.le i j → Q j a b → L.states j s t → Ends i Q (.ok a s) (.ok b t)
  | error {j : ι} {e : ε} {s : σ} {t : τ} :
      L.le i j → L.states j s t → Ends i Q (.error e s) (.error e t)

/-- From states that belong together, at stage `i` or later, the actions end alike. -/
def Alike (i : ι) (Q : ι → α → β → Prop) (x : EStateM ε σ α) (y : EStateM ε τ β) : Prop :=
  ∀ j, L.le i j → ∀ s t, L.states j s t → L.Ends j Q (x s) (y t)

variable {L} {i j : ι} {Q : ι → α → β → Prop} {R : ι → γ → δ → Prop}

theorem Ends.before {r : EStateM.Result ε σ α} {r' : EStateM.Result ε τ β} (hij : L.le i j)
    (h : L.Ends j Q r r') : L.Ends i Q r r' := by
  cases h with
  | ok hjk hQ hs => exact .ok (L.trans hij hjk) hQ hs
  | error hjk hs => exact .error (L.trans hij hjk) hs

/-- What goes on alike from outcomes that are alike ends alike. -/
theorem Ends.bind {x : EStateM ε σ α} {y : EStateM ε τ β} {f : α → EStateM ε σ γ}
    {g : β → EStateM ε τ δ} {s : σ} {t : τ} (hx : L.Ends i Q (x s) (y t))
    (hf : ∀ j a b, L.le i j → Q j a b → L.Alike j R (f a) (g b)) :
    L.Ends i R ((x >>= f) s) ((y >>= g) t) := by
  rw [Action.bind_apply, Action.bind_apply]
  generalize x s = r at hx ⊢
  generalize y t = r' at hx ⊢
  cases hx with
  | error hij hs => exact .error hij hs
  | @ok j a b s' t' hij hab hs => exact (hf j a b hij hab j (L.refl j) s' t' hs).before hij

namespace Alike

theorem later {x : EStateM ε σ α} {y : EStateM ε τ β} (h : L.Alike i Q x y) (hij : L.le i j) :
    L.Alike j Q x y :=
  fun k hjk => h k (L.trans hij hjk)

theorem imp {Q' : ι → α → β → Prop} {x : EStateM ε σ α} {y : EStateM ε τ β}
    (h : L.Alike i Q x y) (hQ : ∀ j a b, L.le i j → Q j a b → Q' j a b) : L.Alike i Q' x y := by
  intro j hij s t hs
  have hends := h j hij s t hs
  generalize x s = r at hends ⊢
  generalize y t = r' at hends ⊢
  cases hends with
  | ok hjk hab hs' => exact .ok hjk (hQ _ _ _ (L.trans hij hjk) hab) hs'
  | error hjk hs' => exact .error hjk hs'

theorem pure {a : α} {b : β} (h : ∀ j, L.le i j → Q j a b) :
    L.Alike i Q (Pure.pure a : EStateM ε σ α) (Pure.pure b : EStateM ε τ β) :=
  fun j hij _ _ hs => .ok (L.refl j) (h j hij) hs

theorem throw (e : ε) :
    L.Alike i Q (MonadExcept.throw e : EStateM ε σ α) (MonadExcept.throw e : EStateM ε τ β) :=
  fun j _ _ _ hs => .error (L.refl j) hs

theorem get :
    L.Alike i L.states (MonadState.get : EStateM ε σ σ) (MonadState.get : EStateM ε τ τ) :=
  fun j _ _ _ hs => .ok (L.refl j) hs hs

theorem update {f : σ → σ} {g : τ → τ}
    (h : ∀ j, L.le i j → ∀ s t, L.states j s t → L.states j (f s) (g t)) :
    L.Alike i (fun _ _ _ => True) (modify f : EStateM ε σ PUnit)
      (modify g : EStateM ε τ PUnit) :=
  fun j hij s t hs => .ok (L.refl j) trivial (h j hij s t hs)

theorem bind {x : EStateM ε σ α} {y : EStateM ε τ β} {f : α → EStateM ε σ γ}
    {g : β → EStateM ε τ δ} (hx : L.Alike i Q x y)
    (hf : ∀ j a b, L.le i j → Q j a b → L.Alike j R (f a) (g b)) :
    L.Alike i R (x >>= f) (y >>= g) :=
  fun j hij s t hs => (hx j hij s t hs).bind fun k a b hjk => hf k a b (L.trans hij hjk)

end Alike
end Link
end ObjectMarkup
