/-
Feeding a machine one instruction at a time and noting where each leaves it.
-/
import ObjectMarkup.Machine.Step

namespace ObjectMarkup

/-- What one instruction did. -/
structure TraceEntry where
  fault : Option Error
  level : Nat
  isRecording : Bool
deriving Repr

namespace Services

variable {σ : Type} (services : Services σ)

def traceStep (i : Instruction) (m : Machine σ) : Option Error × Machine σ :=
  match services.step i m with
  | .ok () m => (none, m)
  | .error e m => (some e, m)

/-- Feeds the stream to the machine, past failures if `keepGoing` says so. -/
def trace (keepGoing : Bool) : List Instruction → Machine σ → List TraceEntry × Machine σ
  | [], m => ([], m)
  | i :: is, m =>
    let (fault, m) := services.traceStep i m
    let entry : TraceEntry := ⟨fault, m.level, m.isRecording⟩
    if fault.isSome && !keepGoing then ([entry], m)
    else
      let (entries, m) := trace keepGoing is m
      (entry :: entries, m)

end Services
end ObjectMarkup
