import Grove.Failure

/-!
# Attempts

The service works on a state that outlives its requests. An attempt reads and changes such
a state and may fail. A failure undoes nothing: what was changed before it stays changed,
and the next attempt starts from there.
-/

namespace Grove

abbrev Attempt (σ : Type) : Type → Type := ExceptT Failure (StateM σ)

namespace Attempt

variable {σ τ α : Type}

/-- What comes of the attempt in a state, and the state that it leaves. -/
def outcome (x : Attempt σ α) (s : σ) : Except Failure α × σ := (StateT.run (ExceptT.run x) s).run

def ofOutcome (f : σ → Except Failure α × σ) : Attempt σ α := ExceptT.mk fun s => pure (f s)

/-- The attempt on a part of a larger state; `put` writes the part back. -/
def within (part : τ → σ) (put : τ → σ → τ) (x : Attempt σ α) : Attempt τ α :=
  ofOutcome fun t => ((x.outcome (part t)).1, put t (x.outcome (part t)).2)

@[simp] theorem outcome_ofOutcome (f : σ → Except Failure α × σ) (s : σ) :
    (ofOutcome f).outcome s = f s := rfl

theorem outcome_within (part : τ → σ) (put : τ → σ → τ) (x : Attempt σ α) (t : τ) :
    (x.within part put).outcome t = ((x.outcome (part t)).1, put t (x.outcome (part t)).2) := rfl

end Attempt

end Grove
