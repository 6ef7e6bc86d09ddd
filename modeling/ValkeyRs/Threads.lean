/-
Programs side by side.

A configuration has a program for each thread and a state that they share. A step lets one thread
perform its next operation, so a schedule is a list of threads and what holds for every interleaving
is a statement over all schedules; a thread that has come to its end stays there. The rules are for
what a thread is bound to do: a program is bound to an operation if it performs one of that kind
whatever the answers to the others are.
-/
import ValkeyRs.Prog
import ValkeyRs.Runs

set_option autoImplicit false

namespace ValkeyRs

open Runs

variable {Op : Type} {Res : Op → Type} {ε α β σ ι : Type}

namespace Prog

def advance (h : (o : Op) → σ → Res o × σ) : Prog Op Res ε α → σ → Prog Op Res ε α × σ
  | .pure a, s => (.pure a, s)
  | .fail e, s => (.fail e, s)
  | .op o next, s => (next (h o s).1, (h o s).2)

/-- The program has come to its end. -/
def Ended : Prog Op Res ε α → Prop
  | .op _ _ => False
  | _ => True

instance : (p : Prog Op Res ε α) → Decidable p.Ended
  | .pure _ => .isTrue trivial
  | .fail _ => .isTrue trivial
  | .op _ _ => .isFalse id

theorem advance_perform {h : (o : Op) → σ → Res o × σ} {o : Op} (f : Res o → Prog Op Res ε α) (s : σ) :
    ((Prog.perform o : Prog Op Res ε (Res o)) >>= f).advance h s = (f (h o s).1, (h o s).2) := rfl

end Prog

/-- The programs that are left, and the shared state. -/
structure Config (ι Op : Type) (Res : Op → Type) (ε α σ : Type) where
  threads : ι → Prog Op Res ε α
  shared : σ

namespace Config

variable [DecidableEq ι] {h : (o : Op) → σ → Res o × σ} {c : Config ι Op Res ε α σ}

/-- One thread performs its next operation. -/
def step (h : (o : Op) → σ → Res o × σ) (c : Config ι Op Res ε α σ) (i : ι) :
    Config ι Op Res ε α σ :=
  let r := (c.threads i).advance h c.shared
  ⟨Function.update c.threads i r.1, r.2⟩

theorem step_shared (i : ι) : (c.step h i).shared = ((c.threads i).advance h c.shared).2 := rfl

theorem step_self (i : ι) : (c.step h i).threads i = ((c.threads i).advance h c.shared).1 :=
  Function.update_self ..

theorem step_other {i j : ι} (hj : j ≠ i) : (c.step h i).threads j = c.threads j :=
  Function.update_of_ne hj ..

/-- All threads have come to their ends. -/
def Finished (c : Config ι Op Res ε α σ) : Prop := ∀ i, (c.threads i).Ended

end Config

end ValkeyRs
