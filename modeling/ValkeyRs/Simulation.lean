/-
Machines that answer requests, and simulation between them.

A machine is a step function that takes a state and a request to a reply and a new state. One
machine simulates another if related states give related replies and stay related. `simulates` is
the induction over a list of requests; the requests may be restricted by a condition on the state
they meet.
-/
import ValkeyRs.Runs

set_option autoImplicit false

open ValkeyRs.Runs

namespace ValkeyRs.Simulation

variable {σ τ ε ρ θ : Type} {step : σ → ε → ρ × σ} {step' : τ → ε → θ × τ}

def replies (step : σ → ε → ρ × σ) : σ → List ε → List ρ
  | _, [] => []
  | s, e :: es => (step s e).1 :: replies step (step s e).2 es

def advance (step : σ → ε → ρ × σ) (s : σ) (e : ε) : σ := (step s e).2

def final (step : σ → ε → ρ × σ) : σ → List ε → σ := run (advance step)

theorem simulates {R : σ → τ → Prop} {A : ρ → θ → Prop} {C : σ → ε → Prop}
    (hstep : ∀ s t e, C s e → R s t →
      A (step s e).1 (step' t e).1 ∧ R (step s e).2 (step' t e).2)
    {s : σ} {t : τ} {es : List ε} (hs : R s t) (hes : Along (advance step) C s es) :
    List.Forall₂ A (replies step s es) (replies step' t es) ∧
      R (final step s es) (final step' t es) := by
  induction es generalizing s t with
  | nil => exact ⟨.nil, hs⟩
  | cons e es ih =>
    obtain ⟨hreply, hnext⟩ := hstep s t e hes.1 hs
    obtain ⟨hreplies, hfinal⟩ := ih hnext hes.2
    exact ⟨.cons hreply hreplies, hfinal⟩

/-- Where a step from related states leads to related replies and states exactly under a condition,
so does a whole list of requests, with all its beginnings. `I` is what every step keeps, related or
not. -/
theorem simulates_iff {R : σ → τ → Prop} {A : ρ → θ → Prop} {C : σ → ε → Prop} {P : ε → Prop}
    {I : σ → Prop} (hI : ∀ s e, P e → I s → I (step s e).2)
    (hstep : ∀ s t e, P e → I s → R s t →
      ((A (step s e).1 (step' t e).1 ∧ R (step s e).2 (step' t e).2) ↔ C s e))
    {s : σ} {t : τ} {es : List ε} (hes : ∀ e ∈ es, P e) (hs : I s) (hst : R s t) :
    (∀ n, List.Forall₂ A (replies step s (es.take n)) (replies step' t (es.take n)) ∧
        R (final step s (es.take n)) (final step' t (es.take n))) ↔
      Along (advance step) C s es := by
  induction es generalizing s t with
  | nil =>
    refine iff_of_true (fun n => ?_) trivial
    rw [List.take_nil]
    exact ⟨.nil, hst⟩
  | cons e es ih =>
    have he := hes e List.mem_cons_self
    have hrest : ∀ e' ∈ es, P e' := fun e' he' => hes e' (List.mem_cons_of_mem e he')
    constructor
    · intro h
      -- the first step, from the beginning of length one
      obtain ⟨hreplies, hfinal⟩ := h 1
      have hfirst := (List.forall₂_cons.mp hreplies).1
      refine ⟨(hstep s t e he hs hst).mp ⟨hfirst, hfinal⟩, ?_⟩
      refine (ih hrest (hI s e he hs) hfinal).mp fun n => ?_
      obtain ⟨hreplies, hfinal⟩ := h (n + 1)
      exact ⟨(List.forall₂_cons.mp hreplies).2, hfinal⟩
    · rintro ⟨hc, hlater⟩ n
      cases n with
      | zero => exact ⟨.nil, hst⟩
      | succ n =>
        obtain ⟨hfirst, hnext⟩ := (hstep s t e he hs hst).mpr hc
        obtain ⟨hreplies, hfinal⟩ := (ih hrest (hI s e he hs) hnext).mpr hlater n
        exact ⟨.cons hfirst hreplies, hfinal⟩

end ValkeyRs.Simulation
