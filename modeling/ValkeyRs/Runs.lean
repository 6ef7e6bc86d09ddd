/-
Runs of a deterministic step function.

A run is a list of events, folded over a state. Events that cannot happen are steps that change
nothing, so every list of events is a run and "for every interleaving" is a quantifier over lists.
Two notions say what happens on the way: `Along C` that every event meets `C` in the state in which
it is taken, and `Occurs D` that some event does so for `D`. The rules are the induction over a run
(`run_invariant`, `Along.invariant`) and the one for a run in which something has to happen first
(`Along.after`).
-/
import Mathlib

set_option autoImplicit false

namespace ValkeyRs.Runs

variable {σ ε : Type} {step : σ → ε → σ} {C D : σ → ε → Prop} {I J : σ → Prop}

/-- The state after a list of events. -/
def run (step : σ → ε → σ) (s : σ) (es : List ε) : σ := es.foldl step s

@[simp] theorem run_nil (s : σ) : run step s [] = s := rfl

@[simp] theorem run_cons (s : σ) (e : ε) (es : List ε) :
    run step s (e :: es) = run step (step s e) es := rfl

theorem run_append (s : σ) (es es' : List ε) :
    run step s (es ++ es') = run step (run step s es) es' := List.foldl_append

variable {s : σ} {es : List ε}

theorem run_invariant (hI : ∀ s e, I s → I (step s e)) (es : List ε) (hs : I s) :
    I (run step s es) := by
  induction es generalizing s with
  | nil => exact hs
  | cons e es ih => exact ih (hI s e hs)

/-- Every event meets `C` in the state in which it is taken. -/
def Along (step : σ → ε → σ) (C : σ → ε → Prop) : σ → List ε → Prop
  | _, [] => True
  | s, e :: es => C s e ∧ Along step C (step s e) es

/-- Some event meets `D` in the state in which it is taken. -/
def Occurs (step : σ → ε → σ) (D : σ → ε → Prop) : σ → List ε → Prop
  | _, [] => False
  | s, e :: es => D s e ∨ Occurs step D (step s e) es

theorem along_of_forall {P : ε → Prop} (h : ∀ e ∈ es, P e) : Along step (fun _ e => P e) s es := by
  induction es generalizing s with
  | nil => trivial
  | cons e es ih =>
    exact ⟨h e List.mem_cons_self, ih fun e' he' => h e' (List.mem_cons_of_mem _ he')⟩

theorem Along.and (h : Along step C s es) (h' : Along step D s es) :
    Along step (fun s e => C s e ∧ D s e) s es := by
  induction es generalizing s with
  | nil => trivial
  | cons e es ih => exact ⟨⟨h.1, h'.1⟩, ih h.2 h'.2⟩

/-- What every step with `C` keeps holds at the end of a run of such steps. -/
theorem Along.invariant (hI : ∀ s e, C s e → I s → I (step s e))
    (h : Along step C s es) (hs : I s) : I (run step s es) := by
  induction es generalizing s with
  | nil => exact hs
  | cons e es ih => exact ih h.2 (hI s e h.1 hs)

/-- What every step with `C` from a state with `I` meets, if all of them keep `I`. -/
theorem Along.always (hI : ∀ s e, C s e → I s → D s e ∧ I (step s e))
    (h : Along step C s es) (hs : I s) : Along step D s es := by
  induction es generalizing s with
  | nil => trivial
  | cons e es ih =>
    obtain ⟨hD, hnext⟩ := hI s e h.1 hs
    exact ⟨hD, ih h.2 hnext⟩

/-- What every step keeps, and what a step with `D` brings about, holds at the end of a run in
which `D` occurs. -/
theorem Along.after (hI : ∀ s e, C s e → I s → I (step s e) ∨ J (step s e))
    (hD : ∀ s e, C s e → I s → D s e → J (step s e)) (hJ : ∀ s e, C s e → J s → J (step s e))
    (h : Along step C s es) (hs : I s) (hocc : Occurs step D s es) :
    J (run step s es) := by
  induction es generalizing s with
  | nil => exact hocc.elim
  | cons e es ih =>
    rw [run_cons]
    rcases hocc with hnow | hlater
    · exact h.2.invariant hJ (hD s e h.1 hs hnow)
    · rcases hI s e h.1 hs with hs' | hs'
      · exact ih h.2 hs' hlater
      · exact h.2.invariant hJ hs'

/-- What no step with `C` does from a state with `I`, which all of them keep, does not occur. -/
theorem Along.not_occurs (hI : ∀ s e, C s e → I s → ¬ D s e ∧ I (step s e))
    (h : Along step C s es) (hs : I s) : ¬ Occurs step D s es := by
  induction es generalizing s with
  | nil => exact fun h => h
  | cons e es ih =>
    obtain ⟨hnow, hnext⟩ := hI s e h.1 hs
    rintro (hD | hD)
    · exact hnow hD
    · exact ih h.2 hnext hD

/-- A run in which not every event meets `C` has an event that does not. -/
theorem occurs_of_not_along (h : ¬ Along step C s es) : Occurs step (fun s e => ¬ C s e) s es := by
  induction es generalizing s with
  | nil => exact absurd trivial h
  | cons e es ih =>
    by_cases he : C s e
    · exact .inr (ih fun hrest => h ⟨he, hrest⟩)
    · exact .inl he

/-- Two conditions on events that agree where `I` holds, if the second keeps `I`, agree on runs. -/
theorem along_congr (hI : ∀ s e, I s → D s e → I (step s e)) (h : ∀ s e, I s → (C s e ↔ D s e))
    (hs : I s) : Along step C s es ↔ Along step D s es := by
  induction es generalizing s with
  | nil => exact Iff.rfl
  | cons e es ih =>
    constructor
    · intro hC
      have hD := (h s e hs).mp hC.1
      exact ⟨hD, (ih (hI s e hs hD)).mp hC.2⟩
    · intro hD
      exact ⟨(h s e hs).mpr hD.1, (ih (hI s e hs hD.1)).mpr hD.2⟩

/-- When an event keeps `I` exactly if it meets `D`, every state that is reached has `I` exactly if
every event meets `D`. -/
theorem along_always_iff (h : ∀ s e, I s → (I (step s e) ↔ D s e))
    (hs : I s) : Along step (fun s e => I (step s e)) s es ↔ Along step D s es :=
  along_congr (fun s e hI hD => (h s e hI).mpr hD) h hs

/-- `J` holds at the end of a run in which an event `D` has led to it, when every step keeps it. -/
theorem run_after (hI : ∀ s e, I s → I (step s e)) (hD : ∀ s e, I s → D s e → J (step s e))
    (hJ : ∀ s e, J s → J (step s e)) (hs : I s) (h : Occurs step D s es) : J (run step s es) := by
  induction es generalizing s with
  | nil => exact h.elim
  | cons e es ih =>
    rcases h with hnow | hlater
    · exact run_invariant hJ es (hD s e hs hnow)
    · exact ih (hI s e hs) hlater

end ValkeyRs.Runs
