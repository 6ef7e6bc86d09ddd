/-
Weakest preconditions of programs over atomic operations.

Where a contract says what a program may ask for, `Wp` says what becomes of the state. The state is
an abstraction of the real one, and an operation is given by a relation: from this state it may
answer that and leave this other state. Whatever the abstraction forgets shows as a choice between
answers. `Wp may p Q s` says that every way of answering leads from `s` to an end that satisfies
`Q`.
-/
import ValkeyRs.Prog

set_option autoImplicit false

namespace ValkeyRs.Prog

variable {Op : Type} {Res : Op → Type} {ε α β : Type} {σ τ : Type}

/-- Every run of the program from the state ends in `Q`, whatever the operations answer. -/
def Wp (may : (o : Op) → σ → Res o → σ → Prop) :
    Prog Op Res ε α → (Except ε α → σ → Prop) → σ → Prop
  | .pure a, Q, s => Q (.ok a) s
  | .fail e, Q, s => Q (.error e) s
  | .op o next, Q, s => ∀ r s', may o s r s' → (next r).Wp may Q s'

/-- What is left to show of a sequence when its first part has ended. -/
def andThen (may : (o : Op) → σ → Res o → σ → Prop) (f : α → Prog Op Res ε β)
    (Q : Except ε β → σ → Prop) : Except ε α → σ → Prop
  | .ok a, s => (f a).Wp may Q s
  | .error e, s => Q (.error e) s

section Rules

variable {may : (o : Op) → σ → Res o → σ → Prop} {p : Prog Op Res ε α}
  {Q R : Except ε α → σ → Prop} {s : σ}

theorem Wp.mono (h : p.Wp may Q s) (hQR : ∀ r s', Q r s' → R r s') : p.Wp may R s := by
  induction p generalizing s with
  | pure a => exact hQR _ _ h
  | fail e => exact hQR _ _ h
  | op o next ih =>
    intro r s' hr
    exact ih r (h r s' hr)

theorem wp_bind {f : α → Prog Op Res ε β} {Q : Except ε β → σ → Prop} :
    (p >>= f).Wp may Q s ↔ p.Wp may (andThen may f Q) s := by
  induction p generalizing s with
  | pure a => exact Iff.rfl
  | fail e => exact Iff.rfl
  | op o next ih => exact forall_congr' fun r => forall_congr' fun s' => imp_congr_right fun _ => ih r

theorem Wp.bind {f : α → Prog Op Res ε β} {Q : Except ε β → σ → Prop} (h : p.Wp may R s)
    (hok : ∀ a s', R (.ok a) s' → (f a).Wp may Q s')
    (herror : ∀ e s', R (.error e) s' → Q (.error e) s') : (p >>= f).Wp may Q s := by
  refine wp_bind.mpr (h.mono fun r s' hr => ?_)
  cases r with
  | ok a => exact hok a s' hr
  | error e => exact herror e s' hr

theorem wp_perform_bind {o : Op} {f : Res o → Prog Op Res ε α} :
    ((Prog.perform o : Prog Op Res ε (Res o)) >>= f).Wp may Q s ↔
      ∀ r s', may o s r s' → (f r).Wp may Q s' := Iff.rfl

theorem Wp.ite {c : Prop} [Decidable c] {q : Prog Op Res ε α} (hp : c → p.Wp may Q s)
    (hq : ¬ c → q.Wp may Q s) : (if c then p else q).Wp may Q s := by
  split
  · exact hp ‹_›
  · exact hq ‹_›

/-- A coarser view of the state allows more: what holds there holds of the finer one. `I` is what
is known of the finer state on the way. -/
theorem Wp.refine {may' : (o : Op) → τ → Res o → τ → Prop} {g : σ → τ} {I : σ → Prop}
    (hmay : ∀ o s r s', I s → may o s r s' → may' o (g s) r (g s') ∧ I s')
    {Q : Except ε α → τ → Prop} (h : p.Wp may' Q (g s)) (hs : I s) :
    p.Wp may (fun r s' => Q r (g s')) s := by
  induction p generalizing s with
  | pure a => exact h
  | fail e => exact h
  | op o next ih =>
    intro r s' hr
    obtain ⟨hr', hs'⟩ := hmay o s r s' hs hr
    exact ih r (h r _ hr') hs'

theorem wp_handler (h : (o : Op) → σ → Res o × σ) :
    p.Wp (fun o s r s' => h o s = (r, s')) Q s ↔ Q (p.run h s).1 (p.run h s).2 := by
  induction p generalizing s with
  | pure a => exact Iff.rfl
  | fail e => exact Iff.rfl
  | op o next ih =>
    rw [Wp, Prog.run, ← ih]
    constructor
    · intro hwp
      exact hwp _ _ rfl
    · rintro hwp r s' hr
      rw [hr] at hwp
      exact hwp

/-- **Soundness.** What every way of answering leads to is what a run of a handler leads to, if the
handler does what is allowed, as seen from the abstraction. -/
theorem Wp.run {h : (o : Op) → τ → Res o × τ} {g : τ → σ} {I : τ → Prop}
    (hh : ∀ o c, I c → may o (g c) (h o c).1 (g (h o c).2) ∧ I (h o c).2) {c : τ}
    (hp : p.Wp may Q (g c)) (hc : I c) : Q (p.run h c).1 (g (p.run h c).2) := by
  have hfine : p.Wp (fun o c r c' => h o c = (r, c')) (fun r c' => Q r (g c')) c := by
    refine hp.refine (I := I) (fun o c r c' hI heq => ?_) hc
    have hstep := hh o c hI
    rw [heq] at hstep
    exact hstep
  exact (wp_handler h).mp hfine

end Rules

end ValkeyRs.Prog
