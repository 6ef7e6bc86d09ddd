/-
Programs over atomic operations.

A `Prog` is a tree: it returns, it fails, or it performs one operation and continues with the
answer. What an operation does to the state is said elsewhere, by a handler, and each operation is
one atomic step. A `Contract` says which operations a program may perform and what it may assume of
their answers; that a program meets a contract (`Meets`) is shown on the tree alone, by following
its text. A contract may also name operations with which its concern is over: behind one of them the
program is free. A handler is then checked against the contract once per operation, and the rule
`Meets.run` carries the result over to every run of every program, for an invariant of the state.
-/
import Mathlib

set_option autoImplicit false

namespace ValkeyRs

universe u

/-- A program with operations `Op`, whose answers have type `Res`, and failures `ε`. -/
inductive Prog (Op : Type) (Res : Op → Type) (ε α : Type) where
  | pure (a : α)
  | fail (e : ε)
  | op (o : Op) (next : Res o → Prog Op Res ε α)

namespace Prog

variable {Op : Type} {Res : Op → Type} {ε α β : Type} {σ : Type}

/-! ## Sequencing -/

def bind : Prog Op Res ε α → (α → Prog Op Res ε β) → Prog Op Res ε β
  | .pure a, f => f a
  | .fail e, _ => .fail e
  | .op o next, f => .op o fun r => (next r).bind f

instance : Monad (Prog Op Res ε) where
  pure := .pure
  bind := .bind

/-- One operation. -/
def perform (o : Op) : Prog Op Res ε (Res o) := .op o .pure

/-- A computation without operations. -/
def ofExcept : Except ε α → Prog Op Res ε α
  | .ok a => .pure a
  | .error e => .fail e

instance : MonadLift (Except ε) (Prog Op Res ε) := ⟨ofExcept⟩

@[simp] theorem pure_bind (a : α) (f : α → Prog Op Res ε β) :
    ((Prog.pure a : Prog Op Res ε α) >>= f) = f a := rfl

@[simp] theorem pure'_bind (a : α) (f : α → Prog Op Res ε β) :
    ((Pure.pure a : Prog Op Res ε α) >>= f) = f a := rfl

@[simp] theorem fail_bind (e : ε) (f : α → Prog Op Res ε β) :
    ((Prog.fail e : Prog Op Res ε α) >>= f) = .fail e := rfl

@[simp] theorem op_bind (o : Op) (next : Res o → Prog Op Res ε α) (f : α → Prog Op Res ε β) :
    (Prog.op o next >>= f) = .op o fun r => next r >>= f := rfl

theorem bind_assoc {γ : Type} (p : Prog Op Res ε α) (f : α → Prog Op Res ε β)
    (g : β → Prog Op Res ε γ) : p >>= f >>= g = p >>= fun a => f a >>= g := by
  induction p with
  | pure a => rfl
  | fail e => rfl
  | op o next ih => exact congrArg (Prog.op o) (funext ih)

instance : LawfulMonad (Prog Op Res ε) := LawfulMonad.mk' _
  (fun p => by
    induction p with
    | pure a => rfl
    | fail e => rfl
    | op o next ih => exact congrArg (Prog.op o) (funext ih))
  (fun _ _ => rfl) bind_assoc

theorem bind_eq_ok {x : Except ε α} {f : α → Except ε β} {b : β} (h : x >>= f = .ok b) :
    ∃ a, x = .ok a ∧ f a = .ok b := by
  cases x with
  | error e => cases h
  | ok a => exact ⟨a, rfl, h⟩

theorem lift_bind (x : Except ε α) (f : α → Except ε β) :
    (liftM (x >>= f) : Prog Op Res ε β) = liftM x >>= fun a => liftM (f a) := by
  cases x <;> rfl

theorem lift_pure_bind (a : α) (f : α → Prog Op Res ε β) :
    (liftM (Pure.pure a : Except ε α) : Prog Op Res ε α) >>= f = f a := rfl

theorem lift_ite (c : Prop) [Decidable c] (x y : Except ε α) :
    (liftM (if c then x else y) : Prog Op Res ε α) = if c then liftM x else liftM y := by
  split <;> rfl

theorem ite_bind (c : Prop) [Decidable c] (p q : Prog Op Res ε α) (f : α → Prog Op Res ε β) :
    (if c then p else q) >>= f = if c then p >>= f else q >>= f := by
  split <;> rfl

/-! ## Running -/

/-- Run a program to its end. A failure keeps what was done before it. -/
def run (h : (o : Op) → σ → Res o × σ) : Prog Op Res ε α → σ → Except ε α × σ
  | .pure a, s => (.ok a, s)
  | .fail e, s => (.error e, s)
  | .op o next, s => run h (next (h o s).1) (h o s).2

theorem run_bind (h : (o : Op) → σ → Res o × σ) (p : Prog Op Res ε α)
    (f : α → Prog Op Res ε β) (s : σ) :
    (p >>= f).run h s = match p.run h s with
      | (.ok a, s') => (f a).run h s'
      | (.error e, s') => (.error e, s') := by
  induction p generalizing s with
  | pure a => rfl
  | fail e => rfl
  | op o next ih => exact ih _ _

/-! ## Contracts -/

/-- Which operations a program may perform, what it may assume of each answer, and which
operations release it from the contract. -/
structure Contract (Op : Type) (Res : Op → Type) where
  asks : Op → Prop
  gets : (o : Op) → Res o → Prop
  stops : Op → Prop := fun _ => False

/-- Every operation of the program up to a releasing one is allowed by the contract, and what it
returns satisfies `Q`, as long as the answers are what the contract says. A failure meets any
contract. -/
def Meets (C : Contract Op Res) : Prog Op Res ε α → (α → Prop) → Prop
  | .pure a, Q => Q a
  | .fail _, _ => True
  | .op o next, Q => C.stops o ∨ C.asks o ∧ ∀ r, C.gets o r → (next r).Meets C Q

namespace Meets

variable {C : Contract Op Res} {p : Prog Op Res ε α} {P Q : α → Prop}

theorem pure {a : α} (h : Q a) : (Pure.pure a : Prog Op Res ε α).Meets C Q := h

theorem fail (e : ε) : (Prog.fail e : Prog Op Res ε α).Meets C Q := trivial

theorem perform {o : Op} {Q : Res o → Prop} (ho : C.asks o) (hQ : ∀ r, C.gets o r → Q r) :
    (Prog.perform o : Prog Op Res ε (Res o)).Meets C Q := .inr ⟨ho, hQ⟩

theorem perform_bind {o : Op} {f : Res o → Prog Op Res ε α} (ho : C.stops o) :
    ((Prog.perform o : Prog Op Res ε (Res o)) >>= f).Meets C Q := .inl ho

theorem mono (h : p.Meets C P) (hPQ : ∀ a, P a → Q a) : p.Meets C Q := by
  induction p with
  | pure a => exact hPQ a h
  | fail e => trivial
  | op o next ih =>
    rcases h with h | ⟨ho, h⟩
    · exact .inl h
    · exact .inr ⟨ho, fun r hr => ih r (h r hr)⟩

theorem bind {f : α → Prog Op Res ε β} {R : β → Prop} (h : p.Meets C P)
    (hf : ∀ a, P a → (f a).Meets C R) : (p >>= f).Meets C R := by
  induction p with
  | pure a => exact hf a h
  | fail e => trivial
  | op o next ih =>
    rcases h with h | ⟨ho, h⟩
    · exact .inl h
    · exact .inr ⟨ho, fun r hr => ih r (h r hr)⟩

theorem lift_bind {x : Except ε α} {f : α → Prog Op Res ε β} {R : β → Prop}
    (h : ∀ a, x = .ok a → (f a).Meets C R) :
    ((liftM x : Prog Op Res ε α) >>= f).Meets C R := by
  cases x with
  | ok a => exact h a rfl
  | error e => trivial

theorem ite {c : Prop} [Decidable c] {q : Prog Op Res ε α} (hp : c → p.Meets C Q)
    (hq : ¬ c → q.Meets C Q) : (if c then p else q).Meets C Q := by
  split
  · exact hp ‹_›
  · exact hq ‹_›

end Meets

/-- **Invariants.** A handler that keeps an invariant for every allowed operation, and
answers as the contract says, keeps it over every run of a program that meets the
contract, if nothing releases the program from it. -/
theorem Meets.run {C : Contract Op Res} (hC : ∀ o, ¬ C.stops o) {h : (o : Op) → σ → Res o × σ}
    {I : σ → Prop} (hh : ∀ o s, C.asks o → I s → C.gets o (h o s).1 ∧ I (h o s).2)
    {p : Prog Op Res ε α} {Q : α → Prop} (hp : p.Meets C Q) {s : σ} (hs : I s) :
    I (p.run h s).2 ∧ ∀ a, (p.run h s).1 = .ok a → Q a := by
  induction p generalizing s with
  | pure a => exact ⟨hs, fun b hb => by cases hb; exact hp⟩
  | fail e => exact ⟨hs, fun b hb => by cases hb⟩
  | op o next ih =>
    obtain ⟨ho, hp⟩ := hp.resolve_left (hC o)
    obtain ⟨hr, hs'⟩ := hh o s ho hs
    exact ih _ (hp _ hr) hs'

end Prog

end ValkeyRs
