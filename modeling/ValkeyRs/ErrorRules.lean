/-
Rules for what an error leaves behind.

A program is `Safe` at a time if the live contents are as before whenever it ends in a fault: an
error, or an answer that counts as one. The text of a command falls into two parts. Up to some
point it only reads, and may end in a fault anywhere; from there on it changes the store, and must
not end in one (`Clean`). `Safe.bind` is the rule for that: behind an answer that leaves the
contents alone the rest has to be safe, and behind any other it has to be clean.
-/
import ValkeyRs.StoreWp
import ValkeyRs.Strings

set_option autoImplicit false

open ValkeyRs Text Storage Zset Maps

namespace ValkeyRs.Errors

variable {F : Type} [Score F] {α β : Type}

/-! ## Faults -/

/-- An error, or an answer that counts as one. A panic and a deadlock give no reply at all. -/
def Fault (bad : α → Prop) : Except Halt α → Prop
  | .ok a => bad a
  | .error (.Err _) => True
  | .error _ => False

def is_error : Reply F → Bool
  | .Error _ => true
  | _ => false

/-- The reply to the client is an error. -/
def Failed : Except Halt (Reply F) → Prop := Fault fun reply => is_error reply = true

/-! ## Programs that do not end in a fault -/

/-- Whatever the calls answer, the program does not end in a fault. -/
def Clean (bad : α → Prop) (p : StoreM F α) : Prop :=
  p.Wp (fun _ _ _ _ => True) (fun r _ => ¬ Fault bad r) ()

/-- A program that can stop, but not with an error. -/
abbrev Quiet (p : StoreM F α) : Prop := Clean (fun _ => False) p

namespace Clean

variable {bad : α → Prop} {p : StoreM F α}

theorem pure {a : α} (h : ¬ bad a) : Clean bad (Pure.pure a : StoreM F α) := h

theorem panic : Clean bad (.fail .Panic : StoreM F α) := fun h => h

theorem deadlock : Clean bad (.fail .Deadlock : StoreM F α) := fun h => h

theorem bind {bad : β → Prop} {f : α → StoreM F β} (hp : Quiet p) (hf : ∀ a, Clean bad (f a)) :
    Clean bad (p >>= f) := by
  refine Prog.Wp.bind hp (fun a _ _ => hf a) fun e _ he => ?_
  cases e with
  | Err e => exact absurd trivial he
  | Panic => exact fun h => h
  | Deadlock => exact fun h => h

theorem ite {c : Prop} [Decidable c] {q : StoreM F α} (hp : c → Clean bad p)
    (hq : ¬ c → Clean bad q) : Clean bad (if c then p else q) := Prog.Wp.ite hp hq

theorem wp (h : Clean bad p) (C : Instant → Prop) (m : HashMap Bytes (Entry F)) :
    p.Wp (may C) (fun r _ => ¬ Fault bad r) m :=
  .refine (g := fun _ => ()) (I := fun _ => True) (fun _ _ _ _ _ _ => ⟨trivial, trivial⟩) h
    trivial

/-! ### Calls and methods -/

theorem call (o : StoreOp F) : Quiet (call o) := fun _ _ _ h => h

theorem lift {x : Except Halt α} (h : ∀ e, x ≠ .error (.Err e)) : Quiet (liftM x : StoreM F α) := by
  cases x with
  | ok a => exact fun h => h
  | error e =>
    cases e with
    | Err e => exact absurd rfl (h e)
    | Panic => exact panic
    | Deadlock => exact deadlock

theorem get (key : Bytes) : Quiet (Store.get key : StoreM F (Option (Entry F))) := by
  refine bind (call _) fun e => ?_
  cases e with
  | none => exact pure fun h => h
  | some entry =>
    have hexpired : Quiet (Store.is_expired entry) := by
      unfold Store.is_expired
      split
      · exact pure fun h => h
      · exact bind (call _) fun _ => pure fun h => h
    refine bind hexpired fun b => ite (fun _ => bind (call _) fun _ => ?_) fun _ => ?_ <;>
      exact pure fun h => h

theorem exists_key (key : Bytes) : Quiet (Store.exists_key key : StoreM F Bool) :=
  bind (get key) fun _ => pure fun h => h

theorem entry_new (data : DataType F) (ttl : Option Duration) (now : Instant) :
    Quiet (liftM (Entry.new data ttl now) : StoreM F (Entry F)) := by
  refine lift fun e => ?_
  unfold Entry.new
  split
  · exact nofun
  · split <;> exact nofun

theorem set (key : Bytes) (data : DataType F) (ttl : Option Duration) :
    Quiet (Store.set key data ttl) :=
  bind (call _) fun _ => bind (call _) fun now => bind (entry_new data ttl now) fun _ =>
    bind (call _) fun _ => call _

theorem del (key : Bytes) : Quiet (Store.del key : StoreM F Bool) := by
  refine bind (call _) fun _ => bind (call _) fun result => ?_
  refine ite (fun _ => bind (call _) fun _ => ?_) fun _ => ?_ <;> exact pure fun h => h

end Clean

/-! ## Programs whose faults leave no trace -/

/-- Where the program ends in a fault, the live contents are as before. -/
def Safe (T : Instant) (bad : α → Prop) (p : StoreM F α) : Prop :=
  ∀ m, p.Wp (may (· = T)) (fun r m' => Fault bad r → contents T m' = contents T m) m

/-- The contents are as before, whatever the program answers. -/
abbrev Reads (T : Instant) (p : StoreM F α) : Prop := Safe T (fun _ => True) p

section Rules

variable {T : Instant} {bad : α → Prop} {p : StoreM F α}

theorem Clean.safe (h : Clean bad p) : Safe T bad p := by
  intro m
  exact (h.wp _ m).mono fun r m' hr hfault => absurd hfault hr

namespace Safe

theorem pure (a : α) : Safe T bad (Pure.pure a : StoreM F α) := fun _ _ => rfl

theorem fail (e : Halt) : Safe T bad (.fail e : StoreM F α) := fun _ _ => rfl

theorem bind {good : α → Prop} {bad : β → Prop} {f : α → StoreM F β} (hp : Safe T good p)
    (hsafe : ∀ a, good a → Safe T bad (f a)) (hclean : ∀ a, ¬ good a → Clean bad (f a)) :
    Safe T bad (p >>= f) := by
  intro m
  refine .bind (hp m) (fun a m' h => ?_) fun e m' h => ?_
  · by_cases ha : good a
    · refine (hsafe a ha m').mono fun r m'' hr hfault => ?_
      rw [hr hfault, h ha]
    · exact ((hclean a ha).wp _ m').mono fun r m'' hr hfault => absurd hfault hr
  · cases e with
    | Err e => exact fun _ => h trivial
    | Panic => exact fun hfault => hfault.elim
    | Deadlock => exact fun hfault => hfault.elim

theorem after {bad : β → Prop} {f : α → StoreM F β} (hp : Reads T p) (hf : ∀ a, Safe T bad (f a)) :
    Safe T bad (p >>= f) :=
  hp.bind (fun a _ => hf a) fun _ ha => absurd trivial ha

theorem ite {c : Prop} [Decidable c] {q : StoreM F α} (hp : c → Safe T bad p)
    (hq : ¬ c → Safe T bad q) : Safe T bad (if c then p else q) :=
  fun m => .ite (fun hc => hp hc m) fun hc => hq hc m

/-! ### Calls and methods -/

theorem of_leaves (h : ∀ m, p.Wp (may (· = T)) (fun _ m' => m' = m) m) : Safe T bad p := by
  intro m
  refine (h m).mono fun r m' hm _ => ?_
  rw [hm]

theorem call {o : StoreOp F} (ho : ∀ m r m', may (· = T) o m r m' → m' = m) :
    Reads T (Storage.call o) :=
  of_leaves fun m r m' hr => ho m r m' hr

theorem read (key : Bytes) : Reads T (Store.access key id : StoreM F (Option (Entry F))) := by
  refine call ?_
  rintro m r m' ⟨-, rfl⟩
  exact alter_eq_self rfl

theorem unix_time : Reads T (Store.unix_time : StoreM F ℕ) := call fun _ _ _ h => h

theorem random : Reads T (Store.random : StoreM F ℕ) := call fun _ _ _ h => h

theorem watch (key : Bytes) : Reads T (Store.watch key : StoreM F ℕ) := call fun _ _ _ h => h

theorem get (key : Bytes) : Reads T (Store.get key : StoreM F (Option (Entry F))) := by
  intro m
  have hget : (Store.get key >>= Pure.pure : StoreM F (Option (Entry F))).Wp (may (· = T))
      (fun _ m' => contents T m' = contents T m) m := wp_get_at contents_swept
  refine (Prog.wp_bind.mp hget).mono fun r m' h _ => ?_
  cases r <;> exact h

theorem exists_key (key : Bytes) : Reads T (Store.exists_key key : StoreM F Bool) :=
  (get key).after fun _ => .pure _

end Safe

/-! ## Eviction -/

/-- Every entry stays in its place. -/
def Leaves (C : Instant → Prop) (p : StoreM F α) : Prop := ∀ m, p.Wp (may C) (fun _ m' => m' = m) m

namespace Leaves

variable {C : Instant → Prop}

theorem pure (a : α) : Leaves C (Pure.pure a : StoreM F α) := fun _ => rfl

theorem bind {f : α → StoreM F β} (hp : Leaves C p) (hf : ∀ a, Leaves C (f a)) :
    Leaves C (p >>= f) := by
  intro m
  refine .bind (hp m) (fun a m' hm => ?_) fun e m' hm => hm
  rw [hm]
  exact hf a m

theorem call {o : StoreOp F} (ho : ∀ m r m', may C o m r m' → m' = m) : Leaves C (Storage.call o) :=
  fun m r m' hr => ho m r m' hr

theorem read (key : Bytes) : Leaves C (Store.access key id : StoreM F (Option (Entry F))) := by
  refine call ?_
  rintro m r m' ⟨-, rfl⟩
  exact alter_eq_self rfl

theorem ite {c : Prop} [Decidable c] {q : StoreM F α} (hp : c → Leaves C p)
    (hq : ¬ c → Leaves C q) : Leaves C (if c then p else q) :=
  fun m => .ite (fun hc => hp hc m) fun hc => hq hc m

theorem draw_candidates (samples : ℕ) (rng_keys candidates : List Bytes) :
    Leaves C (Store.draw_candidates samples rng_keys candidates : StoreM F (List Bytes)) := by
  induction samples generalizing rng_keys candidates with
  | zero => exact pure _
  | succ samples ih =>
    refine ite (fun _ => pure _) fun _ => bind (call fun _ _ _ h => h) fun r => ?_
    dsimp only
    split
    · exact ih _ _
    · exact pure _

theorem eviction_score (policy : EvictionPolicy) (entry : Entry F) :
    Leaves C (Store.eviction_score policy entry) := by
  have hnow : Leaves C (Store.now : StoreM F Instant) := call fun _ _ _ h => h.2
  unfold Store.eviction_score
  split
  · exact bind hnow fun _ => pure _
  · exact bind hnow fun _ => pure _
  · exact pure _
  · exact pure _
  · split
    · exact bind hnow fun _ => pure _
    · exact pure _
  · exact bind (call fun _ _ _ h => h) fun _ => pure _
  · exact bind (call fun _ _ _ h => h) fun _ => pure _
  · exact fun _ => rfl

theorem choose_victim (policy : EvictionPolicy) (keys : List Bytes) (victim : Option (Bytes × ℤ)) :
    Leaves C (Store.choose_victim policy keys victim : StoreM F (Option (Bytes × ℤ))) := by
  induction keys generalizing victim with
  | nil => exact pure _
  | cons key keys ih =>
    refine bind (read key) fun e => ?_
    cases e with
    | none => exact ih victim
    | some entry =>
      refine ite (fun _ => ih victim) fun _ => bind (eviction_score policy entry) fun score => ?_
      cases victim with
      | none => exact ih _
      | some best => exact ite (fun _ => ih _) fun _ => ih _

end Leaves

/-- When there is no room and nothing may be evicted, nothing is: the error comes before the
removal. -/
theorem maybe_evict_safe : Safe T (fun _ => False) (Store.maybe_evict : StoreM F Unit) := by
  have hcount : Quiet (Storage.call .count_evicted : StoreM F Unit) := .call _
  have hiter : Reads T (Store.iter : StoreM F (List (Bytes × Entry F))) := .call fun _ _ _ h => h.2
  refine .after (.call fun _ _ _ h => h) fun config => ?_
  refine .ite (fun _ => .pure _) fun _ => ?_
  refine .after (hiter.after fun _ => .pure _) fun used => ?_
  refine .ite (fun _ => .pure _) fun _ => ?_
  have hrest : ∀ candidates {evict : Option (Bytes × _) → StoreM F Unit}, evict none = pure () →
      (∀ victim, evict (some victim) = do
        let _ ← Store.access victim.1 fun _ => none
        call .count_evicted) →
      Safe T (fun _ => False) (Store.choose_victim config.policy candidates none >>= evict) := by
    intro candidates evict hnone hsome
    refine .after (.of_leaves (Leaves.choose_victim _ _ _)) fun victim => ?_
    cases victim with
    | none => exact hnone ▸ .pure _
    | some key => exact hsome key ▸ Clean.safe (Clean.bind (Clean.call _) fun _ => hcount)
  refine .ite (fun _ => .fail _) fun _ => ?_
  refine .after hiter fun all => .ite (fun _ => .pure _) fun _ => ?_
  refine .ite (fun _ => hrest _ rfl fun _ => rfl) fun _ => ?_
  exact .after (.of_leaves (Leaves.draw_candidates _ _ _)) fun _ => hrest _ rfl fun _ => rfl

end Rules

end ValkeyRs.Errors
