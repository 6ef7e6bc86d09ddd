/-
Programs on one key at a fixed time.

A command that looks at one key does to the store what some function does to the entry under that
key: `Acts t key p G` says that at the moment `t` the program `p` replies with the first component
of `G` and leaves the second in place of the entry. The rules give `G` along the text of the
program, one for each method of `Store`. Entries that have expired may be there: reading removes
them.
-/
import ValkeyRs.FixedClock

set_option autoImplicit false

open ValkeyRs Text Maps Option Std.ExtTreeMap

namespace ValkeyRs.Storage

variable {F : Type} [LinearOrder F] {α : Type}

variable {T : Instant} {en : Entry F}

theorem eq_of_live {e : Option (Entry F)} (h : live T e = some en) :
    e = some en := (filter_eq_some_iff.mp h).1

theorem live_live (T : Instant) (e : Option (Entry F)) : live T (live T e) = live T e := by
  unfold live
  rw [Option.filter_filter]
  simp only [Bool.and_self]

/-- At this moment the program does to the entry under the key what `G` does. -/
def Acts (t : Moment) (key : Bytes) (p : StoreM F α)
    (G : Option (Entry F) → Except Halt α × Option (Entry F)) : Prop :=
  ∀ m, t.effect p m = ((G m[key]?).1, t.world (m.alter key fun _ => (G m[key]?).2))

section Rules

variable {t : Moment} {key : Bytes}
variable (m : HashMap Bytes (Entry F))

theorem alter_alter (g h : Option (Entry F) → Option (Entry F)) :
    (m.alter key g).alter key h = m.alter key (h ∘ g) := by
  refine ext_getElem? fun k => ?_
  rw [getElem?_alter, getElem?_alter_self,
    getElem?_alter, getElem?_alter]
  split
  · rfl
  · rfl

theorem acts_pure (a : α) : Acts t key (pure a : StoreM F α) fun e => (.ok a, e) := by
  intro m
  rw [effect_pure, alter_eq_self rfl]

theorem acts_fail (e : Halt) : Acts t key (.fail e : StoreM F α) fun x => (.error e, x) := by
  intro m
  rw [effect_fail, alter_eq_self rfl]

variable {G : Option (Entry F) → Except Halt α × Option (Entry F)}

theorem Acts.congr {p : StoreM F α} {H : Option (Entry F) → Except Halt α × Option (Entry F)}
    (h : Acts t key p G) (heq : ∀ e, G e = H e) : Acts t key p H := by
  intro m
  rw [h m, heq]

theorem acts_lift (x : Except Halt α) : Acts t key (liftM x : StoreM F α) fun e => (x, e) := by
  cases x with
  | ok a => exact acts_pure a
  | error e => exact acts_fail e

theorem acts_access {g : Option (Entry F) → Option (Entry F)}
    {f : Option (Entry F) → StoreM F α}
    {G : Option (Entry F) → Option (Entry F) → Except Halt α × Option (Entry F)}
    (h : ∀ r, Acts t key (f r) (G r)) :
    Acts t key (Store.access key g >>= f) fun e => G e (g e) := by
  intro m
  rw [effect_access, h, getElem?_alter_self, alter_alter]
  rfl

theorem acts_now {f : Instant → StoreM F α} (h : Acts t key (f t.now) G) :
    Acts t key (Store.now >>= f) G := h

theorem acts_maybe_evict {f : Unit → StoreM F α} (h : Acts t key (f ()) G) :
    Acts t key (Store.maybe_evict >>= f) G := h

theorem acts_get {f : Option (Entry F) → StoreM F α}
    {G : Option (Entry F) → Option (Entry F) → Except Halt α × Option (Entry F)}
    (h : ∀ r, Acts t key (f r) (G r)) :
    Acts t key (Store.get key >>= f) fun e => G (live t.now e) (live t.now e) := by
  intro m
  rw [effect_get_any, h, getElem?_alter_self, alter_alter]
  rfl

theorem acts_exists {f : Bool → StoreM F α}
    {G : Bool → Option (Entry F) → Except Halt α × Option (Entry F)}
    (h : ∀ r, Acts t key (f r) (G r)) :
    Acts t key (Store.exists_key key >>= f) fun e =>
      G (live t.now e).isSome (live t.now e) := by
  unfold Store.exists_key
  rw [Prog.bind_assoc]
  exact acts_get fun r => h r.isSome

theorem acts_set {data : DataType F} {ttl : Option Duration} {f : Unit → StoreM F α}
    (h : Acts t key (f ()) G) :
    Acts t key (Store.set key data ttl >>= f) fun e =>
      match Entry.new data ttl t.now with
      | .ok entry => G (some entry)
      | .error err => (.error err, e) := by
  intro m
  rw [effect_set]
  cases Entry.new data ttl t.now with
  | error err =>
    rw [alter_eq_self rfl]
  | ok entry =>
    dsimp only
    rw [h, getElem?_insert_self, ← alter_eq_insert (f := fun _ => some entry) rfl,
      alter_alter]
    rfl

theorem acts_expire {at_ : Instant} {f : Bool → StoreM F α}
    {G : Bool → Option (Entry F) → Except Halt α × Option (Entry F)}
    (h : ∀ r, Acts t key (f r) (G r)) :
    Acts t key (Store.expire key at_ >>= f) fun e =>
      G e.isSome (e.map ({ · with expires_at := some at_ })) := by
  intro m
  rw [effect_expire, h, getElem?_alter_self, alter_alter]
  rfl

def left (T : Instant) (e : Option (Entry F)) : Option Duration :=
  e.bind fun e => e.expires_at.bind fun at_ => if T ≤ at_ then some (at_ - T) else none

theorem acts_ttl {f : Option Duration → StoreM F α}
    {G : Option Duration → Option (Entry F) → Except Halt α × Option (Entry F)}
    (h : ∀ r, Acts t key (f r) (G r)) :
    Acts t key (Store.ttl key >>= f) fun e => G (left t.now (live t.now e)) (live t.now e) := by
  unfold Store.ttl
  rw [Prog.bind_assoc]
  refine acts_get (G := fun r e => G (left t.now r) e) fun r => ?_
  cases r with
  | none => exact h none
  | some e =>
    unfold left
    cases hexp : e.expires_at with
    | none =>
      simp only [bind_some, hexp, bind_none]
      exact h none
    | some x =>
      simp only [bind_some, hexp]
      exact acts_now (h _)

end Rules

/-! ## Comparing two programs -/

/-- Two ways to end that a client takes for the same: equal replies, or two errors, or neither
replies for the same reason. -/
def Corresponds {β : Type} (error : β → Prop) : Except Halt β → Except Halt β → Prop
  | .ok r, .ok r' => r = r' ∨ (error r ∧ error r')
  | .error e, .error e' => e = e'
  | _, _ => False

/-- The replies correspond, and under every key there is the same value with the same expiry
time. -/
def SameOutcome {β : Type} (error : β → Prop) (x y : Except Halt β × World F) : Prop :=
  Corresponds error x.1 y.1 ∧
    ∀ k : Bytes, x.2.store.keyspace[k]?.map Entry.view = y.2.store.keyspace[k]?.map Entry.view

/-- The same of one entry. -/
def SameAct {β : Type} (error : β → Prop) (x y : Except Halt β × Option (Entry F)) : Prop :=
  Corresponds error x.1 y.1 ∧ x.2.map Entry.view = y.2.map Entry.view

theorem same_act_refl {β : Type} (error : β → Prop) (x : Except Halt β × Option (Entry F)) :
    SameAct error x x := by
  refine ⟨?_, rfl⟩
  cases x.1 with
  | ok r => exact .inl rfl
  | error e => rfl

theorem same_outcome_iff {error : α → Prop} {t : Moment} {key : Bytes} {p q : StoreM F α}
    {G H : Option (Entry F) → Except Halt α × Option (Entry F)} (hp : Acts t key p G)
    (hq : Acts t key q H) (m : HashMap Bytes (Entry F)) :
    SameOutcome error (t.effect p m) (t.effect q m) ↔ SameAct error (G m[key]?) (H m[key]?) := by
  have hget : ∀ (k : Bytes) (e : Option (Entry F)),
      (t.world (m.alter key fun _ => e)).store.keyspace[k]? = if key = k then e else m[k]? := by
    intro k e
    show (m.alter key fun _ => e)[k]? = _
    rw [getElem?_alter]
    simp only [Std.LawfulEqCmp.compare_eq_iff_eq]
  rw [hp, hq]
  refine and_congr_right fun _ => ?_
  constructor
  · intro hsame
    have hkey := hsame key
    rwa [hget, hget, if_pos rfl, if_pos rfl] at hkey
  · intro hsame k
    rw [hget, hget]
    by_cases hk : key = k
    · rw [if_pos hk, if_pos hk]
      exact hsame
    · rw [if_neg hk, if_neg hk]

end ValkeyRs.Storage
