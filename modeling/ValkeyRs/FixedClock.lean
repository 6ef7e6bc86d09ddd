/-
Programs on the store at a fixed time.

Two simplifications make the effect of a command at one moment an equation between maps. What a
program replies and what it leaves in the keyspace does not depend on who is watching, who has been
notified and what the counters say, so these can be forgotten after every call (`run_hush`). And
while the clock stands still, reading it changes nothing.

A map is `Fresh` if none of its entries has expired. Reading a fresh map removes nothing.
-/
import ValkeyRs.Maps
import ValkeyRs.StoreWp

set_option autoImplicit false

open ValkeyRs Text Maps

namespace ValkeyRs.Storage

variable {F : Type} [LinearOrder F]

/-! ## What no program can see -/

/-- Forget the watchers, what they have been sent, and the counters. -/
def World.hush (w : World F) : World F :=
  { w with
    store := { w.store with evicted_keys := 0, watchers := ∅, dirty_count := 0 }
    sent := [] }

def World.hushed (o : StoreOp F) (w : World F) : StoreOp.Res o × World F :=
  ((World.step o w).1, (World.step o w).2.hush)

theorem hushed_hush (o : StoreOp F) (w : World F) :
    World.hushed o w.hush = ((World.step o w).1, (World.step o w).2.hush) := by
  cases o <;> rfl

theorem run_hush {α : Type} (p : StoreM F α) (w : World F) :
    p.run World.hushed w.hush = ((p.run World.step w).1, (p.run World.step w).2.hush) := by
  induction p generalizing w with
  | pure a => rfl
  | fail e => rfl
  | op o next ih =>
    rw [Prog.run, hushed_hush, ih]
    rfl

/-! ## A moment -/

/-- What the two clocks show, and everything else the surroundings decide. -/
structure Moment where
  now : Instant
  wall : ℕ
  random : ℕ → ℕ
  arrange : ℕ → Arrangement

def Moment.zero : Moment := ⟨0, 0, fun _ => 0, fun _ => .sorted⟩

def Moment.env (t : Moment) : Env := ⟨fun _ => t.now, fun _ => t.wall, t.random, t.arrange⟩

def Moment.world (t : Moment) (m : HashMap Bytes (Entry F)) : World F :=
  ⟨{ (Store.new : Store F) with keyspace := m }, t.env, 0, []⟩

/-- What a program returns at this moment, and the entries it leaves. -/
def Moment.effect {α : Type} (t : Moment) (p : StoreM F α) (m : HashMap Bytes (Entry F)) :
    Except Halt α × World F :=
  p.run World.hushed (t.world m)

/-- No entry has expired. -/
def Fresh (now : ℕ) (m : HashMap Bytes (Entry F)) : Prop :=
  ∀ (k : Bytes) (e : Entry F), m[k]? = some e → ∀ x ∈ e.expires_at, now ≤ x

section Rules

variable (t : Moment) (m : HashMap Bytes (Entry F)) {α : Type}

/-! ### Single calls -/

theorem effect_pure (a : α) : t.effect (pure a : StoreM F α) m = (.ok a, t.world m) := rfl

theorem effect_fail (e : Halt) : t.effect (.fail e : StoreM F α) m = (.error e, t.world m) := rfl

variable (key : Bytes)

theorem effect_access (g : Option (Entry F) → Option (Entry F))
    (f : Option (Entry F) → StoreM F α) :
    t.effect (Store.access key g >>= f) m = t.effect (f m[key]?) (m.alter key g) := rfl

theorem effect_now (f : Instant → StoreM F α) :
    t.effect (Store.now >>= f) m = t.effect (f t.now) m := rfl

theorem effect_unix_time (f : ℕ → StoreM F α) :
    t.effect (Store.unix_time >>= f) m = t.effect (f t.wall) m := rfl

theorem effect_maybe_evict (f : Unit → StoreM F α) :
    t.effect (Store.maybe_evict >>= f) m = t.effect (f ()) m := rfl

/-! ### The methods of `Store` -/

theorem effect_set (data : DataType F) (ttl : Option Duration)
    (f : Unit → StoreM F α) :
    t.effect (Store.set key data ttl >>= f) m =
      match Entry.new data ttl t.now with
      | .ok entry => t.effect (f ()) (m.insert key entry)
      | .error e => (.error e, t.world m) := by
  -- the program up to the point where it makes the entry
  have hset : t.effect (Store.set key data ttl >>= f) m =
      t.effect (((liftM (Entry.new data ttl t.now) : StoreM F (Entry F)) >>= fun entry => do
        let _ ← Store.access key fun _ => some entry
        call .count_dirty) >>= f) m := rfl
  rw [hset]
  cases Entry.new data ttl t.now with
  | ok entry =>
    dsimp only
    rw [← alter_eq_insert (f := fun _ => some entry) rfl]
    rfl
  | error e => rfl

theorem effect_set_none (data : DataType F) (f : Unit → StoreM F α) :
    t.effect (Store.set key data none >>= f) m =
      t.effect (f ()) (m.insert key ⟨data, none, t.now, 1, 1⟩) := effect_set t m key data none f

/-- The end of `del` and `expire`: the change is counted if there was one. -/
theorem effect_count (b : Bool) (f : Bool → StoreM F α) :
    t.effect ((do
      if b then
        call .count_dirty
      return b : StoreM F Bool) >>= f) m = t.effect (f b) m := by
  cases b <;> rfl

theorem effect_del (f : Bool → StoreM F α) :
    t.effect (Store.del key >>= f) m = t.effect (f m[key]?.isSome) (m.erase key) := by
  rw [← alter_eq_erase (f := fun _ => none) rfl, ← effect_count]
  rfl

theorem effect_expire (at_ : Instant) (f : Bool → StoreM F α) :
    t.effect (Store.expire key at_ >>= f) m =
      t.effect (f m[key]?.isSome) (m.alter key (·.map ({ · with expires_at := some at_ }))) := by
  rw [← effect_count]
  rfl

def live (T : Instant) (e : Option (Entry F)) : Option (Entry F) := e.filter fun e => !e.stale T

variable {T : Instant} {en : Entry F}

theorem live_of_stale (h : en.stale T = true) : live T (some en) = none := by
  unfold live
  rw [Option.filter_some, h]
  rfl

theorem live_of_fresh (h : en.stale T = false) : live T (some en) = some en := by
  unfold live
  rw [Option.filter_some, h]
  rfl

theorem effect_stale (e : Entry F) (f : Bool → StoreM F α) :
    t.effect (Store.is_expired e >>= f) m = t.effect (f (e.stale t.now)) m := by
  unfold Store.is_expired Entry.stale
  cases e.expires_at <;> rfl

theorem effect_get_any (f : Option (Entry F) → StoreM F α) :
    t.effect (Store.get key >>= f) m =
      t.effect (f (live t.now m[key]?)) (m.alter key (live t.now)) := by
  refine (effect_access t m key id _).trans ?_
  rw [alter_eq_self (f := id) rfl]
  cases hkey : m[key]? with
  | none =>
    rw [alter_eq_self (by rw [hkey]; rfl)]
    rfl
  | some e =>
    show t.effect ((Store.is_expired e >>= _) >>= f) m = _
    rw [Prog.bind_assoc, effect_stale]
    cases hstale : e.stale t.now with
    | false =>
      rw [alter_eq_self (by rw [hkey, live_of_fresh hstale]), live_of_fresh hstale]
      rfl
    | true =>
      rw [live_of_stale hstale, alter_eq_erase (by rw [hkey, live_of_stale hstale]),
        ← alter_eq_erase (f := fun _ => none) rfl]
      rfl

section Reading

variable {t} {m} (h : Fresh t.now m)

include h

theorem live_fresh (key : Bytes) : live t.now m[key]? = m[key]? := by
  cases hkey : m[key]? with
  | none => rfl
  | some e =>
    refine live_of_fresh ?_
    unfold Entry.stale
    cases hexp : e.expires_at with
    | none => rfl
    | some x => exact decide_eq_false (Nat.not_lt.mpr (h key e hkey x hexp))

theorem effect_get (key : Bytes) (f : Option (Entry F) → StoreM F α) :
    t.effect (Store.get key >>= f) m = t.effect (f m[key]?) m := by
  rw [effect_get_any, live_fresh h, alter_eq_self (live_fresh h key)]

theorem effect_exists (key : Bytes) (f : Bool → StoreM F α) :
    t.effect (Store.exists_key key >>= f) m = t.effect (f m[key]?.isSome) m := by
  unfold Store.exists_key
  rw [Prog.bind_assoc, effect_get h]
  rfl

theorem effect_ttl (key : Bytes) (f : Option Duration → StoreM F α) :
    t.effect (Store.ttl key >>= f) m =
      t.effect (f ((m[key]?.bind Entry.expires_at).map (· - t.now))) m := by
  unfold Store.ttl
  rw [Prog.bind_assoc, effect_get h]
  cases hkey : m[key]? with
  | none => rfl
  | some e =>
    dsimp only [Option.bind_some]
    cases hexp : e.expires_at with
    | none => rfl
    | some x =>
      have hle : t.now ≤ x := h key e hkey x hexp
      have hrun : t.effect ((do
          let now ← Store.now
          return if now ≤ x then some (x - now) else none : StoreM F (Option Duration)) >>= f) m =
          t.effect (f (if t.now ≤ x then some (x - t.now) else none)) m := rfl
      rw [hrun, if_pos hle]
      rfl

end Reading

end Rules

/-! ## Keeping a map fresh -/

theorem fresh_empty (now : ℕ) : Fresh now (∅ : HashMap Bytes (Entry F)) := by
  intro k e he
  rw [Std.ExtTreeMap.getElem?_empty] at he
  cases he

theorem Fresh.insert {now : ℕ} {m : HashMap Bytes (Entry F)} (h : Fresh now m) (key : Bytes)
    {e : Entry F} (he : ∀ x ∈ e.expires_at, now ≤ x) : Fresh now (m.insert key e) := by
  intro k e' he'
  obtain ⟨-, rfl⟩ | he' := of_insert he'
  · exact he
  · exact h k e' he'

theorem Fresh.erase {now : ℕ} {m : HashMap Bytes (Entry F)} (h : Fresh now m) (key : Bytes) :
    Fresh now (m.erase key) := fun k e he => h k e (of_erase he)

end ValkeyRs.Storage
