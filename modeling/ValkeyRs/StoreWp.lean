/-
What a program does to the entries of the store.

Of everything a command acts on only the entries matter here. The readings of the clock are known
to satisfy some `C`, and what else the surroundings answer is left open: `may C` is what a call can
do under that view, and `Prog.Wp (may C)` speaks of every run. The rules below are those of the
methods of `Store`.

The second half is about a fixed time `T`. An entry is `stale` then if its expiry time has passed,
`seen` is what `Store::get` returns and `swept` the map it leaves. The live `contents` of a map, the
values and the expiry times of the entries that are not stale, are what a client can tell of it.
-/
import ValkeyRs.StoreRules
import ValkeyRs.Values
import ValkeyRs.Wp

set_option autoImplicit false

open ValkeyRs Text Maps Option

namespace ValkeyRs.Storage

variable {F : Type} [LinearOrder F]

/-! ## The calls, as seen from the entries -/

def may (C : Instant → Prop) : (o : StoreOp F) → HashMap Bytes (Entry F) → StoreOp.Res o →
    HashMap Bytes (Entry F) → Prop
  | .access key f, m, r, m' => r = m[key]? ∧ m' = m.alter key f
  | .iter, m, r, m' => (∃ a, r = arranged a m) ∧ m' = m
  | .clear, _, _, m' => m' = ∅
  | .now, m, r, m' => C r ∧ m' = m
  | .clear_watchers, m, _, m' | .notify _, m, _, m' | .watch _, m, _, m' | .unix_time, m, _, m'
  | .random, m, _, m' | .config, m, _, m' | .set_config _, m, _, m' | .count_dirty, m, _, m'
  | .count_evicted, m, _, m' => m' = m

/-- All readings of the clock satisfy `C`. -/
def World.Within (C : Instant → Prop) (w : World F) : Prop := ∀ n, C (w.env.clock n)

theorem step_may {C : Instant → Prop} (o : StoreOp F) (w : World F) (hw : w.Within C) :
    may C o w.store.keyspace (World.step o w).1 (World.step o w).2.store.keyspace ∧
      (World.step o w).2.Within C := by
  cases o with
  | access key f => exact ⟨⟨rfl, rfl⟩, hw⟩
  | iter => exact ⟨⟨⟨_, rfl⟩, rfl⟩, hw⟩
  | now => exact ⟨⟨hw 0, rfl⟩, fun n => hw (n + 1)⟩
  | clear | clear_watchers | notify | watch | unix_time | random | config | set_config | count_dirty
  | count_evicted => exact ⟨rfl, hw⟩

theorem run_of_wp {α : Type} {C : Instant → Prop} {p : StoreM F α}
    {Q : Except Halt α → HashMap Bytes (Entry F) → Prop} {w : World F}
    (h : p.Wp (may C) Q w.store.keyspace) (hw : w.Within C) :
    Q (p.run World.step w).1 (p.run World.step w).2.store.keyspace :=
  Prog.Wp.run (I := World.Within C) (g := fun w => w.store.keyspace) (fun o c hc => step_may o c hc)
    h hw

section Rules

variable {α : Type} {C : Instant → Prop} {Q : Except Halt α → HashMap Bytes (Entry F) → Prop}
  {m : HashMap Bytes (Entry F)}

/-! ## Single calls -/

variable {key : Bytes}

theorem wp_access {g : Option (Entry F) → Option (Entry F)}
    {f : Option (Entry F) → StoreM F α} :
    (Store.access key g >>= f).Wp (may C) Q m ↔ (f m[key]?).Wp (may C) Q (m.alter key g) := by
  constructor
  · intro h
    exact h _ _ ⟨rfl, rfl⟩
  · rintro h r m' ⟨rfl, rfl⟩
    exact h

theorem wp_now {f : Instant → StoreM F α} :
    (Store.now >>= f).Wp (may C) Q m ↔ ∀ t, C t → (f t).Wp (may C) Q m := by
  constructor
  · intro h t ht
    exact h t m ⟨ht, rfl⟩
  · rintro h r m' ⟨hr, rfl⟩
    exact h r hr

theorem wp_call {o : StoreOp F} (ho : ∀ r m', may C o m r m' → m' = m)
    {f : StoreOp.Res o → StoreM F α} (h : ∀ r, (f r).Wp (may C) Q m) :
    (call o >>= f).Wp (may C) Q m := by
  intro r m' hr
  rw [ho r m' hr]
  exact h r

theorem wp_notify {f : Unit → StoreM F α} :
    (Store.notify_watchers key >>= f).Wp (may C) Q m ↔ (f ()).Wp (may C) Q m := by
  constructor
  · intro h
    exact h () m rfl
  · intro h
    exact wp_call (o := .notify key) (fun _ _ hm => hm) fun _ => h

theorem wp_unix_time {f : ℕ → StoreM F α} (h : ∀ n, (f n).Wp (may C) Q m) :
    (Store.unix_time >>= f).Wp (may C) Q m :=
  wp_call (o := .unix_time) (fun _ _ hm => hm) h

theorem wp_random {f : ℕ → StoreM F α} (h : ∀ n, (f n).Wp (may C) Q m) :
    (Store.random >>= f).Wp (may C) Q m :=
  wp_call (o := .random) (fun _ _ hm => hm) h

/-! ## The methods of `Store` -/

theorem wp_set_none {data : DataType F} {f : Unit → StoreM F α}
    (h : ∀ now, C now → (f ()).Wp (may C) Q (m.insert key ⟨data, none, now, 1, 1⟩)) :
    (Store.set key data none >>= f).Wp (may C) Q m := by
  refine wp_notify.mpr (wp_now.mpr fun now hnow => wp_access.mpr ?_)
  refine wp_call (o := .count_dirty) (fun _ _ hm => hm) fun _ => ?_
  rw [alter_eq_insert rfl]
  exact h now hnow

theorem wp_del {f : Bool → StoreM F α}
    (h : (f m[key]?.isSome).Wp (may C) Q (m.erase key)) :
    (Store.del key >>= f).Wp (may C) Q m := by
  refine wp_notify.mpr (wp_access.mpr ?_)
  rw [alter_eq_erase rfl]
  cases hkey : m[key]? with
  | none =>
    rw [hkey] at h
    exact h
  | some e =>
    rw [hkey] at h
    exact wp_call (o := .count_dirty) (fun _ _ hm => hm) fun _ => h

theorem wp_is_expired {e : Entry F} {f : Bool → StoreM F α}
    (hfresh : (∀ t ∈ e.expires_at, ∃ now, C now ∧ now ≤ t) → (f false).Wp (may C) Q m)
    (hstale : ∀ t now, e.expires_at = some t → C now → t < now → (f true).Wp (may C) Q m) :
    (Store.is_expired e >>= f).Wp (may C) Q m := by
  unfold Store.is_expired
  cases hexp : e.expires_at with
  | none =>
    rw [hexp] at hfresh
    exact hfresh nofun
  | some t =>
    refine wp_now.mpr fun now hnow => ?_
    show (f (decide (t < now))).Wp (may C) Q m
    by_cases hlt : t < now
    · rw [decide_eq_true hlt]
      exact hstale t now hexp hnow hlt
    · rw [decide_eq_false hlt]
      refine hfresh fun t' ht' => ⟨now, hnow, ?_⟩
      cases hexp.symm.trans ht'
      exact Nat.le_of_not_lt hlt

theorem wp_get {f : Option (Entry F) → StoreM F α}
    (hnone : m[key]? = none → (f none).Wp (may C) Q m)
    (hfound : ∀ e, m[key]? = some e → (∀ t ∈ e.expires_at, ∃ now, C now ∧ now ≤ t) →
      (f (some e)).Wp (may C) Q m)
    (hexpired : ∀ e t now, m[key]? = some e → e.expires_at = some t → C now → t < now →
      (f none).Wp (may C) Q (m.erase key)) :
    (Store.get key >>= f).Wp (may C) Q m := by
  refine wp_access.mpr ?_
  rw [alter_eq_self (f := id) rfl]
  cases hkey : m[key]? with
  | none => exact hnone hkey
  | some e =>
    show ((Store.is_expired e >>= _) >>= f).Wp (may C) Q m
    rw [Prog.bind_assoc]
    refine wp_is_expired (hfound e hkey) fun t now hexp hnow hlt => ?_
    refine wp_access.mpr ?_
    rw [alter_eq_erase rfl]
    exact hexpired e t now hkey hexp hnow hlt

end Rules

/-! ## A fixed time -/

def World.at (T : Instant) (w : World F) : World F :=
  { w with env := { w.env with clock := fun _ => T } }

theorem World.at_within (T : Instant) (w : World F) : (w.at T).Within (· = T) := fun _ => rfl

def Entry.stale (T : Instant) (e : Entry F) : Bool :=
  match e.expires_at with
  | some t => decide (t < T)
  | none => false

section FixedTime

variable (T : Instant) (m : HashMap Bytes (Entry F))

/-- What `Store::get` returns. -/
def seen (key : Bytes) : Option (Entry F) := m[key]?.filter fun e => !e.stale T

/-- What `Store::get` leaves. -/
def swept (key : Bytes) : HashMap Bytes (Entry F) :=
  if (m[key]?).any (Entry.stale T) then m.erase key else m

/-- What a client can tell of the entry under a key: its value and its expiry time. -/
def contents (key : Bytes) : Option (Value F × Option Instant) := (seen T m key).map Entry.view

variable {T m} {key k : Bytes} {e : Entry F}

theorem seen_eq_some_iff : seen T m key = some e ↔ m[key]? = some e ∧ e.stale T = false := by
  unfold seen
  rw [filter_eq_some_iff, Bool.not_eq_true']

theorem seen_of_some (he : m[key]? = some e) (hlive : e.stale T = false) :
    seen T m key = some e := seen_eq_some_iff.mpr ⟨he, hlive⟩

theorem seen_of_stale (he : m[key]? = some e) (hstale : e.stale T = true) :
    seen T m key = none := by
  unfold seen
  rw [he, filter_some, hstale]
  rfl

theorem seen_of_none (he : m[key]? = none) : seen T m key = none := by
  unfold seen
  rw [he]
  rfl

theorem swept_of_stale (he : m[key]? = some e) (hstale : e.stale T = true) :
    swept T m key = m.erase key := by
  unfold swept
  rw [he, any_some, hstale, if_pos rfl]

theorem swept_of_live (h : ∀ e, m[key]? = some e → e.stale T = false) : swept T m key = m := by
  unfold swept
  cases he : m[key]? with
  | none => rfl
  | some e =>
    rw [any_some, h e he]
    rfl

theorem swept_of_ne (h : k ≠ key) : (swept T m key)[k]? = m[k]? := by
  unfold swept
  split
  · exact erase_of_ne h
  · rfl

theorem swept_self : (swept T m key)[key]? = seen T m key := by
  cases he : m[key]? with
  | none =>
    rw [seen_of_none he, swept_of_live (fun e h => nomatch he.symm.trans h), he]
  | some e =>
    cases hstale : e.stale T with
    | true =>
      rw [seen_of_stale he hstale, swept_of_stale he hstale, Std.ExtTreeMap.getElem?_erase_self]
    | false =>
      have hlive : ∀ e', m[key]? = some e' → e'.stale T = false := by
        intro e' he'
        rw [he] at he'
        cases he'
        exact hstale
      rw [seen_of_some he hstale, swept_of_live hlive, he]

theorem seen_congr {m' : HashMap Bytes (Entry F)} (h : m'[k]? = m[k]?) : seen T m' k = seen T m k := by
  unfold seen
  rw [h]

theorem seen_swept : seen T (swept T m key) k = seen T m k := by
  by_cases hk : k = key
  · rw [hk]
    unfold seen
    rw [swept_self]
    unfold seen
    rw [Option.filter_filter]
    simp only [Bool.and_self]
  · exact seen_congr (swept_of_ne hk)

theorem contents_swept : contents T (swept T m key) = contents T m := by
  funext k
  exact congrArg (Option.map Entry.view) seen_swept

theorem contents_alter {g : Option (Entry F) → Option (Entry F)}
    (h : ((g m[key]?).filter fun e => !e.stale T).map Entry.view = contents T m key) :
    contents T (m.alter key g) = contents T m := by
  funext k
  by_cases hk : key = k
  · rw [← hk, ← h]
    unfold contents seen
    rw [Std.ExtTreeMap.getElem?_alter_self]
  · exact congrArg (Option.map Entry.view) (seen_congr (alter_of_ne (Ne.symm hk)))

theorem Entry.stale_of_view {e e' : Entry F} (h : e'.view = e.view) : e'.stale T = e.stale T := by
  unfold Entry.stale
  rw [show e'.expires_at = e.expires_at from congrArg Prod.snd h]

theorem contents_alter_map {g : Entry F → Entry F} (h : ∀ e, m[key]? = some e → (g e).view = e.view) :
    contents T (m.alter key (·.map g)) = contents T m := by
  refine contents_alter ?_
  unfold contents seen
  cases he : m[key]? with
  | none => rfl
  | some e =>
    rw [map_some, filter_some, filter_some, Entry.stale_of_view (h e he)]
    split
    · exact congrArg some (h e he)
    · rfl

section Rules

variable {α : Type} {Q : Except Halt α → HashMap Bytes (Entry F) → Prop}

theorem wp_get_at {f : Option (Entry F) → StoreM F α}
    (h : (f (seen T m key)).Wp (may (· = T)) Q (swept T m key)) :
    (Store.get key >>= f).Wp (may (· = T)) Q m := by
  have hfresh : ∀ e, m[key]? = some e → (∀ t ∈ e.expires_at, ∃ now, now = T ∧ now ≤ t) →
      e.stale T = false := by
    intro e _ hexp
    unfold Entry.stale
    cases ht : e.expires_at with
    | none => rfl
    | some t =>
      obtain ⟨now, rfl, hle⟩ := hexp t ht
      exact decide_eq_false (Nat.not_lt.mpr hle)
  refine wp_get (fun hnone => ?_) (fun e he hexp => ?_) (fun e t now he hexp hnow hlt => ?_)
  · rw [seen_of_none hnone, swept_of_live fun e he => nomatch hnone.symm.trans he] at h
    exact h
  · have hlive : ∀ e', m[key]? = some e' → e'.stale T = false := by
      intro e' he'
      rw [he] at he'
      cases he'
      exact hfresh e he hexp
    rw [seen_of_some he (hlive e he), swept_of_live hlive] at h
    exact h
  · have hstale : e.stale T = true := by
      unfold Entry.stale
      rw [hexp]
      exact decide_eq_true (hnow ▸ hlt)
    rw [seen_of_stale he hstale, swept_of_stale he hstale] at h
    exact h

theorem wp_exists_at {f : Bool → StoreM F α}
    (h : (f (seen T m key).isSome).Wp (may (· = T)) Q (swept T m key)) :
    (Store.exists_key key >>= f).Wp (may (· = T)) Q m := by
  unfold Store.exists_key
  rw [Prog.bind_assoc]
  exact wp_get_at h

end Rules

end FixedTime

end ValkeyRs.Storage
