/-
Proof rules for programs on the store.

The methods of `Store` are checked against an arbitrary contract once: each rule says which calls
the contract has to allow.

`entries J` is the contract of a program that keeps a property `J` of single entries: what it puts
into the store has the property if what it found there had, and in return every entry it reads has
it. The store's calls honour the contract (`step_entries`), so a program that meets it keeps the
property for all entries of the store, over every run and whatever the clock says.
-/
import ValkeyRs.Storage

set_option autoImplicit false

open ValkeyRs.Text List Std

namespace ValkeyRs.Storage

variable {F : Type} [LinearOrder F]

/-! ## Traversals -/

section Traversals

variable {α : Type} (a : Arrangement) (m : HashMap Bytes α)

theorem mem_arranged {k : Bytes} {x : α} : (k, x) ∈ arranged a m ↔ m[k]? = some x := by
  unfold arranged
  rw [mem_filterMap]
  constructor
  · rintro ⟨k', -, hk⟩
    obtain ⟨y, hy, heq⟩ := Option.map_eq_some_iff.mp hk
    cases heq
    exact hy
  · intro hx
    have hmem : k ∈ m := ExtTreeMap.mem_iff_isSome_getElem?.mpr (by rw [hx]; rfl)
    exact ⟨k, (a.perm _).mem_iff.mpr (ExtTreeMap.mem_keys.mpr hmem), by rw [hx]; rfl⟩

theorem map_fst_arranged : (arranged a m).map Prod.fst = a.order m.keys := by
  have hkeys : ∀ k ∈ a.order m.keys, ∃ x, m[k]? = some x := by
    intro k hk
    have hmem : k ∈ m := ExtTreeMap.mem_keys.mp ((a.perm _).mem_iff.mp hk)
    exact Option.isSome_iff_exists.mp (ExtTreeMap.mem_iff_isSome_getElem?.mp hmem)
  unfold arranged
  generalize a.order m.keys = keys at hkeys
  induction keys with
  | nil => rfl
  | cons k keys ih =>
    obtain ⟨x, hx⟩ := hkeys k mem_cons_self
    rw [filterMap_cons, hx]
    exact congrArg (k :: ·) (ih fun k' hk' => hkeys k' (mem_cons_of_mem _ hk'))

theorem nodup_arranged : ((arranged a m).map Prod.fst).Nodup := by
  rw [map_fst_arranged]
  exact (a.perm _).nodup_iff.mpr ExtTreeMap.nodup_keys

theorem length_arranged : (arranged a m).length = m.size := by
  rw [← length_map (f := Prod.fst), map_fst_arranged, (a.perm _).length_eq,
    ExtTreeMap.length_keys]

end Traversals

/-! ## The methods of `Store` -/

section Methods

variable {C : Prog.Contract (StoreOp F) StoreOp.Res}

theorem call_meets {o : StoreOp F} (ho : C.asks o) : (call o).Meets C (C.gets o) :=
  .perform ho fun _ h => h

theorem is_expired_meets (hnow : C.asks .now) (entry : Entry F) :
    (Store.is_expired entry).Meets C fun b =>
      b = true → ∃ t now, entry.expires_at = some t ∧ C.gets .now now ∧ t < now := by
  unfold Store.is_expired
  cases hexp : entry.expires_at with
  | none =>
    intro h
    cases h
  | some t =>
    refine .bind (call_meets hnow) fun now hgets => ?_
    intro h
    exact ⟨t, now, rfl, hgets, of_decide_eq_true h⟩

/-- Reading. The removal of an entry has to be allowed only where one can be seen to be
expired. -/
theorem get_meets {key : Bytes} (hread : C.asks (.access key id)) (hnow : C.asks .now)
    (hremove : ∀ entry t now, C.gets (.access key id) (some entry) →
      entry.expires_at = some t → C.gets .now now → t < now →
      C.asks (.access key fun _ => none)) :
    (Store.get key).Meets C fun e => ∀ x, e = some x → C.gets (.access key id) (some x) := by
  refine .bind (call_meets hread) fun e he => ?_
  cases e with
  | none =>
    intro x hx
    cases hx
  | some entry =>
    refine .bind (is_expired_meets hnow entry) fun b hb => ?_
    refine .ite (fun hexpired => ?_) (fun _ => ?_)
    · obtain ⟨t, now, ht, hgets, hlt⟩ := hb hexpired
      refine .bind (call_meets (hremove entry t now he ht hgets hlt)) fun _ _ => ?_
      intro x hx
      cases hx
    · intro x hx
      cases hx
      exact he

theorem set_meets {key : Bytes} {data : DataType F} {ttl : Option Duration}
    (hnotify : C.asks (.notify key)) (hnow : C.asks .now)
    (hput : ∀ now entry, Entry.new data ttl now = .ok entry →
      C.asks (.access key fun _ => some entry))
    (hcount : C.asks .count_dirty) : (Store.set key data ttl).Meets C fun _ => True := by
  refine .bind (call_meets hnotify) fun _ _ => ?_
  refine .bind (call_meets hnow) fun now _ => ?_
  refine .lift_bind fun entry hentry => ?_
  refine .bind (call_meets (hput now entry hentry)) fun _ _ => ?_
  exact (call_meets hcount).mono fun _ _ => trivial

theorem del_meets {key : Bytes} (hnotify : C.asks (.notify key))
    (hremove : C.asks (.access key fun _ => none)) (hcount : C.asks .count_dirty) :
    (Store.del key).Meets C fun _ => True := by
  refine .bind (call_meets hnotify) fun _ _ => ?_
  refine .bind (call_meets hremove) fun result _ => ?_
  refine .ite (fun _ => ?_) fun _ => trivial
  exact .bind (call_meets hcount) fun _ _ => trivial

theorem maybe_evict_meets (hconfig : C.asks .config)
    (hlimit : ∀ config, C.gets .config config → config.maxmemory = 0) :
    Store.maybe_evict.Meets C fun _ => True := by
  refine .bind (call_meets hconfig) fun config hgets => ?_
  exact .ite (fun _ => trivial) fun h => absurd (hlimit config hgets) h

end Methods

/-! ## Reading the clocks -/

/-- A program that asks for the time, and for nothing else. -/
def clocks : Prog.Contract (StoreOp F) StoreOp.Res where
  asks
    | .now | .unix_time => True
    | _ => False
  gets _ _ := True

/-- Such a program depends on the surroundings alone and changes nothing else. `I` is any property
of the surroundings that the passing of time keeps. -/
theorem clocked_run {α : Type} {p : StoreM F α} (hp : p.Meets clocks fun _ => True)
    {I : Env → Prop} (hI : ∀ env, I env → I env.tick ∧ I env.tick_wall) {env : Env} (henv : I env) :
    ∃ r env', I env' ∧ ∀ w : World F, w.env = env →
      p.run World.step w = (r, { w with env := env' }) := by
  induction p generalizing env with
  | pure a =>
    refine ⟨.ok a, env, henv, fun w hw => ?_⟩
    rw [← hw]
    rfl
  | fail e =>
    refine ⟨.error e, env, henv, fun w hw => ?_⟩
    rw [← hw]
    rfl
  | op o next ih =>
    obtain ⟨ho, hp⟩ := hp.resolve_left (fun h => h)
    cases o with
    | now =>
      obtain ⟨r, env', henv', hrun⟩ := ih (env.clock 0) (hp _ trivial) (hI env henv).1
      refine ⟨r, env', henv', fun w hw => ?_⟩
      subst hw
      exact hrun { w with env := w.env.tick } rfl
    | unix_time =>
      obtain ⟨r, env', henv', hrun⟩ := ih (env.wall 0) (hp _ trivial) (hI env henv).2
      refine ⟨r, env', henv', fun w hw => ?_⟩
      subst hw
      exact hrun { w with env := w.env.tick_wall } rfl
    | access | iter | clear | clear_watchers | notify | watch | random | config | set_config
    | count_dirty | count_evicted => exact ho.elim

/-- Surroundings about which nothing is known. -/
def Anywhen : Env → Prop := fun _ => True

theorem anywhen_ticks : ∀ env, Anywhen env → Anywhen env.tick ∧ Anywhen env.tick_wall :=
  fun _ _ => ⟨trivial, trivial⟩

/-! ## Properties of single entries -/

/-- What a program may do to keep `J` for every entry, and what it may rely on. -/
def entries (J : Entry F → Prop) : Prog.Contract (StoreOp F) StoreOp.Res where
  asks
    | .access _ f => ∀ e, (∀ x ∈ e, J x) → ∀ x ∈ f e, J x
    | _ => True
  gets
    | .access _ _, e => ∀ x ∈ e, J x
    | .iter, l => ∀ p ∈ l, J p.2
    | _, _ => True

/-- Every entry of the store has the property. -/
def World.All (J : Entry F → Prop) (w : World F) : Prop :=
  ∀ (k : Bytes) (x : Entry F), w.store.keyspace[k]? = some x → J x

theorem step_entries (J : Entry F → Prop) (o : StoreOp F) (w : World F)
    (ho : (entries J).asks o) (hw : w.All J) :
    (entries J).gets o (World.step o w).1 ∧ (World.step o w).2.All J := by
  cases o with
  | access key f =>
    have hfound : ∀ x ∈ w.store.keyspace[key]?, J x := fun x hx => hw key x hx
    refine ⟨hfound, fun k x hx => ?_⟩
    simp only [World.step, ExtTreeMap.getElem?_alter] at hx
    split at hx
    · exact ho _ hfound x hx
    · exact hw k x hx
  | iter =>
    refine ⟨fun p hp => ?_, hw⟩
    obtain ⟨k, x⟩ := p
    exact hw k x ((mem_arranged _ _).mp hp)
  | clear =>
    refine ⟨trivial, fun k x hx => ?_⟩
    simp [World.step] at hx
  | clear_watchers | notify | watch | now | unix_time | random | config | set_config | count_dirty
  | count_evicted => exact ⟨trivial, hw⟩

section Entries

variable {J : Entry F → Prop}

theorem get_entries (key : Bytes) : (Store.get key).Meets (entries J) fun e => ∀ x ∈ e, J x := by
  have hget : (Store.get key).Meets (entries J) fun e =>
      ∀ x, e = some x → (entries J).gets (.access key id) (some x) :=
    get_meets (fun e he => he) trivial fun _ _ _ _ _ _ _ _ _ x hx => by cases hx
  exact hget.mono fun e he x hx => he x hx x rfl

theorem set_entries (key : Bytes) {data : DataType F} {ttl : Option Duration}
    (h : ∀ now entry, Entry.new data ttl now = .ok entry → J entry) :
    (Store.set key data ttl).Meets (entries J) fun _ => True := by
  refine set_meets trivial trivial (fun now entry hentry e _ x hx => ?_) trivial
  cases hx
  exact h now entry hentry

end Entries

/-! ## Properties of keys and entries -/

/-- A program that puts nothing into the store but entries with the property. -/
def puts (J : Bytes → Entry F → Prop) : Prog.Contract (StoreOp F) StoreOp.Res where
  asks
    | .access key f => ∀ e, ∀ x ∈ f e, J key x
    | _ => True
  gets _ _ := True

/-- Every entry of the store has the property, under its key. -/
def World.Holds (J : Bytes → Entry F → Prop) (w : World F) : Prop :=
  ∀ (k : Bytes) (x : Entry F), w.store.keyspace[k]? = some x → J k x

theorem step_puts (J : Bytes → Entry F → Prop) (o : StoreOp F) (w : World F)
    (ho : (puts J).asks o) (hw : w.Holds J) :
    (puts J).gets o (World.step o w).1 ∧ (World.step o w).2.Holds J := by
  refine ⟨trivial, ?_⟩
  cases o with
  | access key f =>
    intro k x hx
    simp only [World.step, ExtTreeMap.getElem?_alter, LawfulEqCmp.compare_eq_iff_eq] at hx
    split at hx
    · rename_i heq
      rw [← heq]
      exact ho _ x hx
    · exact hw k x hx
  | clear =>
    intro k x hx
    simp [World.step] at hx
  | iter | clear_watchers | notify | watch | now | unix_time | random | config | set_config
  | count_dirty | count_evicted => exact hw

end ValkeyRs.Storage
