/-
SET NX and SETNX as a lock.

Both look whether the key exists and put the value in by a second call. Between the two another
client may look as well, and then both report success. The clients exclude each other exactly if no
client looks while another one is on its way from a look that found nothing to its insertion.
-/
import ValkeyRs.StreamIds
import ValkeyRs.Threads

set_option autoImplicit false

open ValkeyRs Text Storage Zset Strings Maps Runs Function World

namespace ValkeyRs.NxRace

variable {F : Type} [Score F]

/-! ## Clients -/

/-- A client with the value it puts in: `SET key value NX` or `SETNX key value`. -/
inductive NxClient where
  | SET (value : Bytes)
  | SETNX (value : Bytes)
  deriving Repr, DecidableEq

namespace NxClient

def value : NxClient → Bytes
  | SET value => value
  | SETNX value => value

def handler (key : Bytes) : NxClient → StoreM F (Reply F)
  | SET value => cmd_set [key, value, as_bytes "NX"]
  | SETNX value => cmd_setnx [key, value]

def success : NxClient → Reply F
  | SET _ => ok
  | SETNX _ => int 1

def failure : NxClient → Reply F
  | SET _ => null_bulk
  | SETNX _ => int 0

end NxClient

def new_entry (c : NxClient) (t : Instant) : Entry F := ⟨.String c.value, none, t, 1, 1⟩

/-- How far a client has come. -/
inductive Phase where
  | check
  | evict
  | notify
  | stamp
  | insert (t : Instant)
  | count
  | won
  | lost
  deriving Repr, DecidableEq

def rest (key : Bytes) (c : NxClient) : Phase → StoreM F (Reply F)
  | .check => c.handler key
  | .evict => do
    Store.maybe_evict
    Store.set key (.String c.value) none
    return c.success
  | .notify => do
    Store.set key (.String c.value) none
    return c.success
  | .stamp => do
    let t ← Store.now
    let _ ← Store.access key fun _ => some (new_entry c t)
    call .count_dirty
    return c.success
  | .insert t => do
    let _ ← Store.access key fun _ => some (new_entry c t)
    call .count_dirty
    return c.success
  | .count => do
    call .count_dirty
    return c.success
  | .won => return c.success
  | .lost => return c.failure

/-- The client has found nothing under the key, and has not yet put its value in. -/
def Phase.committed : Phase → Bool
  | .evict | .notify | .stamp | .insert _ => true
  | _ => false

def behind_check : NxClient → Phase
  | .SET _ => .evict
  | .SETNX _ => .notify

theorem handler_eq (key : Bytes) (c : NxClient) :
    (c.handler key : StoreM F (Reply F)) = Store.exists_key key >>= fun found =>
      if found then rest key c .lost else rest key c (behind_check c) := by
  cases c with
  | SETNX value =>
    refine congrArg (Store.exists_key key >>= ·) (funext fun found => ?_)
    cases found <;> rfl
  | SET value =>
    have hname : option_name (as_bytes "NX") = some "NX" := by decide
    have hset : (cmd_set [key, value, as_bytes "NX"] : StoreM F (Reply F)) =
        set_with key value ⟨none, true, false, false⟩ := by
      unfold cmd_set set_options
      dsimp only
      rfl
    refine hset.trans (congrArg (Store.exists_key key >>= ·) (funext fun found => ?_))
    cases found <;> rfl

/-! ## Steps -/

/-- The next phase of a client, by whether the key exists and what the clock shows. -/
def Phase.next (c : NxClient) (found : Bool) (now : Instant) : Phase → Phase
  | .check => if found then .lost else behind_check c
  | .evict => .notify
  | .notify => .stamp
  | .stamp => .insert now
  | .insert _ => .count
  | .count => .won
  | .won => .won
  | .lost => .lost

/-- There is no memory limit, and nothing under the key expires. -/
structure Calm (key : Bytes) (w : World F) : Prop where
  limit : w.store.evict_config.maxmemory = 0
  plain : ∀ e, w.store.keyspace[key]? = some e → e.expires_at = none

/-- What one step of a client does to the key. -/
structure Stepped (key : Bytes) (c : NxClient) (ph : Phase) (w w' : World F) : Prop where
  calm : Calm key w'
  inserted : ∀ t, ph = .insert t → w'.store.keyspace[key]? = some (new_entry c t)
  same : (∀ t, ph ≠ .insert t) → w'.store.keyspace[key]? = w.store.keyspace[key]?

theorem stepped_same {key : Bytes} {c : NxClient} {ph : Phase} {w w' : World F} (h : Calm key w)
    (hph : ∀ t, ph ≠ .insert t) (hkeys : w'.store.keyspace = w.store.keyspace)
    (hconfig : w'.store.evict_config = w.store.evict_config) : Stepped key c ph w w' where
  calm := ⟨hconfig ▸ h.limit, hkeys ▸ h.plain⟩
  inserted t ht := absurd ht (hph t)
  same _ := by rw [hkeys]

theorem advance_exists {α : Type} {key : Bytes} {w : World F}
    (h : ∀ e, w.store.keyspace[key]? = some e → e.expires_at = none) (f : Bool → StoreM F α) :
    ((Store.exists_key key >>= f).advance step w).1 = f (w.store.keyspace[key]?).isSome := by
  unfold Store.exists_key Store.get
  rw [Prog.bind_assoc, Prog.bind_assoc]
  refine (congrArg Prod.fst (Prog.advance_perform _ w)).trans ?_
  generalize hr : (step (.access key id) w).1 = r
  have hfound : w.store.keyspace[key]? = r := hr
  rw [hfound]
  cases r with
  | none => rfl
  | some e =>
    dsimp only
    unfold Store.is_expired
    rw [h e hfound]
    rfl

theorem advance_rest {key : Bytes} {w : World F} (h : Calm key w) (c : NxClient) (ph : Phase) :
    ((rest key c ph : StoreM F (Reply F)).advance step w).1 =
        rest key c (ph.next c (w.store.keyspace[key]?).isSome (w.env.clock 0)) ∧
      Stepped key c ph w ((rest key c ph : StoreM F (Reply F)).advance step w).2 := by
  cases ph with
  | check =>
    have hself : w.store.keyspace.alter key id = w.store.keyspace := alter_eq_self rfl
    refine ⟨?_, stepped_same h nofun ?_ ?_⟩
    · show ((c.handler key).advance step w).1 = _
      rw [handler_eq, advance_exists h.plain]
      exact (apply_ite (rest key c) _ _ _).symm
    · show ((c.handler key : StoreM F (Reply F)).advance step w).2.store.keyspace = _
      rw [handler_eq]
      exact hself
    · show ((c.handler key).advance step w).2.store.evict_config = _
      rw [handler_eq]
      rfl
  | evict =>
    refine ⟨?_, stepped_same h nofun rfl rfl⟩
    show ((if w.store.evict_config.maxmemory = 0 then _ else _ : StoreM F Unit) >>= _) = _
    rw [if_pos h.limit]
    rfl
  | notify => exact ⟨rfl, stepped_same h nofun rfl rfl⟩
  | stamp => exact ⟨rfl, stepped_same h nofun rfl rfl⟩
  | insert t =>
    have hget : (w.store.keyspace.alter key fun _ => some (new_entry c t))[key]? =
        some (new_entry c t) := Std.ExtTreeMap.getElem?_alter_self
    refine ⟨rfl, ⟨h.limit, fun e he => ?_⟩, fun t' ht => ?_, fun hne => absurd rfl (hne t)⟩
    · cases hget.symm.trans he
      rfl
    · cases ht
      exact hget
  | count => exact ⟨rfl, stepped_same h nofun rfl rfl⟩
  | won => exact ⟨rfl, stepped_same h nofun rfl rfl⟩
  | lost => exact ⟨rfl, stepped_same h nofun rfl rfl⟩

/-! ## Bound to write -/

/-- Programs that write the key, whatever they are told, without a memory limit. -/
def writes (key : Bytes) : Prog.Contract (StoreOp F) StoreOp.Res where
  asks _ := True
  gets
    | .config, config => config.maxmemory = 0
    | _, _ => True
  stops o := ∃ f, o = .access key f ∧ f ≠ id

/-- The program has not come to its end, and cannot do so without writing the key. -/
def Bound (key : Bytes) (p : StoreM F (Reply F)) : Prop := p.Meets (writes key) fun _ => False

theorem bound_iff (key : Bytes) (c : NxClient) (ph : Phase) :
    Bound key (rest key c ph : StoreM F (Reply F)) ↔ ph.committed = true := by
  have hwrite : ∀ t, (fun _ => some (new_entry c t) : Option (Entry F) → _) ≠ id := by
    intro t heq
    cases congrFun heq none
  have hinsert : ∀ t, Bound key (rest key c (.insert t) : StoreM F (Reply F)) :=
    fun t => .inl ⟨_, rfl, hwrite t⟩
  have hstamp : Bound key (rest key c .stamp : StoreM F (Reply F)) :=
    .inr ⟨trivial, fun t _ => hinsert t⟩
  have hnotify : Bound key (rest key c .notify : StoreM F (Reply F)) :=
    .inr ⟨trivial, fun _ _ => hstamp⟩
  cases ph with
  | check =>
    refine iff_of_false (fun hbound => ?_) nofun
    -- a client that is told of an entry ends without writing
    have hlook : (rest key c .check : StoreM F (Reply F)) = _ := handler_eq key c
    rw [hlook] at hbound
    rcases hbound with ⟨f, hf, hne⟩ | ⟨-, hall⟩
    · cases hf
      exact hne rfl
    · exact hall (some (new_entry c 0)) trivial
  | evict =>
    refine iff_of_true (.inr ⟨trivial, fun config hconfig => ?_⟩) rfl
    show Bound key ((if config.maxmemory = 0 then _ else _) >>= _)
    have hlimit : config.maxmemory = 0 := hconfig
    rw [if_pos hlimit]
    exact hnotify
  | notify => exact iff_of_true hnotify rfl
  | stamp => exact iff_of_true hstamp rfl
  | insert t => exact iff_of_true (hinsert t) rfl
  | count =>
    refine iff_of_false (fun hbound => ?_) nofun
    rcases hbound with ⟨f, hf, -⟩ | ⟨-, hall⟩
    · cases hf
    · exact hall () trivial
  | won => exact iff_of_false id nofun
  | lost => exact iff_of_false id nofun

/-! ## All clients -/

section Race

variable {ι : Type} [DecidableEq ι] {key : Bytes} {clients : ι → NxClient}

abbrev Race (ι F : Type) [LinearOrder F] := Config ι (StoreOp F) StoreOp.Res Halt (Reply F) (World F)

def start (key : Bytes) (clients : ι → NxClient) (w : World F) : Race ι F :=
  ⟨fun i => (clients i).handler key, w⟩

/-- The clients have come to these phases. -/
structure At (key : Bytes) (clients : ι → NxClient) (c : Race ι F) (ph : ι → Phase) : Prop where
  threads : ∀ i, c.threads i = rest key (clients i) (ph i)
  calm : Calm key c.shared

def next_phases (key : Bytes) (clients : ι → NxClient) (c : Race ι F) (ph : ι → Phase) (i : ι) :
    ι → Phase :=
  Function.update ph i ((ph i).next (clients i) (c.shared.store.keyspace[key]?).isSome
    (c.shared.env.clock 0))

variable {c : Race ι F} {ph : ι → Phase}

theorem next_phases_self (i : ι) {e : Option (Entry F)} (he : c.shared.store.keyspace[key]? = e) :
    next_phases key clients c ph i i = (ph i).next (clients i) e.isSome (c.shared.env.clock 0) := by
  rw [← he]
  exact update_self ..

theorem next_phases_other {i j : ι} (hj : j ≠ i) : next_phases key clients c ph i j = ph j :=
  update_of_ne hj ..

theorem at_step (h : At key clients c ph) (i : ι) :
    At key clients (c.step step i) (next_phases key clients c ph i) ∧
      Stepped key (clients i) (ph i) c.shared (c.step step i).shared := by
  obtain ⟨hnext, hstepped⟩ := advance_rest h.calm (clients i) (ph i)
  rw [← h.threads i] at hnext hstepped
  refine ⟨⟨fun j => ?_, hstepped.calm⟩, hstepped⟩
  by_cases hj : j = i
  · rw [hj, Config.step_self, hnext, next_phases_self i rfl]
  · rw [Config.step_other hj, h.threads j, next_phases_other hj]

/-- A client looks and finds nothing only while no other one is bound to write the key. -/
def Polite (key : Bytes) (clients : ι → NxClient) (c : Race ι F) (i : ι) : Prop :=
  c.threads i = (clients i).handler key → c.shared.store.keyspace[key]? = none →
    ∀ j, j ≠ i → ¬ Bound key (c.threads j)

/-- Nobody has put a value in, and at most one client is about to. -/
structure Open (key : Bytes) (c : Race ι F) (ph : ι → Phase) : Prop where
  absent : c.shared.store.keyspace[key]? = none
  phases : ∀ i, ph i = .check ∨ (ph i).committed = true
  unique : ∀ i j, (ph i).committed = true → (ph j).committed = true → i = j

/-- One client has put its value in, and all others have lost or will. -/
structure Taken (key : Bytes) (clients : ι → NxClient) (c : Race ι F) (ph : ι → Phase) (i : ι) :
    Prop where
  value : ∃ e, c.shared.store.keyspace[key]? = some e ∧ e.data = .String (clients i).value
  winner : ph i = .count ∨ ph i = .won
  losers : ∀ j, j ≠ i → ph j = .check ∨ ph j = .lost

theorem Phase.committed_behind_check (c : NxClient) : (behind_check c).committed = true := by
  cases c <;> rfl

theorem open_step (h : At key clients c ph) (ho : Open key c ph)
    {i : ι} (hpolite : Polite key clients c i) :
    Open key (c.step step i) (next_phases key clients c ph i) ∨
      Taken key clients (c.step step i) (next_phases key clients c ph i) i := by
  obtain ⟨-, hstepped⟩ := at_step h i
  by_cases hinsert : ∃ t, ph i = .insert t
  · -- the value goes in; no other client is about to do that
    obtain ⟨t, ht⟩ := hinsert
    refine .inr ⟨⟨_, hstepped.inserted t ht, rfl⟩, .inl ?_, fun j hj => ?_⟩
    · rw [next_phases_self i ho.absent, ht]
      rfl
    · rw [next_phases_other hj]
      refine (ho.phases j).imp_right fun hc => ?_
      exact absurd (ho.unique j i hc (by rw [ht]; rfl)) hj
  · have hsame := hstepped.same fun t ht => hinsert ⟨t, ht⟩
    refine .inl ⟨hsame.trans ho.absent, fun j => ?_, fun j k hj hk => ?_⟩
    · by_cases hj : j = i
      · rw [hj, next_phases_self i ho.absent]
        right
        rcases ho.phases i with hcheck | hcommitted
        · rw [hcheck]
          exact Phase.committed_behind_check _
        · cases hph : ph i with
          | insert t => exact absurd ⟨t, hph⟩ hinsert
          | evict => rfl
          | notify => rfl
          | stamp => rfl
          | _ =>
            rw [hph] at hcommitted
            cases hcommitted
      · rw [next_phases_other hj]
        exact ho.phases j
    · -- a client becomes bound only while no other one is
      have hnone : ph i = .check → ∀ j, j ≠ i → (ph j).committed = false := by
        intro hcheck j hj
        have hfree := hpolite ((h.threads i).trans (by rw [hcheck]; rfl)) ho.absent j hj
        rw [h.threads j, bound_iff] at hfree
        exact Bool.not_eq_true _ ▸ hfree
      have hbefore : ∀ j, (next_phases key clients c ph i j).committed = true →
          j = i ∨ (ph j).committed = true := by
        intro j hj
        by_cases hji : j = i
        · exact .inl hji
        · rw [next_phases_other hji] at hj
          exact .inr hj
      rcases ho.phases i with hcheck | hcommitted
      · have honly : ∀ j, (next_phases key clients c ph i j).committed = true → j = i := by
          intro j hj
          rcases hbefore j hj with hji | hcj
          · exact hji
          · by_contra hne
            rw [hnone hcheck j hne] at hcj
            cases hcj
        rw [honly j hj, honly k hk]
      · have hwas : ∀ j, (next_phases key clients c ph i j).committed = true →
            (ph j).committed = true := fun j hj => (hbefore j hj).elim (fun hji => hji ▸ hcommitted) id
        exact ho.unique j k (hwas j hj) (hwas k hk)

theorem taken_step (h : At key clients c ph) {i : ι}
    (ht : Taken key clients c ph i) (k : ι) :
    Taken key clients (c.step step k) (next_phases key clients c ph k) i := by
  obtain ⟨-, hstepped⟩ := at_step h k
  obtain ⟨e, he, hdata⟩ := ht.value
  have hsame : (c.step step k).shared.store.keyspace[key]? = some e := by
    refine (hstepped.same fun t hins => ?_).trans he
    by_cases hk : k = i
    · rcases ht.winner with hw | hw <;> rw [hk, hw] at hins <;> cases hins
    · rcases ht.losers k hk with hl | hl <;> rw [hl] at hins <;> cases hins
  refine ⟨⟨e, hsame, hdata⟩, ?_, fun j hj => ?_⟩
  · by_cases hk : i = k
    · rw [hk, next_phases_self k he, ← hk]
      rcases ht.winner with hw | hw <;> rw [hw] <;> exact .inr rfl
    · rw [next_phases_other hk]
      exact ht.winner
  · by_cases hk : j = k
    · rw [hk, next_phases_self k he, ← hk]
      rcases ht.losers j hj with hl | hl <;> rw [hl] <;> exact .inr rfl
    · rw [next_phases_other hk]
      exact ht.losers j hj

def Phase.doomed : Phase → Bool
  | .check | .lost => false
  | _ => true

theorem Phase.doomed_of_committed {ph : Phase} (h : ph.committed = true) : ph.doomed = true := by
  cases ph <;> first | rfl | cases h

theorem Phase.doomed_next {ph : Phase} (h : ph.doomed = true) (c : NxClient) (found : Bool)
    (now : Instant) : (ph.next c found now).doomed = true := by
  cases ph <;> first | rfl | cases h

/-- Two clients will report success. -/
def Doubled (key : Bytes) (clients : ι → NxClient) (c : Race ι F) : Prop :=
  ∃ ph, At key clients c ph ∧ ∃ i j, i ≠ j ∧ (ph i).doomed = true ∧ (ph j).doomed = true

theorem doubled_step (h : Doubled key clients c) (k : ι) :
    Doubled key clients (c.step step k) := by
  obtain ⟨ph, hat, i, j, hij, hi, hj⟩ := h
  have hkeep : ∀ l, (ph l).doomed = true → (next_phases key clients c ph k l).doomed = true := by
    intro l hl
    by_cases hlk : l = k
    · rw [← hlk, next_phases_self l rfl]
      exact Phase.doomed_next hl _ _ _
    · rwa [next_phases_other hlk]
  exact ⟨_, (at_step hat k).1, i, j, hij, hkeep i hi, hkeep j hj⟩

theorem impolite_step (h : At key clients c ph) {i : ι}
    (himpolite : ¬ Polite key clients c i) : Doubled key clients (c.step step i) := by
  unfold Polite at himpolite
  push Not at himpolite
  obtain ⟨hcheck, habsent, j, hj, hbound⟩ := himpolite
  have hat : At key clients c (Function.update ph i .check) := by
    refine ⟨fun k => ?_, h.calm⟩
    by_cases hk : k = i
    · rw [hk, update_self]
      exact hcheck
    · rw [update_of_ne hk]
      exact h.threads k
  rw [h.threads j, bound_iff] at hbound
  refine ⟨_, (at_step hat i).1, i, j, hj.symm, ?_, ?_⟩
  · rw [next_phases_self i habsent, update_self]
    exact Phase.doomed_of_committed (Phase.committed_behind_check _)
  · rw [next_phases_other hj, update_of_ne hj]
    exact Phase.doomed_of_committed hbound

theorem ended_phase {c : NxClient} {ph : Phase} (h : (rest key c ph : StoreM F (Reply F)).Ended) :
    ph = .won ∨ ph = .lost := by
  cases ph with
  | won => exact .inl rfl
  | lost => exact .inr rfl
  | check =>
    have hlook : (rest key c .check : StoreM F (Reply F)) = _ := handler_eq key c
    rw [hlook] at h
    exact h.elim
  | _ => exact h.elim

omit [Score F] in
theorem success_ne_failure (c : NxClient) : (c.success : Reply F) ≠ c.failure := by
  cases c with
  | SET value => exact fun h => (nomatch h)
  | SETNX value =>
    intro h
    have hint : (Int64.ofNat 1) = Int64.ofNat 0 := Resp.RespValue.Integer.inj h
    exact absurd hint (by decide)

/-- One client reports success and all others failure, and the key holds the value of that one. -/
def Exclusive (key : Bytes) (clients : ι → NxClient) (c : Race ι F) : Prop :=
  ∃ i, c.threads i = .pure (clients i).success ∧
    (∀ j, j ≠ i → c.threads j = .pure (clients j).failure) ∧
    ∃ e, c.shared.store.keyspace[key]? = some e ∧ e.data = .String (clients i).value

theorem exclusive_of_polite [Nonempty ι] {w : World F} {schedule : List ι} (hcalm : Calm key w)
    (habsent : w.store.keyspace[key]? = none)
    (hpolite : Along (Config.step step) (Polite key clients) (start key clients w) schedule)
    (hdone : (run (Config.step step) (start key clients w) schedule).Finished) :
    Exclusive key clients (run (Config.step step) (start key clients w) schedule) := by
  have hinit : ∃ ph, At key clients (start key clients w) ph ∧
      (Open key (start key clients w) ph ∨ ∃ i, Taken key clients (start key clients w) ph i) :=
    ⟨fun _ => .check, ⟨fun _ => rfl, hcalm⟩, .inl ⟨habsent, fun _ => .inl rfl, nofun⟩⟩
  obtain ⟨ph, hat, hstate⟩ := hpolite.invariant (I := fun c => ∃ ph, At key clients c ph ∧
      (Open key c ph ∨ ∃ i, Taken key clients c ph i)) (fun c i hc hI => by
    obtain ⟨ph, hat, ho | ⟨k, ht⟩⟩ := hI
    · refine ⟨_, (at_step hat i).1, ?_⟩
      exact (open_step hat ho hc).imp_right fun ht => ⟨i, ht⟩
    · exact ⟨_, (at_step hat i).1, .inr ⟨k, taken_step hat ht i⟩⟩) hinit
  have hended : ∀ i, ph i = .won ∨ ph i = .lost := fun i =>
    ended_phase (c := clients i) (hat.threads i ▸ hdone i)
  rcases hstate with ho | ⟨i, ht⟩
  · -- nobody has come to the end of an open race
    obtain ⟨i⟩ := ‹Nonempty ι›
    rcases ho.phases i with hcheck | hcommitted
    · rcases hended i with hw | hw <;> cases hcheck.symm.trans hw
    · rcases hended i with hw | hw <;> rw [hw] at hcommitted <;> cases hcommitted
  · refine ⟨i, ?_, fun j hj => ?_, ht.value⟩
    · rw [hat.threads i]
      rcases hended i with hw | hw
      · rw [hw]
        rfl
      · rcases ht.winner with hw' | hw' <;> cases hw.symm.trans hw'
    · rw [hat.threads j]
      rcases ht.losers j hj with hl | hl
      · rcases hended j with hw | hw <;> cases hl.symm.trans hw
      · rw [hl]
        rfl

/-- **SET NX.** Of any clients that run to their ends, on a key that does not exist and without a
memory limit, exactly one reports success and has its value under the key, if and only if no client
looks and finds nothing while another one is bound to write the key. -/
theorem set_nx_exclusive_iff [Nonempty ι] (key : Bytes) (clients : ι → NxClient) (w : World F)
    (schedule : List ι) (habsent : w.store.keyspace[key]? = none)
    (hlimit : w.store.evict_config.maxmemory = 0)
    (hdone : (run (Config.step step) (start key clients w) schedule).Finished) :
    Exclusive key clients (run (Config.step step) (start key clients w) schedule) ↔
      Along (Config.step step) (Polite key clients) (start key clients w) schedule := by
  have hcalm : Calm key w := ⟨hlimit, fun e he => (nomatch habsent.symm.trans he)⟩
  constructor
  · intro hexclusive
    by_contra hnot
    have hocc := occurs_of_not_along hnot
    have hat : At key clients (start key clients w) fun _ => .check := ⟨fun _ => rfl, hcalm⟩
    obtain ⟨ph, hat, i, j, hij, hi, hj⟩ := run_after
      (I := fun c => ∃ ph, At key clients c ph) (J := Doubled key clients)
      (fun c i hI => ⟨_, (at_step hI.choose_spec i).1⟩)
      (fun c i hI hD => impolite_step hI.choose_spec hD) (fun c i hJ => doubled_step hJ i)
      ⟨_, hat⟩ hocc
    obtain ⟨k, -, hlost, -⟩ := hexclusive
    -- one of the two is not the one that has won
    have hwon : ∀ l, (ph l).doomed = true → l = k := by
      intro l hl
      by_contra hlk
      have hthread := hlost l hlk
      rw [hat.threads l] at hthread
      rcases ended_phase (c := clients l) (hat.threads l ▸ hdone l) with hw | hw
      · rw [hw] at hthread
        exact success_ne_failure (clients l) (Prog.pure.inj hthread)
      · rw [hw] at hl
        cases hl
    exact hij ((hwon i hi).trans (hwon j hj).symm)
  · exact fun hpolite => exclusive_of_polite hcalm habsent hpolite hdone

end Race

def two_clients : Bool → NxClient
  | false => .SETNX (as_bytes "a")
  | true => .SETNX (as_bytes "b")

def two_start : Race Bool Resp.Infinity := start (as_bytes "k") two_clients (.new .still)

/-- One after the other. -/
theorem set_nx_exclusive_serial :
    Along (Config.step step) (Polite (as_bytes "k") two_clients) two_start
      [false, false, false, false, false, true] := by
  refine (set_nx_exclusive_iff (as_bytes "k") two_clients (.new .still) _ rfl rfl fun i => ?_).mp
    ⟨false, rfl, fun j hj => ?_, _, rfl, rfl⟩
  · cases i <;> trivial
  · cases j with
    | false => exact absurd rfl hj
    | true => rfl

/-- Both look before either puts its value in, and both report success. -/
theorem set_nx_both_succeed :
    let final := run (Config.step step) two_start
      [false, true, false, false, false, false, true, true, true, true]
    final.threads false = .pure (int 1) ∧ final.threads true = .pure (int 1) :=
  ⟨rfl, rfl⟩

end ValkeyRs.NxRace
