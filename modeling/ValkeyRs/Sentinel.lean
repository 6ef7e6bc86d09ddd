/-
The failover of the sentinel, `crates/sentinel/src/failover.rs` and `crates/sentinel/src/state.rs`.

A failover promotes the best replica, takes it out of the list of replicas and puts the old primary
there. The address it puts there is the one the master was configured with, `addr`, and not the one
of the primary at the time, `current_primary`. The two are the same until the first failover has
completed. A second one puts the configured address into the list again and forgets the node that
was the primary in between.

What the nodes answer is up to them: an event brings the replies to `REPLICAOF NO ONE`. Finding
replicas by INFO, and the pings, are left out but for the state they give to a master.

The monitor leaves the state `Odown` alone when the primary answers again, so that a master which
no failover brings back stays objectively down.
-/
import ValkeyRs.Storage
import ValkeyRs.Runs

set_option autoImplicit false

open ValkeyRs Runs Storage List Std

namespace ValkeyRs.Sentinel

/-! ## State -/

inductive MasterState where
  | Ok
  | Sdown
  | Odown
  | Failover
  deriving Repr, DecidableEq

/-- A replica. `SocketAddr` is the type of addresses. -/
structure ReplicaInfo (SocketAddr : Type) where
  addr : SocketAddr
  replication_offset : UInt64
  priority : Int64
  last_seen : Instant

/-- A monitored master, without the numbers that only the monitor looks at. -/
structure MasterInfo (SocketAddr : Type) where
  addr : SocketAddr
  state : MasterState
  replicas : List (ReplicaInfo SocketAddr)
  last_ping_reply : Option Instant
  sdown_since : Option Instant
  failover_epoch : UInt64
  current_primary : SocketAddr

/-- The masters by name. -/
abbrev SentinelState (SocketAddr : Type) := ExtTreeMap String (MasterInfo SocketAddr)

variable {SocketAddr : Type}

/-- `MasterInfo::new`. -/
def MasterInfo.new (addr : SocketAddr) : MasterInfo SocketAddr :=
  ⟨addr, .Ok, [], none, none, 0, addr⟩

/-! ## Failover -/

/-- The order of `(r.priority, Reverse(r.replication_offset))`. -/
def ReplicaInfo.better (r best : ReplicaInfo SocketAddr) : Bool :=
  r.priority < best.priority ∨
    r.priority = best.priority ∧ best.replication_offset < r.replication_offset

def pick_best_replica : List (ReplicaInfo SocketAddr) → Option (ReplicaInfo SocketAddr)
  | [] => none
  | r :: rest => some (rest.foldl (fun best r => if r.better best then r else best) r)

variable [DecidableEq SocketAddr]

/-- `execute_failover` behind the look at the table. -/
def MasterInfo.execute_failover (self : MasterInfo SocketAddr) (promote_replica : SocketAddr → Bool)
    (now later : Instant) : Bool × MasterInfo SocketAddr :=
  if self.state ≠ .Odown then (false, self)
  else
    let self := { self with failover_epoch := self.failover_epoch + 1 }
    match pick_best_replica self.replicas with
    | none => (false, self)
    | some best =>
      if promote_replica best.addr then
        (true, { self with
          current_primary := best.addr
          replicas := self.replicas.filter (·.addr ≠ best.addr) ++ [⟨self.addr, 0, 100, now⟩]
          state := .Ok
          last_ping_reply := some later
          sdown_since := none })
      else (false, self)

def execute_failover (state : SentinelState SocketAddr) (master_name : String)
    (promote_replica : SocketAddr → Bool) (now later : Instant) :
    Bool × SentinelState SocketAddr :=
  match state[master_name]? with
  | none => (false, state)
  | some master =>
    let (ok, master) := master.execute_failover promote_replica now later
    (ok, state.insert master_name master)

def force_failover (state : SentinelState SocketAddr) (master_name : String)
    (promote_replica : SocketAddr → Bool) (now later : Instant) :
    Bool × SentinelState SocketAddr :=
  match state[master_name]? with
  | none => (false, state)
  | some master =>
    execute_failover (state.insert master_name { master with state := .Odown }) master_name
      promote_replica now later

/-! ## Runs -/

/-- What happens to a master: the monitor gives it a state, or a failover is tried. -/
inductive Event (SocketAddr : Type) where
  | monitor (master_name : String) (state : MasterState)
  | execute_failover (master_name : String) (promote_replica : SocketAddr → Bool)
      (now later : Instant)
  | force_failover (master_name : String) (promote_replica : SocketAddr → Bool)
      (now later : Instant)

def step (s : SentinelState SocketAddr) : Event SocketAddr → SentinelState SocketAddr
  | .monitor name state => s.modify name ({ · with state := state })
  | .execute_failover name promote now later => (execute_failover s name promote now later).2
  | .force_failover name promote now later => (force_failover s name promote now later).2

/-! ## What one failover does -/

omit [DecidableEq SocketAddr] in
theorem pick_best_replica_mem {replicas : List (ReplicaInfo SocketAddr)}
    {best : ReplicaInfo SocketAddr} (h : pick_best_replica replicas = some best) :
    best ∈ replicas := by
  cases replicas with
  | nil => cases h
  | cons r rest =>
    have hfold : ∀ (l : List (ReplicaInfo SocketAddr)) (b : ReplicaInfo SocketAddr),
        l.foldl (fun best r => if r.better best then r else best) b ∈ b :: l := by
      intro l
      induction l with
      | nil => exact fun b => mem_cons_self
      | cons x l ih =>
        intro b
        rw [foldl_cons]
        rcases mem_cons.mp (ih (if x.better b then x else b)) with hhead | htail
        · rw [hhead]
          split
          · exact mem_cons_of_mem _ mem_cons_self
          · exact mem_cons_self
        · exact mem_cons_of_mem _ (mem_cons_of_mem _ htail)
    exact Option.some.inj h ▸ hfold rest r

omit [DecidableEq SocketAddr] in
def MasterInfo.addrs (self : MasterInfo SocketAddr) : List SocketAddr := self.replicas.map (·.addr)

/-- The primary and the replicas are these nodes, each of them once. -/
structure Intact (nodes : Set SocketAddr) (m : MasterInfo SocketAddr) : Prop where
  nodes : {a | a = m.current_primary ∨ a ∈ m.addrs} = nodes
  nodup : m.addrs.Nodup
  apart : m.current_primary ∉ m.addrs

/-- This failover of the master completes: there is a replica, and the best one can be promoted. -/
def MasterInfo.Completes (self : MasterInfo SocketAddr) (promote_replica : SocketAddr → Bool) : Prop :=
  self.state = .Odown ∧ ∃ best, pick_best_replica self.replicas = some best ∧
    promote_replica best.addr = true

theorem execute_failover_of_completes {m : MasterInfo SocketAddr} {promote : SocketAddr → Bool}
    (now later : Instant) (h : m.Completes promote) :
    ∃ b ∈ m.addrs, (m.execute_failover promote now later).2.current_primary = b ∧
      (m.execute_failover promote now later).2.addrs = m.addrs.filter (· ≠ b) ++ [m.addr] := by
  obtain ⟨hstate, best, hbest, hpromote⟩ := h
  refine ⟨best.addr, mem_map_of_mem (pick_best_replica_mem hbest), ?_⟩
  unfold MasterInfo.execute_failover MasterInfo.addrs
  simp only [hstate, hbest, hpromote, ne_eq, not_true_eq_false, if_false, if_true, true_and,
    map_append, filter_map]
  rfl

theorem execute_failover_of_not_completes {m : MasterInfo SocketAddr} {promote : SocketAddr → Bool}
    (now later : Instant) (h : ¬ m.Completes promote) :
    (m.execute_failover promote now later).2.current_primary = m.current_primary ∧
      (m.execute_failover promote now later).2.addrs = m.addrs := by
  unfold MasterInfo.execute_failover
  by_cases hstate : m.state = .Odown
  · rw [if_neg (not_not.mpr hstate)]
    dsimp only
    cases hbest : pick_best_replica m.replicas with
    | none => exact ⟨rfl, rfl⟩
    | some best =>
      have hpromote : promote best.addr ≠ true := fun hp => h ⟨hstate, best, hbest, hp⟩
      dsimp only
      rw [if_neg hpromote]
      exact ⟨rfl, rfl⟩
  · rw [if_pos hstate]
    exact ⟨rfl, rfl⟩

variable {nodes : Set SocketAddr}

/-- **One failover.** A failover that completes keeps the nodes exactly if the primary is the one
the master was configured with. -/
theorem intact_failover_iff {m : MasterInfo SocketAddr}
    {promote : SocketAddr → Bool} {now later : Instant} (hm : Intact nodes m)
    (h : m.Completes promote) :
    Intact nodes (m.execute_failover promote now later).2 ↔ m.current_primary = m.addr := by
  obtain ⟨b, hb, hprimary, haddrs⟩ := execute_failover_of_completes now later h
  constructor
  · intro hafter
    -- the old primary has to be somewhere, and it is no replica
    have hold : m.current_primary ∈ nodes := hm.nodes ▸ .inl rfl
    rw [← hafter.nodes, Set.mem_ofPred_eq, hprimary, haddrs] at hold
    rcases hold with hb' | hmem
    · exact absurd (hb' ▸ hb) hm.apart
    · rcases mem_append.mp hmem with hrep | haddr
      · exact absurd (List.mem_filter.mp hrep).1 hm.apart
      · exact mem_singleton.mp haddr
  · intro hsame
    have hnot : m.addr ∉ m.addrs := hsame ▸ hm.apart
    refine ⟨?_, ?_, ?_⟩
    · rw [← hm.nodes]
      ext a
      rw [Set.mem_ofPred_eq, Set.mem_ofPred_eq, hprimary, haddrs, mem_append, List.mem_filter,
        mem_singleton, hsame]
      by_cases hab : a = b
      · simp [hab, hb]
      · simp [hab, or_comm]
    · rw [haddrs]
      refine List.Nodup.append (hm.nodup.filter _) (nodup_singleton _) ?_
      intro a ha haddr
      rw [mem_singleton.mp haddr] at ha
      exact hnot (List.mem_filter.mp ha).1
    · rw [hprimary, haddrs, mem_append, mem_singleton]
      rintro (hmem | haddr)
      · simpa using (List.mem_filter.mp hmem).2
      · exact hnot (haddr ▸ hb)

/-! ## What a run does -/

omit [DecidableEq SocketAddr] in
theorem intact_congr {m m' : MasterInfo SocketAddr}
    (hprimary : m'.current_primary = m.current_primary) (haddrs : m'.addrs = m.addrs) :
    Intact nodes m' ↔ Intact nodes m := by
  constructor
  · rintro ⟨hnodes, hnodup, hapart⟩
    rw [hprimary, haddrs] at *
    exact ⟨hnodes, hnodup, hapart⟩
  · rintro ⟨hnodes, hnodup, hapart⟩
    rw [← hprimary, ← haddrs] at *
    exact ⟨hnodes, hnodup, hapart⟩

/-- A failover that is tried keeps the nodes exactly if it does not complete, or the primary is the
one the master was configured with. -/
theorem intact_execute_iff {m : MasterInfo SocketAddr}
    {promote : SocketAddr → Bool} {now later : Instant} (hm : Intact nodes m) :
    Intact nodes (m.execute_failover promote now later).2 ↔
      (m.Completes promote → m.current_primary = m.addr) := by
  by_cases h : m.Completes promote
  · rw [intact_failover_iff hm h]
    exact ⟨fun hsame _ => hsame, fun hsame => hsame h⟩
  · obtain ⟨hprimary, haddrs⟩ := execute_failover_of_not_completes now later h
    exact iff_of_true ((intact_congr hprimary haddrs).mpr hm) fun hc => absurd hc h

/-- The master is there, and its nodes are these. -/
def IntactAt (nodes : Set SocketAddr) (name : String) (s : SentinelState SocketAddr) : Prop :=
  ∃ m, s[name]? = some m ∧ Intact nodes m

/-- At this event a failover of the master completes. -/
def Event.Completes (name : String) (s : SentinelState SocketAddr) : Event SocketAddr → Prop
  | .monitor _ _ => False
  | .execute_failover n promote _ _ => n = name ∧ ∃ m, s[name]? = some m ∧ m.Completes promote
  | .force_failover n promote _ _ =>
    n = name ∧ ∃ m, s[name]? = some m ∧ { m with state := .Odown }.Completes promote

/-- A failover of the master completes only while its primary is the one it was configured with. -/
def FromConfigured (name : String) (s : SentinelState SocketAddr) (e : Event SocketAddr) : Prop :=
  e.Completes name s → ∀ m, s[name]? = some m → m.current_primary = m.addr

omit [DecidableEq SocketAddr] in
theorem intactAt_insert_iff {name n : String}
    {s : SentinelState SocketAddr} (hs : IntactAt nodes name s) (m : MasterInfo SocketAddr) :
    IntactAt nodes name (s.insert n m) ↔ (n = name → Intact nodes m) := by
  by_cases hn : n = name
  · subst hn
    unfold IntactAt
    rw [ExtTreeMap.getElem?_insert_self]
    constructor
    · rintro ⟨m', hm', hintact⟩ -
      exact Option.some.inj hm' ▸ hintact
    · intro hintact
      exact ⟨m, rfl, hintact rfl⟩
  · obtain ⟨m', hm', hintact⟩ := hs
    refine iff_of_true ⟨m', ?_, hintact⟩ fun h => absurd h hn
    rw [ExtTreeMap.getElem?_insert, if_neg (mt LawfulEqCmp.eq_of_compare hn)]
    exact hm'

/-- **One event.** -/
theorem intactAt_step_iff {name : String} {s : SentinelState SocketAddr}
    (hs : IntactAt nodes name s) (e : Event SocketAddr) :
    IntactAt nodes name (step s e) ↔ FromConfigured name s e := by
  obtain ⟨m, hm, hintact⟩ := hs
  cases e with
  | monitor n state =>
    refine iff_of_true ?_ fun h => absurd h id
    show ∃ m', (s.modify n _)[name]? = some m' ∧ Intact nodes m'
    rw [ExtTreeMap.getElem?_modify]
    by_cases hn : compare n name = .eq
    · rw [if_pos hn, LawfulEqCmp.eq_of_compare hn, hm]
      exact ⟨_, rfl, hintact.nodes, hintact.nodup, hintact.apart⟩
    · rw [if_neg hn]
      exact ⟨m, hm, hintact⟩
  | execute_failover n promote now later =>
    unfold step execute_failover FromConfigured Event.Completes
    dsimp only
    by_cases hn : n = name
    · subst hn
      simp only [hm, Option.some.injEq, forall_eq', true_and, exists_eq_left']
      rw [intactAt_insert_iff ⟨m, hm, hintact⟩, ← intact_execute_iff hintact]
      exact ⟨fun h => h rfl, fun h _ => h⟩
    · refine iff_of_true ?_ fun h => absurd h.1 hn
      cases hother : s[n]? with
      | none => exact ⟨m, hm, hintact⟩
      | some m' => exact (intactAt_insert_iff ⟨m, hm, hintact⟩ _).mpr fun h => absurd h hn
  | force_failover n promote now later =>
    unfold step force_failover FromConfigured Event.Completes
    dsimp only
    by_cases hn : n = name
    · subst hn
      -- the state is set first, and then the failover is tried as above
      have hdown : Intact nodes { m with state := .Odown } :=
        ⟨hintact.nodes, hintact.nodup, hintact.apart⟩
      have hset : IntactAt nodes n (s.insert n { m with state := .Odown }) :=
        (intactAt_insert_iff ⟨m, hm, hintact⟩ _).mpr fun _ => hdown
      simp only [hm, Option.some.injEq, forall_eq', true_and, exists_eq_left']
      unfold execute_failover
      rw [ExtTreeMap.getElem?_insert_self]
      rw [intactAt_insert_iff hset, ← intact_execute_iff hdown]
      exact ⟨fun h => h rfl, fun h _ => h⟩
    · refine iff_of_true ?_ fun h => absurd h.1 hn
      cases hother : s[n]? with
      | none => exact ⟨m, hm, hintact⟩
      | some m' =>
        have hset : IntactAt nodes name (s.insert n { m' with state := .Odown }) :=
          (intactAt_insert_iff ⟨m, hm, hintact⟩ _).mpr fun h => absurd h hn
        unfold execute_failover
        dsimp only
        rw [ExtTreeMap.getElem?_insert_self]
        exact (intactAt_insert_iff hset _).mpr fun h => absurd h hn

/-- **Failovers.** Let the replicas of a master have different addresses, none of them the
primary's. In every state of a run the primary and the replicas are the same nodes, each of them
once, if and only if every failover that completes does so while the primary is the one the master
was configured with. -/
theorem failover_keeps_nodes_iff (s : SentinelState SocketAddr) (name : String)
    (m : MasterInfo SocketAddr) (hm : s[name]? = some m) (hnodup : m.addrs.Nodup)
    (hapart : m.current_primary ∉ m.addrs) (es : List (Event SocketAddr)) :
    Along step (fun s e =>
        IntactAt {a | a = m.current_primary ∨ a ∈ m.addrs} name (step s e)) s es ↔
      Along step (FromConfigured name) s es :=
  along_always_iff (I := IntactAt {a | a = m.current_primary ∨ a ∈ m.addrs} name)
    (fun _ e hs => intactAt_step_iff hs e) ⟨m, hm, rfl, hnodup, hapart⟩

/-- A master with two replicas; addresses are numbers here. -/
def two_replicas : SentinelState ℕ :=
  (∅ : SentinelState ℕ).insert "m"
    { MasterInfo.new 1 with replicas := [⟨2, 0, 100, 0⟩, ⟨3, 0, 100, 0⟩] }

/-- One failover completes. -/
theorem failover_keeps_nodes_once :
    Along step (fun s e => IntactAt {a | a = 1 ∨ a ∈ [2, 3]} "m" (step s e)) two_replicas
      [.force_failover "m" (fun _ => true) 0 0] := by
  refine (failover_keeps_nodes_iff two_replicas "m" _ rfl (by decide) (by decide) _).mpr
    ⟨fun _ m hm => ?_, trivial⟩
  cases hm
  rfl

/-- After two failovers the node that was the primary in between is gone, and the one that was so
first is in the list twice. -/
theorem failover_forgets_node :
    ((run step two_replicas [.force_failover "m" (fun _ => true) 0 0,
        .force_failover "m" (fun _ => true) 0 0])["m"]?.map fun m => (m.current_primary, m.addrs)) =
      some (3, [1, 1]) := by
  decide +kernel

/-! ## Down states

A tick visits one master after the other, and a failover concerns one master, so that what happens
to a master is told of it alone. `force_failover` lets go of the table after it has marked the
master, so the mark and the failover are two events. -/

omit [DecidableEq SocketAddr] in
/-- One master in the loop of `start_monitor`: `found` is what its primary tells of its replicas. -/
def MasterInfo.tick (self : MasterInfo SocketAddr) (quorum : UInt32) (alive : Bool) (now : Instant)
    (found : List (ReplicaInfo SocketAddr)) : MasterInfo SocketAddr :=
  let self :=
    if alive then
      let self := { self with last_ping_reply := some now }
      if self.state = .Sdown then { self with state := .Ok, sdown_since := none } else self
    else if self.state = .Ok then { self with state := .Sdown, sdown_since := some now }
    else self
  let self := if alive && !found.isEmpty then { self with replicas := found } else self
  if self.state = .Sdown ∧ quorum ≤ 1 then { self with state := .Odown } else self

inductive Turn (SocketAddr : Type) where
  | tick (quorum : UInt32) (alive : Bool) (now : Instant) (found : List (ReplicaInfo SocketAddr))
  | mark_odown
  | execute_failover (promote_replica : SocketAddr → Bool) (now later : Instant)

/-- A master, whether its current primary answered the ping of the latest tick, and whether any ping
was answered since it was last in the state `Ok`. -/
structure Watched (SocketAddr : Type) where
  master : MasterInfo SocketAddr
  answered : Bool
  reached : Bool

def Watched.becomes (w : Watched SocketAddr) (m : MasterInfo SocketAddr) (ping : Option Bool) :
    Watched SocketAddr :=
  ⟨m, ping.getD (w.answered && m.current_primary = w.master.current_primary),
    m.state ≠ .Ok && (w.reached || ping.getD false)⟩

def Watched.step (w : Watched SocketAddr) : Turn SocketAddr → Watched SocketAddr
  | .tick quorum alive now found => w.becomes (w.master.tick quorum alive now found) (some alive)
  | .mark_odown => w.becomes { w.master with state := .Odown } none
  | .execute_failover promote now later =>
    w.becomes (w.master.execute_failover promote now later).2 none

/-- A master whose primary has answered is not down, and one that is objectively down has answered
no ping since it was last `Ok`. -/
def Disciplined (w : Watched SocketAddr) : Prop :=
  (w.answered → w.master.state ≠ .Sdown ∧ w.master.state ≠ .Odown) ∧
    (w.master.state = .Odown → ¬ w.reached)

/-- No ping is answered while the master is objectively down, and no failover is forced while the
primary answers. -/
def Heeded (w : Watched SocketAddr) : Turn SocketAddr → Prop
  | .tick _ alive _ _ => alive → w.master.state ≠ .Odown
  | .mark_odown => ¬ w.answered
  | .execute_failover _ _ _ => True

/-- What a run keeps that meets the condition. -/
def Sober (w : Watched SocketAddr) : Prop :=
  ¬ w.reached ∧ w.master.state ≠ .Failover ∧ (w.answered → w.master.state = .Ok)

theorem watched_step {w : Watched SocketAddr} (e : Turn SocketAddr) (hw : Sober w) :
    (Disciplined (w.step e) ↔ Heeded w e) ∧ (Heeded w e → Sober (w.step e)) := by
  -- of the master only its state counts, and of a failover only whether it has changed that
  unfold Disciplined Heeded Sober at *
  cases e with
  | tick quorum alive now found =>
    simp only [Watched.step, Watched.becomes, MasterInfo.tick]
    cases hm : w.master.state <;> grind
  | mark_odown =>
    simp only [Watched.step, Watched.becomes]
    grind
  | execute_failover promote now later =>
    simp only [Watched.step, Watched.becomes, MasterInfo.execute_failover]
    grind

/-- **Down states.** In every state of a run, a master whose primary answered the latest ping is not
down and one that is objectively down has answered no ping since it was last `Ok`, if and only if no
ping is answered while the master is objectively down and no failover is forced while its primary
answers. -/
theorem down_states_iff (addr : SocketAddr) (es : List (Turn SocketAddr)) :
    Along Watched.step (fun w e => Disciplined (w.step e)) ⟨.new addr, false, false⟩ es ↔
      Along Watched.step Heeded ⟨.new addr, false, false⟩ es :=
  along_congr (I := Sober) (fun _ e hw => (watched_step e hw).2)
    (fun _ e hw => (watched_step e hw).1) ⟨nofun, nofun, nofun⟩

/-- One ping is lost and the next one answered: the master is objectively down and stays so. -/
theorem down_states_stuck :
    ¬ Disciplined (run Watched.step (⟨.new 1, false, false⟩ : Watched ℕ)
      [.tick 1 false 0 [], .tick 1 true 0 []]) :=
  fun h => (h.1 rfl).2 rfl

end ValkeyRs.Sentinel
