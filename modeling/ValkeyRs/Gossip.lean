/-
The gossip of a cluster, `crates/cluster/src/gossip.rs` and `crates/cluster/src/state.rs`.

A node learns of the others from messages. A message lists some nodes, each with its epoch, and
its sender, with the sender's epoch; every one of them but the receiver itself is merged into the
node table. The table keeps the newest record of each node, so a message is nothing but a list of
records to put into it (`handle_gossip_eq`), and what a run of messages does is said by the rules
for such tables.
-/
import ValkeyRs.Newest
import ValkeyRs.Runs

set_option autoImplicit false

open ValkeyRs Runs Newest

namespace ValkeyRs.Cluster

/-! ## State -/

inductive NodeRole where
  | Master
  | Slave
  deriving Repr, DecidableEq

structure NodeFlags where
  myself : Bool := false
  master : Bool := false
  slave : Bool := false
  pfail : Bool := false
  fail : Bool := false
  noaddr : Bool := false
  handshake : Bool := false
  noflags : Bool := false
  deriving Repr, DecidableEq

structure SlotRange where
  start : UInt16
  «end» : UInt16
  deriving Repr, DecidableEq

structure NodeInfo where
  id : String
  addr : String
  role : NodeRole
  epoch : UInt64
  flags : NodeFlags
  slots : List SlotRange
  deriving Repr, DecidableEq

/-- `NodeInfo::new`. -/
def NodeInfo.new (id addr : String) (role : NodeRole) : NodeInfo := ⟨id, addr, role, 0, {}, []⟩

/-- `ClusterState`. The slots, their migration and the cluster's own epoch are not touched by
gossip and are left out. -/
structure ClusterState where
  myself : NodeInfo
  nodes : Std.ExtTreeMap String NodeInfo

/-- `ClusterState::new`. -/
def ClusterState.new (myself : NodeInfo) : ClusterState :=
  ⟨myself, (∅ : Std.ExtTreeMap String NodeInfo).insert myself.id myself⟩

def ClusterState.merge_node (self : ClusterState) (info : NodeInfo) : ClusterState :=
  match self.nodes[info.id]? with
  | some existing =>
    if info.epoch < existing.epoch then self
    else { self with nodes := self.nodes.insert info.id info }
  | none => { self with nodes := self.nodes.insert info.id info }

/-! ## Messages -/

structure GossipNodeEntry where
  id : String
  addr : String
  flags : NodeFlags
  ping_sent : UInt64
  pong_recv : UInt64
  epoch : UInt64
  deriving Repr, DecidableEq

structure GossipMessage where
  sender_id : String
  sender_addr : String
  nodes : List GossipNodeEntry
  current_epoch : UInt64
  deriving Repr, DecidableEq

def GossipNodeEntry.new_info (entry : GossipNodeEntry) : NodeInfo :=
  let role := if entry.flags.slave then .Slave else .Master
  { NodeInfo.new entry.id entry.addr role with flags := entry.flags, epoch := entry.epoch }

def GossipMessage.sender_info (msg : GossipMessage) : NodeInfo :=
  { NodeInfo.new msg.sender_id msg.sender_addr .Master with epoch := msg.current_epoch }

def handle_gossip (state : ClusterState) (msg : GossipMessage) : ClusterState :=
  let state := msg.nodes.foldl
    (fun state entry =>
      if entry.id = state.myself.id then state else state.merge_node entry.new_info)
    state
  if msg.sender_id ≠ state.myself.id then state.merge_node msg.sender_info else state

/-! ## A message as a list of records -/

/-- The epoch as a number, which is what records are ranked by. -/
def NodeInfo.rank (info : NodeInfo) : ℕ := info.epoch.toNat

/-- The records that a message brings to the node of the given name. -/
def GossipMessage.records (msg : GossipMessage) (me : String) : List NodeInfo :=
  (msg.nodes.filter (·.id ≠ me)).map GossipNodeEntry.new_info ++
    if msg.sender_id ≠ me then [msg.sender_info] else []

theorem records_not_mine {msg : GossipMessage} {me : String} :
    ∀ info ∈ msg.records me, info.id ≠ me := by
  intro info hinfo
  unfold GossipMessage.records at hinfo
  rcases List.mem_append.mp hinfo with hentry | hsender
  · obtain ⟨entry, hmem, rfl⟩ := List.mem_map.mp hentry
    exact of_decide_eq_true (List.mem_filter.mp hmem).2
  · by_cases hme : msg.sender_id ≠ me
    · rw [if_pos hme, List.mem_singleton] at hsender
      rw [hsender]
      exact hme
    · rw [if_neg hme] at hsender
      exact absurd hsender List.not_mem_nil

variable (s : ClusterState)

theorem merge_node_eq (info : NodeInfo) :
    s.merge_node info = { s with nodes := put NodeInfo.rank NodeInfo.id s.nodes info } := by
  unfold ClusterState.merge_node put
  cases hold : s.nodes[info.id]? with
  | none => rfl
  | some existing =>
    by_cases hlt : info.epoch < existing.epoch
    · simp [hlt, NodeInfo.rank, UInt64.lt_iff_toNat_lt.mp hlt]
    · simp [hlt, NodeInfo.rank, mt UInt64.lt_iff_toNat_lt.mpr hlt]

theorem merge_entries_eq (entries : List GossipNodeEntry) :
    entries.foldl
      (fun state entry =>
        if entry.id = state.myself.id then state else state.merge_node entry.new_info) s
      = ⟨s.myself, put_all NodeInfo.rank NodeInfo.id s.nodes
          ((entries.filter (·.id ≠ s.myself.id)).map GossipNodeEntry.new_info)⟩ := by
  induction entries generalizing s with
  | nil => rfl
  | cons entry entries ih =>
    rw [List.foldl_cons]
    by_cases hme : entry.id = s.myself.id
    · rw [if_pos hme, ih, List.filter_cons_of_neg (by simpa using hme)]
    · rw [if_neg hme, merge_node_eq, ih, List.filter_cons_of_pos (by simpa using hme)]
      rfl

theorem handle_gossip_eq (msg : GossipMessage) :
    handle_gossip s msg = { s with
      nodes := put_all NodeInfo.rank NodeInfo.id s.nodes (msg.records s.myself.id) } := by
  unfold handle_gossip GossipMessage.records
  simp only [merge_entries_eq, put_all_append]
  by_cases hme : msg.sender_id = s.myself.id
  · simp [hme, put_all]
  · simp [hme, put_all, merge_node_eq]

/-! ## Runs of messages -/

theorem le_handle_gossip {s : ClusterState} {id : String} {info : NodeInfo}
    (h : s.nodes[id]? = some info) (msg : GossipMessage) :
    ∃ info' : NodeInfo, (handle_gossip s msg).nodes[id]? = some info' ∧ info.epoch ≤ info'.epoch := by
  rw [handle_gossip_eq]
  obtain ⟨info', hget, hle⟩ :=
    le_put_all NodeInfo.rank NodeInfo.id h (msg.records s.myself.id)
  exact ⟨info', hget, UInt64.le_iff_toNat_le.mpr hle⟩

theorem le_run_gossip {s : ClusterState} {id : String} {info : NodeInfo}
    (h : s.nodes[id]? = some info) (msgs : List GossipMessage) :
    ∃ info' : NodeInfo,
      (run handle_gossip s msgs).nodes[id]? = some info' ∧ info.epoch ≤ info'.epoch := by
  refine run_invariant (I := fun s' : ClusterState => ∃ info' : NodeInfo,
    s'.nodes[id]? = some info' ∧ info.epoch ≤ info'.epoch) (fun s' msg hs' => ?_) msgs ⟨info, h, UInt64.le_refl _⟩
  obtain ⟨info', hget, hle⟩ := hs'
  obtain ⟨info'', hget', hle'⟩ := le_handle_gossip hget msg
  exact ⟨info'', hget', UInt64.le_trans hle hle'⟩

theorem handle_gossip_myself (msg : GossipMessage) :
    (handle_gossip s msg).myself = s.myself ∧
      (handle_gossip s msg).nodes[s.myself.id]? = s.nodes[s.myself.id]? := by
  rw [handle_gossip_eq]
  exact ⟨rfl, getElem?_put_all_of_notMem _ _ records_not_mine _⟩

theorem run_gossip_myself (msgs : List GossipMessage) :
    (run handle_gossip s msgs).myself = s.myself ∧
      (run handle_gossip s msgs).nodes[s.myself.id]? = s.nodes[s.myself.id]? := by
  refine run_invariant (I := fun s' : ClusterState => s'.myself = s.myself ∧
    s'.nodes[s.myself.id]? = s.nodes[s.myself.id]?) (fun s' msg hs' => ?_) msgs ⟨rfl, rfl⟩
  obtain ⟨hme, hentry⟩ := handle_gossip_myself s' msg
  rw [hs'.1] at hme hentry
  exact ⟨hme, hentry.trans hs'.2⟩

theorem handle_gossip_twice (msg : GossipMessage) :
    handle_gossip (handle_gossip s msg) msg = handle_gossip s msg := by
  rw [handle_gossip_eq s, handle_gossip_eq]
  simp only [put_all_put_all]

/-- **Gossip.** Over every sequence of messages, from every state: a node that is known stays
known, with an epoch that does not decrease; what the node knows of itself does not change; and a
message that is handled again, at whatever point, leaves the table as it is. -/
theorem gossip_monotone_idempotent (s : ClusterState) (msgs : List GossipMessage) :
    (∀ (id : String) (info : NodeInfo), s.nodes[id]? = some info →
        ∃ info' : NodeInfo, (run handle_gossip s msgs).nodes[id]? = some info' ∧ info.epoch ≤ info'.epoch) ∧
      ((run handle_gossip s msgs).myself = s.myself ∧
        (run handle_gossip s msgs).nodes[s.myself.id]? = s.nodes[s.myself.id]?) ∧
      ∀ msg, (run handle_gossip s (msgs ++ [msg, msg])).nodes
        = (run handle_gossip s (msgs ++ [msg])).nodes := by
  refine ⟨fun id info h => le_run_gossip h msgs, run_gossip_myself s msgs, fun msg => ?_⟩
  rw [run_append, run_append]
  exact congrArg ClusterState.nodes (handle_gossip_twice _ msg)

/-- A message that lists a node twice and its own sender with another epoch. -/
theorem gossip_monotone_idempotent_tie :
    let s := ClusterState.new (NodeInfo.new "a" "" .Master)
    let msg : GossipMessage :=
      ⟨"b", "addr", [⟨"b", "old", {}, 0, 0, 3⟩, ⟨"c", "", {}, 0, 0, 1⟩, ⟨"c", "", {}, 0, 0, 1⟩], 3⟩
    s.nodes["a"]? = some (NodeInfo.new "a" "" .Master) ∧
      (∃ info' : NodeInfo, (run handle_gossip s [msg]).nodes["a"]? = some info' ∧ 0 ≤ info'.epoch) ∧
        (run handle_gossip s [msg, msg]).nodes = (run handle_gossip s [msg]).nodes := by
  have hold : (ClusterState.new (NodeInfo.new "a" "" .Master)).nodes["a"]?
      = some (NodeInfo.new "a" "" .Master) := by
    simp [ClusterState.new, NodeInfo.new]
  exact ⟨hold, (gossip_monotone_idempotent _ _).1 "a" _ hold,
    (gossip_monotone_idempotent _ []).2.2 _⟩

/-! ## Convergence -/

def GossipMessage.news (msg : GossipMessage) : List NodeInfo :=
  msg.nodes.map GossipNodeEntry.new_info ++ [msg.sender_info]

theorem records_eq_filter (msg : GossipMessage) (me : String) :
    msg.records me = msg.news.filter (·.id ≠ me) := by
  rw [GossipMessage.news, List.filter_append, List.filter_map, List.filter_singleton,
    Bool.cond_decide]
  rfl

/-- The records of a node that have reached this one: that from the start, and those in messages. -/
def Told (s : ClusterState) (msgs : List GossipMessage) (id : String) (info : NodeInfo) : Prop :=
  s.nodes[id]? = some info ∨ info.id = id ∧ ∃ msg ∈ msgs, info ∈ msg.news

theorem run_gossip_nodes (msgs : List GossipMessage) :
    (run handle_gossip s msgs).nodes = put_all NodeInfo.rank NodeInfo.id s.nodes
      (msgs.flatMap (·.records s.myself.id)) := by
  induction msgs generalizing s with
  | nil => rfl
  | cons msg msgs ih =>
    rw [run_cons, ih, handle_gossip_eq, List.flatMap_cons, put_all_append]

variable {s} {t : ClusterState} {msgs msgs' : List GossipMessage} {id : String}

/-- After any run a node has a record that it was told, and was told none with a later epoch. -/
theorem run_gossip_newest (hid : id ≠ s.myself.id) :
    (∀ info, (run handle_gossip s msgs).nodes[id]? = some info → Told s msgs id info) ∧
      ∀ info, Told s msgs id info → ∃ info' : NodeInfo,
        (run handle_gossip s msgs).nodes[id]? = some info' ∧ info.rank ≤ info'.rank := by
  have hmem : ∀ info : NodeInfo, info.id = id →
      (info ∈ msgs.flatMap (·.records s.myself.id) ↔ ∃ msg ∈ msgs, info ∈ msg.news) := by
    rintro info rfl
    simp [records_eq_filter, hid]
  rw [run_gossip_nodes]
  refine ⟨fun info hinfo => ?_, fun info htold => ?_⟩
  · rcases put_all_cases NodeInfo.rank NodeInfo.id s.nodes _ id with ⟨heq, -⟩ | ⟨a, ha, hk, heq, -⟩
    · exact .inl (heq.symm.trans hinfo)
    · cases heq.symm.trans hinfo
      exact .inr ⟨hk, (hmem info hk).mp ha⟩
  · rcases htold with hstart | ⟨hk, hmsg⟩
    · exact le_put_all _ _ hstart _
    · rw [getElem?_put_all]
      exact le_absorb _ _ (List.mem_filter.mpr ⟨(hmem info hk).mpr hmsg, decide_eq_true hk⟩)

/-- **Convergence.** Two nodes that were told the same of a third one, in whatever messages, in
whatever order and however often, have the same record of it, if no two different records of it with
one epoch were told. -/
theorem gossip_converges (hs : id ≠ s.myself.id) (ht : id ≠ t.myself.id)
    (htold : ∀ info, Told s msgs id info ↔ Told t msgs' id info)
    (honce : ∀ a b, Told s msgs id a → Told s msgs id b → a.epoch = b.epoch → a = b) :
    (run handle_gossip s msgs).nodes[id]? = (run handle_gossip t msgs').nodes[id]? := by
  obtain ⟨hfrom, hnewest⟩ := @run_gossip_newest s msgs id hs
  obtain ⟨hfrom', hnewest'⟩ := @run_gossip_newest t msgs' id ht
  cases ha : (run handle_gossip s msgs).nodes[id]? with
  | none =>
    cases hb : (run handle_gossip t msgs').nodes[id]? with
    | none => rfl
    | some b =>
      obtain ⟨_, hsome, -⟩ := hnewest b ((htold b).mpr (hfrom' b hb))
      cases ha.symm.trans hsome
  | some a =>
    have hta := hfrom a ha
    obtain ⟨b, hb, hab⟩ := hnewest' a ((htold a).mp hta)
    have htb := (htold b).mpr (hfrom' b hb)
    obtain ⟨a', ha', hba⟩ := hnewest b htb
    cases ha.symm.trans ha'
    rw [hb, honce a b hta htb (UInt64.toNat_inj.mp (hab.antisymm hba))]

/-- A message of a node that reaches two others, one of them twice. -/
theorem gossip_converges_twice :
    let s (id : String) := ClusterState.new (NodeInfo.new id "" .Master)
    let msg : GossipMessage := ⟨"c", "", [], 1⟩
    (run handle_gossip (s "a") [msg]).nodes["c"]?
      = (run handle_gossip (s "b") [msg, msg]).nodes["c"]? := by
  intro s msg
  refine gossip_converges (by decide) (by decide) (fun info => ?_) fun x y hx hy _ => ?_
  · simp [Told, s, ClusterState.new, NodeInfo.new]
  · simp [Told, s, ClusterState.new, NodeInfo.new, msg, GossipMessage.news] at hx hy
    rw [hx.2, hy.2]

end ValkeyRs.Cluster
