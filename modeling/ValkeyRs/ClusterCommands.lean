/-
The cluster commands, `crates/cluster/src/state.rs` and `crates/cluster/src/commands.rs`.

A node keeps its own record, the table of all nodes (with itself among them), the owner of each
slot, and for slots on the move a state and two maps. Which node has which slots is written down
twice: in the slot vector, and in the ranges of the node's record.

A thread that stops with a lock taken for writing leaves the lock poisoned, and every later `unwrap`
on it stops as well. Threads stop at a slot number that is out of range: SETSLOT IMPORTING and
MIGRATING index the vector of states with whatever 16-bit number they are given. `none` in the place
of a reply means that the thread has stopped; the state is the one it leaves behind.

`from_utf8_lossy` is a parameter, and so is the time that `generate_node_id` is seeded with. The
subcommands that only report, and the file they save, are not here.
-/
import ValkeyRs.Gossip
import ValkeyRs.HashSlots
import ValkeyRs.Storage

set_option autoImplicit false

open ValkeyRs Text Storage

namespace ValkeyRs.Cluster

/-! ## Maps, key by key -/

section Maps

variable {κ α : Type} [Ord κ] [Std.TransOrd κ] [Std.LawfulEqOrd κ] [DecidableEq κ]

theorem insert_at (m : Std.ExtTreeMap κ α) (k k' : κ) (a : α) :
    (m.insert k a)[k']? = if k' = k then some a else m[k']? := by
  by_cases h : k' = k
  · rw [if_pos h, h, Std.ExtTreeMap.getElem?_insert_self]
  · rw [if_neg h, Std.ExtTreeMap.getElem?_insert,
      if_neg (mt Std.LawfulEqCmp.eq_of_compare (Ne.symm h))]

theorem erase_at (m : Std.ExtTreeMap κ α) (k k' : κ) :
    (m.erase k)[k']? = if k' = k then none else m[k']? := by
  by_cases h : k' = k
  · rw [if_pos h, h, Std.ExtTreeMap.getElem?_erase_self]
  · rw [if_neg h, Std.ExtTreeMap.getElem?_erase,
      if_neg (mt Std.LawfulEqCmp.eq_of_compare (Ne.symm h))]

end Maps

theorem new_nodes (myself : NodeInfo) (n : String) :
    (ClusterState.new myself).nodes[n]? = if n = myself.id then some myself else none := by
  refine (insert_at _ _ _ _).trans ?_
  rw [Std.ExtTreeMap.getElem?_empty]

/-! ## State -/

def NUM_SLOTS : ℕ := 16384

inductive SlotState where
  | Normal
  | Migrating (target : String)
  | Importing (source : String)
  deriving Repr, DecidableEq

/-- Whether `SlotState::transition` is `Ok`. -/
def SlotState.transition : SlotState → SlotState → Bool
  | .Normal, _ => true
  | .Migrating _, .Normal => true
  | .Migrating _, .Migrating _ => true
  | .Importing _, .Normal => true
  | .Importing _, .Importing _ => true
  | _, _ => false

def SlotRange.contains (self : SlotRange) (slot : ℕ) : Bool :=
  slot ≥ self.start.toNat ∧ slot ≤ self.end.toNat

/-- The locks that can be poisoned. -/
inductive ClusterLock where
  | slots
  | slot_states
  | migrating
  | importing
  deriving Repr, DecidableEq

/-- `ClusterState` with all its fields. -/
structure FullState extends ClusterState where
  slots : Fin NUM_SLOTS → Option String
  slot_states : Fin NUM_SLOTS → SlotState
  migrating : HashMap UInt16 String
  importing : HashMap UInt16 String
  current_epoch : UInt64
  poisoned : ClusterLock → Bool

namespace FullState

/-- `ClusterState::new`. -/
def new (myself : NodeInfo) : FullState where
  toClusterState := .new myself
  slots _ := none
  slot_states _ := .Normal
  migrating := ∅
  importing := ∅
  current_epoch := 0
  poisoned _ := false

/-- The state a thread leaves that stops with these locks taken. -/
def poison (self : FullState) (held : List ClusterLock) : FullState :=
  { self with poisoned := fun l => self.poisoned l || held.contains l }

end FullState

/-- A vector with another value at a slot, and the vector itself when the slot is out of range. -/
def put_slot {α : Type} (v : Fin NUM_SLOTS → α) (slot : UInt16) (a : α) : Fin NUM_SLOTS → α :=
  fun i => if i.val = slot.toNat then a else v i

/-- What a call returns, or nothing if the thread stops, and the state it leaves. -/
abbrev Outcome (α : Type) := Option α × FullState

namespace FullState

def owner (self : FullState) (slot : UInt16) : Option String :=
  if h : slot.toNat < NUM_SLOTS then self.slots ⟨slot.toNat, h⟩ else none

def slot_state (self : FullState) (slot : UInt16) : Option SlotState :=
  if h : slot.toNat < NUM_SLOTS then some (self.slot_states ⟨slot.toNat, h⟩) else none

/-- The vector behind `for range in ranges { for slot in range.start..=range.end { .. } }`. -/
def assign_ranges (self : FullState) (node_id : String) (ranges : List SlotRange) :
    Fin NUM_SLOTS → Option String :=
  fun i => if ranges.any (·.contains i.val) then some node_id else self.slots i

def assign_slots (self : FullState) (node_id : String) (ranges : List SlotRange) : Outcome Unit :=
  if self.poisoned .slots then (none, self)
  else (some (), { self with
    slots := self.assign_ranges node_id ranges
    nodes := self.nodes.modify node_id ({ · with slots := ranges }) })

/-- `self.nodes.insert(myself.id, myself)`, behind a change of the node's own record. -/
def set_myself (self : FullState) (myself : NodeInfo) : FullState :=
  { self with
    myself := myself
    nodes := self.nodes.insert myself.id myself }

def set_self_role (self : FullState) (role : NodeRole) : FullState :=
  let flags := match role with
    | .Master => { self.myself.flags with master := true, slave := false }
    | .Slave => { self.myself.flags with slave := true, master := false }
  self.set_myself { self.myself with role := role, flags := flags }

def set_self_epoch (self : FullState) (epoch : UInt64) : FullState :=
  self.set_myself { self.myself with epoch := epoch }

def add_node (self : FullState) (node_id addr : String) (role : NodeRole) (flags : NodeFlags) :
    FullState :=
  { self with
    nodes := self.nodes.insert node_id { NodeInfo.new node_id addr role with flags := flags } }

/-- `handle_gossip` on the whole state. -/
def handle_gossip (self : FullState) (msg : GossipMessage) : FullState :=
  { self with toClusterState := Cluster.handle_gossip self.toClusterState msg }

end FullState

/-! ## Node names -/

/-- The generator of `generate_node_id`, on a `u128`. -/
def next_seed (state : ℕ) : ℕ := (state * 6364136223846793005 + 1442695040888963407) % 2 ^ 128

def node_id_digits : ℕ → ℕ → List Char
  | 0, _ => []
  | n + 1, state =>
    let state := next_seed state
    Nat.digitChar (state / 2 ^ 32 % 16) :: node_id_digits n state

/-- `generate_node_id` at a time in nanoseconds. -/
def generate_node_id (seed : ℕ) : String := String.ofList (node_id_digits 40 (seed % 2 ^ 128))

theorem length_node_id_digits (n state : ℕ) : (node_id_digits n state).length = n := by
  induction n generalizing state with
  | zero => rfl
  | succ n ih => exact congrArg (· + 1) (ih (next_seed state))

/-! ## Commands -/

/-- `str::parse::<u16>`. -/
def parse_u16 (s : String) : Option UInt16 :=
  match parse_nat (some 16) s with
  | .ok n => some (UInt16.ofNat n)
  | .error _ => none

section Commands

variable (lossy : Bytes → String)

def cluster_meet (seed : ℕ) (args : List Bytes) (s : FullState) : Outcome String :=
  match args with
  | ip :: port :: _ =>
    (some "+OK\r\n", s.add_node (generate_node_id seed) (lossy ip ++ ":" ++ lossy port) .Master
      { handshake := true })
  | _ => (some "-ERR wrong number of arguments for 'CLUSTER MEET'\r\n", s)

def cluster_replicate (args : List Bytes) (s : FullState) : Outcome String :=
  match args with
  | [] => (some "-ERR wrong number of arguments for 'CLUSTER REPLICATE'\r\n", s)
  | a :: _ =>
    if s.nodes.contains (lossy a) then (some "+OK\r\n", s.set_self_role .Slave)
    else (some ("-ERR Unknown node " ++ lossy a ++ "\r\n"), s)

/-- The arguments are read and not looked at. -/
def cluster_failover (_args : List Bytes) (s : FullState) : Outcome String :=
  if s.myself.role ≠ .Slave then (some "-ERR FAILOVER only works on slave nodes\r\n", s)
  else (some "+OK\r\n", (s.set_self_epoch (s.myself.epoch + 1)).set_self_role .Master)

/-- The first argument, in upper case. -/
def is_hard (args : List Bytes) : Bool :=
  match args with
  | a :: _ => to_ascii_uppercase (lossy a) = "HARD"
  | [] => false

/-- The record of a node that has been reset: its role and its address stay. -/
def reset_record (myself : NodeInfo) (id : String) : NodeInfo :=
  { myself with id := id, epoch := 0, flags := { myself := true, master := true }, slots := [] }

/-- CLUSTER RESET HARD: a node by another name that knows of no other. -/
def reset_hard (s : FullState) (id : String) : FullState :=
  { s with toClusterState := .new (reset_record s.myself id) }

def cluster_reset (seed : ℕ) (args : List Bytes) (s : FullState) : Outcome String :=
  if is_hard lossy args then (some "+OK\r\n", reset_hard s (generate_node_id seed))
  else (some "+OK\r\n", s.set_self_epoch 0)

/-- The loops of ADDSLOTS and DELSLOTS, which write one value into every slot that is named before
the first argument that is no number. -/
def write_slots (value : Option String) : List Bytes → FullState → Outcome String
  | [], s => (some "+OK\r\n", s)
  | arg :: rest, s =>
    match parse_u16 (lossy arg) with
    | none => (some ("-ERR Invalid slot: " ++ lossy arg ++ "\r\n"), s)
    | some slot =>
      if s.poisoned .slots then (none, s)
      else write_slots value rest { s with slots := put_slot s.slots slot value }

def cluster_addslots (args : List Bytes) (s : FullState) : Outcome String :=
  if args.isEmpty then (some "-ERR wrong number of arguments for 'CLUSTER ADDSLOTS'\r\n", s)
  else write_slots lossy (some s.myself.id) args s

def cluster_delslots (args : List Bytes) (s : FullState) : Outcome String :=
  if args.isEmpty then (some "-ERR wrong number of arguments for 'CLUSTER DELSLOTS'\r\n", s)
  else write_slots lossy none args s

end Commands

/-! ## SETSLOT -/

/-- `lock.write().unwrap()`, with the locks that are held already. -/
def locked {α : Type} (l : ClusterLock) (held : List ClusterLock) (k : FullState → Outcome α)
    (s : FullState) : Outcome α :=
  if s.poisoned l then (none, s.poison held) else k s

/-- `slot_states[slot as usize] = state`, with the locks that are held: an index out of range. -/
def index_state (slot : UInt16) (state : SlotState) (held : List ClusterLock) (s : FullState) :
    Outcome String :=
  if slot.toNat < NUM_SLOTS then
    (some "+OK\r\n", { s with slot_states := put_slot s.slot_states slot state })
  else (none, s.poison held)

def setslot_importing (slot : UInt16) (source_id : String) : FullState → Outcome String :=
  locked .importing [] fun s =>
    locked .slot_states [.importing]
      (index_state slot (.Importing source_id) [.importing, .slot_states])
      { s with importing := s.importing.insert slot source_id }

def setslot_migrating (slot : UInt16) (target_id : String) : FullState → Outcome String :=
  locked .migrating [] fun s =>
    locked .slot_states [.migrating]
      (index_state slot (.Migrating target_id) [.migrating, .slot_states])
      { s with migrating := s.migrating.insert slot target_id }

/-- What STABLE and NODE have in common: the slot is on the move no more. -/
def settle_slot (slot : UInt16) (held : List ClusterLock) : FullState → Outcome String :=
  locked .importing held fun s =>
    locked .migrating (.importing :: held) (fun s =>
      locked .slot_states (.migrating :: .importing :: held)
        (fun s => (some "+OK\r\n", { s with slot_states := put_slot s.slot_states slot .Normal }))
        { s with migrating := s.migrating.erase slot })
      { s with importing := s.importing.erase slot }

def setslot_stable (slot : UInt16) : FullState → Outcome String := settle_slot slot []

def setslot_node (slot : UInt16) (node_id : String) : FullState → Outcome String :=
  locked .slots [] fun s =>
    settle_slot slot [.slots] { s with slots := put_slot s.slots slot (some node_id) }

def cluster_setslot (lossy : Bytes → String) (args : List Bytes) (s : FullState) : Outcome String :=
  match args with
  | slot :: sub :: rest =>
    match parse_u16 (lossy slot) with
    | none => (some "-ERR invalid slot\r\n", s)
    | some slot =>
      let subcmd := to_ascii_uppercase (lossy sub)
      if subcmd = "IMPORTING" then
        match rest with
        | [] => (some "-ERR CLUSTER SETSLOT IMPORTING requires node_id\r\n", s)
        | id :: _ => setslot_importing slot (lossy id) s
      else if subcmd = "MIGRATING" then
        match rest with
        | [] => (some "-ERR CLUSTER SETSLOT MIGRATING requires node_id\r\n", s)
        | id :: _ => setslot_migrating slot (lossy id) s
      else if subcmd = "STABLE" then setslot_stable slot s
      else if subcmd = "NODE" then
        match rest with
        | [] => (some "-ERR CLUSTER SETSLOT NODE requires node_id\r\n", s)
        | id :: _ => setslot_node slot (lossy id) s
      else (some ("-ERR Unknown SETSLOT subcommand '" ++ subcmd ++ "'\r\n"), s)
  | _ => (some "-ERR wrong number of arguments for 'CLUSTER SETSLOT'\r\n", s)

/-- What the arguments of SETSLOT ask for. -/
inductive SetSlot where
  | refused (reply : String)
  | importing (slot : UInt16) (source_id : String)
  | migrating (slot : UInt16) (target_id : String)
  | stable (slot : UInt16)
  | node (slot : UInt16) (node_id : String)

def setslot_request (lossy : Bytes → String) (args : List Bytes) : SetSlot :=
  match args with
  | slot :: sub :: rest =>
    match parse_u16 (lossy slot) with
    | none => .refused "-ERR invalid slot\r\n"
    | some slot =>
      let subcmd := to_ascii_uppercase (lossy sub)
      if subcmd = "IMPORTING" then
        match rest with
        | [] => .refused "-ERR CLUSTER SETSLOT IMPORTING requires node_id\r\n"
        | id :: _ => .importing slot (lossy id)
      else if subcmd = "MIGRATING" then
        match rest with
        | [] => .refused "-ERR CLUSTER SETSLOT MIGRATING requires node_id\r\n"
        | id :: _ => .migrating slot (lossy id)
      else if subcmd = "STABLE" then .stable slot
      else if subcmd = "NODE" then
        match rest with
        | [] => .refused "-ERR CLUSTER SETSLOT NODE requires node_id\r\n"
        | id :: _ => .node slot (lossy id)
      else .refused ("-ERR Unknown SETSLOT subcommand '" ++ subcmd ++ "'\r\n")
  | _ => .refused "-ERR wrong number of arguments for 'CLUSTER SETSLOT'\r\n"

def SetSlot.run (s : FullState) : SetSlot → Outcome String
  | .refused reply => (some reply, s)
  | .importing slot id => setslot_importing slot id s
  | .migrating slot id => setslot_migrating slot id s
  | .stable slot => setslot_stable slot s
  | .node slot id => setslot_node slot id s

theorem cluster_setslot_eq (lossy : Bytes → String) (args : List Bytes) (s : FullState) :
    cluster_setslot lossy args s = (setslot_request lossy args).run s := by
  unfold cluster_setslot setslot_request
  rcases args with _ | ⟨slot, _ | ⟨sub, rest⟩⟩
  · rfl
  · rfl
  dsimp only
  cases parse_u16 (lossy slot) with
  | none => rfl
  | some n =>
    -- both sides ask the same questions of the subcommand, and a missing node is refused by both
    simp only [apply_ite (SetSlot.run s)]
    cases rest <;> rfl

def cluster_bumpepoch (s : FullState) : Outcome String :=
  let new_epoch := s.current_epoch + 1
  (some (":" ++ toString new_epoch.toNat ++ "\r\n"),
    { s with current_epoch := new_epoch }.set_self_epoch new_epoch)

/-! ## Everything that changes the state -/

inductive ClusterEvent where
  | MEET (seed : ℕ) (args : List Bytes)
  | REPLICATE (args : List Bytes)
  | FAILOVER (args : List Bytes)
  | RESET (seed : ℕ) (args : List Bytes)
  | ADDSLOTS (args : List Bytes)
  | DELSLOTS (args : List Bytes)
  | SETSLOT (args : List Bytes)
  | BUMPEPOCH
  | assign_slots (node_id : String) (ranges : List SlotRange)
  | gossip (msg : GossipMessage)

/-- What the event replies, and the state it leaves. -/
def ClusterEvent.outcome (lossy : Bytes → String) (s : FullState) : ClusterEvent → Outcome String
  | .MEET seed args => cluster_meet lossy seed args s
  | .REPLICATE args => cluster_replicate lossy args s
  | .FAILOVER args => cluster_failover args s
  | .RESET seed args => cluster_reset lossy seed args s
  | .ADDSLOTS args => cluster_addslots lossy args s
  | .DELSLOTS args => cluster_delslots lossy args s
  | .SETSLOT args => cluster_setslot lossy args s
  | .BUMPEPOCH => cluster_bumpepoch s
  | .assign_slots node_id ranges =>
    ((s.assign_slots node_id ranges).1.map fun _ => "", (s.assign_slots node_id ranges).2)
  | .gossip msg => (some "", s.handle_gossip msg)

def ClusterEvent.step (lossy : Bytes → String) (s : FullState) (e : ClusterEvent) : FullState :=
  (e.outcome lossy s).2

/-! ## What SETSLOT leaves alone -/

/-- The call does not touch what `f` looks at. -/
def Leaves {α β : Type} (f : FullState → β) (k : FullState → Outcome α) : Prop :=
  ∀ s, f (k s).2 = f s

/-- `f` does not look at slots on the move. -/
structure Settled {β : Type} (f : FullState → β) : Prop where
  poison : ∀ s held, f (s.poison held) = f s
  importing : ∀ s m, f { s with importing := m } = f s
  migrating : ∀ s m, f { s with migrating := m } = f s
  slot_states : ∀ s v, f { s with slot_states := v } = f s

section Leaves

variable {α β : Type} {f : FullState → β} (hf : Settled f)

include hf

theorem leaves_locked {k : FullState → Outcome α} (hk : Leaves f k) (l : ClusterLock)
    (held : List ClusterLock) : Leaves f (locked l held k) := by
  intro s
  unfold locked
  by_cases hl : s.poisoned l = true
  · rw [if_pos hl]
    exact hf.poison s held
  · rw [if_neg hl]
    exact hk s

theorem index_leaves (slot : UInt16) (state : SlotState) (held : List ClusterLock) :
    Leaves f (index_state slot state held) := by
  intro s
  unfold index_state
  split
  · exact hf.slot_states s _
  · exact hf.poison s held

theorem importing_leaves (slot : UInt16) (source_id : String) :
    Leaves f (setslot_importing slot source_id) := by
  refine leaves_locked hf (fun s => ?_) _ _
  exact (leaves_locked hf (index_leaves hf _ _ _) _ _ _).trans (hf.importing s _)

theorem migrating_leaves (slot : UInt16) (target_id : String) :
    Leaves f (setslot_migrating slot target_id) := by
  refine leaves_locked hf (fun s => ?_) _ _
  exact (leaves_locked hf (index_leaves hf _ _ _) _ _ _).trans (hf.migrating s _)

theorem settle_leaves (slot : UInt16) (held : List ClusterLock) :
    Leaves f (settle_slot slot held) := by
  refine leaves_locked hf (fun s => ?_) _ _
  refine (leaves_locked hf (fun s => ?_) _ _ _).trans (hf.importing s _)
  exact (leaves_locked hf (fun s => hf.slot_states s _) _ _ _).trans (hf.migrating s _)

/-- All but NODE. -/
theorem setslot_leaves (lossy : Bytes → String)
    (hnode : ∀ slot node_id, Leaves f (setslot_node slot node_id)) (args : List Bytes) :
    Leaves f (cluster_setslot lossy args) := by
  intro s
  rw [cluster_setslot_eq]
  cases setslot_request lossy args with
  | refused reply => rfl
  | importing slot id => exact importing_leaves hf slot id s
  | migrating slot id => exact migrating_leaves hf slot id s
  | stable slot => exact settle_leaves hf slot [] s
  | node slot id => exact hnode slot id s

end Leaves

/-- The record of the node, the table and the epoch of the cluster. -/
def identity (s : FullState) : ClusterState × UInt64 := (s.toClusterState, s.current_epoch)

theorem settled_identity : Settled identity :=
  ⟨fun _ _ => rfl, fun _ _ => rfl, fun _ _ => rfl, fun _ _ => rfl⟩

theorem setslot_identity (lossy : Bytes → String) (args : List Bytes) (s : FullState) :
    identity (cluster_setslot lossy args s).2 = identity s := by
  refine setslot_leaves settled_identity lossy (fun slot node_id => ?_) args s
  refine leaves_locked settled_identity (fun s => ?_) _ _
  exact settle_leaves settled_identity slot [.slots] _

theorem write_slots_identity (lossy : Bytes → String) (value : Option String) (args : List Bytes)
    (s : FullState) : identity (write_slots lossy value args s).2 = identity s := by
  fun_induction write_slots lossy value args s with
  | case1 => rfl
  | case2 => rfl
  | case3 => rfl
  | case4 s arg rest slot hslot hlock ih => exact ih

/-! ## Routing -/

inductive RouteAction where
  | Local
  | Moved (slot : UInt16) (addr : String)
  | Asking (slot : UInt16) (addr : String)
  deriving Repr, DecidableEq

/-- The router: the state of the cluster and the flag of ASKING. -/
structure ClusterRouter where
  state : FullState
  asking : Bool

/-- `key_hash_slot` as a `u16`. -/
def slot_of (key : Bytes) : UInt16 := UInt16.ofBitVec (key_hash_slot key)

/-- `route` behind the flag; nothing if the thread stops at a poisoned lock. -/
def FullState.route (s : FullState) (key : Bytes) : Option RouteAction :=
  let slot := slot_of key
  if s.poisoned .importing then none
  else match (s.importing[slot]?).bind fun source_id => s.nodes[source_id]? with
    | some source_node => some (.Asking slot source_node.addr)
    | none =>
      if s.poisoned .slots then none
      else match s.owner slot with
        | some node_id =>
          if node_id = s.myself.id then some .Local
          else match s.nodes[node_id]? with
            | some node => some (.Moved slot node.addr)
            | none => some .Local
        | none => some .Local

def ClusterRouter.route (self : ClusterRouter) (key : Bytes) :
    Option RouteAction × ClusterRouter :=
  if self.asking then (some .Local, { self with asking := false })
  else (self.state.route key, self)

def ClusterRouter.set_asking (self : ClusterRouter) (val : Bool) : ClusterRouter :=
  { self with asking := val }

/-- `ask_redirect`, for a slot that is on its way to another node. -/
def ClusterRouter.ask_redirect (self : ClusterRouter) (slot : UInt16) :
    Option (Option RouteAction) :=
  if self.state.poisoned .migrating then none
  else some (((self.state.migrating[slot]?).bind fun target_id => self.state.nodes[target_id]?).map
    fun target_node => .Asking slot target_node.addr)

end ValkeyRs.Cluster
