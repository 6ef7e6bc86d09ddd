/-
The leader's side of replication, `crates/replication/src/leader.rs`, and the place where the server
calls it.

The leader writes every command that has changed something into a backlog, a ring that keeps the end
of the stream, counts an offset up and sends the command to its replicas. A replica that connects
asks for the stream from some offset on. It is no position in the stream: the offset grows by the
arguments and three bytes each, the stream by what the encoder writes, and that is always more
(`offset_eq_length_iff`). And what a replica gets when it asks for a part of the stream is nothing
when it is behind, and the whole backlog when it is not (`partial_resync_gapless_iff`).

The snapshot that a full resynchronisation sends is a parameter, and so is the leader's name, which
is drawn at random.
-/
import ValkeyRs.Ring
import ValkeyRs.Runs
import ValkeyRs.Text

set_option autoImplicit false

open ValkeyRs Text Runs List

namespace ValkeyRs.Replication

/-! ## The leader -/

structure ReplicaConn where
  id : ℕ
  offset : UInt64
  active : Bool
  deriving Repr, DecidableEq

/-- `ReplicaConn::new`. -/
def ReplicaConn.new (id : ℕ) : ReplicaConn := ⟨id, 0, true⟩

/-- `ReplicationManager`. Of the channel to the replicas there is what has been sent on it. -/
structure ReplicationManager where
  replicas : Std.ExtTreeMap ℕ ReplicaConn
  backlog : Ring UInt8
  backlog_offset : UInt64
  repl_id : String
  next_replica_id : ℕ
  cmd_tx : List Bytes
  ack_offsets : Std.ExtTreeMap ℕ UInt64
  anonymous_ack_offsets : List UInt64

/-- `ReplicationManager::DEFAULT_BACKLOG_SIZE`. -/
def DEFAULT_BACKLOG_SIZE : ℕ := 1024 * 1024

/-- `ReplicationManager::new`. -/
def ReplicationManager.new (repl_id : String) : ReplicationManager :=
  ⟨∅, Ring.new DEFAULT_BACKLOG_SIZE 0, 0, repl_id, 1, [], ∅, []⟩

def encode_arg (arg : Bytes) : Bytes :=
  as_bytes ("$" ++ toString arg.length ++ "\r\n") ++ arg ++ as_bytes "\r\n"

def encode_repl_command (cmd : List Bytes) : Bytes :=
  as_bytes ("*" ++ toString cmd.length ++ "\r\n") ++ cmd.flatMap encode_arg

namespace ReplicationManager

def propagate (self : ReplicationManager) (resp_bytes : Bytes) (cmd_len : UInt64) :
    ReplicationManager :=
  { self with
    backlog := self.backlog.append resp_bytes
    backlog_offset := self.backlog_offset + cmd_len
    cmd_tx := self.cmd_tx ++ [resp_bytes] }

/-- The length that `handle_connection` computes for a command. -/
def cmd_len (cmd_bytes : List Bytes) : ℕ := (cmd_bytes.map List.length).sum + cmd_bytes.length * 3

/-- What `handle_connection` does with a write command that has succeeded. -/
def propagate_command (self : ReplicationManager) (cmd_bytes : List Bytes) : ReplicationManager :=
  self.propagate (encode_repl_command cmd_bytes) (UInt64.ofNat (cmd_len cmd_bytes))

def can_partial_resync (self : ReplicationManager) (repl_id : Option String)
    (offset : Option UInt64) : Bool :=
  match repl_id, offset with
  | some id, some _ => id == self.repl_id
  | _, _ => false

end ReplicationManager

/-- `CircularBuffer::get_from_offset`. -/
def get_from_offset (backlog : Ring UInt8) (offset base_offset : UInt64) : Option Bytes :=
  if offset < base_offset then none else some backlog.data

/-- What is written to a replica that asks to be synchronised. -/
inductive SyncReply where
  | Continue (repl_id : String) (data : Bytes)
  | FullResync (repl_id : String) (offset : UInt64) (rdb : Bytes)
  deriving Repr, DecidableEq

/-- The bytes on the wire. -/
def SyncReply.to_bytes : SyncReply → Bytes
  | .Continue repl_id data => as_bytes ("+CONTINUE " ++ repl_id ++ "\r\n") ++ data
  | .FullResync repl_id offset rdb =>
    as_bytes ("+FULLRESYNC " ++ repl_id ++ " " ++ toString offset ++ "\r\n") ++
      as_bytes ("$" ++ toString rdb.length ++ "\r\n") ++ rdb ++ as_bytes "\r\n"

/-- `ReplicationManager::handle_replica_sync`, with the snapshot that would be sent. -/
def ReplicationManager.handle_replica_sync (self : ReplicationManager) (repl_id : Option String)
    (offset : Option UInt64) (rdb : Bytes) : SyncReply × ReplicationManager :=
  let replica := ReplicaConn.new self.next_replica_id
  let reply := match offset, self.can_partial_resync repl_id offset with
    | some offset, true =>
      .Continue self.repl_id ((get_from_offset self.backlog offset self.backlog_offset).getD [])
    | _, _ => .FullResync self.repl_id self.backlog_offset rdb
  (reply, { self with
    replicas := self.replicas.insert replica.id { replica with offset := self.backlog_offset }
    next_replica_id := self.next_replica_id + 1 })

/-! ## Lengths -/

open ReplicationManager

theorem header_length (c : String) (n : ℕ) (hc : (as_bytes c).length = 1) :
    4 ≤ (as_bytes (c ++ toString n ++ "\r\n")).length := by
  have hdigit : 0 < (as_bytes (toString n)).length := by
    rw [length_pos_iff, as_bytes_eq_flatMap, Nat.toString_eq_repr, Nat.toList_repr]
    obtain ⟨d, ds, hds, -⟩ := toDigits_cons n
    rw [hds, flatMap_cons]
    exact append_ne_nil_of_left_ne_nil String.utf8EncodeChar_ne_nil _
  have hline : (as_bytes "\r\n").length = 2 := by decide
  rw [as_bytes_append, as_bytes_append, length_append, length_append, hc, hline]
  omega

theorem length_encode_arg (arg : Bytes) : arg.length + 6 ≤ (encode_arg arg).length := by
  have hheader := header_length "$" arg.length (by decide)
  have hline : (as_bytes "\r\n").length = 2 := by decide
  rw [encode_arg, length_append, length_append, hline]
  omega

theorem cmd_len_le_args (cmd : List Bytes) : cmd_len cmd ≤ (cmd.flatMap encode_arg).length := by
  induction cmd with
  | nil => exact Nat.zero_le _
  | cons arg cmd ih =>
    have harg := length_encode_arg arg
    unfold cmd_len at ih ⊢
    rw [map_cons, sum_cons, length_cons, flatMap_cons, length_append]
    omega

theorem cmd_len_lt (cmd : List Bytes) : cmd_len cmd < (encode_repl_command cmd).length := by
  have hargs := cmd_len_le_args cmd
  have hheader := header_length "*" cmd.length (by decide)
  rw [encode_repl_command, length_append]
  omega

/-! ## A history of commands -/

def after (repl_id : String) (cmds : List (List Bytes)) : ReplicationManager :=
  run propagate_command (.new repl_id) cmds

def stream (cmds : List (List Bytes)) : Bytes := cmds.flatMap encode_repl_command

def counted (cmds : List (List Bytes)) : ℕ := (cmds.map cmd_len).sum

variable (mgr : ReplicationManager)
variable (cmds : List (List Bytes))

theorem run_propagate_offset :
    (run propagate_command mgr cmds).backlog_offset
      = mgr.backlog_offset + UInt64.ofNat (counted cmds) := by
  induction cmds generalizing mgr with
  | nil => simp [counted]
  | cons cmd cmds ih =>
    have hsum : counted (cmd :: cmds) = cmd_len cmd + counted cmds := by
      simp [counted]
    rw [run_cons, ih, hsum, UInt64.ofNat_add, ← UInt64.add_assoc]
    rfl

theorem run_propagate_backlog :
    (run propagate_command mgr cmds).backlog
      = (cmds.map encode_repl_command).foldl Ring.append mgr.backlog := by
  induction cmds generalizing mgr with
  | nil => rfl
  | cons cmd cmds ih => exact ih _

theorem run_propagate_repl_id : (run propagate_command mgr cmds).repl_id = mgr.repl_id := by
  have hstep : ∀ (m : ReplicationManager) (cmd : List Bytes), m.repl_id = mgr.repl_id →
      (m.propagate_command cmd).repl_id = mgr.repl_id := fun _ _ h => h
  exact run_invariant hstep cmds rfl

theorem run_propagate_cmd_tx :
    (run propagate_command mgr cmds).cmd_tx = mgr.cmd_tx ++ cmds.map encode_repl_command := by
  induction cmds generalizing mgr with
  | nil => simp
  | cons cmd cmds ih =>
    rw [run_cons, ih]
    simp [propagate_command, propagate]

theorem after_backlog (repl_id : String) (cmds : List (List Bytes)) :
    (after repl_id cmds).backlog.data = (stream cmds).rtake DEFAULT_BACKLOG_SIZE := by
  rw [after, run_propagate_backlog, stream, flatMap_def]
  exact Ring.data_foldl_new _ _ _

/-- **The backlog.** Whatever is appended, it has the last bytes of it, as many as it can hold. -/
theorem backlog_is_window {c : ℕ} (hc : 1 ≤ c) (blocks : List Bytes) :
    let backlog := blocks.foldl Ring.append (Ring.new c (0 : UInt8))
    let total := blocks.flatten.length
    backlog.data = blocks.flatten.drop (total - min total c) ∧ backlog.start < c ∧
      backlog.len ≤ c := by
  intro backlog total
  have hcapacity : (Ring.new c (0 : UInt8)).capacity = c := length_replicate
  have hnew : (Ring.new c (0 : UInt8)).start < (Ring.new c (0 : UInt8)).capacity :=
    hcapacity.symm ▸ hc
  obtain ⟨hstart, hsame⟩ := Ring.start_foldl_append_lt hnew blocks
  rw [hcapacity] at hstart hsame
  have hcut : total - min total c = total - c := by omega
  refine ⟨?_, hstart, backlog.len_le.trans hsame.le⟩
  rw [hcut]
  exact Ring.data_foldl_new c 0 blocks

/-- Five bytes in a backlog of three. -/
theorem backlog_is_window_three :
    ([[1, 2], [3, 4, 5]].foldl Ring.append (Ring.new 3 (0 : UInt8))).data = [3, 4, 5] :=
  (backlog_is_window (by decide) [[1, 2], [3, 4, 5]]).1

theorem after_offset (repl_id : String) (cmds : List (List Bytes)) :
    (after repl_id cmds).backlog_offset.toNat = counted cmds % 2 ^ 64 := by
  rw [after, run_propagate_offset]
  show (0 + UInt64.ofNat (counted cmds)).toNat = _
  rw [UInt64.zero_add, UInt64.toNat_ofNat']

theorem counted_le : counted cmds ≤ (stream cmds).length := by
  induction cmds with
  | nil => exact Nat.zero_le _
  | cons cmd cmds ih =>
    have hcmd := cmd_len_lt cmd
    unfold counted stream at *
    rw [map_cons, sum_cons, flatMap_cons, length_append]
    omega

theorem counted_lt {cmds : List (List Bytes)} (h : cmds ≠ []) :
    counted cmds < (stream cmds).length := by
  cases cmds with
  | nil => exact absurd rfl h
  | cons cmd cmds =>
    have hcmd := cmd_len_lt cmd
    have hrest := counted_le cmds
    unfold counted stream at *
    rw [map_cons, sum_cons, flatMap_cons, length_append]
    omega

theorem after_offset_lt (repl_id : String) {cmds : List (List Bytes)} (h : cmds ≠ []) :
    (after repl_id cmds).backlog_offset.toNat < (stream cmds).length := by
  rw [after_offset]
  exact Nat.lt_of_le_of_lt (Nat.mod_le _ _) (counted_lt h)

/-! ## What an offset means -/

/-- **The offset.** It is the number of bytes that have been appended and sent exactly as long as
there are none. -/
theorem offset_eq_length_iff (repl_id : String) (cmds : List (List Bytes)) :
    (after repl_id cmds).backlog_offset.toNat = (after repl_id cmds).cmd_tx.flatten.length ↔
      cmds = [] := by
  have hsent : (after repl_id cmds).cmd_tx.flatten = stream cmds := by
    rw [after, run_propagate_cmd_tx, stream, flatMap_def]
    rfl
  rw [hsent]
  constructor
  · intro heq
    by_contra hne
    exact absurd heq (after_offset_lt repl_id hne).ne
  · rintro rfl
    rfl

/-- One command, `SET k v`: the offset counts 14 of its 27 bytes. -/
theorem offset_behind_stream :
    (after "id" [[as_bytes "SET", as_bytes "k", as_bytes "v"]]).backlog_offset = 14 ∧
      (after "id" [[as_bytes "SET", as_bytes "k", as_bytes "v"]]).cmd_tx.flatten.length = 27 := by
  decide +kernel

/-- The answer to a replica that asks for the stream from an offset on leaves nothing out and has
nothing twice. -/
def Gapless (cmds : List (List Bytes)) (current offset : UInt64) : SyncReply → Prop
  | .Continue _ data => data = ((stream cmds).take current.toNat).drop offset.toNat
  | .FullResync _ _ _ => True

/-- **Partial resynchronisation.** A replica that names this leader and an offset that has been
reached gets what it asks for exactly if there has not been any command. -/
theorem partial_resync_gapless_iff (repl_id : String) (cmds : List (List Bytes)) (offset : UInt64)
    (hoffset : offset ≤ (after repl_id cmds).backlog_offset) (rdb : Bytes) :
    Gapless cmds (after repl_id cmds).backlog_offset offset
        ((after repl_id cmds).handle_replica_sync (some repl_id) (some offset) rdb).1 ↔
      cmds = [] := by
  have hreply : ((after repl_id cmds).handle_replica_sync (some repl_id) (some offset) rdb).1
      = .Continue repl_id ((get_from_offset (after repl_id cmds).backlog offset
          (after repl_id cmds).backlog_offset).getD []) := by
    have hid : (after repl_id cmds).repl_id = repl_id := run_propagate_repl_id _ _
    unfold handle_replica_sync can_partial_resync
    rw [hid]
    simp
  rw [hreply]
  constructor
  · intro hgap
    by_contra hne
    have hlt := after_offset_lt repl_id hne
    unfold Gapless get_from_offset at hgap
    by_cases hbehind : offset < (after repl_id cmds).backlog_offset
    · -- behind: nothing is sent, and something is missing
      rw [if_pos hbehind] at hgap
      have hlen := congrArg List.length hgap
      have hnat := UInt64.lt_iff_toNat_lt.mp hbehind
      simp only [Option.getD_none, length_nil, length_drop, length_take] at hlen
      omega
    · -- up to date: nothing is missing, and the backlog is sent
      have hsame : offset.toNat = (after repl_id cmds).backlog_offset.toNat :=
        le_antisymm (UInt64.le_iff_toNat_le.mp hoffset)
          (Nat.not_lt.mp fun h => hbehind (UInt64.lt_iff_toNat_lt.mpr h))
      rw [if_neg hbehind, Option.getD_some, after_backlog, hsame] at hgap
      have hlen := congrArg List.length hgap
      simp only [List.rtake, length_drop, length_take] at hlen
      have hsize : 0 < DEFAULT_BACKLOG_SIZE := by decide
      omega
  · rintro rfl
    have hzero : (after repl_id []).backlog_offset = 0 := rfl
    have hdata : (after repl_id []).backlog.data = [] := Ring.data_new _ _
    have hnone : (get_from_offset (after repl_id []).backlog offset 0).getD [] = [] := by
      unfold get_from_offset
      rw [hdata]
      split <;> rfl
    rw [hzero, hnone]
    exact (drop_nil (i := offset.toNat)).symm

/-- A leader without commands: the answer goes on with nothing, from zero to zero. -/
theorem partial_resync_gapless_empty :
    Gapless [] (after "id" []).backlog_offset 0
      ((after "id" []).handle_replica_sync (some "id") (some 0) []).1 :=
  (partial_resync_gapless_iff "id" [] 0 (UInt64.le_refl _) []).mpr rfl

/-- A replica that has nothing yet, after one command: the answer is to go on, with nothing. -/
theorem partial_resync_sends_nothing :
    let mgr := after "id" [[as_bytes "SET", as_bytes "k", as_bytes "v"]]
    (0 : UInt64) ≤ mgr.backlog_offset ∧
      (mgr.handle_replica_sync (some "id") (some 0) []).1 = .Continue "id" [] ∧
        ¬ Gapless [[as_bytes "SET", as_bytes "k", as_bytes "v"]] mgr.backlog_offset 0
          (.Continue "id" []) := by
  have hdecide : ¬ ([] : Bytes) = ((stream [[as_bytes "SET", as_bytes "k", as_bytes "v"]]).take
      (after "id" [[as_bytes "SET", as_bytes "k", as_bytes "v"]]).backlog_offset.toNat).drop 0 := by
    decide +kernel
  exact ⟨by decide +kernel, by decide +kernel, hdecide⟩

end ValkeyRs.Replication
