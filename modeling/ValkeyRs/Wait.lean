/-
WAIT, `crates/commands/src/replication.rs`, and the bookkeeping of acknowledgements in
`crates/replication/src/leader.rs`.

A replica that acknowledges an offset sends REPLCONF ACK, and the handler of that command does not
know which replica sent it. The offset goes into a list that is as long as there are replicas, in
place of the smallest one when the list is full. WAIT counts the replicas whose own offset is
recorded and, if there are none, the offsets in the list. Nothing ties an offset in the list to a
replica: one that acknowledges twice is there twice, and one that has gone is still there.

Beside the leader's state there is what it does not know: what each replica has acknowledged last,
and who sent the offsets in the list. WAIT does not count too many in every run in which the list
has at most one offset of a replica, and that replica is still connected (`wait_never_over_counts`).
-/
import ValkeyRs.Replication
import ValkeyRs.Strings

set_option autoImplicit false

open ValkeyRs Text Runs Strings List Std.LawfulEqCmp

namespace ValkeyRs.Replication

/-! ## Acknowledgements -/

/-- Put an offset behind the others, or in the given place when there are enough. -/
def record {α : Type} (count : ℕ) (place : Option ℕ) (l : List α) (a : α) : List α :=
  if count = 0 then l
  else if l.length < count then l ++ [a]
  else match place with
    | some i => l.set i a
    | none => l

/-- `iter().enumerate().min_by_key(..)`: where the smallest one is, the first of several. -/
def min_idx (offsets : List UInt64) : Option ℕ :=
  offsets.min?.map fun least => offsets.idxOf least

namespace ReplicationManager

/-- The replicas that are connected and satisfy a condition. -/
def active_replicas (self : ReplicationManager) (p : ℕ → Bool) : List (ℕ × ReplicaConn) :=
  self.replicas.toList.filter fun (id, replica) => replica.active && p id

def replica_count (self : ReplicationManager) : ℕ := (self.active_replicas fun _ => true).length

def replica_ack (self : ReplicationManager) (replica_id : ℕ) (offset : UInt64) :
    ReplicationManager :=
  { self with ack_offsets := self.ack_offsets.insert replica_id offset }

def record_anonymous_ack (self : ReplicationManager) (offset : UInt64) : ReplicationManager :=
  { self with
    anonymous_ack_offsets :=
      record self.replica_count (min_idx self.anonymous_ack_offsets) self.anonymous_ack_offsets
        offset }

def count_acked_replicas (self : ReplicationManager) (min_offset : UInt64) : ℕ :=
  let counted := (self.active_replicas fun id => self.ack_offsets[id]?.any (min_offset ≤ ·)).length
  if counted > 0 then counted
  else (self.anonymous_ack_offsets.filter (min_offset ≤ ·)).length

def disconnect_replica (self : ReplicationManager) (replica_id : ℕ) : ReplicationManager :=
  { self with replicas := self.replicas.alter replica_id (·.map ({ · with active := false })) }

def reap_disconnected_replicas (self : ReplicationManager) : ReplicationManager :=
  let replicas := self.replicas.filter fun _ replica => replica.active
  { self with
    replicas := replicas
    ack_offsets := self.ack_offsets.filter fun id _ => replicas.contains id }

end ReplicationManager

/-! ## REPLCONF and WAIT -/

abbrev Reply (F : Type) := Resp.RespValue F

variable {F : Type}

/-- `REPLCONF`, and the offset that is recorded. -/
def handle_replconf (mgr : ReplicationManager) (args : List Bytes) :
    Reply F × Option UInt64 :=
  match args with
  | [] => (.Error "ERR wrong number of arguments for 'replconf' command", none)
  | sub :: rest =>
    match from_utf8 sub with
    | .error _ => (.Error "ERR invalid subcommand", none)
    | .ok sub =>
      match to_ascii_uppercase sub, rest with
      | "LISTENING-PORT", [] => (.Error "ERR wrong number of arguments", none)
      | "LISTENING-PORT", _ => (Strings.ok, none)
      | "CAPA", _ => (Strings.ok, none)
      | "ACK", [] => (.Error "ERR wrong number of arguments", none)
      | "ACK", offset :: _ =>
        match parse_u64 offset with
        | some offset => (Strings.ok, some (UInt64.ofNat offset))
        | none => (.Error "ERR invalid ACK offset", none)
      | "GETACK", _ =>
        (.Array (some [bull (as_bytes "REPLCONF"), bull (as_bytes "ACK"),
          bull (as_bytes (toString mgr.backlog_offset))]), none)
      | sub, _ => (.Error ("ERR unknown REPLCONF subcommand `" ++ sub ++ "`"), none)

/-- A WAIT that has not been answered. -/
structure Waiting where
  num_replicas : ℕ
  target_offset : UInt64
  bounded : Bool
  deriving Repr, DecidableEq

/-- `cmd_wait` up to the point where it answers or waits. -/
def cmd_wait (mgr : ReplicationManager) (args : List Bytes) : Reply F ⊕ Waiting :=
  match args with
  | [num_replicas, timeout] =>
    match parse_u64 num_replicas, parse_u64 timeout with
    | none, _ => .inl (.Error "ERR invalid numreplicas")
    | some _, none => .inl (.Error "ERR invalid timeout")
    | some num_replicas, some timeout_ms =>
      let acked := mgr.count_acked_replicas mgr.backlog_offset
      if num_replicas = 0 ∧ timeout_ms = 0 then .inl (.Integer (Int64.ofNat acked))
      else if acked ≥ num_replicas then .inl (.Integer (Int64.ofNat acked))
      else .inr ⟨num_replicas, mgr.backlog_offset, timeout_ms ≠ 0⟩
  | _ => .inl (.Error "ERR wrong number of arguments for 'wait' command")

/-- A notification: enough acknowledgements, or back to waiting. -/
def Waiting.notified (w : Waiting) (mgr : ReplicationManager) : Option (Reply F) :=
  let acked := mgr.count_acked_replicas w.target_offset
  if acked ≥ w.num_replicas then some (.Integer (Int64.ofNat acked)) else none

def Waiting.timed_out (w : Waiting) (mgr : ReplicationManager) : Option (Reply F) :=
  if w.bounded then some (.Integer (Int64.ofNat (mgr.count_acked_replicas w.target_offset)))
  else none

/-! ## Histories -/

/-- The leader, the WAITs that have not been answered, and what the leader does not know: the last
offset that each replica has acknowledged, and the senders of the offsets in the list. -/
structure Site where
  mgr : ReplicationManager
  waits : List Waiting
  acked : Std.ExtTreeMap ℕ UInt64
  senders : List (Option ℕ × UInt64)

def Site.start (repl_id : String) : Site := ⟨.new repl_id, [], ∅, []⟩

/-- What may happen. The sender of a REPLCONF is a replica, or some other client. -/
inductive Happening where
  | connect (repl_id : Option String) (offset : Option UInt64) (rdb : Bytes)
  | disconnect (replica_id : ℕ)
  | reap
  | propagate (cmd : List Bytes)
  | ack (replica_id : ℕ) (offset : UInt64)
  | replconf (sender : Option ℕ) (args : List Bytes)
  | wait (args : List Bytes)
  | notify (i : ℕ)
  | timeout (i : ℕ)

/-- The offset that a client sends without saying who it is. -/
def Site.take_ack (s : Site) (sender : Option ℕ) (offset : UInt64) : Site :=
  { s with
    mgr := s.mgr.record_anonymous_ack offset
    acked := match sender with
      | some r => s.acked.insert r offset
      | none => s.acked
    senders := record s.mgr.replica_count (min_idx s.mgr.anonymous_ack_offsets) s.senders
      (sender, offset) }

/-- What a WAIT is answered with, if it is answered: the reply, and the offset that it counted
for. -/
def Site.answer (s : Site) : Happening → Option (Reply F × UInt64)
  | .wait args =>
    match cmd_wait s.mgr args with
    | .inl reply => some (reply, s.mgr.backlog_offset)
    | .inr _ => none
  | .notify i => (s.waits[i]?).bind fun w => (w.notified s.mgr).map (·, w.target_offset)
  | .timeout i => (s.waits[i]?).bind fun w => (w.timed_out s.mgr).map (·, w.target_offset)
  | _ => none

/-- The WAITs that are left when the one at a place may have been answered. -/
def Site.after_answer (s : Site) (i : ℕ) (answered : Bool) : Site :=
  if answered then { s with waits := s.waits.eraseIdx i } else s

def Site.step (s : Site) : Happening → Site
  | .connect repl_id offset rdb =>
    { s with
      mgr := (s.mgr.handle_replica_sync repl_id offset rdb).2
      acked := s.acked.erase s.mgr.next_replica_id }
  | .disconnect replica_id => { s with mgr := s.mgr.disconnect_replica replica_id }
  | .reap => { s with mgr := s.mgr.reap_disconnected_replicas }
  | .propagate cmd => { s with mgr := s.mgr.propagate_command cmd }
  | .ack replica_id offset =>
    { s with
      mgr := s.mgr.replica_ack replica_id offset
      acked := s.acked.insert replica_id offset }
  | .replconf sender args =>
    match (handle_replconf (F := Empty) s.mgr args).2 with
    | some offset => s.take_ack sender offset
    | none => s
  | .wait args =>
    match cmd_wait (F := Empty) s.mgr args with
    | .inl _ => s
    | .inr w => { s with waits := s.waits ++ [w] }
  | .notify i => s.after_answer i (s.answer (F := Empty) (.notify i)).isSome
  | .timeout i => s.after_answer i (s.answer (F := Empty) (.timeout i)).isSome

/-- The connected replicas that have acknowledged the offset. -/
def Site.acked_replicas (s : Site) (target : UInt64) : ℕ :=
  (s.mgr.active_replicas fun id => s.acked[id]?.any (target ≤ ·)).length

/-! ## Who sent the offsets -/

/-- The replica is connected. -/
def Active (mgr : ReplicationManager) (r : ℕ) : Prop :=
  ∃ replica, mgr.replicas[r]? = some replica ∧ replica.active = true

/-- The offset comes from a connected replica that has not acknowledged more before, and of which no
offset will be left in the list but this one. -/
def Attributable (s : Site) (sender : Option ℕ) (offset : UInt64) : Prop :=
  ∃ r, sender = some r ∧ Active s.mgr r ∧
    (∀ o, s.mgr.ack_offsets[r]? = some o → o ≤ offset) ∧
    ∀ i o, s.senders[i]? = some (some r, o) →
      s.mgr.replica_count ≤ s.senders.length ∧ min_idx s.mgr.anonymous_ack_offsets = some i

/-- What keeps the list in order. A replica that has an offset in the list does not disconnect; an
acknowledgement with a name is by a replica that has connected, and for no less than the offset it
has in the list; and an offset without a name can be attributed, unless nobody is connected and it
is not recorded. -/
def Tidy (s : Site) : Happening → Prop
  | .disconnect r => ∀ p ∈ s.senders, p.1 ≠ some r
  | .ack r offset => r < s.mgr.next_replica_id ∧ ∀ o, (some r, o) ∈ s.senders → o ≤ offset
  | .replconf sender args => ∀ offset, (handle_replconf (F := Empty) s.mgr args).2 = some offset →
      s.mgr.replica_count = 0 ∨ Attributable s sender offset
  | _ => True

/-- The offsets in the list are each by another connected replica, which has acknowledged at least
as much. -/
structure Attributed (s : Site) : Prop where
  offsets : s.senders.map Prod.snd = s.mgr.anonymous_ack_offsets
  ids : ∀ id, id ∈ s.mgr.replicas ∨ id ∈ s.mgr.ack_offsets → id < s.mgr.next_replica_id
  known : ∀ id o, s.mgr.ack_offsets[id]? = some o → Active s.mgr id →
    ∃ o', s.acked[id]? = some o' ∧ o ≤ o'
  nodup : (s.senders.map Prod.fst).Nodup
  sent : ∀ p ∈ s.senders, ∃ r o, p.1 = some r ∧ Active s.mgr r ∧ s.acked[r]? = some o ∧ p.2 ≤ o

theorem attributed_start (repl_id : String) : Attributed (.start repl_id) where
  offsets := rfl
  ids id h := by
    rcases h with h | h
    · exact absurd h Std.ExtTreeMap.not_mem_empty
    · exact absurd h Std.ExtTreeMap.not_mem_empty
  known id o h := by
    rw [show (Site.start repl_id).mgr.ack_offsets = ∅ from rfl, Std.ExtTreeMap.getElem?_empty] at h
    cases h
  nodup := nodup_nil
  sent p h := absurd h not_mem_nil

theorem Active.mem {mgr : ReplicationManager} {r : ℕ} (h : Active mgr r) : r ∈ mgr.replicas := by
  obtain ⟨replica, hget, -⟩ := h
  exact Std.ExtTreeMap.mem_iff_isSome_getElem?.mpr (by rw [hget]; rfl)

theorem Active.count_pos {mgr : ReplicationManager} {r : ℕ} (h : Active mgr r) :
    mgr.replica_count ≠ 0 := by
  obtain ⟨replica, hget, hactive⟩ := h
  have hmem : (r, replica) ∈ mgr.active_replicas fun _ => true :=
    List.mem_filter.mpr ⟨Std.ExtTreeMap.mem_toList_iff_getElem?_eq_some.mpr hget, by simp [hactive]⟩
  exact (length_pos_of_mem hmem).ne'

/-! ## What each happening keeps -/

section Steps

variable {s : Site}

theorem attributed_connect (h : Attributed s) repl_id (offset : Option UInt64)
    (rdb : Bytes) : Attributed (s.step (.connect repl_id offset rdb)) := by
  set s' := s.step (.connect repl_id offset rdb) with hs'
  have hreplicas : ∀ id, id ≠ s.mgr.next_replica_id →
      s'.mgr.replicas[id]? = s.mgr.replicas[id]? := by
    intro id hne
    show (s.mgr.replicas.insert s.mgr.next_replica_id _)[id]? = _
    rw [Std.ExtTreeMap.getElem?_insert, if_neg]
    exact fun heq => hne (eq_of_compare heq).symm
  have hacked : ∀ id, id ≠ s.mgr.next_replica_id → s'.acked[id]? = s.acked[id]? := by
    intro id hne
    show (s.acked.erase s.mgr.next_replica_id)[id]? = _
    rw [Std.ExtTreeMap.getElem?_erase, if_neg]
    exact fun heq => hne (eq_of_compare heq).symm
  refine ⟨h.offsets, fun id hid => ?_, fun id o ho hactive => ?_, h.nodup, fun p hp => ?_⟩
  · show id < s.mgr.next_replica_id + 1
    by_cases heq : id = s.mgr.next_replica_id
    · omega
    · have hold : id < s.mgr.next_replica_id := by
        refine h.ids id (hid.imp_left fun hmem => ?_)
        rw [Std.ExtTreeMap.mem_iff_isSome_getElem?, hreplicas id heq] at hmem
        exact Std.ExtTreeMap.mem_iff_isSome_getElem?.mpr hmem
      omega
  · -- the new replica has a number that nobody has acknowledged under
    have hlt : id < s.mgr.next_replica_id :=
      h.ids id (.inr (Std.ExtTreeMap.mem_iff_isSome_getElem?.mpr (Option.isSome_of_eq_some ho)))
    obtain ⟨replica, hget, hon⟩ := hactive
    rw [hreplicas id hlt.ne] at hget
    rw [hacked id hlt.ne]
    exact h.known id o ho ⟨replica, hget, hon⟩
  · obtain ⟨r, o, hr, ⟨replica, hget, hon⟩, ho, hle⟩ := h.sent p hp
    have hlt : r < s.mgr.next_replica_id := h.ids r (.inl (Active.mem ⟨replica, hget, hon⟩))
    exact ⟨r, o, hr, ⟨replica, (hreplicas r hlt.ne).trans hget, hon⟩,
      (hacked r hlt.ne).trans ho, hle⟩

theorem attributed_disconnect (h : Attributed s) {r : ℕ} (hr : ∀ p ∈ s.senders, p.1 ≠ some r) :
    Attributed (s.step (.disconnect r)) := by
  set s' := s.step (.disconnect r) with hs'
  have hreplicas : ∀ id, s'.mgr.replicas[id]? =
      if r = id then s.mgr.replicas[id]?.map ({ · with active := false })
      else s.mgr.replicas[id]? := by
    intro id
    show (s.mgr.replicas.alter r _)[id]? = _
    rw [Std.ExtTreeMap.getElem?_alter]
    by_cases heq : r = id
    · rw [if_pos (by rw [heq]; exact Std.ReflCmp.compare_self), if_pos heq, heq]
    · rw [if_neg (mt eq_of_compare heq), if_neg heq]
  refine ⟨h.offsets, fun id hid => ?_, fun id o ho hactive => ?_, h.nodup, fun p hp => ?_⟩
  · refine h.ids id (hid.imp_left fun hmem => ?_)
    rw [Std.ExtTreeMap.mem_iff_isSome_getElem?, hreplicas id] at hmem
    refine Std.ExtTreeMap.mem_iff_isSome_getElem?.mpr ?_
    by_cases heq : r = id
    · rw [if_pos heq, Option.isSome_map] at hmem
      exact hmem
    · rwa [if_neg heq] at hmem
  · obtain ⟨replica, hget, hon⟩ := hactive
    rw [hreplicas id] at hget
    by_cases heq : r = id
    · rw [if_pos heq] at hget
      obtain ⟨old, -, rfl⟩ := Option.map_eq_some_iff.mp hget
      cases hon
    · rw [if_neg heq] at hget
      exact h.known id o ho ⟨replica, hget, hon⟩
  · obtain ⟨r', o, hr', ⟨replica, hget, hon⟩, ho, hle⟩ := h.sent p hp
    have hne : r ≠ r' := fun heq => hr p hp (heq ▸ hr')
    exact ⟨r', o, hr', ⟨replica, (hreplicas r').trans ((if_neg hne).trans hget), hon⟩, ho, hle⟩

theorem attributed_reap (h : Attributed s) : Attributed (s.step .reap) := by
  set s' := s.step .reap with hs'
  have hreplicas : ∀ id : ℕ, s'.mgr.replicas[id]?
      = s.mgr.replicas[id]?.filter fun replica => replica.active := by
    intro id
    show (s.mgr.replicas.filter fun _ replica => replica.active)[id]? = _
    rw [Std.ExtTreeMap.getElem?_filter']
  have hacks : ∀ (id : ℕ) (o : UInt64), s'.mgr.ack_offsets[id]? = some o →
      s.mgr.ack_offsets[id]? = some o := by
    intro id o ho
    have hfilter : (s.mgr.ack_offsets.filter fun id _ => s'.mgr.replicas.contains id)[id]?
        = some o := ho
    rw [Std.ExtTreeMap.getElem?_filter'] at hfilter
    exact (Option.filter_eq_some_iff.mp hfilter).1
  have hactive : ∀ id, Active s'.mgr id → Active s.mgr id := by
    rintro id ⟨replica, hget, hon⟩
    rw [hreplicas id] at hget
    exact ⟨replica, (Option.filter_eq_some_iff.mp hget).1, hon⟩
  refine ⟨h.offsets, fun id hid => ?_, fun id o ho hid => ?_, h.nodup, fun p hp => ?_⟩
  · refine h.ids id (hid.imp (fun hmem => ?_) fun hmem => ?_)
    · rw [Std.ExtTreeMap.mem_iff_isSome_getElem?, hreplicas id] at hmem
      exact Std.ExtTreeMap.mem_iff_isSome_getElem?.mpr (Option.isSome_of_isSome_filter _ _ hmem)
    · rw [Std.ExtTreeMap.mem_iff_isSome_getElem?] at hmem
      obtain ⟨o, ho⟩ := Option.isSome_iff_exists.mp hmem
      exact Std.ExtTreeMap.mem_iff_isSome_getElem?.mpr (Option.isSome_of_eq_some (hacks id o ho))
  · exact h.known id o (hacks id o ho) (hactive id hid)
  · obtain ⟨r, o, hr, ⟨replica, hget, hon⟩, ho, hle⟩ := h.sent p hp
    refine ⟨r, o, hr, ⟨replica, ?_, hon⟩, ho, hle⟩
    rw [hreplicas r, hget]
    exact Option.filter_eq_some_iff.mpr ⟨rfl, hon⟩

theorem getElem?_acked_insert {r : ℕ} (offset : UInt64) {id : ℕ} (hne : id ≠ r) :
    (s.acked.insert r offset)[id]? = s.acked[id]? := by
  rw [Std.ExtTreeMap.getElem?_insert, if_neg]
  exact fun heq => hne (eq_of_compare heq).symm

theorem attributed_ack (h : Attributed s) {r : ℕ} {offset : UInt64}
    (hr : r < s.mgr.next_replica_id) (hoffset : ∀ o, (some r, o) ∈ s.senders → o ≤ offset) :
    Attributed (s.step (.ack r offset)) := by
  refine ⟨h.offsets, fun id hid => ?_, fun id o ho hactive => ?_, h.nodup, fun p hp => ?_⟩
  · rcases hid with hmem | hmem
    · exact h.ids id (.inl hmem)
    · rcases Std.ExtTreeMap.mem_insert.mp hmem with heq | hmem
      · rw [← eq_of_compare heq]
        exact hr
      · exact h.ids id (.inr hmem)
  · have hinsert : (s.mgr.ack_offsets.insert r offset)[id]? = some o := ho
    show ∃ o', (s.acked.insert r offset)[id]? = some o' ∧ o ≤ o'
    by_cases hid : id = r
    · subst hid
      rw [Std.ExtTreeMap.getElem?_insert_self] at hinsert ⊢
      exact ⟨o, hinsert, UInt64.le_refl o⟩
    · rw [getElem?_acked_insert offset hid]
      refine h.known id o ?_ hactive
      rwa [Std.ExtTreeMap.getElem?_insert, if_neg] at hinsert
      exact fun heq => hid (eq_of_compare heq).symm
  · obtain ⟨r', o, hr', hactive, ho, hle⟩ := h.sent p hp
    by_cases heq : r' = r
    · subst heq
      have hmem : (some r', p.2) ∈ s.senders := by rw [← hr']; exact hp
      exact ⟨r', offset, hr', hactive, Std.ExtTreeMap.getElem?_insert_self, hoffset p.2 hmem⟩
    · exact ⟨r', o, hr', hactive, (getElem?_acked_insert offset heq).trans ho, hle⟩

/-! ### An offset without a name -/

theorem map_record {α β : Type} (f : α → β) (count : ℕ) (place : Option ℕ) (l : List α) (a : α) :
    (record count place l a).map f = record count place (l.map f) (f a) := by
  unfold record
  rw [length_map]
  by_cases hzero : count = 0
  · rw [if_pos hzero, if_pos hzero]
  · rw [if_neg hzero, if_neg hzero]
    by_cases hlt : l.length < count
    · rw [if_pos hlt, if_pos hlt, map_append, map_singleton]
    · rw [if_neg hlt, if_neg hlt]
      cases place with
      | none => rfl
      | some i => exact map_set

theorem mem_record {α : Type} {count : ℕ} {place : Option ℕ} {l : List α} {a b : α}
    (h : b ∈ record count place l a) :
    b = a ∨ ∃ j, l[j]? = some b ∧ (count ≠ 0 → count ≤ l.length → place ≠ some j) := by
  unfold record at h
  by_cases hzero : count = 0
  · rw [if_pos hzero] at h
    obtain ⟨j, hj⟩ := mem_iff_getElem?.mp h
    exact .inr ⟨j, hj, fun hne => absurd hzero hne⟩
  · rw [if_neg hzero] at h
    by_cases hlt : l.length < count
    · rw [if_pos hlt] at h
      rcases mem_append.mp h with hmem | hmem
      · obtain ⟨j, hj⟩ := mem_iff_getElem?.mp hmem
        exact .inr ⟨j, hj, fun _ hle => absurd hlt (Nat.not_lt.mpr hle)⟩
      · exact .inl (mem_singleton.mp hmem)
    · rw [if_neg hlt] at h
      cases place with
      | none =>
        obtain ⟨j, hj⟩ := mem_iff_getElem?.mp h
        exact .inr ⟨j, hj, fun _ _ heq => by cases heq⟩
      | some i =>
        obtain ⟨j, hj⟩ := mem_iff_getElem?.mp h
        by_cases hij : i = j
        · subst hij
          have hin : i < l.length := by
            have hlen := (List.getElem?_eq_some_iff.mp hj).1
            rwa [length_set] at hlen
          rw [List.getElem?_set_self hin] at hj
          exact .inl (Option.some.inj hj).symm
        · rw [List.getElem?_set_ne hij] at hj
          exact .inr ⟨j, hj, fun _ _ heq => hij (Option.some.inj heq)⟩

theorem nodup_set {α : Type} {l : List α} (hl : l.Nodup) {i : ℕ} {a : α}
    (h : ∀ j, l[j]? = some a → i = j) : (l.set i a).Nodup := by
  by_cases ha : a ∈ l
  · obtain ⟨j, hj, rfl⟩ := getElem_of_mem ha
    obtain rfl := h j (List.getElem?_eq_getElem hj)
    rwa [set_getElem_self]
  · exact hl.set ha

theorem nodup_record {α : Type} {count : ℕ} {place : Option ℕ} {l : List α} (hl : l.Nodup) {a : α}
    (h : ∀ j, l[j]? = some a → count ≤ l.length ∧ place = some j) :
    (record count place l a).Nodup := by
  unfold record
  by_cases hzero : count = 0
  · rwa [if_pos hzero]
  · rw [if_neg hzero]
    by_cases hlt : l.length < count
    · rw [if_pos hlt]
      refine nodup_append.mpr ⟨hl, nodup_singleton a, fun b hb c hc hbc => ?_⟩
      rw [mem_singleton] at hc
      obtain ⟨j, hj⟩ := mem_iff_getElem?.mp hb
      rw [hbc, hc] at hj
      exact absurd hlt (Nat.not_lt.mpr (h j hj).1)
    · rw [if_neg hlt]
      cases place with
      | none => exact hl
      | some i => exact nodup_set hl fun j hj => Option.some.inj (h j hj).2

theorem attributed_take_ack (h : Attributed s) {sender : Option ℕ} {offset : UInt64}
    (hatt : s.mgr.replica_count = 0 ∨ Attributable s sender offset) :
    Attributed (s.take_ack sender offset) := by
  have hoffsets : (s.take_ack sender offset).senders.map Prod.snd
      = (s.take_ack sender offset).mgr.anonymous_ack_offsets := by
    show (record _ _ s.senders (sender, offset)).map Prod.snd = record _ _ _ _
    rw [map_record, h.offsets]
  rcases hatt with hzero | ⟨r, rfl, hr, hknown, honce⟩
  · -- nobody is connected, and nothing is recorded
    have hnobody : ∀ id, ¬ Active s.mgr id := fun id hid => hid.count_pos hzero
    have hsame : (s.take_ack sender offset).senders = s.senders := if_pos hzero
    refine ⟨hoffsets, h.ids, fun id o _ hid => absurd hid (hnobody id), ?_, fun p hp => ?_⟩
    · rw [hsame]
      exact h.nodup
    · rw [hsame] at hp
      obtain ⟨r, -, -, hr, -⟩ := h.sent p hp
      exact absurd hr (hnobody r)
  · refine ⟨hoffsets, h.ids, fun id o ho hid => ?_, ?_, fun p hp => ?_⟩
    · show ∃ o', (s.acked.insert r offset)[id]? = some o' ∧ o ≤ o'
      by_cases hidr : id = r
      · subst hidr
        exact ⟨offset, Std.ExtTreeMap.getElem?_insert_self, hknown o ho⟩
      · rw [getElem?_acked_insert offset hidr]
        exact h.known id o ho hid
    · show ((record _ _ s.senders (some r, offset)).map Prod.fst).Nodup
      rw [map_record]
      refine nodup_record h.nodup fun j hj => ?_
      rw [List.getElem?_map] at hj
      obtain ⟨⟨r', o⟩, hget, rfl⟩ := Option.map_eq_some_iff.mp hj
      rw [length_map]
      exact honce j o hget
    · rcases mem_record hp with rfl | ⟨j, hj, hkept⟩
      · exact ⟨r, offset, rfl, hr, Std.ExtTreeMap.getElem?_insert_self, UInt64.le_refl _⟩
      · obtain ⟨r', o, hr', hactive, ho, hle⟩ := h.sent p (mem_of_getElem? hj)
        have hne : r' ≠ r := by
          rintro rfl
          have hj' : s.senders[j]? = some (some r', p.2) := by rw [hj, ← hr']
          obtain ⟨hlen, hplace⟩ := honce j p.2 hj'
          exact hkept hr.count_pos hlen hplace
        exact ⟨r', o, hr', hactive, (getElem?_acked_insert offset hne).trans ho, hle⟩

theorem attributed_step (h : Attributed s) (e : Happening) (he : Tidy s e) :
    Attributed (s.step e) := by
  have hwaits : ∀ i answered, Attributed (s.after_answer i answered) := by
    intro i answered
    unfold Site.after_answer
    split
    · exact ⟨h.offsets, h.ids, h.known, h.nodup, h.sent⟩
    · exact h
  cases e with
  | connect repl_id offset rdb => exact attributed_connect h repl_id offset rdb
  | disconnect r => exact attributed_disconnect h he
  | reap => exact attributed_reap h
  | propagate cmd => exact ⟨h.offsets, h.ids, h.known, h.nodup, h.sent⟩
  | ack r offset => exact attributed_ack h he.1 he.2
  | replconf sender args =>
    unfold Site.step
    dsimp only
    cases hoff : (handle_replconf (F := Empty) s.mgr args).2 with
    | none => exact h
    | some offset => exact attributed_take_ack h (he offset hoff)
  | wait args =>
    unfold Site.step
    dsimp only
    cases cmd_wait (F := Empty) s.mgr args with
    | inl reply => exact h
    | inr w => exact ⟨h.offsets, h.ids, h.known, h.nodup, h.sent⟩
  | notify i => exact hwaits i _
  | timeout i => exact hwaits i _

end Steps

/-! ## Counting -/

/-- The offsets in the list that are enough are by different replicas that have acknowledged as
much. -/
theorem anonymous_le {s : Site} (h : Attributed s) (target : UInt64) :
    (s.mgr.anonymous_ack_offsets.filter (target ≤ ·)).length ≤ s.acked_replicas target := by
  let enough := s.senders.filter fun p => target ≤ p.2
  have hlength : (s.mgr.anonymous_ack_offsets.filter (target ≤ ·)).length
      = (enough.map Prod.fst).length := by
    rw [← h.offsets, filter_map, length_map, length_map]
    rfl
  have hnodup : (enough.map Prod.fst).Nodup := h.nodup.sublist (filter_sublist.map Prod.fst)
  have hsubset : enough.map Prod.fst ⊆
      (s.mgr.active_replicas fun id => s.acked[id]?.any (target ≤ ·)).map (some ∘ Prod.fst) := by
    intro sender hsender
    obtain ⟨p, hp, rfl⟩ := mem_map.mp hsender
    obtain ⟨hmem, henough⟩ := List.mem_filter.mp hp
    obtain ⟨r, o, hr, ⟨replica, hget, hon⟩, ho, hle⟩ := h.sent p hmem
    have hreach : target ≤ o := UInt64.le_trans (of_decide_eq_true henough) hle
    refine mem_map.mpr ⟨(r, replica), List.mem_filter.mpr ⟨?_, ?_⟩, hr.symm⟩
    · exact Std.ExtTreeMap.mem_toList_iff_getElem?_eq_some.mpr hget
    · show (replica.active && s.acked[r]?.any (target ≤ ·)) = true
      rw [hon, ho]
      exact decide_eq_true hreach
  calc (s.mgr.anonymous_ack_offsets.filter (target ≤ ·)).length
      = (enough.map Prod.fst).length := hlength
    _ ≤ _ := (hnodup.subperm hsubset).length_le
    _ = s.acked_replicas target := length_map _

theorem known_le {s : Site} (h : Attributed s) (target : UInt64) :
    (s.mgr.active_replicas fun id => s.mgr.ack_offsets[id]?.any (target ≤ ·)).length
      ≤ s.acked_replicas target := by
  unfold Site.acked_replicas ReplicationManager.active_replicas
  rw [← countP_eq_length_filter, ← countP_eq_length_filter]
  refine countP_mono_left fun ⟨id, replica⟩ hmem hcounted => ?_
  obtain ⟨hon, hany⟩ : replica.active = true ∧
      s.mgr.ack_offsets[id]?.any (target ≤ ·) = true := Bool.and_eq_true_iff.mp hcounted
  have hget := Std.ExtTreeMap.mem_toList_iff_getElem?_eq_some.mp hmem
  cases hack : s.mgr.ack_offsets[id]? with
  | none =>
    rw [hack] at hany
    cases hany
  | some o =>
    rw [hack] at hany
    obtain ⟨o', ho', hle⟩ := h.known id o hack ⟨replica, hget, hon⟩
    show (replica.active && s.acked[id]?.any (target ≤ ·)) = true
    rw [hon, ho']
    exact decide_eq_true (UInt64.le_trans (of_decide_eq_true hany) hle)

theorem count_le_acked {s : Site} (h : Attributed s) (target : UInt64) :
    s.mgr.count_acked_replicas target ≤ s.acked_replicas target := by
  unfold ReplicationManager.count_acked_replicas
  dsimp only
  split
  · exact known_le h target
  · exact anonymous_le h target

/-! ## The answers of WAIT -/

theorem toInt_ofNat_le (n : ℕ) : (Int64.ofNat n).toInt ≤ n := by
  have hmod : ∀ m : ℕ, (n : ℤ).bmod m ≤ n := by
    intro m
    have hle : (n : ℤ) % m ≤ n := by exact_mod_cast Nat.mod_le n m
    unfold Int.bmod
    dsimp only
    split <;> omega
  rw [Int64.toInt_ofNat']
  exact hmod _

theorem answer_count {s : Site} {e : Happening} {k : Int64} {target : UInt64}
    (h : s.answer (F := F) e = some (.Integer k, target)) :
    k = Int64.ofNat (s.mgr.count_acked_replicas target) := by
  cases e with
  | wait args =>
    obtain ⟨reply, hreply, heq⟩ : ∃ reply, cmd_wait s.mgr args = .inl reply ∧
        some (reply, s.mgr.backlog_offset) = some (.Integer k, target) := by
      unfold Site.answer at h
      dsimp only at h
      cases hwait : cmd_wait s.mgr args with
      | inl reply => exact ⟨reply, rfl, by rwa [hwait] at h⟩
      | inr w =>
        rw [hwait] at h
        cases h
    obtain ⟨rfl, rfl⟩ := Prod.mk.inj (Option.some.inj heq)
    unfold cmd_wait at hreply
    dsimp only at hreply
    split at hreply
    · split at hreply
      · cases hreply
      · cases hreply
      · split at hreply
        · cases hreply
          rfl
        · split at hreply
          · cases hreply
            rfl
          · cases hreply
    · cases hreply
  | notify i =>
    obtain ⟨w, -, hw⟩ := Option.bind_eq_some_iff.mp h
    obtain ⟨reply, hreply, heq⟩ := Option.map_eq_some_iff.mp hw
    obtain ⟨rfl, rfl⟩ := Prod.mk.inj heq
    unfold Waiting.notified at hreply
    dsimp only at hreply
    split at hreply
    · cases hreply
      rfl
    · cases hreply
  | timeout i =>
    obtain ⟨w, -, hw⟩ := Option.bind_eq_some_iff.mp h
    obtain ⟨reply, hreply, heq⟩ := Option.map_eq_some_iff.mp hw
    obtain ⟨rfl, rfl⟩ := Prod.mk.inj heq
    unfold Waiting.timed_out at hreply
    split at hreply
    · cases hreply
      rfl
    · cases hreply
  | _ => cases h

/-- In every history in which the offsets in the list can be attributed, no WAIT is answered with
more than the connected replicas that have acknowledged the offset it waited for. -/
theorem wait_never_over_counts (repl_id : String) (es : List Happening)
    (htidy : Along Site.step Tidy (.start repl_id) es) :
    Along Site.step (fun s e => ∀ k target, s.answer (F := F) e = some (.Integer k, target) →
      k.toInt ≤ s.acked_replicas target) (.start repl_id) es := by
  refine htidy.always (fun s e he hs => ⟨fun k target hanswer => ?_, attributed_step hs e he⟩)
    (attributed_start repl_id)
  rw [answer_count hanswer]
  have hcount : (s.mgr.count_acked_replicas target : ℤ) ≤ s.acked_replicas target :=
    Int.ofNat_le.mpr (count_le_acked hs target)
  exact le_trans (toInt_ofNat_le _) hcount

/-- A replica that connects and acknowledges, and a WAIT that counts it. -/
def one_ack : List Happening :=
  [.connect none none [], .replconf (some 1) [as_bytes "ACK", as_bytes "0"],
    .wait [as_bytes "1", as_bytes "0"]]

theorem wait_never_over_counts_one :
    Along Site.step Tidy (.start "id") one_ack ∧
      Along Site.step (fun s e => ∀ k target, s.answer (F := Empty) e = some (.Integer k, target) →
        k.toInt ≤ s.acked_replicas target) (.start "id") one_ack := by
  have htidy : Along Site.step Tidy (.start "id") one_ack := by
    refine ⟨trivial, fun offset hoffset => .inr ⟨1, rfl, ?_, fun o ho => ?_, fun i o hi => ?_⟩,
      trivial, trivial⟩
    · exact ⟨_, Std.ExtTreeMap.getElem?_insert_self, rfl⟩
    · exact absurd (Std.ExtTreeMap.getElem?_empty.symm.trans ho) nofun
    · exact absurd (List.getElem?_nil.symm.trans hi) nofun
  exact ⟨htidy, wait_never_over_counts "id" one_ack htidy⟩

/-- Two replicas connect, and one of them acknowledges twice. -/
def two_acks : List Happening :=
  [.connect none none [], .connect none none [],
    .replconf (some 1) [as_bytes "ACK", as_bytes "0"],
    .replconf (some 1) [as_bytes "ACK", as_bytes "0"]]

/-- A WAIT then counts two replicas where one has acknowledged. -/
theorem wait_counts_twice :
    (run Site.step (.start "id") two_acks).answer (F := Empty)
        (.wait [as_bytes "2", as_bytes "0"]) = some (.Integer 2, 0) ∧
      (run Site.step (.start "id") two_acks).acked_replicas 0 = 1 := by
  constructor
  · rfl
  · decide +kernel

end ValkeyRs.Replication
