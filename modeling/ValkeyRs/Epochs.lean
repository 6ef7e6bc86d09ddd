/-
The epochs of a cluster node.

A node has an epoch of its own, and counts the cluster's. BUMPEPOCH raises the cluster's epoch and
makes it the node's own; FAILOVER raises the node's own epoch and leaves the cluster's alone. So the
node's epoch gets ahead by a failover, and falls back by a later BUMPEPOCH, exactly if a failover is
made while it is level with the cluster's.

Nothing else but RESET changes either of them.
-/
import ValkeyRs.ClusterCommands

set_option autoImplicit false

open ValkeyRs Text Runs

namespace ValkeyRs.Cluster

variable {lossy : Bytes → String}

/-! ## What an event does to the epochs -/

def epochs (s : FullState) : UInt64 × UInt64 := (s.myself.epoch, s.current_epoch)

def ClusterEvent.epochs (s : FullState) : ClusterEvent → UInt64 × UInt64
  | .FAILOVER _ =>
    if s.myself.role = .Slave then (s.myself.epoch + 1, s.current_epoch)
    else (s.myself.epoch, s.current_epoch)
  | .BUMPEPOCH => (s.current_epoch + 1, s.current_epoch + 1)
  | .RESET _ _ => (0, s.current_epoch)
  | _ => (s.myself.epoch, s.current_epoch)

theorem epochs_of_identity {s s' : FullState} (h : identity s' = identity s) :
    epochs s' = epochs s :=
  congrArg (fun x : ClusterState × UInt64 => (x.1.myself.epoch, x.2)) h

theorem epochs_reset_hard (s : FullState) (id : String) :
    epochs (reset_hard s id) = (0, s.current_epoch) := rfl

theorem epochs_step (lossy : Bytes → String) (s : FullState) (e : ClusterEvent) :
    epochs (e.step lossy s) = e.epochs s := by
  cases e with
  | MEET seed args =>
    unfold ClusterEvent.step ClusterEvent.outcome cluster_meet
    dsimp only
    split <;> rfl
  | REPLICATE args =>
    unfold ClusterEvent.step ClusterEvent.outcome cluster_replicate
    dsimp only
    split
    · rfl
    · split <;> rfl
  | FAILOVER args =>
    unfold ClusterEvent.step ClusterEvent.outcome ClusterEvent.epochs cluster_failover
    by_cases hrole : s.myself.role = .Slave
    · simp only [hrole, ne_eq, not_true_eq_false, if_false, if_true]
      rfl
    · simp only [hrole, ne_eq, not_false_eq_true, if_true, if_false]
      rfl
  | RESET seed args =>
    unfold ClusterEvent.step ClusterEvent.outcome cluster_reset
    dsimp only
    split
    · exact epochs_reset_hard s _
    · rfl
  | ADDSLOTS args =>
    unfold ClusterEvent.step ClusterEvent.outcome cluster_addslots
    dsimp only
    split
    · rfl
    · exact epochs_of_identity (write_slots_identity _ _ _ _)
  | DELSLOTS args =>
    unfold ClusterEvent.step ClusterEvent.outcome cluster_delslots
    dsimp only
    split
    · rfl
    · exact epochs_of_identity (write_slots_identity _ _ _ _)
  | SETSLOT args => exact epochs_of_identity (setslot_identity lossy args s)
  | BUMPEPOCH => rfl
  | assign_slots node_id ranges =>
    unfold ClusterEvent.step ClusterEvent.outcome FullState.assign_slots
    dsimp only
    split <;> rfl
  | gossip msg =>
    have hme : (handle_gossip s.toClusterState msg).myself = s.myself :=
      (handle_gossip_myself s.toClusterState msg).1
    exact congrArg (fun m : NodeInfo => (m.epoch, s.current_epoch)) hme

/-! ## The discipline -/

/-- What is asked of an event: the node's own epoch does not get smaller, gets larger by a FAILOVER
that succeeds and by BUMPEPOCH, and is not ahead of the cluster's behind it. -/
structure Disciplined (lossy : Bytes → String) (s : FullState) (e : ClusterEvent) : Prop where
  monotone : s.myself.epoch ≤ (e.step lossy s).myself.epoch
  raised : (∃ args, e = .FAILOVER args ∧ (e.outcome lossy s).1 = some "+OK\r\n") ∨ e = .BUMPEPOCH →
    s.myself.epoch < (e.step lossy s).myself.epoch
  bounded : (e.step lossy s).myself.epoch ≤ (e.step lossy s).current_epoch

/-- A failover of a slave is made while the node is behind the cluster, and BUMPEPOCH before the
epochs run out. A RESET is as good as none. -/
def Behind (s : FullState) : ClusterEvent → Prop
  | .FAILOVER _ => s.myself.role = .Slave → s.myself.epoch < s.current_epoch
  | .BUMPEPOCH => s.current_epoch.toNat + 1 < 2 ^ 64
  | .RESET _ _ => s.myself.epoch = 0
  | _ => True

instance (s : FullState) : (e : ClusterEvent) → Decidable (Behind s e)
  | .FAILOVER _ => inferInstanceAs (Decidable (_ → _))
  | .BUMPEPOCH => inferInstanceAs (Decidable (_ < _))
  | .RESET _ _ => inferInstanceAs (Decidable (_ = _))
  | .MEET _ _ | .REPLICATE _ | .ADDSLOTS _ | .DELSLOTS _ | .SETSLOT _ | .assign_slots _ _
  | .gossip _ => .isTrue trivial

theorem failover_ok_iff (s : FullState) (args : List Bytes) :
    (cluster_failover args s).1 = some "+OK\r\n" ↔ s.myself.role = .Slave := by
  unfold cluster_failover
  by_cases hrole : s.myself.role = .Slave
  · simp only [hrole, ne_eq, not_true_eq_false, if_false]
  · simp only [hrole, ne_eq, not_false_eq_true, if_true, iff_false]
    decide

theorem disciplined_of_same {s : FullState} {e : ClusterEvent}
    (hs : s.myself.epoch ≤ s.current_epoch) (he : e.epochs s = (s.myself.epoch, s.current_epoch))
    (hraise : ¬ ((∃ args, e = .FAILOVER args ∧ (e.outcome lossy s).1 = some "+OK\r\n") ∨
      e = .BUMPEPOCH)) : Disciplined lossy s e := by
  have hstep := (epochs_step lossy s e).trans he
  have hown : (e.step lossy s).myself.epoch = s.myself.epoch := congrArg Prod.fst hstep
  have hcluster : (e.step lossy s).current_epoch = s.current_epoch := congrArg Prod.snd hstep
  refine ⟨?_, fun h => absurd h hraise, ?_⟩
  · rw [hown]
    exact UInt64.le_refl _
  · rw [hown, hcluster]
    exact hs

theorem toNat_succ (n : UInt64) : (n + 1).toNat = (n.toNat + 1) % 2 ^ 64 := UInt64.toNat_add n 1

/-- **One event.** As long as the node is not ahead of the cluster, an event is disciplined exactly
if it meets the condition. -/
theorem disciplined_iff {s : FullState} (hs : s.myself.epoch ≤ s.current_epoch) (e : ClusterEvent) :
    Disciplined lossy s e ↔ Behind s e := by
  have hstep := epochs_step lossy s e
  have hown : (e.step lossy s).myself.epoch = (e.epochs s).1 := congrArg Prod.fst hstep
  have hcluster : (e.step lossy s).current_epoch = (e.epochs s).2 := congrArg Prod.snd hstep
  have hlt := s.current_epoch.toNat_lt
  have hle := UInt64.le_iff_toNat_le.mp hs
  cases e with
  | FAILOVER args =>
    by_cases hrole : s.myself.role = .Slave
    · simp only [ClusterEvent.epochs, if_pos hrole] at hown hcluster
      constructor
      · intro h _
        have hraised := UInt64.lt_iff_toNat_lt.mp
          (h.raised (.inl ⟨args, rfl, (failover_ok_iff s args).mpr hrole⟩))
        have hbounded := UInt64.le_iff_toNat_le.mp h.bounded
        rw [hown, toNat_succ] at hraised hbounded
        rw [hcluster] at hbounded
        rw [UInt64.lt_iff_toNat_lt]
        omega
      · intro h
        have hbehind := UInt64.lt_iff_toNat_lt.mp (h hrole)
        refine ⟨?_, fun _ => ?_, ?_⟩
        · rw [hown, UInt64.le_iff_toNat_le, toNat_succ]
          omega
        · rw [hown, UInt64.lt_iff_toNat_lt, toNat_succ]
          omega
        · rw [hown, hcluster, UInt64.le_iff_toNat_le, toNat_succ]
          omega
    · refine iff_of_true (disciplined_of_same hs (if_neg hrole) ?_) fun h => absurd h hrole
      rintro (⟨_, -, hok⟩ | hbump)
      · exact hrole ((failover_ok_iff s args).mp hok)
      · cases hbump
  | BUMPEPOCH =>
    constructor
    · intro h
      have hraised := UInt64.lt_iff_toNat_lt.mp (h.raised (.inr rfl))
      rw [hown] at hraised
      have hnext : (s.current_epoch + 1).toNat = _ := toNat_succ s.current_epoch
      have hpos : 0 < (s.current_epoch + 1).toNat := lt_of_le_of_lt (Nat.zero_le _) hraised
      show s.current_epoch.toNat + 1 < 2 ^ 64
      omega
    · intro h
      have hroom : s.current_epoch.toNat + 1 < 2 ^ 64 := h
      have hnext : (s.current_epoch + 1).toNat = _ := toNat_succ s.current_epoch
      refine ⟨?_, fun _ => ?_, ?_⟩
      · rw [hown, UInt64.le_iff_toNat_le]
        show s.myself.epoch.toNat ≤ (s.current_epoch + 1).toNat
        omega
      · rw [hown, UInt64.lt_iff_toNat_lt]
        show s.myself.epoch.toNat < (s.current_epoch + 1).toNat
        omega
      · rw [hown, hcluster]
        exact UInt64.le_refl _
  | RESET seed args =>
    constructor
    · intro h
      have hmono := h.monotone
      rw [hown] at hmono
      exact UInt64.le_zero_iff.mp hmono
    · intro h
      have hzero : s.myself.epoch = 0 := h
      refine disciplined_of_same hs ?_ ?_
      · rw [hzero]
        rfl
      · rintro (⟨_, ⟨⟩, -⟩ | hbump)
        cases hbump
  | MEET | REPLICATE | ADDSLOTS | DELSLOTS | SETSLOT | assign_slots | gossip =>
    refine iff_of_true (disciplined_of_same hs rfl ?_) trivial
    rintro (⟨_, ⟨⟩, -⟩ | hbump)
    cases hbump

/-- **Epochs.** Let the node not be ahead of the cluster. In a run every event is disciplined if and
only if every failover of a slave is made while the node is behind the cluster, and every BUMPEPOCH
before the epochs run out. (A RESET is disciplined if the node's epoch is zero already.) -/
theorem epoch_discipline_iff (s : FullState) (hs : s.myself.epoch ≤ s.current_epoch)
    (es : List ClusterEvent) :
    Along (fun s e => e.step lossy s) (Disciplined lossy) s es ↔
      Along (fun s e => e.step lossy s) Behind s es :=
  along_congr (I := fun s => s.myself.epoch ≤ s.current_epoch)
    (fun _ e hI hD => ((disciplined_iff hI e).mpr hD).bounded) (fun _ e hI => disciplined_iff hI e) hs

def lone_node : FullState := .new (NodeInfo.new "a" "127.0.0.1:6379" .Master)

/-- The cluster's epoch is raised first. -/
theorem epoch_discipline_bump :
    Along (fun s e => ClusterEvent.step (fun _ => "a") s e) (Disciplined fun _ => "a") lone_node
      [.BUMPEPOCH, .gossip ⟨"b", "", [], 7⟩, .REPLICATE [[]], .BUMPEPOCH] := by
  refine (epoch_discipline_iff lone_node (UInt64.le_refl _) _).mpr ⟨?_, trivial, trivial, ?_, trivial⟩
  · decide +kernel
  · decide +kernel

/-- A failover takes the node ahead of the cluster. After two of them BUMPEPOCH lowers its epoch. -/
theorem failover_ahead_of_cluster :
    epochs (run (fun s e => ClusterEvent.step (fun _ => "a") s e) lone_node
      [.REPLICATE [[]], .FAILOVER []]) = (1, 0) ∧
    epochs (run (fun s e => ClusterEvent.step (fun _ => "a") s e) lone_node
      [.REPLICATE [[]], .FAILOVER [], .REPLICATE [[]], .FAILOVER []]) = (2, 0) ∧
    epochs (run (fun s e => ClusterEvent.step (fun _ => "a") s e) lone_node
      [.REPLICATE [[]], .FAILOVER [], .REPLICATE [[]], .FAILOVER [], .BUMPEPOCH]) = (1, 1) := by
  refine ⟨?_, ?_, ?_⟩
  · decide +kernel
  · decide +kernel
  · decide +kernel

end ValkeyRs.Cluster
