/-
Slots on the move.

Whether a slot is being imported or migrated is written down twice: in the vector of slot states,
and in the maps `importing` and `migrating`. SETSLOT writes both, but it does not ask for the state
the slot is in, and `SlotState::transition` is not called; and it takes any 16-bit number for a
slot.

So the two agree, and every change of a state is an allowed one, exactly as long as a slot is not
imported while it is migrated or the other way round, and no slot is named that does not exist.
-/
import ValkeyRs.ClusterCommands

set_option autoImplicit false

open ValkeyRs Text Runs Option

namespace ValkeyRs.Cluster

/-! ## What is known of one slot -/

/-- What the vector and the two maps have for a slot. The state is missing out of range. -/
structure SlotView where
  state : Option SlotState
  importing : Option String
  migrating : Option String

def FullState.view (s : FullState) (slot : UInt16) : SlotView where
  state := s.slot_state slot
  importing := s.importing[slot]?
  migrating := s.migrating[slot]?

/-- The vector and the maps say the same, and not both maps have the slot. -/
structure SlotView.Coherent (v : SlotView) : Prop where
  importing : ∀ source, v.state = some (.Importing source) ↔ v.importing = some source
  migrating : ∀ target, v.state = some (.Migrating target) ↔ v.migrating = some target
  apart : v.importing = none ∨ v.migrating = none

def SetSlot.change (at_slot : UInt16) (v : SlotView) : SetSlot → SlotView
  | .refused _ => v
  | .importing slot id =>
    if at_slot = slot then
      { v with
        state := some (.Importing id)
        importing := some id }
    else v
  | .migrating slot id =>
    if at_slot = slot then
      { v with
        state := some (.Migrating id)
        migrating := some id }
    else v
  | .stable slot | .node slot _ =>
    if at_slot = slot then ⟨v.state.map fun _ => .Normal, none, none⟩ else v

/-- A request that does not leave the vector. -/
def SetSlot.InRange : SetSlot → Prop
  | .importing slot _ | .migrating slot _ => slot.toNat < NUM_SLOTS
  | _ => True

theorem put_slot_at {α : Type} (v : Fin NUM_SLOTS → α) (slot at_slot : UInt16) (a : α)
    (h : at_slot.toNat < NUM_SLOTS) :
    put_slot v slot a ⟨at_slot.toNat, h⟩ = if at_slot = slot then a else v ⟨at_slot.toNat, h⟩ := by
  unfold put_slot
  simp only [UInt16.toNat_inj]

variable (s : FullState)

variable {slot : UInt16} {r : SetSlot}

theorem view_marked (hslot : slot.toNat < NUM_SLOTS) (id : String) (at_slot : UInt16) :
    { s with
      importing := s.importing.insert slot id
      slot_states := put_slot s.slot_states slot (.Importing id) }.view at_slot =
      SetSlot.change at_slot (s.view at_slot) (.importing slot id) ∧
    { s with
      migrating := s.migrating.insert slot id
      slot_states := put_slot s.slot_states slot (.Migrating id) }.view at_slot =
      SetSlot.change at_slot (s.view at_slot) (.migrating slot id) := by
  by_cases h : at_slot = slot
  · subst h
    simp [FullState.view, FullState.slot_state, SetSlot.change, put_slot_at, hslot]
  · simp [FullState.view, FullState.slot_state, SetSlot.change, insert_at, put_slot_at, h]

theorem view_settled (slot at_slot : UInt16) :
    { s with
      importing := s.importing.erase slot
      migrating := s.migrating.erase slot
      slot_states := put_slot s.slot_states slot .Normal }.view at_slot =
      SetSlot.change at_slot (s.view at_slot) (.stable slot) := by
  by_cases h : at_slot = slot
  · simp [FullState.view, FullState.slot_state, SetSlot.change, put_slot_at, h]
  · simp [FullState.view, FullState.slot_state, SetSlot.change, erase_at, put_slot_at, h]

/-! ## A request on a node none of whose locks is poisoned -/

/-- No thread has stopped with a lock taken. -/
def Unpoisoned (s : FullState) : Prop := ∀ l, s.poisoned l = false

section Request

variable {s : FullState} (hfree : Unpoisoned s)

include hfree

theorem settle_free (slot : UInt16) (held : List ClusterLock) :
    settle_slot slot held s = (some "+OK\r\n", { s with
      importing := s.importing.erase slot
      migrating := s.migrating.erase slot
      slot_states := put_slot s.slot_states slot .Normal }) := by
  simp only [settle_slot, locked, hfree _, Bool.false_eq_true, if_false]

/-- IMPORTING and MIGRATING stop at a slot that does not exist. -/
theorem run_stops {r : SetSlot} (hr : ¬ r.InRange) : (r.run s).1 = none := by
  cases r with
  | importing slot id =>
    have hslot : ¬ slot.toNat < NUM_SLOTS := hr
    simp [SetSlot.run, setslot_importing, locked, hfree _, index_state, hslot]
  | migrating slot id =>
    have hslot : ¬ slot.toNat < NUM_SLOTS := hr
    simp [SetSlot.run, setslot_migrating, locked, hfree _, index_state, hslot]
  | refused | stable | node => exact absurd trivial hr

/-- NODE is STABLE behind a change of the owner. -/
theorem node_free (slot : UInt16) (id : String) :
    setslot_node slot id s =
      settle_slot slot [.slots] { s with slots := put_slot s.slots slot (some id) } := by
  simp only [setslot_node, locked, hfree _, Bool.false_eq_true, if_false]

/-- **One request.** In range it returns, poisons no lock, and does to each slot what is said
above. -/
theorem run_view (r : SetSlot) (hr : r.InRange) :
    (r.run s).1.isSome ∧ Unpoisoned (r.run s).2 ∧
      ∀ slot, (r.run s).2.view slot = r.change slot (s.view slot) := by
  cases r with
  | refused reply => exact ⟨rfl, hfree, fun _ => rfl⟩
  | importing slot id =>
    have hslot : slot.toNat < NUM_SLOTS := hr
    simp only [SetSlot.run, setslot_importing, locked, hfree _, Bool.false_eq_true, if_false,
      index_state, if_pos hslot]
    exact ⟨rfl, hfree, fun a => (view_marked s hr id a).1⟩
  | migrating slot id =>
    have hslot : slot.toNat < NUM_SLOTS := hr
    simp only [SetSlot.run, setslot_migrating, locked, hfree _, Bool.false_eq_true, if_false,
      index_state, if_pos hslot]
    exact ⟨rfl, hfree, fun a => (view_marked s hr id a).2⟩
  | stable slot =>
    rw [SetSlot.run, setslot_stable, settle_free hfree]
    exact ⟨rfl, hfree, view_settled s slot⟩
  | node slot id =>
    have hsettle := settle_free (s := { s with slots := put_slot s.slots slot (some id) }) hfree slot
      [.slots]
    rw [SetSlot.run, node_free hfree, hsettle]
    exact ⟨rfl, hfree, view_settled s slot⟩

end Request

/-! ## The state machine -/

/-- What is asked of a SETSLOT: it returns, the vector and the maps say the same behind it, and each
state it changes is changed as `SlotState::transition` allows. -/
structure Orderly (lossy : Bytes → String) (s : FullState) (args : List Bytes) : Prop where
  returns : (cluster_setslot lossy args s).1.isSome
  coherent : ∀ slot, ((cluster_setslot lossy args s).2.view slot).Coherent
  allowed : ∀ slot old new, s.slot_state slot = some old →
    (cluster_setslot lossy args s).2.slot_state slot = some new → old.transition new = true

/-- A slot that exists is imported while it is not migrated, and migrated while it is not
imported. -/
def SetSlot.OneWay (s : FullState) : SetSlot → Prop
  | .importing slot _ => slot.toNat < NUM_SLOTS ∧ s.migrating[slot]? = none
  | .migrating slot _ => slot.toNat < NUM_SLOTS ∧ s.importing[slot]? = none
  | _ => True

instance (s : FullState) : (r : SetSlot) → Decidable (r.OneWay s)
  | .importing _ _ => inferInstanceAs (Decidable (_ ∧ _))
  | .migrating _ _ => inferInstanceAs (Decidable (_ ∧ _))
  | .refused _ | .stable _ | .node _ _ => .isTrue trivial

theorem SetSlot.OneWay.inRange {s : FullState} (h : r.OneWay s) : r.InRange := by
  cases r with
  | importing slot id => exact h.1
  | migrating slot id => exact h.1
  | refused | stable | node => trivial

theorem change_coherent {s : FullState} (h : r.OneWay s) (slot : UInt16)
    (hv : (s.view slot).Coherent) : (r.change slot (s.view slot)).Coherent := by
  unfold SetSlot.change
  cases r with
  | refused reply => exact hv
  | importing n id =>
    dsimp only
    split
    case isTrue heq =>
      subst heq
      have hnone : (s.view slot).migrating = none := h.2
      refine ⟨fun x => ?_, fun x => ?_, .inr hnone⟩
      · simp only [some.injEq, SlotState.Importing.injEq]
      · simp only [hnone, some.injEq, reduceCtorEq]
    case isFalse => exact hv
  | migrating n id =>
    dsimp only
    split
    case isTrue heq =>
      subst heq
      have hnone : (s.view slot).importing = none := h.2
      refine ⟨fun x => ?_, fun x => ?_, .inl hnone⟩
      · simp only [hnone, some.injEq, reduceCtorEq]
      · simp only [some.injEq, SlotState.Migrating.injEq]
    case isFalse => exact hv
  | stable n | node n id =>
    dsimp only
    split
    case isTrue heq =>
      refine ⟨fun x => ?_, fun x => ?_, .inl rfl⟩ <;>
        simp only [map_eq_some_iff, reduceCtorEq, and_false, exists_false]
    case isFalse => exact hv

/-- A slot that is in one of the states is in its map, so a request that goes one way finds it in the
state it asks for, or in none. -/
theorem change_allowed {s : FullState} (h : r.OneWay s)
    (hv : (s.view slot).Coherent) {old new : SlotState} (hold : (s.view slot).state = some old)
    (hnew : (r.change slot (s.view slot)).state = some new) : old.transition new = true := by
  have hstay : new = old → old.transition new = true := by
    intro heq
    subst heq
    cases new <;> rfl
  unfold SetSlot.change at hnew
  cases r with
  | refused reply => exact hstay (some.inj (hnew.symm.trans hold))
  | importing n id =>
    dsimp only at hnew
    split at hnew
    case isTrue heq =>
      subst heq
      obtain rfl : SlotState.Importing id = new := some.inj hnew
      cases old with
      | Normal => rfl
      | Importing => rfl
      | Migrating target =>
        have hnone : (s.view slot).migrating = none := h.2
        rw [(hv.migrating target).mp hold] at hnone
        cases hnone
    case isFalse => exact hstay (some.inj (hnew.symm.trans hold))
  | migrating n id =>
    dsimp only at hnew
    split at hnew
    case isTrue heq =>
      subst heq
      obtain rfl : SlotState.Migrating id = new := some.inj hnew
      cases old with
      | Normal => rfl
      | Migrating => rfl
      | Importing source =>
        have hnone : (s.view slot).importing = none := h.2
        rw [(hv.importing source).mp hold] at hnone
        cases hnone
    case isFalse => exact hstay (some.inj (hnew.symm.trans hold))
  | stable n | node n id =>
    dsimp only at hnew
    split at hnew
    case isTrue heq =>
      rw [hold] at hnew
      obtain rfl : SlotState.Normal = new := some.inj hnew
      cases old <;> rfl
    case isFalse => exact hstay (some.inj (hnew.symm.trans hold))

/-- **One SETSLOT.** On a node whose vector and maps agree and none of whose locks is poisoned, a
SETSLOT is orderly exactly if it goes one way. -/
theorem orderly_iff {lossy : Bytes → String} {s : FullState} (hs : ∀ slot, (s.view slot).Coherent)
    (hfree : Unpoisoned s) (args : List Bytes) :
    Orderly lossy s args ↔ (setslot_request lossy args).OneWay s := by
  constructor
  · intro h
    have hreturns := h.returns
    have hcoherent := h.coherent
    rw [cluster_setslot_eq] at hreturns hcoherent
    by_cases hin : (setslot_request lossy args).InRange
    · have hview := (run_view hfree _ hin).2.2
      revert hin hview hcoherent
      cases setslot_request lossy args with
      | importing slot id | migrating slot id =>
        intro hcoherent hslot hview
        refine ⟨hslot, ?_⟩
        -- the slot is in one map now, so it cannot be in the other
        have hv := hcoherent slot
        rw [hview slot] at hv
        simpa [SetSlot.change, FullState.view] using hv.apart
      | refused | stable | node => exact fun _ _ _ => trivial
    · rw [run_stops hfree hin] at hreturns
      cases hreturns
  · intro h
    obtain ⟨hreturns, -, hview⟩ := run_view hfree _ h.inRange
    rw [← cluster_setslot_eq] at hreturns hview
    refine ⟨hreturns, fun slot => ?_, fun slot old new hold hnew => ?_⟩
    · rw [hview slot]
      exact change_coherent h slot (hs slot)
    · have hstate := congrArg SlotView.state (hview slot)
      exact change_allowed h (hs slot) hold (hstate.symm.trans hnew)

/-- **Slots on the move.** From a node whose vector and maps agree and none of whose locks is
poisoned, every SETSLOT of a run is orderly if and only if a slot is imported only while it is not
migrated and migrated only while it is not imported, and neither is asked for a slot that does not
exist. -/
theorem slot_migration_iff {lossy : Bytes → String} {s : FullState}
    (hs : ∀ slot, (s.view slot).Coherent) (hfree : Unpoisoned s) (commands : List (List Bytes)) :
    Along (fun s args => (cluster_setslot lossy args s).2) (Orderly lossy) s commands ↔
      Along (fun s args => (cluster_setslot lossy args s).2)
        (fun s args => (setslot_request lossy args).OneWay s) s commands := by
  refine along_congr (I := fun s => (∀ slot, (s.view slot).Coherent) ∧ Unpoisoned s) ?_ ?_
    ⟨hs, hfree⟩
  · intro s args ⟨hs, hfree⟩ h
    refine ⟨((orderly_iff hs hfree args).mpr h).coherent, ?_⟩
    rw [cluster_setslot_eq]
    exact (run_view hfree _ h.inRange).2.1
  · intro s args ⟨hs, hfree⟩
    exact orderly_iff hs hfree args

theorem coherent_new (myself : NodeInfo) (slot : UInt16) :
    ((FullState.new myself).view slot).Coherent := by
  have hstate : ((FullState.new myself).view slot).state = none ∨
      ((FullState.new myself).view slot).state = some .Normal := by
    unfold FullState.view FullState.slot_state FullState.new
    split
    · exact .inr rfl
    · exact .inl rfl
  have himporting : ((FullState.new myself).view slot).importing = none :=
    Std.ExtTreeMap.getElem?_empty
  have hmigrating : ((FullState.new myself).view slot).migrating = none :=
    Std.ExtTreeMap.getElem?_empty
  refine ⟨fun x => ?_, fun x => ?_, .inl himporting⟩
  · rcases hstate with h | h <;> rw [h, himporting] <;>
      simp only [some.injEq, reduceCtorEq]
  · rcases hstate with h | h <;> rw [h, hmigrating] <;>
      simp only [some.injEq, reduceCtorEq]

/-- A slot is imported, settles, and is migrated. -/
theorem slot_migration_there_and_back :
    Along (fun s args => (cluster_setslot lossy_text args s).2) (Orderly lossy_text)
      (.new (NodeInfo.new "a" "127.0.0.1:6379" .Master))
      [["7", "importing", "b"].map as_bytes, ["7", "NODE", "a"].map as_bytes,
        ["7", "MIGRATING", "b"].map as_bytes] := by
  refine (slot_migration_iff (coherent_new _) (fun _ => rfl) _).mpr ⟨?_, ?_, ?_, trivial⟩
  · decide +kernel
  · decide +kernel
  · decide +kernel

/-- A slot that is imported is migrated: it is in both maps, and its state went from `Importing` to
`Migrating`. A slot that does not exist stops the thread. -/
theorem slot_imported_and_migrated :
    let s := FullState.new (NodeInfo.new "a" "127.0.0.1:6379" .Master)
    let s₁ := (cluster_setslot lossy_text (["7", "IMPORTING", "b"].map as_bytes) s).2
    let s₂ := (cluster_setslot lossy_text (["7", "MIGRATING", "c"].map as_bytes) s₁).2
    (s₁.slot_state 7, s₂.slot_state 7) = (some (.Importing "b"), some (.Migrating "c")) ∧
      (SlotState.Importing "b").transition (.Migrating "c") = false ∧
      (s₂.importing[(7 : UInt16)]?, s₂.migrating[(7 : UInt16)]?) = (some "b", some "c") ∧
      (cluster_setslot lossy_text (["16384", "IMPORTING", "b"].map as_bytes) s).1 = none := by
  refine ⟨?_, ?_, ?_, ?_⟩
  · decide +kernel
  · decide +kernel
  · decide +kernel
  · decide +kernel

end ValkeyRs.Cluster
