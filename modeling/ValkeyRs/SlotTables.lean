/-
The owner of a slot, as the slot vector has it and as the records of the nodes have it.

Most events write one of the two and not the other. ADDSLOTS, DELSLOTS and SETSLOT NODE write the
vector only; MEET, a hard RESET and gossip put a record without slots into the node table and do not
look at the vector; `assign_slots` writes both, but it does not take the slots from the records of
their former owners, and it does not update the node's own record.

So the tables agree for as long as what an event writes into one of them is what the other one says
already.
-/
import ValkeyRs.ClusterCommands

set_option autoImplicit false

open ValkeyRs Text Runs Newest Option

namespace ValkeyRs.Cluster

/-! ## Agreement -/

/-- The three places where owners are written down. -/
structure Tables where
  myself : NodeInfo
  nodes : Std.ExtTreeMap String NodeInfo
  slots : Fin NUM_SLOTS → Option String

def FullState.tables (s : FullState) : Tables := ⟨s.myself, s.nodes, s.slots⟩

/-- A range of the node contains the slot. -/
def NodeInfo.Has (info : NodeInfo) (i : Fin NUM_SLOTS) : Prop := info.slots.any (·.contains i) = true

namespace Tables

structure Agree (t : Tables) : Prop where
  /-- The vector has a known node for a slot exactly if a range of the node contains the slot. -/
  owner : ∀ (i : Fin NUM_SLOTS) (n : String) (info : NodeInfo), t.nodes[n]? = some info →
    (t.slots i = some n ↔ info.Has i)
  /-- No slot is in the ranges of two nodes. -/
  exclusive : ∀ (i : Fin NUM_SLOTS) (n n' : String) (info info' : NodeInfo),
    t.nodes[n]? = some info → t.nodes[n']? = some info' → info.Has i → info'.Has i → n = n'
  /-- The node table has the node's own record. -/
  own : t.nodes[t.myself.id]? = some t.myself

theorem agree_iff {t : Tables} : t.Agree ↔
    (∀ (i : Fin NUM_SLOTS) (n : String) (info : NodeInfo), t.nodes[n]? = some info →
      (t.slots i = some n ↔ info.Has i)) ∧ t.nodes[t.myself.id]? = some t.myself := by
  constructor
  · intro h
    exact ⟨h.owner, h.own⟩
  · rintro ⟨howner, hown⟩
    refine ⟨howner, fun i n n' info info' hn hn' hi hi' => ?_, hown⟩
    have heq := ((howner i n info hn).mpr hi).symm.trans ((howner i n' info' hn').mpr hi')
    exact some.inj heq

def known (t : Tables) (owner : Option String) : Option String :=
  owner.filter fun n => (t.nodes[n]?).isSome

theorem known_eq_some_iff {t : Tables} {owner : Option String} {n : String} :
    t.known owner = some n ↔ owner = some n ∧ ∃ info, t.nodes[n]? = some info := by
  rw [known, filter_eq_some_iff, isSome_iff_exists]

theorem known_eq_iff {t : Tables} {a b : Option String} :
    t.known a = t.known b ↔
      ∀ n info, t.nodes[n]? = some info → (a = some n ↔ b = some n) := by
  constructor
  · intro h n info hn
    have hiff : t.known a = some n ↔ t.known b = some n := by rw [h]
    simpa only [known_eq_some_iff, hn, some.injEq, exists_eq', and_true] using hiff
  · intro h
    refine ext fun n => ?_
    rw [known_eq_some_iff, known_eq_some_iff]
    constructor
    · rintro ⟨ha, info, hn⟩
      exact ⟨(h n info hn).mp ha, info, hn⟩
    · rintro ⟨hb, info, hn⟩
      exact ⟨(h n info hn).mpr hb, info, hn⟩

/-! ## When the tables still agree -/

section Changes

variable {t : Tables} (h : t.Agree)

include h

theorem agree_slots_iff (v : Fin NUM_SLOTS → Option String) :
    { t with slots := v }.Agree ↔ ∀ i, t.known (v i) = t.known (t.slots i) := by
  rw [agree_iff]
  constructor
  · rintro ⟨howner, -⟩ i
    refine known_eq_iff.mpr fun n info hn => ?_
    exact (howner i n info hn).trans (h.owner i n info hn).symm
  · intro hknown
    refine ⟨fun i n info hn => ?_, h.own⟩
    exact (known_eq_iff.mp (hknown i) n info hn).trans (h.owner i n info hn)

/-- A record: the vector has its slots for it, and the node's own record is not replaced by another
one. -/
theorem agree_insert_iff (id : String) (info : NodeInfo) :
    { t with nodes := t.nodes.insert id info }.Agree ↔
      (∀ i, t.slots i = some id ↔ info.Has i) ∧ (id = t.myself.id → info = t.myself) := by
  rw [agree_iff]
  simp only [insert_at]
  constructor
  · rintro ⟨howner, hown⟩
    refine ⟨fun i => howner i id info (if_pos rfl), fun hid => ?_⟩
    rw [if_pos hid.symm] at hown
    exact some.inj hown
  · rintro ⟨hslots, hmine⟩
    refine ⟨fun i n info' hn => ?_, ?_⟩
    · by_cases hid : n = id
      · rw [if_pos hid] at hn
        rw [hid, ← some.inj hn]
        exact hslots i
      · rw [if_neg hid] at hn
        exact h.owner i n info' hn
    · by_cases hid : t.myself.id = id
      · rw [if_pos hid, hmine hid.symm]
      · rw [if_neg hid]
        exact h.own

theorem agree_set_myself {myself : NodeInfo} (hid : myself.id = t.myself.id)
    (hslots : myself.slots = t.myself.slots) :
    Agree ⟨myself, t.nodes.insert myself.id myself, t.slots⟩ := by
  rw [agree_iff]
  simp only [insert_at, if_true, and_true]
  intro i n info hn
  by_cases hme : n = myself.id
  · rw [if_pos hme] at hn
    have hhas : myself.Has i ↔ t.myself.Has i := by
      unfold NodeInfo.Has
      rw [hslots]
    rw [← some.inj hn, hhas, hme, hid]
    exact h.owner i _ _ h.own
  · rw [if_neg hme] at hn
    exact h.owner i n info hn

end Changes

end Tables

/-! ## ADDSLOTS and DELSLOTS -/

/-- The slots that are named before the first argument that is no number. -/
def named_slots (lossy : Bytes → String) : List Bytes → List UInt16
  | [] => []
  | arg :: rest =>
    match parse_u16 (lossy arg) with
    | none => []
    | some slot => slot :: named_slots lossy rest

/-- The vector with one value in all the slots of a list. -/
def fill (named : List UInt16) (value : Option String) (v : Fin NUM_SLOTS → Option String) :
    Fin NUM_SLOTS → Option String :=
  fun i => if named.any (·.toNat = i.val) then value else v i

theorem fill_cons (slot : UInt16) (named : List UInt16) (value : Option String)
    (v : Fin NUM_SLOTS → Option String) :
    fill (slot :: named) value v = fill named value (put_slot v slot value) := by
  funext i
  unfold fill put_slot
  by_cases hrest : named.any (·.toNat = i.val) = true
  · simp only [List.any_cons, hrest, Bool.or_true, if_true]
  · rw [Bool.not_eq_true] at hrest
    simp only [List.any_cons, hrest, Bool.or_false, decide_eq_true_eq, Bool.false_eq_true, if_false,
      eq_comm (a := slot.toNat)]

variable {lossy : Bytes → String}
variable {s : FullState}

theorem write_slots_tables (value : Option String)
    (args : List Bytes) (hfree : s.poisoned .slots = false) :
    (write_slots lossy value args s).2.tables =
      { s.tables with slots := fill (named_slots lossy args) value s.slots } := by
  induction args generalizing s with
  | nil => rfl
  | cons arg rest ih =>
    unfold write_slots named_slots
    cases parse_u16 (lossy arg) with
    | none => rfl
    | some slot =>
      simp only [hfree, Bool.false_eq_true, if_false, fill_cons]
      exact ih hfree

theorem write_slots_poisoned (value : Option String)
    (args : List Bytes) (hpoisoned : s.poisoned .slots = true) :
    (write_slots lossy value args s).2 = s := by
  cases args with
  | nil => rfl
  | cons arg rest =>
    unfold write_slots
    cases parse_u16 (lossy arg) with
    | none => rfl
    | some slot => simp only [hpoisoned, if_true]

theorem owner_of_lt (s : FullState) {slot : UInt16} (h : slot.toNat < NUM_SLOTS) :
    s.owner slot = s.slots ⟨slot.toNat, h⟩ := dif_pos h

theorem agree_fill_iff (h : s.tables.Agree) (named : List UInt16)
    (value : Option String) :
    { s.tables with slots := fill named value s.slots }.Agree ↔
      ∀ slot ∈ named, slot.toNat < NUM_SLOTS →
        s.tables.known (s.owner slot) = s.tables.known value := by
  rw [Tables.agree_slots_iff h]
  constructor
  · intro hall slot hslot hlt
    have hi := hall ⟨slot.toNat, hlt⟩
    have hany : named.any (·.toNat = slot.toNat) = true :=
      List.any_eq_true.mpr ⟨slot, hslot, decide_eq_true rfl⟩
    rw [fill, if_pos hany] at hi
    rw [owner_of_lt s hlt]
    exact hi.symm
  · intro hall i
    unfold fill
    by_cases hany : named.any (·.toNat = i.val) = true
    · obtain ⟨slot, hslot, heq⟩ := List.any_eq_true.mp hany
      have hval : slot.toNat = i.val := of_decide_eq_true heq
      have hlt : slot.toNat < NUM_SLOTS := hval ▸ i.isLt
      have hi : (⟨slot.toNat, hlt⟩ : Fin NUM_SLOTS) = i := Fin.ext hval
      rw [if_pos hany, ← hall slot hslot hlt, owner_of_lt s hlt, hi]
      rfl
    · rw [if_neg hany]
      rfl

theorem agree_write_slots_iff (lossy : Bytes → String) (h : s.tables.Agree)
    (value : Option String) (args : List Bytes) :
    (write_slots lossy value args s).2.tables.Agree ↔
      (s.poisoned .slots = false → ∀ slot ∈ named_slots lossy args, slot.toNat < NUM_SLOTS →
        s.tables.known (s.owner slot) = s.tables.known value) := by
  cases hlock : s.poisoned .slots with
  | true =>
    rw [write_slots_poisoned value args hlock]
    exact iff_of_true h fun hfalse => absurd hfalse (by decide)
  | false =>
    rw [write_slots_tables value args hlock, agree_fill_iff h]
    exact ⟨fun hall _ => hall, fun hall => hall rfl⟩

/-! ## SETSLOT -/

theorem settled_tables : Settled FullState.tables :=
  ⟨fun _ _ => rfl, fun _ _ => rfl, fun _ _ => rfl, fun _ _ => rfl⟩

/-- Only NODE touches the tables. -/
theorem setslot_tables (s : FullState) (r : SetSlot) :
    (r.run s).2.tables = match r with
      | .node slot id =>
        if s.poisoned .slots then s.tables
        else { s.tables with slots := fill [slot] (some id) s.slots }
      | _ => s.tables := by
  cases r with
  | refused reply => rfl
  | importing slot id => exact importing_leaves settled_tables slot id s
  | migrating slot id => exact migrating_leaves settled_tables slot id s
  | stable slot => exact settle_leaves settled_tables slot [] s
  | node slot id =>
    simp only [SetSlot.run, setslot_node, locked]
    split
    · rfl
    · rw [settle_leaves settled_tables, fill_cons]
      rfl

/-! ## Events -/

def met (lossy : Bytes → String) (seed : ℕ) (ip port : Bytes) : NodeInfo :=
  { NodeInfo.new (generate_node_id seed) (lossy ip ++ ":" ++ lossy port) .Master with
    flags := { handshake := true } }

/-- What an event writes into one table the other has already. -/
def ClusterEvent.Consistent (lossy : Bytes → String) (s : FullState) : ClusterEvent → Prop
  -- a record without slots is no known owner's
  | .MEET seed (ip :: port :: _) => (∀ i, s.slots i ≠ some (generate_node_id seed)) ∧
      (generate_node_id seed = s.myself.id → met lossy seed ip port = s.myself)
  | .RESET seed args => is_hard lossy args = true → ∀ i, s.slots i ≠ some (generate_node_id seed)
  | .gossip msg => ∀ info ∈ msg.records s.myself.id,
      (∀ old : NodeInfo, s.nodes[info.id]? = some old → old.epoch ≤ info.epoch) →
        ∀ i, s.slots i ≠ some info.id
  -- a vector that is written has the known owners it had
  | .ADDSLOTS args => s.poisoned .slots = false →
      ∀ slot ∈ named_slots lossy args, slot.toNat < NUM_SLOTS → s.owner slot = some s.myself.id
  | .DELSLOTS args => s.poisoned .slots = false →
      ∀ slot ∈ named_slots lossy args, slot.toNat < NUM_SLOTS →
        s.tables.known (s.owner slot) = none
  | .SETSLOT args =>
    match setslot_request lossy args with
    | .node slot id => s.poisoned .slots = false → slot.toNat < NUM_SLOTS →
        s.tables.known (s.owner slot) = s.tables.known (some id)
    | _ => True
  -- both are written, the node gives up no slot and takes none from a known node
  | .assign_slots n ranges => s.poisoned .slots = false →
      (∀ i, ranges.any (·.contains i.val) = true →
        s.slots i = some n ∨ s.tables.known (s.slots i) = none) ∧
      (s.tables.known (some n) = some n → ∀ i, s.slots i = some n →
        ranges.any (·.contains i.val) = true) ∧
      (n = s.myself.id → ranges = s.myself.slots)
  | _ => True

theorem not_has {info : NodeInfo} (hbare : info.slots = []) (i : Fin NUM_SLOTS) : ¬ info.Has i := by
  unfold NodeInfo.Has
  rw [hbare]
  exact Bool.false_ne_true

theorem agree_insert_bare {t : Tables} (h : t.Agree) (id : String) {info : NodeInfo}
    (hbare : info.slots = []) :
    { t with nodes := t.nodes.insert id info }.Agree ↔
      (∀ i, t.slots i ≠ some id) ∧ (id = t.myself.id → info = t.myself) := by
  rw [Tables.agree_insert_iff h]
  simp only [not_has hbare, iff_false, ne_eq]

theorem agree_alone_iff {s : FullState} {myself : NodeInfo} (h : s.toClusterState = .new myself)
    (hbare : myself.slots = []) : s.tables.Agree ↔ ∀ i, s.slots i ≠ some myself.id := by
  have hget : ∀ n : String, s.nodes[n]? = if n = myself.id then some myself else none := by
    rw [h]
    exact new_nodes myself
  have hme : s.tables.myself = myself := congrArg ClusterState.myself h
  rw [Tables.agree_iff, hme]
  constructor
  · rintro ⟨howner, -⟩ i
    exact fun hi => not_has hbare i ((howner i _ _ ((hget _).trans (if_pos rfl))).mp hi)
  · intro hfree
    refine ⟨fun i n info hn => ?_, (hget _).trans (if_pos rfl)⟩
    have hn' := (hget n).symm.trans hn
    by_cases hid : n = myself.id
    · rw [if_pos hid] at hn'
      rw [← some.inj hn', hid]
      exact iff_of_false (hfree i) (not_has hbare i)
    · rw [if_neg hid] at hn'
      cases hn'

theorem agree_reset_hard_iff (s : FullState) (id : String) :
    (reset_hard s id).tables.Agree ↔ ∀ i, s.slots i ≠ some id :=
  @agree_alone_iff (reset_hard s id) (reset_record s.myself id) rfl rfl


theorem records_bare {msg : GossipMessage} {me : String} :
    ∀ info ∈ msg.records me, info.slots = [] := by
  intro info hinfo
  rcases List.mem_append.mp hinfo with hentry | hsender
  · obtain ⟨entry, -, rfl⟩ := List.mem_map.mp hentry
    rfl
  · split at hsender
    · rw [List.mem_singleton.mp hsender]
      rfl
    · cases hsender

theorem agree_gossip_iff (h : s.tables.Agree) (msg : GossipMessage) :
    (s.handle_gossip msg).tables.Agree ↔ ∀ info ∈ msg.records s.myself.id,
      (∀ old : NodeInfo, s.nodes[info.id]? = some old → old.epoch ≤ info.epoch) →
        ∀ i, s.slots i ≠ some info.id := by
  have hnodes : (s.handle_gossip msg).nodes =
      put_all NodeInfo.rank NodeInfo.id s.nodes (msg.records s.myself.id) :=
    congrArg ClusterState.nodes (handle_gossip_eq s.toClusterState msg)
  have hmyself := handle_gossip_myself s.toClusterState msg
  constructor
  · intro h' info hinfo htakes i hi
    rcases put_all_cases NodeInfo.rank NodeInfo.id s.nodes (msg.records s.myself.id) info.id with
      ⟨-, hold⟩ | ⟨new, hnew, hid, hget, -⟩
    · obtain ⟨old, hget, hlt⟩ := hold info hinfo rfl
      exact absurd (UInt64.le_iff_toNat_le.mp (htakes old hget)) (not_le.mpr hlt)
    · rw [← hnodes] at hget
      exact not_has (records_bare new hnew) i ((h'.owner i info.id new hget).mp hi)
  · intro hfree
    refine Tables.agree_iff.mpr ⟨fun i n info hn => ?_, ?_⟩
    · have hn' : (put_all NodeInfo.rank NodeInfo.id s.nodes (msg.records s.myself.id))[n]? =
          some info := hnodes ▸ hn
      rcases put_all_cases NodeInfo.rank NodeInfo.id s.nodes (msg.records s.myself.id) n with
        ⟨hold, -⟩ | ⟨new, hnew, hid, hget, hle⟩
      · exact h.owner i n info (hold.symm.trans hn')
      · obtain rfl : new = info := some.inj (hget.symm.trans hn')
        subst hid
        refine iff_of_false (hfree new hnew (fun old hold => ?_) i) (not_has (records_bare new hnew) i)
        exact UInt64.le_iff_toNat_le.mpr (hle old hold)
    · show (s.handle_gossip msg).nodes[(s.handle_gossip msg).myself.id]? =
        some (s.handle_gossip msg).myself
      have hme : (s.handle_gossip msg).myself = s.myself := hmyself.1
      rw [hme]
      exact hmyself.2.trans h.own

/-- `assign_slots` on a node that is not known writes the vector only. -/
theorem assign_unknown {n : String} (hn : s.nodes[n]? = none)
    (ranges : List SlotRange) :
    s.nodes.modify n ({ · with slots := ranges }) = s.nodes := by
  refine Std.ExtTreeMap.ext_getElem? fun k => ?_
  rw [Std.ExtTreeMap.getElem?_modify]
  split
  · rename_i hk
    rw [← Std.LawfulEqCmp.eq_of_compare hk, hn]
    rfl
  · rfl

theorem assign_known {n : String} {info : NodeInfo} (hn : s.nodes[n]? = some info)
    (ranges : List SlotRange) :
    s.nodes.modify n ({ · with slots := ranges }) =
      s.nodes.insert n { info with slots := ranges } := by
  refine Std.ExtTreeMap.ext_getElem? fun k => ?_
  rw [Std.ExtTreeMap.getElem?_modify, Std.ExtTreeMap.getElem?_insert]
  split
  · rw [hn]
    rfl
  · rfl

theorem agree_assign_iff (h : s.tables.Agree) (n : String) (ranges : List SlotRange) :
    Tables.Agree ⟨s.myself, s.nodes.modify n ({ · with slots := ranges }), s.assign_ranges n ranges⟩ ↔
      (∀ i, ranges.any (·.contains i.val) = true →
        s.slots i = some n ∨ s.tables.known (s.slots i) = none) ∧
      (s.tables.known (some n) = some n → ∀ i, s.slots i = some n →
        ranges.any (·.contains i.val) = true) ∧
      (n = s.myself.id → ranges = s.myself.slots) := by
  cases hn : s.nodes[n]? with
  | none =>
    have hunknown : s.tables.known (some n) = none := by
      refine eq_none_iff_forall_ne_some.mpr fun m hm => ?_
      obtain ⟨heq, info, hinfo⟩ := Tables.known_eq_some_iff.mp hm
      rw [← some.inj heq] at hinfo
      rw [show s.tables.nodes[n]? = none from hn] at hinfo
      cases hinfo
    rw [assign_unknown hn]
    refine (Tables.agree_slots_iff h (s.assign_ranges n ranges)).trans ?_
    constructor
    · intro hall
      refine ⟨fun i hi => .inr ?_, fun hknown => ?_, fun hme => ?_⟩
      · have := hall i
        rw [FullState.assign_ranges, if_pos hi, hunknown] at this
        exact this.symm
      · rw [hunknown] at hknown
        cases hknown
      · have hown : s.nodes[s.myself.id]? = some s.myself := h.own
        rw [← hme, hn] at hown
        cases hown
    · rintro ⟨htake, -, -⟩ i
      unfold FullState.assign_ranges
      by_cases hi : ranges.any (·.contains i.val) = true
      · rw [if_pos hi, hunknown]
        rcases htake i hi with heq | hnone
        · rw [show s.tables.slots i = some n from heq, hunknown]
        · exact hnone.symm
      · rw [if_neg hi]
        rfl
  | some info =>
    have hknown : ∀ {m : String} {info' : NodeInfo} {i : Fin NUM_SLOTS}, s.nodes[m]? = some info' →
        s.slots i = some m → s.tables.known (s.slots i) ≠ none := by
      intro m info' i hm hi hnone
      rw [Tables.known_eq_some_iff.mpr ⟨hi, info', hm⟩] at hnone
      cases hnone
    rw [assign_known hn, Tables.agree_iff]
    simp only [insert_at]
    constructor
    · rintro ⟨howner, hown⟩
      refine ⟨fun i hi => ?_, fun _ i hi => ?_, fun hme => ?_⟩
      · by_contra hno
        obtain ⟨hne, hsome⟩ := not_or.mp hno
        obtain ⟨m, hm⟩ := ne_none_iff_exists'.mp hsome
        obtain ⟨hslot, info', hm'⟩ := Tables.known_eq_some_iff.mp hm
        have hmn : m ≠ n := fun heq => hne (heq ▸ hslot)
        -- the slot stays in the ranges of `m`, but not with `m` in the vector
        have hlost := howner i m info' ((if_neg hmn).trans hm')
        rw [FullState.assign_ranges, if_pos hi] at hlost
        exact hmn (some.inj (hlost.mpr ((h.owner i m info' hm').mp hslot))).symm
      · by_contra hno
        have hkept := howner i n _ (if_pos rfl)
        rw [FullState.assign_ranges, if_neg hno] at hkept
        exact hno (hkept.mp hi)
      · rw [if_pos hme.symm] at hown
        exact congrArg NodeInfo.slots (some.inj hown)
    · rintro ⟨htake, hkeep, hme⟩
      refine ⟨fun i m info' hm => ?_, ?_⟩
      · unfold FullState.assign_ranges
        by_cases hmn : m = n
        · rw [if_pos hmn] at hm
          rw [hmn, ← some.inj hm]
          by_cases hi : ranges.any (·.contains i.val) = true
          · rw [if_pos hi]
            exact iff_of_true rfl hi
          · rw [if_neg hi]
            exact iff_of_false
              (fun hs => hi (hkeep (Tables.known_eq_some_iff.mpr ⟨rfl, info, hn⟩) i hs)) hi
        · rw [if_neg hmn] at hm
          by_cases hi : ranges.any (·.contains i.val) = true
          · rw [if_pos hi]
            refine iff_of_false (fun heq => hmn (some.inj heq).symm) fun hhas => ?_
            have hslot := (h.owner i m info' hm).mpr hhas
            rcases htake i hi with heq | hnone
            · exact hmn (some.inj (hslot.symm.trans heq))
            · exact hknown hm hslot hnone
          · rw [if_neg hi]
            exact h.owner i m info' hm
      · by_cases hid : s.myself.id = n
        · have hmine : info = s.myself := by
            have hown : s.nodes[s.myself.id]? = some s.myself := h.own
            rw [hid, hn] at hown
            exact some.inj hown
          rw [if_pos hid, hme hid.symm, hmine]
        · rw [if_neg hid]
          exact h.own

/-- **One event.** Tables that agree still do behind an event exactly if the event is consistent with
them. -/
theorem agree_step_iff (h : s.tables.Agree)
    (e : ClusterEvent) : (e.step lossy s).tables.Agree ↔ e.Consistent lossy s := by
  have hme : s.tables.known (some s.myself.id) = some s.myself.id :=
    Tables.known_eq_some_iff.mpr ⟨rfl, s.myself, h.own⟩
  have hmine : ∀ owner, s.tables.known owner = some s.myself.id ↔ owner = some s.myself.id :=
    fun owner => Tables.known_eq_some_iff.trans ⟨fun hk => hk.1, fun ho => ⟨ho, s.myself, h.own⟩⟩
  cases e with
  | MEET seed args =>
    rcases args with _ | ⟨ip, _ | ⟨port, rest⟩⟩
    · exact iff_of_true h trivial
    · exact iff_of_true h trivial
    · exact agree_insert_bare h (generate_node_id seed) rfl
  | REPLICATE args =>
    refine iff_of_true ?_ trivial
    unfold ClusterEvent.step ClusterEvent.outcome cluster_replicate
    dsimp only
    split
    · exact h
    · split
      · exact Tables.agree_set_myself h rfl rfl
      · exact h
  | FAILOVER args =>
    refine iff_of_true ?_ trivial
    unfold ClusterEvent.step ClusterEvent.outcome cluster_failover
    dsimp only
    split
    · exact h
    · have hepoch : (s.set_self_epoch (s.myself.epoch + 1)).tables.Agree :=
        Tables.agree_set_myself h rfl rfl
      exact Tables.agree_set_myself hepoch rfl rfl
  | RESET seed args =>
    unfold ClusterEvent.step ClusterEvent.outcome ClusterEvent.Consistent cluster_reset
    dsimp only
    by_cases hhard : is_hard lossy args = true
    · rw [if_pos hhard, agree_reset_hard_iff]
      exact ⟨fun hfree _ => hfree, fun hfree => hfree hhard⟩
    · rw [if_neg hhard]
      exact iff_of_true (Tables.agree_set_myself h rfl rfl) fun hh => absurd hh hhard
  | ADDSLOTS args =>
    have hiff := agree_write_slots_iff lossy h (some s.myself.id) args
    simp only [hme, hmine] at hiff
    cases args with
    | nil => exact iff_of_true h fun _ slot hslot => by cases hslot
    | cons arg rest => exact hiff
  | DELSLOTS args =>
    have hiff := agree_write_slots_iff lossy h none args
    cases args with
    | nil => exact iff_of_true h fun _ slot hslot => by cases hslot
    | cons arg rest => exact hiff
  | SETSLOT args =>
    have htables := setslot_tables s (setslot_request lossy args)
    rw [← cluster_setslot_eq] at htables
    unfold ClusterEvent.step ClusterEvent.outcome ClusterEvent.Consistent
    dsimp only
    rw [htables]
    cases setslot_request lossy args with
    | refused | importing | migrating | stable => exact iff_of_true h trivial
    | node slot id =>
      cases s.poisoned .slots with
      | true => exact iff_of_true h fun hfalse => absurd hfalse (by decide)
      | false =>
        refine (agree_fill_iff h [slot] (some id)).trans ?_
        simp only [List.mem_singleton, forall_eq, true_imp_iff]
  | BUMPEPOCH => exact iff_of_true (Tables.agree_set_myself h rfl rfl) trivial
  | assign_slots n ranges =>
    unfold ClusterEvent.step ClusterEvent.outcome ClusterEvent.Consistent FullState.assign_slots
    cases s.poisoned .slots with
    | true => exact iff_of_true h fun hfalse => absurd hfalse (by decide)
    | false => exact (agree_assign_iff h n ranges).trans ⟨fun hc _ => hc, fun hc => hc rfl⟩
  | gossip msg => exact agree_gossip_iff h msg

theorem agree_new (myself : NodeInfo) (hslots : myself.slots = []) :
    (FullState.new myself).tables.Agree :=
  (agree_alone_iff rfl hslots).mpr fun _ => nofun

/-- **The slot tables.** From a node that has just started, without slots, the slot vector, the
ranges in the node table and the node's own record agree in every state of a run if and only if every
event of the run is consistent with the tables it finds. -/
theorem slot_tables_agree_iff (lossy : Bytes → String) (myself : NodeInfo)
    (hslots : myself.slots = []) (es : List ClusterEvent) :
    Along (fun s e => e.step lossy s) (fun s e => (e.step lossy s).tables.Agree) (.new myself) es ↔
      Along (fun s e => e.step lossy s) (fun s e => e.Consistent lossy s) (.new myself) es :=
  along_always_iff (I := fun s : FullState => s.tables.Agree) (fun _ e h => agree_step_iff h e)
    (agree_new myself hslots)

/-- A node is heard of and is given slots. -/
theorem slot_tables_agree_heard :
    Along (fun s e => ClusterEvent.step lossy_text s e)
      (fun s e => (e.step lossy_text s).tables.Agree)
      (.new (NodeInfo.new "a" "127.0.0.1:6379" .Master))
      [.gossip ⟨"b", "127.0.0.1:6380", [], 1⟩, .assign_slots "b" [⟨0, 99⟩], .BUMPEPOCH] := by
  refine (slot_tables_agree_iff lossy_text _ rfl _).mpr ⟨?_, ?_, trivial, trivial⟩
  · intro info _ _ i hi
    cases hi
  · intro _
    refine ⟨fun i _ => .inr rfl, fun _ i hi => (by cases hi), fun hme => ?_⟩
    exact absurd hme (by decide)

/-- ADDSLOTS 0 on a node that has just started: the vector has the node for the slot, and the node's
record has no slots. -/
theorem addslots_not_in_record :
    let s := ClusterEvent.step lossy_text (.new (NodeInfo.new "a" "127.0.0.1:6379" .Master))
      (.ADDSLOTS [as_bytes "0"])
    s.slots ⟨0, by decide⟩ = some "a" ∧ s.myself.slots = [] ∧
      (s.nodes["a"]?).map NodeInfo.slots = some [] ∧ ¬ s.tables.Agree := by
  intro s
  have howner : s.slots ⟨0, by decide⟩ = some "a" := by decide +kernel
  have hmyself : s.myself = NodeInfo.new "a" "127.0.0.1:6379" .Master := by decide +kernel
  refine ⟨howner, congrArg NodeInfo.slots hmyself, by decide +kernel, fun h => ?_⟩
  have hown : s.tables.myself = NodeInfo.new "a" "127.0.0.1:6379" .Master := hmyself
  have hhas := (h.owner ⟨0, by decide⟩ s.tables.myself.id s.tables.myself h.own).mp
    (by rw [hown]; exact howner)
  rw [hown] at hhas
  cases hhas

end ValkeyRs.Cluster
