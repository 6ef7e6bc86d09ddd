/-
Where a command is sent.

The router looks at the slot of the key. A slot that is being imported goes to its source, and a
slot of another node to that node, if the node table knows the source or the owner. For an owner
that the table does not know it answers `Local`, as it does for slots that have no owner: SETSLOT
NODE takes any name, and RESET forgets the nodes but not the slots.

The ASKING flag is good for one command.
-/
import ValkeyRs.ClusterCommands

set_option autoImplicit false

open ValkeyRs Text Runs List

namespace ValkeyRs.Cluster

/-! ## Runs of the router -/

inductive RouterEvent where
  | cluster (e : ClusterEvent)
  | set_asking (val : Bool)
  | route (key : Bytes)

def ClusterRouter.step (lossy : Bytes → String) (r : ClusterRouter) : RouterEvent → ClusterRouter
  | .cluster e => { r with state := e.step lossy r.state }
  | .set_asking val => r.set_asking val
  | .route key => (r.route key).2

/-- `ClusterRouter::new` on a node that has just started. -/
def ClusterRouter.new (myself : NodeInfo) : ClusterRouter := ⟨.new myself, false⟩

def ClusterRouter.after (lossy : Bytes → String) (myself : NodeInfo) (es : List RouterEvent) :
    ClusterRouter := run (ClusterRouter.step lossy) (.new myself) es

/-- The next call of `route` is the first since a `set_asking(true)` that was not taken back. -/
def FirstSinceAsking (es : List RouterEvent) : Prop :=
  ∃ before since, es = before ++ .set_asking true :: since ∧ ∀ e ∈ since, ∃ c, e = .cluster c

theorem first_since_asking_concat (es : List RouterEvent) (e : RouterEvent) :
    FirstSinceAsking (es ++ [e]) ↔
      e = .set_asking true ∨ (FirstSinceAsking es ∧ ∃ c, e = .cluster c) := by
  constructor
  · rintro ⟨before, since, heq, hall⟩
    -- the last call is the `set_asking` itself, or the last one since
    rcases eq_nil_or_concat since with rfl | ⟨since', e', rfl⟩
    · have hlast := (append_inj' heq rfl).2
      exact .inl (List.cons.inj hlast).1
    · rw [concat_eq_append] at heq hall
      rw [← cons_append, ← append_assoc] at heq
      obtain ⟨hinit, hlast⟩ := append_inj' heq rfl
      obtain rfl : e = e' := (List.cons.inj hlast).1
      refine .inr ⟨⟨before, since', hinit, fun e he => hall e (mem_append_left _ he)⟩, ?_⟩
      exact hall e (mem_append_right _ (mem_singleton_self e))
  · rintro (rfl | ⟨⟨before, since, rfl, hall⟩, hlast⟩)
    · exact ⟨es, [], rfl, by simp⟩
    · refine ⟨before, since ++ [e], by simp, fun e' he' => ?_⟩
      rcases mem_append.mp he' with hin | hend
      · exact hall e' hin
      · exact mem_singleton.mp hend ▸ hlast

/-- The flag is set exactly if the last call of `set_asking` or `route` was a `set_asking(true)`. -/
theorem asking_iff (lossy : Bytes → String) (myself : NodeInfo) (es : List RouterEvent) :
    (ClusterRouter.after lossy myself es).asking = true ↔ FirstSinceAsking es := by
  induction es using List.reverseRecOn with
  | nil =>
    refine iff_of_false Bool.false_ne_true ?_
    rintro ⟨before, since, heq, -⟩
    cases before <;> cases heq
  | append_singleton es e ih =>
    have hstep : ClusterRouter.after lossy myself (es ++ [e]) =
        (ClusterRouter.after lossy myself es).step lossy e := run_append _ _ _
    rw [first_since_asking_concat, ← ih, hstep]
    cases e with
    | cluster c => simp [ClusterRouter.step]
    | set_asking val => simp [ClusterRouter.step, ClusterRouter.set_asking]
    | route key =>
      have hcleared : ((ClusterRouter.after lossy myself es).route key).2.asking = false := by
        unfold ClusterRouter.route
        by_cases hasking : (ClusterRouter.after lossy myself es).asking = true
        · rw [if_pos hasking]
        · rw [if_neg hasking]
          exact Bool.eq_false_iff.mpr hasking
      simp [ClusterRouter.step, hcleared]

/-! ## Answers -/

/-- The address of a known node that is not this one. -/
def FullState.Elsewhere (s : FullState) (addr : String) : Prop :=
  addr ≠ s.myself.addr ∧ ∃ (id : String) (info : NodeInfo),
    s.nodes[id]? = some info ∧ id ≠ s.myself.id ∧ info.addr = addr

/-- A redirection to a node other than this one. -/
def FullState.Redirects (s : FullState) (slot : UInt16) (answer : Option RouteAction) : Prop :=
  ∃ addr, (answer = some (.Moved slot addr) ∨ answer = some (.Asking slot addr)) ∧ s.Elsewhere addr

/-- What is asked of an answer to the call of `route` that follows the given calls. -/
structure RespectsOwnership (lossy : Bytes → String) (myself : NodeInfo) (es : List RouterEvent)
    (key : Bytes) : Prop where
  /-- `Local` is said of a slot that has no owner or is this node's, or to the first call since
  ASKING. -/
  locally : ((ClusterRouter.after lossy myself es).route key).1 = some .Local →
    (ClusterRouter.after lossy myself es).state.owner (slot_of key) = none ∨
    (ClusterRouter.after lossy myself es).state.owner (slot_of key) =
      some (ClusterRouter.after lossy myself es).state.myself.id ∨
    FirstSinceAsking es
  /-- The slot of another node is that of a redirection. -/
  elsewhere : ∀ n, (ClusterRouter.after lossy myself es).state.owner (slot_of key) = some n →
    n ≠ (ClusterRouter.after lossy myself es).state.myself.id → ¬ FirstSinceAsking es →
      (ClusterRouter.after lossy myself es).state.Redirects (slot_of key)
        ((ClusterRouter.after lossy myself es).route key).1

/-- When the slot of the key is another node's, no lock on the way is poisoned, and the node that is
asked for is known, by another name and address than this one: the source, if the slot is being
imported from a known node, and otherwise the owner. -/
def FullState.Routable (s : FullState) (key : Bytes) : Prop :=
  ∀ n, s.owner (slot_of key) = some n → n ≠ s.myself.id → s.poisoned .importing = false ∧
    match (s.importing[slot_of key]?).bind fun source => s.nodes[source]? with
    | some source => s.Elsewhere source.addr
    | none => s.poisoned .slots = false ∧
        ∃ owner : NodeInfo, s.nodes[n]? = some owner ∧ owner.addr ≠ s.myself.addr

theorem route_redirects_iff {s : FullState} {key : Bytes} {n : String}
    (hn : s.owner (slot_of key) = some n) (hother : n ≠ s.myself.id) :
    s.Redirects (slot_of key) (s.route key) ↔ s.poisoned .importing = false ∧
      match (s.importing[slot_of key]?).bind fun source => s.nodes[source]? with
      | some source => s.Elsewhere source.addr
      | none => s.poisoned .slots = false ∧
          ∃ owner : NodeInfo, s.nodes[n]? = some owner ∧ owner.addr ≠ s.myself.addr := by
  have hstopped : ¬ s.Redirects (slot_of key) none := by
    rintro ⟨addr, h | h, -⟩ <;> cases h
  have hlocal : ¬ s.Redirects (slot_of key) (some .Local) := by
    rintro ⟨addr, h | h, -⟩ <;> cases h
  unfold FullState.route
  cases s.poisoned .importing with
  | true => exact iff_of_false hstopped fun h => absurd h.1 (by decide)
  | false =>
    simp only [Bool.false_eq_true, if_false, true_and]
    cases (s.importing[slot_of key]?).bind fun source => s.nodes[source]? with
    | some source =>
      constructor
      · rintro ⟨addr, h | h, haway⟩
        · cases h
        · cases h
          exact haway
      · exact fun haway => ⟨source.addr, .inr rfl, haway⟩
    | none =>
      cases s.poisoned .slots with
      | true => exact iff_of_false hstopped fun h => absurd h.1 (by decide)
      | false =>
        simp only [Bool.false_eq_true, if_false, true_and, hn, if_neg hother]
        cases hnode : s.nodes[n]? with
        | none =>
          refine iff_of_false hlocal ?_
          rintro ⟨owner, h, -⟩
          cases h
        | some node =>
          constructor
          · rintro ⟨addr, h | h, haway⟩
            · cases h
              exact ⟨node, rfl, haway.1⟩
            · cases h
          · rintro ⟨owner, h, haddr⟩
            cases h
            exact ⟨node.addr, .inl rfl, haddr, n, node, hnode, hother, rfl⟩

/-- **Routing.** On whatever calls `route` follows, its answer respects the ownership of the key's
slot if and only if the call is the first since ASKING, or the slot can be routed. -/
theorem route_respects_ownership_iff (lossy : Bytes → String) (myself : NodeInfo)
    (es : List RouterEvent) (key : Bytes) :
    RespectsOwnership lossy myself es key ↔
      (FirstSinceAsking es ∨ (ClusterRouter.after lossy myself es).state.Routable key) := by
  have hasking := asking_iff lossy myself es
  by_cases hfirst : FirstSinceAsking es
  · refine iff_of_true ⟨fun _ => .inr (.inr hfirst), fun n _ _ hno => absurd hfirst hno⟩ (.inl hfirst)
  · have hroute : ((ClusterRouter.after lossy myself es).route key).1 =
        (ClusterRouter.after lossy myself es).state.route key := by
      unfold ClusterRouter.route
      rw [if_neg (mt hasking.mp hfirst)]
    constructor
    · intro h
      refine .inr fun n hn hother => ?_
      exact (route_redirects_iff hn hother).mp (hroute ▸ h.elsewhere n hn hother hfirst)
    · rintro (hyes | hroutable)
      · exact absurd hyes hfirst
      have helsewhere : ∀ n, (ClusterRouter.after lossy myself es).state.owner (slot_of key) = some n →
          n ≠ (ClusterRouter.after lossy myself es).state.myself.id →
          (ClusterRouter.after lossy myself es).state.Redirects (slot_of key)
            ((ClusterRouter.after lossy myself es).route key).1 := by
        intro n hn hother
        rw [hroute]
        exact (route_redirects_iff hn hother).mpr (hroutable n hn hother)
      refine ⟨fun hlocal => ?_, fun n hn hother _ => helsewhere n hn hother⟩
      cases hn : (ClusterRouter.after lossy myself es).state.owner (slot_of key) with
      | none => exact .inl rfl
      | some n =>
        refine .inr (.inl ?_)
        by_contra hother
        -- another owner has led to a redirection
        obtain ⟨addr, hmoved | hask, -⟩ := helsewhere n hn fun heq => hother (congrArg some heq)
        · cases hlocal.symm.trans hmoved
        · cases hlocal.symm.trans hask

/-- The slot of "a" is given to a node that is not known: the node answers for it itself. -/
theorem route_unknown_owner_local :
    let r := ClusterRouter.after lossy_text (NodeInfo.new "a" "127.0.0.1:6379" .Master)
      [.cluster (.SETSLOT (["15495", "NODE", "b"].map as_bytes))]
    slot_of (as_bytes "a") = 15495 ∧ r.state.owner 15495 = some "b" ∧ r.state.myself.id = "a" ∧
      (r.route (as_bytes "a")).1 = some .Local := by
  refine ⟨?_, ?_, ?_, ?_⟩
  · decide +kernel
  · decide +kernel
  · decide +kernel
  · decide +kernel

end ValkeyRs.Cluster
