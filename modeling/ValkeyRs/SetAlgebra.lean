/-
Unions, intersections and differences.

The six commands read the sets under their keys one after the other and combine them. They differ
in what a key without a set does: for a union it is an empty set, an intersection ends there, and a
difference ends if it is the first one. `Computes` is what makes all of this the set that is asked
for. Everything is read before the destination is written, so it may be one of the sources.
-/
import ValkeyRs.Expiry

set_option autoImplicit false

open ValkeyRs Text Storage Zset Strings Maps Expiry List

namespace ValkeyRs.Sets

/-! ## The three operations -/

/-- What the operation comes to is the set of the `x` with `Mem sets x`; where it ends early, there
are none. -/
structure SetOp.Computes (op : SetOp) (Mem : List (HashSet Bytes) → Bytes → Prop) : Prop where
  combine : ∀ s sets x, x ∈ op.combine (s :: sets) ↔ Mem (s :: sets) x
  missing : ∀ sets : List (HashSet Bytes), op.missing sets.length = some ∅ ∨
    op.missing sets.length = none ∧ ∀ later x, ¬ Mem (sets ++ ∅ :: later) x

theorem mem_filter {s : HashSet Bytes} {p : Bytes → Bool} {x : Bytes} :
    x ∈ s.filter p ↔ x ∈ s ∧ p x = true := by
  simp [Std.ExtTreeSet.mem_filter, Std.ExtTreeSet.get_eq]

theorem union_computes : SetOp.union.Computes fun sets x => ∃ s ∈ sets, x ∈ s where
  combine s sets x := by
    have hloop : ∀ (sets : List (HashSet Bytes)) (result : HashSet Bytes),
        x ∈ sets.foldl (fun result s => gather result s.toList) result ↔
          x ∈ result ∨ ∃ s ∈ sets, x ∈ s := by
      intro sets
      induction sets with
      | nil => simp
      | cons s sets ih =>
        intro result
        rw [foldl_cons, ih, mem_gather, Std.ExtTreeSet.mem_toList]
        simp [or_assoc]
    exact (hloop (s :: sets) ∅).trans (by simp)
  missing _ := .inl rfl

theorem smallest_mem (s : HashSet Bytes) (sets : List (HashSet Bytes)) :
    smallest (s :: sets) ∈ s :: sets := by
  show sets.foldl _ s ∈ _
  induction sets generalizing s with
  | nil => simp
  | cons s' sets ih =>
    rw [foldl_cons]
    split
    · exact mem_cons_of_mem _ (ih s')
    · exact mem_cons.mpr ((mem_cons.mp (ih s)).imp_right (mem_cons_of_mem _))

theorem inter_computes : SetOp.inter.Computes fun sets x => ∀ s ∈ sets, x ∈ s where
  combine s sets x := by
    show x ∈ (smallest _).filter _ ↔ _
    rw [mem_filter, all_eq_true]
    exact ⟨fun h => h.2, fun h => ⟨h _ (smallest_mem s sets), h⟩⟩
  missing sets := .inr ⟨rfl, fun later x h => absurd (h ∅ (by simp)) (by simp)⟩

/-- In the first set, and in none of the others. -/
def FirstOnly : List (HashSet Bytes) → Bytes → Prop
  | [], _ => False
  | s :: others, x => x ∈ s ∧ ∀ s' ∈ others, x ∉ s'

theorem diff_computes : SetOp.diff.Computes FirstOnly where
  combine s sets x := by
    show x ∈ sets.foldl _ s ↔ _
    induction sets generalizing s with
    | nil => simp [FirstOnly]
    | cons s' sets ih =>
      rw [foldl_cons, ih, FirstOnly, FirstOnly, mem_filter, forall_mem_cons, and_assoc,
        Bool.not_eq_true', Bool.eq_false_iff]
      exact Iff.rfl
  missing sets := by
    cases sets with
    | nil => exact .inr ⟨rfl, fun later x h => absurd h.1 (by simp)⟩
    | cons s sets => exact .inl rfl

/-! ## The commands -/

section Commands

variable {F : Type} [Score F] {T : Instant} {m : HashMap Bytes (Entry F)}

/-- The key holds a set, or nothing. -/
def SetOrAbsent (T : Instant) (m : HashMap Bytes (Entry F)) (key : Bytes) : Prop :=
  seen T m key = none ∨ (set_at T m key).isSome

/-- The set under a key, with nothing in it if there is none. -/
def set_under (T : Instant) (m : HashMap Bytes (Entry F)) (key : Bytes) : HashSet Bytes :=
  (set_at T m key).getD ∅

variable {op : SetOp} {Mem : List (HashSet Bytes) → Bytes → Prop}

theorem fetch_sets_wp (hop : op.Computes Mem) {keys : List Bytes} {sets : List (HashSet Bytes)}
    (hne : sets ++ keys.map (set_under T m) ≠ []) (hkeys : ∀ k ∈ keys, SetOrAbsent T m k)
    {α : Type} {f : Except (Reply F) (Option (List (HashSet Bytes))) → StoreM F α}
    {Q : Except Halt α → HashMap Bytes (Entry F) → Prop}
    (hf : ∀ r m', (∀ x, x ∈ op.result r ↔ Mem (sets ++ keys.map (set_under T m)) x) →
      (∀ k, seen T m' k = seen T m k) → (f (.ok r)).Wp (may (· = T)) Q m') :
    (fetch_sets op.missing keys sets >>= f).Wp (may (· = T)) Q m := by
  induction keys generalizing sets m with
  | nil =>
    rw [map_nil, append_nil] at hne
    obtain ⟨s, sets, rfl⟩ := exists_cons_of_ne_nil hne
    exact hf _ m (fun x => by simpa [SetOp.result] using hop.combine s sets x) fun _ => rfl
  | cons key keys ih =>
    -- looking at a key shows in nothing
    have hsame : ∀ k, seen T (swept T m key) k = seen T m k := fun k => seen_swept
    have hunder : set_under T (swept T m key) = set_under T m := by
      funext k
      rw [set_under, set_at, hsame, set_under, set_at]
    have hnext : ∀ s, s = set_under T m key →
        (fetch_sets op.missing keys (sets ++ [s]) >>= f).Wp (may (· = T)) Q (swept T m key) := by
      rintro s rfl
      refine ih (by simp) (fun k hk => ?_) fun r m' hr hm' => hf r m' ?_ fun k => ?_
      · rw [SetOrAbsent, set_at, hsame]
        exact hkeys k (mem_cons_of_mem _ hk)
      · simpa [hunder] using hr
      · rw [hm', hsame]
    rw [fetch_sets, Prog.bind_assoc]
    refine wp_get_at ?_
    rcases hkeys key mem_cons_self with hnone | hset
    · rw [hnone]
      have hempty : set_under T m key = ∅ := by rw [set_under, set_at, hnone]; rfl
      rcases hop.missing sets with hsome | ⟨hends, hmem⟩
      · rw [hsome]
        exact hnext ∅ hempty.symm
      · rw [hends]
        refine hf none _ (fun x => ?_) hsame
        rw [map_cons, hempty]
        exact iff_of_false (by simp [SetOp.result]) (hmem _ x)
    · obtain ⟨s, hs⟩ := Option.isSome_iff_exists.mp hset
      obtain ⟨e, he, hdata⟩ := Option.bind_eq_some_iff.mp hs
      rw [he]
      dsimp only
      rw [hdata]
      exact hnext s (by rw [set_under, hs]; rfl)

/-- The command returns the members with the property, each of them once, and changes nothing. -/
def Returns (T : Instant) (m : HashMap Bytes (Entry F)) (Mem : Bytes → Prop)
    (p : StoreM F (Reply F)) : Prop :=
  p.Wp (may (· = T)) (fun r m' => (∃ l : List Bytes, r = .ok (members_reply l) ∧ l.Nodup ∧
    ∀ x, x ∈ l ↔ Mem x) ∧ ∀ k, seen T m' k = seen T m k) m

/-- The command leaves the set of these members under the key and replies how many they are, and
changes no other key. -/
def StoresSet (T : Instant) (m : HashMap Bytes (Entry F)) (dest : Bytes) (Mem : Bytes → Prop)
    (p : StoreM F (Reply F)) : Prop :=
  p.Wp (may (· = T)) (fun r m' => ∃ s : HashSet Bytes, r = .ok (int s.size) ∧ (∀ x, x ∈ s ↔ Mem x) ∧
    set_at T m' dest = some s ∧ ∀ k, k ≠ dest → seen T m' k = seen T m k) m

variable {key : Bytes} {keys : List Bytes} (hkeys : ∀ k ∈ key :: keys, SetOrAbsent T m k)

include hkeys

theorem set_op_returns (hop : op.Computes Mem) (cmd : String) :
    Returns T m (Mem ((key :: keys).map (set_under T m))) (set_op cmd op (key :: keys)) := by
  refine fetch_sets_wp hop (by simp) hkeys fun r m' hr hm' => ⟨⟨_, rfl, ?_, fun x => ?_⟩, hm'⟩
  · refine Std.ExtTreeSet.distinct_toList.imp fun {a b} hne heq => hne ?_
    exact heq ▸ Std.ReflCmp.compare_self
  · rw [Std.ExtTreeSet.mem_toList]
    exact hr x

theorem set_op_store_stores (hop : op.Computes Mem) (cmd : String) (dest : Bytes) :
    StoresSet T m dest (Mem ((key :: keys).map (set_under T m)))
      (set_op_store cmd op (dest :: key :: keys)) := by
  refine fetch_sets_wp hop (by simp) hkeys fun r m' hr hm' => wp_set_none ?_
  rintro now rfl
  refine ⟨op.result r, rfl, hr, ?_, fun k hk => ?_⟩
  · have hseen : seen now (m'.insert dest ⟨.Set (op.result r), none, now, 1, 1⟩) dest = some _ :=
      seen_of_some Std.ExtTreeMap.getElem?_insert_self rfl
    rw [set_at, hseen]
    rfl
  · exact (seen_congr (insert_of_ne hk)).trans (hm' k)

/-- **Set algebra.** On keys that hold sets or nothing, the six commands return and store the union,
the intersection and the difference of the sets that were there before. -/
theorem set_algebra (dest : Bytes) :
    let sets := (key :: keys).map (set_under T m)
    Returns T m (fun x => ∃ s ∈ sets, x ∈ s) (sunion (key :: keys)) ∧
    Returns T m (fun x => ∀ s ∈ sets, x ∈ s) (sinter (key :: keys)) ∧
    Returns T m (FirstOnly sets) (sdiff (key :: keys)) ∧
    StoresSet T m dest (fun x => ∃ s ∈ sets, x ∈ s) (sunionstore (dest :: key :: keys)) ∧
    StoresSet T m dest (fun x => ∀ s ∈ sets, x ∈ s) (sinterstore (dest :: key :: keys)) ∧
    StoresSet T m dest (FirstOnly sets) (sdiffstore (dest :: key :: keys)) :=
  ⟨set_op_returns hkeys union_computes _, set_op_returns hkeys inter_computes _,
    set_op_returns hkeys diff_computes _, set_op_store_stores hkeys union_computes _ dest,
    set_op_store_stores hkeys inter_computes _ dest, set_op_store_stores hkeys diff_computes _ dest⟩

end Commands

/-- The destination is the only source that is there. -/
theorem set_algebra_aliased :
    let m : HashMap Bytes (Entry Resp.Infinity) :=
      (∅ : HashMap Bytes _).insert (as_bytes "k") ⟨.Set (gather ∅ [as_bytes "a"]), none, 0, 1, 1⟩
    StoresSet 0 m (as_bytes "k") (fun x => ∀ s ∈ [as_bytes "k", as_bytes "j"].map (set_under 0 m), x ∈ s)
      (sinterstore [as_bytes "k", as_bytes "k", as_bytes "j"]) := by
  intro m
  have hkeys : ∀ k ∈ [as_bytes "k", as_bytes "j"], SetOrAbsent 0 m k := by
    rintro k (_ | ⟨_, _ | ⟨_, h⟩⟩)
    · exact .inr rfl
    · exact .inl rfl
    · cases h
  exact (set_algebra hkeys (as_bytes "k")).2.2.2.2.1

end ValkeyRs.Sets
