/-
The two indexes of a sorted set.

A sorted set is kept twice, by member and by score, and three pieces of code keep the two in step in
three different ways: `ZSetData::add` moves one member between buckets, `rebuild_scores` throws the
buckets away and makes new ones, and the storing commands start from nothing. `Consistent` is the
relation they all maintain.

The result about the commands is an invariant of the store. The three of them are what the commands
make sorted sets with, so every command meets the contract `entries Indexed` and every sorted set in
the store stays consistent through every run.
-/
import ValkeyRs.ZsetRules

set_option autoImplicit false

open ValkeyRs Text Storage Std.ExtTreeMap

namespace ValkeyRs.Zset

section Index

variable {F : Type} [LinearOrder F]

/-! ## Buckets -/

/-- Member `m` is in bucket `s`. -/
def InBucket (scores : BTreeMap F (BTreeSet Bytes)) (s : F) (m : Bytes) : Prop :=
  ∃ b, scores[s]? = some b ∧ m ∈ b

def NoEmptyBucket (scores : BTreeMap F (BTreeSet Bytes)) : Prop :=
  ∀ (s : F) (b : BTreeSet Bytes), scores[s]? = some b → b ≠ ∅

theorem inBucket_link (scores : BTreeMap F (BTreeSet Bytes)) (m m' : Bytes) (s s' : F) :
    InBucket (ZSetData.link scores m s) s' m' ↔ (s' = s ∧ m' = m) ∨ InBucket scores s' m' := by
  unfold InBucket ZSetData.link
  simp only [getElem?_alter, compare_eq_iff_eq]
  by_cases hs : s = s'
  · subst hs
    simp only [if_true, Option.some.injEq, exists_eq_left', Std.ExtTreeSet.mem_insert,
      Std.LawfulEqCmp.compare_eq_iff_eq, true_and]
    cases hb : scores[s]? with
    | none => simp [eq_comm]
    | some b => simp [eq_comm]
  · simp [hs, Ne.symm hs]

variable {scores : BTreeMap F (BTreeSet Bytes)} {z : ZSetData F}

theorem noEmptyBucket_link (h : NoEmptyBucket scores)
    (m : Bytes) (s : F) : NoEmptyBucket (ZSetData.link scores m s) := by
  intro s' b hb
  simp only [ZSetData.link, getElem?_alter] at hb
  split at hb
  · cases hb
    intro hempty
    have hm := Std.ExtTreeSet.eq_empty_iff_forall_not_mem.mp hempty m
    exact hm Std.ExtTreeSet.mem_insert_self
  · exact h s' b hb

theorem inBucket_remove_from (scores : BTreeMap F (BTreeSet Bytes)) (m m' : Bytes) (s s' : F) :
    InBucket (ZSetData.remove_from scores m s) s' m' ↔ InBucket scores s' m' ∧ ¬ (s' = s ∧ m' = m) := by
  unfold ZSetData.remove_from
  cases hb : scores[s]? with
  | none =>
    refine ⟨fun h => ⟨h, ?_⟩, fun h => h.1⟩
    rintro ⟨rfl, -⟩
    obtain ⟨b, hb', -⟩ := h
    rw [hb] at hb'
    cases hb'
  | some b =>
    simp only
    by_cases hs : s = s'
    · subst hs
      -- in the bucket itself, whether it is dropped or not, `m` is what is missing
      have hold : InBucket scores s m' ↔ m' ∈ b := by simp [InBucket, hb]
      have hnew : InBucket (if (b.erase m).isEmpty then scores.erase s
          else scores.insert s (b.erase m)) s m' ↔ m' ∈ b.erase m := by
        by_cases hempty : (b.erase m).isEmpty
        · rw [if_pos hempty]
          have hnot := Std.ExtTreeSet.eq_empty_iff_forall_not_mem.mp
            (Std.ExtTreeSet.isEmpty_iff.mp hempty) m'
          simp [InBucket, hnot]
        · rw [if_neg hempty]
          simp [InBucket]
      rw [hnew, hold, Std.ExtTreeSet.mem_erase]
      simp only [ne_eq, Std.LawfulEqCmp.compare_eq_iff_eq, true_and]
      tauto
    · have hnew : InBucket (if (b.erase m).isEmpty then scores.erase s
          else scores.insert s (b.erase m)) s' m' ↔ InBucket scores s' m' := by
        split <;> simp [InBucket, getElem?_erase, getElem?_insert, hs]
      rw [hnew]
      simp [Ne.symm hs]

theorem noEmptyBucket_remove_from (h : NoEmptyBucket scores)
    (m : Bytes) (s : F) : NoEmptyBucket (ZSetData.remove_from scores m s) := by
  unfold ZSetData.remove_from
  split
  · split
    · intro s' b' hb'
      rw [getElem?_erase] at hb'
      split at hb'
      · cases hb'
      · exact h s' b' hb'
    · rename_i hne
      intro s' b' hb'
      rw [getElem?_insert] at hb'
      split at hb'
      · cases hb'
        exact fun hempty => hne (Std.ExtTreeSet.isEmpty_iff.mpr hempty)
      · exact h s' b' hb'
  · exact h

/-! ## Consistency -/

/-- The two indexes agree, and no bucket is empty. -/
structure Consistent (z : ZSetData F) : Prop where
  index : ∀ (m : Bytes) (s : F), InBucket z.scores s m ↔ z.members[m]? = some s
  nonempty : NoEmptyBucket z.scores

theorem Consistent.existsUnique (h : Consistent z) {m : Bytes}
    (hm : m ∈ z.members) : ∃! s, InBucket z.scores s m := by
  obtain ⟨s, hs⟩ := isSome_getElem?_iff_mem.mpr hm |> Option.isSome_iff_exists.mp
  refine ⟨s, (h.index m s).mpr hs, fun s' hs' => ?_⟩
  have hs'' := (h.index m s').mp hs'
  rw [hs] at hs''
  exact (Option.some.inj hs'').symm

theorem consistent_new : Consistent (ZSetData.new : ZSetData F) := by
  refine ⟨fun m s => ?_, fun s b hb => ?_⟩
  · simp [InBucket, ZSetData.new]
  · simp [ZSetData.new] at hb

theorem Consistent.inBucket_unlink (h : Consistent z) (m m' : Bytes) (s' : F) :
    InBucket (z.unlink m) s' m' ↔ m' ≠ m ∧ InBucket z.scores s' m' := by
  unfold ZSetData.unlink
  cases hold : z.members[m]? with
  | none =>
    refine ⟨fun hin => ⟨?_, hin⟩, fun hin => hin.2⟩
    rintro rfl
    have hs' := (h.index _ _).mp hin
    rw [hold] at hs'
    cases hs'
  | some old =>
    simp only [inBucket_remove_from]
    refine ⟨fun hin => ⟨?_, hin.1⟩, fun hin => ⟨hin.2, fun heq => hin.1 heq.2⟩⟩
    rintro rfl
    have hs' := (h.index _ _).mp hin.1
    rw [hold] at hs'
    exact hin.2 ⟨(Option.some.inj hs').symm, rfl⟩

theorem Consistent.noEmptyBucket_unlink (h : Consistent z) (m : Bytes) :
    NoEmptyBucket (z.unlink m) := by
  unfold ZSetData.unlink
  split
  · exact noEmptyBucket_remove_from h.nonempty _ _
  · exact h.nonempty

theorem Consistent.add (h : Consistent z) (m : Bytes) (s : F) : Consistent (z.add m s) := by
  refine ⟨fun m' s' => ?_, noEmptyBucket_link (h.noEmptyBucket_unlink m) m s⟩
  rw [ZSetData.add, inBucket_link, h.inBucket_unlink, h.index, getElem?_insert]
  simp only [Std.LawfulEqCmp.compare_eq_iff_eq]
  by_cases hm : m = m'
  · subst hm
    simp [eq_comm]
  · simp [hm, Ne.symm hm]

theorem inBucket_foldl_link (l : List (Bytes × F)) (scores : BTreeMap F (BTreeSet Bytes)) (s : F)
    (m : Bytes) :
    InBucket (l.foldl (fun ns (m, s) => ZSetData.link ns m s) scores) s m ↔
      (m, s) ∈ l ∨ InBucket scores s m := by
  induction l generalizing scores with
  | nil => simp
  | cons p l ih =>
    obtain ⟨m', s'⟩ := p
    rw [List.foldl_cons, ih, inBucket_link, List.mem_cons, Prod.mk.injEq]
    tauto

theorem noEmptyBucket_foldl_link (l : List (Bytes × F)) (h : NoEmptyBucket scores) :
    NoEmptyBucket (l.foldl (fun ns (m, s) => ZSetData.link ns m s) scores) := by
  induction l generalizing scores with
  | nil => exact h
  | cons p l ih => exact ih (noEmptyBucket_link h _ _)

end Index

/-! ## Rebuilding -/

section Rebuild

variable {F : Type} [Score F]

theorem consistent_rebuild_scores (z : ZSetData F) : Consistent (rebuild_scores z) := by
  refine ⟨fun m s => ?_, noEmptyBucket_foldl_link _ fun s b hb => by simp at hb⟩
  rw [rebuild_scores, inBucket_foldl_link, mem_toList_iff_getElem?_eq_some]
  simp [InBucket]

end Rebuild

/-! ## The commands -/

section Commands

variable {F : Type} [Score F]

/-- If the entry is a sorted set, its indexes are consistent. -/
def Indexed (e : Entry F) : Prop := ∀ z, e.data = .ZSet z → Consistent z

theorem closed_consistent : Closed (Consistent (F := F)) :=
  ⟨consistent_new, fun _ m s hz => hz.add m s, consistent_rebuild_scores⟩

theorem grants_indexed (K : String → Prop) : Grants (entries (Indexed (F := F))) Consistent K := by
  refine ⟨fun key _ => ?_, fun key z _ hz => ?_⟩
  · exact get_zset_meets (get_entries _) fun x z hx hdata => hx z hdata
  · refine set_entries _ fun now entry hentry z' hz' => ?_
    cases hentry
    cases hz'
    exact hz

/-! ## Runs -/

/-- The world after a command, whether it replied, failed or panicked. -/
def exec (w : World F) (cmd : ZWrite × List Bytes) : World F :=
  ((cmd.1.handler cmd.2 : StoreM F (Reply F)).run World.step w).2

theorem exec_indexed {w : World F} (hw : w.All Indexed) (cmd : ZWrite × List Bytes) :
    (exec w cmd).All Indexed :=
  ((handler_meets (grants_indexed _) closed_consistent cmd.1).run (fun _ h => h)
    (step_entries Indexed) hw).1

theorem foldl_exec_indexed (cmds : List (ZWrite × List Bytes)) {w : World F}
    (hw : w.All Indexed) : (cmds.foldl exec w).All Indexed := by
  induction cmds generalizing w with
  | nil => exact hw
  | cons cmd cmds ih => exact ih (exec_indexed hw cmd)

/-- **The indexes agree.** After any sequence of writing commands from the empty store, with
any arguments and in any surroundings, every stored sorted set has consistent indexes: a
member is in a bucket exactly when the member map gives it that score, no bucket is empty,
and each member is in exactly one. -/
theorem zset_indexes_consistent (env : Env) (cmds : List (ZWrite × List Bytes)) :
    (cmds.foldl exec (World.new env : World F)).All fun e => ∀ z, e.data = .ZSet z →
      Consistent z ∧ ∀ m ∈ z.members, ∃! s, InBucket z.scores s m := by
  have hempty : (World.new env : World F).All Indexed := by
    intro k x hx
    simp [World.new, Store.new] at hx
  intro k e he z hz
  have hc : Consistent z := foldl_exec_indexed cmds hempty k e he z hz
  exact ⟨hc, fun m hm => hc.existsUnique hm⟩

end Commands

end ValkeyRs.Zset
