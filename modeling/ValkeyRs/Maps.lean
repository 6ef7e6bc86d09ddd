/-
Maps out of their entries.

A decoder builds a map by inserting entries one by one, in the order in which they were written, and
that order is whatever a traversal of the original happened to give. `fill` is such a loop. What it
builds does not depend on the order: filling an empty map with the entries of `m`, each key once,
gives `m` back (`fill_eq`). For sets, `gather` is the same loop.
-/
import Mathlib

set_option autoImplicit false

open List Std

namespace ValkeyRs.Maps

variable {κ α : Type} [Ord κ] [TransOrd κ]

/-! ## Maps -/

/-- Insert the entries one after the other. -/
def fill (m : ExtTreeMap κ α) (entries : List (κ × α)) : ExtTreeMap κ α :=
  entries.foldl (fun m p => m.insert p.1 p.2) m

theorem fill_cons (m : ExtTreeMap κ α) (p : κ × α) (entries : List (κ × α)) :
    fill m (p :: entries) = fill (m.insert p.1 p.2) entries := rfl

variable [LawfulEqOrd κ]

theorem mem_fill (m : ExtTreeMap κ α) (entries : List (κ × α)) (k : κ) :
    k ∈ fill m entries ↔ k ∈ m ∨ k ∈ entries.map Prod.fst := by
  induction entries generalizing m with
  | nil => simp [fill]
  | cons p entries ih =>
    rw [fill_cons, ih, ExtTreeMap.mem_insert, LawfulEqCmp.compare_eq_iff_eq,
      map_cons, mem_cons]
    tauto

variable {m : ExtTreeMap κ α} {entries : List (κ × α)}

section Keys

variable {k key : κ} {a b : α}

theorem insert_of_ne (h : k ≠ key) : (m.insert key a)[k]? = m[k]? := by
  rw [ExtTreeMap.getElem?_insert, if_neg fun heq => h (LawfulEqCmp.eq_of_compare heq).symm]

theorem erase_of_ne (h : k ≠ key) : (m.erase key)[k]? = m[k]? := by
  rw [ExtTreeMap.getElem?_erase, if_neg fun heq => h (LawfulEqCmp.eq_of_compare heq).symm]

theorem alter_of_ne {f : Option α → Option α} (h : k ≠ key) : (m.alter key f)[k]? = m[k]? := by
  rw [ExtTreeMap.getElem?_alter, if_neg fun heq => h (LawfulEqCmp.eq_of_compare heq).symm]

theorem of_insert (h : (m.insert key a)[k]? = some b) : key = k ∧ a = b ∨ m[k]? = some b := by
  rw [ExtTreeMap.getElem?_insert] at h
  split at h
  · exact .inl ⟨LawfulEqCmp.eq_of_compare ‹_›, Option.some.inj h⟩
  · exact .inr h

omit [LawfulEqOrd κ] in
theorem of_erase (h : (m.erase key)[k]? = some b) : m[k]? = some b := by
  rw [ExtTreeMap.getElem?_erase] at h
  split at h
  · cases h
  · exact h

end Keys

theorem getElem?_fill_of_notMem {k : κ}
    (h : k ∉ entries.map Prod.fst) : (fill m entries)[k]? = m[k]? := by
  induction entries generalizing m with
  | nil => rfl
  | cons p entries ih =>
    rw [map_cons, mem_cons, not_or] at h
    rw [fill_cons, ih h.2, insert_of_ne h.1]

theorem getElem?_fill_of_mem
    (hnodup : (entries.map Prod.fst).Nodup) {p : κ × α} (h : p ∈ entries) :
    (fill m entries)[p.1]? = some p.2 := by
  induction entries generalizing m with
  | nil => cases h
  | cons q entries ih =>
    obtain ⟨hq, hrest⟩ := nodup_cons.mp hnodup
    rw [fill_cons]
    rcases mem_cons.mp h with rfl | hmem
    · rw [getElem?_fill_of_notMem hq, ExtTreeMap.getElem?_insert,
        if_pos ReflCmp.compare_self]
    · exact ih hrest hmem

theorem fill_eq
    (hnodup : (entries.map Prod.fst).Nodup) (h : ∀ k v, (k, v) ∈ entries ↔ m[k]? = some v) :
    fill ∅ entries = m := by
  refine ExtTreeMap.ext_getElem? fun k => ?_
  cases hk : m[k]? with
  | some v => exact getElem?_fill_of_mem hnodup ((h k v).mpr hk)
  | none =>
    have hmem : k ∉ entries.map Prod.fst := by
      intro hmem
      obtain ⟨⟨k', v⟩, hp, rfl⟩ := mem_map.mp hmem
      rw [(h k' v).mp hp] at hk
      cases hk
    rw [getElem?_fill_of_notMem hmem, ExtTreeMap.getElem?_empty]

theorem fill_toList (m : ExtTreeMap κ α) : fill ∅ m.toList = m := by
  refine fill_eq ?_ fun k v => ExtTreeMap.mem_toList_iff_getElem?_eq_some
  rw [ExtTreeMap.map_fst_toList_eq_keys]
  exact ExtTreeMap.nodup_keys

/-! ## One key at a time

What `alter` comes to: nothing, a removal, or an insertion. -/

section Alter

variable {m : ExtTreeMap κ α} {k : κ} {f : Option α → Option α}

theorem alter_eq_self (h : f m[k]? = m[k]?) : m.alter k f = m := by
  refine ExtTreeMap.ext_getElem? fun a => ?_
  rw [ExtTreeMap.getElem?_alter, h]
  split
  · rename_i hka
    rw [LawfulEqCmp.eq_of_compare hka]
  · rfl

theorem alter_eq_erase (h : f m[k]? = none) : m.alter k f = m.erase k := by
  refine ExtTreeMap.ext_getElem? fun a => ?_
  rw [ExtTreeMap.getElem?_alter, ExtTreeMap.getElem?_erase, h]

theorem alter_eq_insert {v : α} (h : f m[k]? = some v) : m.alter k f = m.insert k v := by
  refine ExtTreeMap.ext_getElem? fun a => ?_
  rw [ExtTreeMap.getElem?_alter, ExtTreeMap.getElem?_insert, h]

end Alter

theorem erase_insert {k k' : κ} (h : k ≠ k') (v : α) :
    (m.insert k v).erase k' = (m.erase k').insert k v := by
  refine ExtTreeMap.ext_getElem? fun a => ?_
  rw [ExtTreeMap.getElem?_erase, ExtTreeMap.getElem?_insert, ExtTreeMap.getElem?_insert,
    ExtTreeMap.getElem?_erase]
  by_cases hk : compare k a = .eq
  · have hk' : ¬ compare k' a = .eq := fun hk' =>
      h ((LawfulEqCmp.eq_of_compare hk).trans (LawfulEqCmp.eq_of_compare hk').symm)
    rw [if_pos hk, if_pos hk, if_neg hk']
  · rw [if_neg hk, if_neg hk]

/-! ## Copies -/

section Copies

variable {β γ : Type}

variable {R : α → β → Prop} {xs : List α} {ys : List β}

theorem forall₂_comp {S : β → γ → Prop} {T : α → γ → Prop}
    (hT : ∀ a b c, R a b → S b c → T a c) {zs : List γ}
    (hR : List.Forall₂ R xs ys) (hS : List.Forall₂ S ys zs) : List.Forall₂ T xs zs := by
  induction hR generalizing zs with
  | nil =>
    cases hS
    exact .nil
  | cons hab _ ih =>
    cases hS with
    | cons hbc hS => exact .cons (hT _ _ _ hab hbc) (ih hS)

theorem forall₂_mem_left (h : List.Forall₂ R xs ys) {x : α} (hx : x ∈ xs) : ∃ y ∈ ys, R x y := by
  induction h with
  | nil => cases hx
  | cons hxy _ ih =>
    rcases mem_cons.mp hx with rfl | hx
    · exact ⟨_, mem_cons_self, hxy⟩
    · obtain ⟨y, hy, hxy⟩ := ih hx
      exact ⟨y, mem_cons_of_mem _ hy, hxy⟩

theorem forall₂_mem_right (h : List.Forall₂ R xs ys) {y : β} (hy : y ∈ ys) : ∃ x ∈ xs, R x y :=
  forall₂_mem_left h.flip hy

/-- A map that is filled with copies of the entries of another one, entry by entry, is a copy. -/
theorem fill_copies {R : κ → α → β → Prop} {m : ExtTreeMap κ α} {items : List (κ × α)}
    {entries : List (κ × β)} (hnodup : (items.map Prod.fst).Nodup)
    (hitems : ∀ k v, (k, v) ∈ items ↔ m[k]? = some v)
    (h : List.Forall₂ (fun p q => q.1 = p.1 ∧ R p.1 p.2 q.2) items entries) (k : κ) :
    Option.Rel (R k) m[k]? (fill ∅ entries)[k]? := by
  have hkeys : items.map Prod.fst = entries.map Prod.fst := by
    rw [← forall₂_eq_eq_eq, forall₂_map_left_iff, forall₂_map_right_iff]
    exact h.imp fun p q hpq => hpq.1.symm
  rw [hkeys] at hnodup
  cases hk : m[k]? with
  | none =>
    have hmem : k ∉ entries.map Prod.fst := by
      rw [← hkeys]
      intro hmem
      obtain ⟨⟨k', v⟩, hp, rfl⟩ := mem_map.mp hmem
      rw [(hitems k' v).mp hp] at hk
      cases hk
    rw [getElem?_fill_of_notMem hmem, ExtTreeMap.getElem?_empty]
    exact .none
  | some v =>
    obtain ⟨q, hq, hkey, hR⟩ := forall₂_mem_left h ((hitems k v).mpr hk)
    have hget := getElem?_fill_of_mem (m := ∅) hnodup hq
    rw [hkey] at hget
    rw [hget]
    exact .some hR

end Copies

/-! ## Sets -/

/-- Insert the elements one after the other. -/
def gather (s : ExtTreeSet κ) (xs : List κ) : ExtTreeSet κ := xs.foldl ExtTreeSet.insert s

theorem mem_gather (s : ExtTreeSet κ) (xs : List κ) (k : κ) :
    k ∈ gather s xs ↔ k ∈ s ∨ k ∈ xs := by
  induction xs generalizing s with
  | nil => simp [gather]
  | cons x xs ih =>
    have hstep : gather s (x :: xs) = gather (s.insert x) xs := rfl
    rw [hstep, ih, ExtTreeSet.mem_insert, LawfulEqCmp.compare_eq_iff_eq, mem_cons]
    tauto

variable {s : ExtTreeSet κ}

theorem gather_eq {xs : List κ} (h : ∀ k, k ∈ xs ↔ k ∈ s) : gather ∅ xs = s := by
  refine ExtTreeSet.ext_mem fun k => ?_
  rw [mem_gather, h k]
  simp

theorem toFinset_toList [DecidableEq κ] {S : Finset κ}
    (h : ∀ k, k ∈ s ↔ k ∈ S) : s.toList.Nodup ∧ s.toList.toFinset = S := by
  constructor
  · refine ExtTreeSet.distinct_toList.imp fun {a b} hne heq => ?_
    subst heq
    exact hne ReflCmp.compare_self
  · refine Finset.ext fun k => ?_
    rw [mem_toFinset, ExtTreeSet.mem_toList, h]

theorem size_eq_card [DecidableEq κ] {S : Finset κ} (h : ∀ k, k ∈ s ↔ k ∈ S) : s.size = S.card := by
  obtain ⟨hnodup, hset⟩ := toFinset_toList h
  rw [← hset, toFinset_card_of_nodup hnodup, ExtTreeSet.length_toList]

end ValkeyRs.Maps
