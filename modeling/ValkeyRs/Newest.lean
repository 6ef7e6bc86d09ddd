/-
Tables that keep the newest record of each key.

Records carry a key and a rank. A record that is put into a table replaces the one under its key
unless its rank is lower, so among records of one rank the last one stays. This merge is not
commutative, but it is associative and idempotent (`merge_assoc`, `merge_self`), and that is what
makes putting a list of records into a table twice the same as putting it once (`put_all_put_all`),
whatever keys the list repeats.
-/
import Mathlib

set_option autoImplicit false

namespace ValkeyRs.Newest

variable {κ α ρ : Type} [LinearOrder ρ] (rank : α → ρ)

/-! ## One key -/

/-- What is left of two records, either of which may be missing. -/
def merge : Option α → Option α → Option α
  | none, y => y
  | some a, none => some a
  | some a, some b => if rank b < rank a then some a else some b

variable (x : Option α)

theorem merge_self : merge rank x x = x := by
  cases x with
  | none => rfl
  | some a => simp [merge]

theorem merge_none : merge rank x none = x := by
  cases x <;> rfl

theorem merge_assoc (x y z : Option α) :
    merge rank (merge rank x y) z = merge rank x (merge rank y z) := by
  cases x with
  | none => rfl
  | some a =>
    cases y with
    | none => rfl
    | some b =>
      cases z with
      | none => simp only [merge_none]
      | some c =>
        -- the order of `a` and `b`, and of `b` and `c`, decides all but one of the comparisons
        by_cases hab : rank b < rank a
        · by_cases hbc : rank c < rank b
          · simp [merge, hab, hbc, hbc.trans hab]
          · simp [merge, hab, hbc]
        · by_cases hbc : rank c < rank b
          · simp [merge, hab, hbc]
          · have hac : ¬ rank c < rank a :=
              not_lt.mpr ((not_lt.mp hab).trans (not_lt.mp hbc))
            simp [merge, hab, hbc, hac]

theorem le_merge {a : α} (y : Option α) : ∃ b, merge rank (some a) y = some b ∧ rank a ≤ rank b := by
  cases y with
  | none => exact ⟨a, rfl, le_rfl⟩
  | some b =>
    by_cases h : rank b < rank a
    · exact ⟨a, by simp [merge, h], le_rfl⟩
    · exact ⟨b, by simp [merge, h], not_lt.mp h⟩

def absorb (x : Option α) (l : List α) : Option α := l.foldl (fun x a => merge rank x (some a)) x

theorem absorb_eq_merge (l : List α) : absorb rank x l = merge rank x (absorb rank none l) := by
  induction l generalizing x with
  | nil => exact (merge_none rank x).symm
  | cons a l ih =>
    calc absorb rank x (a :: l)
        = merge rank (merge rank x (some a)) (absorb rank none l) := ih _
      _ = merge rank x (merge rank (some a) (absorb rank none l)) := merge_assoc rank _ _ _
      _ = merge rank x (absorb rank none (a :: l)) := congrArg _ (ih (some a)).symm

theorem absorb_absorb (l : List α) : absorb rank (absorb rank x l) l = absorb rank x l := by
  rw [absorb_eq_merge rank (absorb rank x l), absorb_eq_merge rank x, merge_assoc, merge_self]

/-- The record that was there first stays if it outranks all that follow; otherwise it makes way for
one of them. -/
theorem absorb_cases (l : List α) :
    (absorb rank x l = x ∧ ∀ a ∈ l, ∃ b, x = some b ∧ rank a < rank b) ∨
      ∃ a ∈ l, absorb rank x l = some a ∧ ∀ b, x = some b → rank b ≤ rank a := by
  induction l generalizing x with
  | nil => exact .inl ⟨rfl, by simp⟩
  | cons a l ih =>
    by_cases hstays : ∃ b, x = some b ∧ rank a < rank b
    · obtain ⟨b, rfl, hlt⟩ := hstays
      have hmerge : absorb rank (some b) (a :: l) = absorb rank (some b) l := by
        simp [absorb, merge, hlt]
      rw [hmerge]
      rcases ih (some b) with ⟨heq, hall⟩ | ⟨c, hc, heq, hle⟩
      · exact .inl ⟨heq, List.forall_mem_cons.mpr ⟨⟨b, rfl, hlt⟩, hall⟩⟩
      · exact .inr ⟨c, List.mem_cons_of_mem _ hc, heq, hle⟩
    · have hnot : ∀ b, x = some b → rank b ≤ rank a :=
        fun b hb => not_lt.mp fun hlt => hstays ⟨b, hb, hlt⟩
      have hmerge : absorb rank x (a :: l) = absorb rank (some a) l := by
        cases x with
        | none => rfl
        | some b => simp [absorb, merge, not_lt.mpr (hnot b rfl)]
      rw [hmerge]
      -- `a` is in the place now, and makes way for nothing of a lower rank
      rcases ih (some a) with ⟨heq, -⟩ | ⟨c, hc, heq, hle⟩
      · exact .inr ⟨a, List.mem_cons_self, heq, hnot⟩
      · exact .inr ⟨c, List.mem_cons_of_mem _ hc, heq, fun b hb => (hnot b hb).trans (hle a rfl)⟩

theorem le_merge_right (c : α) : ∃ b, merge rank x (some c) = some b ∧ rank c ≤ rank b := by
  cases x with
  | none => exact ⟨c, rfl, le_rfl⟩
  | some a =>
    by_cases h : rank c < rank a
    · exact ⟨a, by simp [merge, h], h.le⟩
    · exact ⟨c, by simp [merge, h], le_rfl⟩

/-- No record that comes in outranks the one that stays. -/
theorem le_absorb {l : List α} {a : α} (ha : a ∈ l) :
    ∃ b, absorb rank x l = some b ∧ rank a ≤ rank b := by
  obtain ⟨l₁, l₂, rfl⟩ := List.append_of_mem ha
  obtain ⟨b, hb, hle⟩ := le_merge_right rank (absorb rank x l₁) a
  obtain ⟨c, hc, hle'⟩ := le_merge rank (absorb rank none l₂)
  refine ⟨c, ?_, hle.trans hle'⟩
  rw [absorb, List.foldl_append, List.foldl_cons, ← absorb, ← absorb, hb, absorb_eq_merge, hc]

/-! ## A table -/

variable [Ord κ] [Std.TransOrd κ] (key : α → κ)

def put (m : Std.ExtTreeMap κ α) (a : α) : Std.ExtTreeMap κ α :=
  match m[key a]? with
  | some b => if rank a < rank b then m else m.insert (key a) a
  | none => m.insert (key a) a

def put_all (m : Std.ExtTreeMap κ α) (l : List α) : Std.ExtTreeMap κ α :=
  l.foldl (put rank key) m

theorem put_all_append (m : Std.ExtTreeMap κ α) (l l' : List α) :
    put_all rank key m (l ++ l') = put_all rank key (put_all rank key m l) l' := List.foldl_append

variable [Std.LawfulEqOrd κ] [DecidableEq κ]
variable (m : Std.ExtTreeMap κ α)

theorem getElem?_put (a : α) (k : κ) :
    (put rank key m a)[k]? = if key a = k then merge rank m[k]? (some a) else m[k]? := by
  by_cases hk : key a = k
  · subst hk
    unfold put
    cases hold : m[key a]? with
    | none => simp [merge]
    | some b =>
      by_cases hlt : rank a < rank b
      · simp [hlt, merge, hold]
      · simp [hlt, merge]
  · have hinsert : (m.insert (key a) a)[k]? = m[k]? := by
      rw [Std.ExtTreeMap.getElem?_insert, if_neg (mt Std.LawfulEqCmp.eq_of_compare hk)]
    rw [if_neg hk]
    unfold put
    cases m[key a]? with
    | none => exact hinsert
    | some b =>
      by_cases hlt : rank a < rank b
      · simp [hlt]
      · simpa [hlt] using hinsert

theorem getElem?_put_all (l : List α) (k : κ) :
    (put_all rank key m l)[k]? = absorb rank m[k]? (l.filter (key · = k)) := by
  induction l generalizing m with
  | nil => rfl
  | cons a l ih =>
    rw [put_all, List.foldl_cons, ← put_all, ih, getElem?_put]
    by_cases hk : key a = k
    · simp [hk, absorb]
    · simp [hk]

/-- Under a key stays what outranks all new records of the key, or else one of them comes in. -/
theorem put_all_cases (l : List α) (k : κ) :
    ((put_all rank key m l)[k]? = m[k]? ∧
        ∀ a ∈ l, key a = k → ∃ b, m[k]? = some b ∧ rank a < rank b) ∨
      ∃ a ∈ l, key a = k ∧ (put_all rank key m l)[k]? = some a ∧
        ∀ b, m[k]? = some b → rank b ≤ rank a := by
  rw [getElem?_put_all]
  rcases absorb_cases rank m[k]? (l.filter (key · = k)) with ⟨heq, hall⟩ | ⟨a, ha, heq, hle⟩
  · exact .inl ⟨heq, fun a ha hk => hall a (List.mem_filter.mpr ⟨ha, decide_eq_true hk⟩)⟩
  · obtain ⟨hmem, hk⟩ := List.mem_filter.mp ha
    exact .inr ⟨a, hmem, of_decide_eq_true hk, heq, hle⟩

theorem le_put_all {m : Std.ExtTreeMap κ α} {k : κ} {a : α} (h : m[k]? = some a) (l : List α) :
    ∃ b, (put_all rank key m l)[k]? = some b ∧ rank a ≤ rank b := by
  rw [getElem?_put_all, h, absorb_eq_merge]
  exact le_merge rank _

theorem getElem?_put_all_of_notMem {l : List α} {k : κ} (h : ∀ a ∈ l, key a ≠ k)
    (m : Std.ExtTreeMap κ α) : (put_all rank key m l)[k]? = m[k]? := by
  have hnone : l.filter (key · = k) = [] := by
    simpa [List.filter_eq_nil_iff] using h
  rw [getElem?_put_all, hnone]
  rfl

/-- **Idempotence.** Putting the same records in again changes nothing. -/
theorem put_all_put_all (l : List α) :
    put_all rank key (put_all rank key m l) l = put_all rank key m l := by
  refine Std.ExtTreeMap.ext_getElem? fun k => ?_
  rw [getElem?_put_all, getElem?_put_all, absorb_absorb]

end ValkeyRs.Newest
