/-
Occurrences of an element in a list: LREM and LPOS.

LREM takes occurrences out one by one, from the head or from the tail, and the two loops of the
source move an index along the list while it shrinks. `Without` says what is to be left.
-/
import ValkeyRs.Ranges

set_option autoImplicit false

open ValkeyRs Text Storage Zset Strings Maps Ranges List

namespace ValkeyRs.Lists

/-! ## The loops of LREM -/

section Loops

variable (x : Bytes)

/-- `while i < l.len() && rm > 0`, with `n` turns left at most. -/
def lre_forward : ℕ → ℕ → ℤ → List Bytes → List Bytes
  | 0, _, _, l => l
  | n + 1, i, rm, l =>
    if i < l.length ∧ rm > 0 then
      if l[i]? = some x then lre_forward n i (rm - 1) (l.eraseIdx i)
      else lre_forward n (i + 1) rm l
    else l

/-- `while i >= 0 && rm > 0`, for `i + 1`. -/
def lre_backward : ℕ → ℤ → List Bytes → List Bytes
  | 0, _, l => l
  | i + 1, rm, l =>
    if rm > 0 then
      if l[i]? = some x then lre_backward i (rm - 1) (l.eraseIdx i) else lre_backward i rm l
    else l

variable {x}

theorem remove_first_zero (l : List Bytes) : remove_first x 0 l = l := by
  cases l <;> rfl

/-- `p` is what the loop has passed. -/
theorem lre_forward_eq {n : ℕ} {rm : ℤ} {p l : List Bytes} (hn : l.length ≤ n) :
    lre_forward x n p.length rm (p ++ l) = p ++ remove_first x rm.toNat l := by
  induction n generalizing p rm l with
  | zero =>
    obtain rfl := length_eq_zero_iff.mp (Nat.le_zero.mp hn)
    rw [lre_forward, remove_first]
  | succ n ih =>
    rw [lre_forward]
    cases l with
    | nil => simp [remove_first]
    | cons v l =>
      rw [length_cons] at hn
      by_cases hrm : rm > 0
      · have hnext : rm.toNat = (rm - 1).toNat + 1 := by omega
        have hhere : (p ++ v :: l)[p.length]? = some v := by simp
        rw [if_pos ⟨by simp, hrm⟩, hhere, hnext, remove_first]
        by_cases hv : v = x
        · have herase : (p ++ v :: l).eraseIdx p.length = p ++ l := by
            simp [eraseIdx_append_of_length_le]
          rw [if_pos (congrArg some hv), if_pos hv, herase, ih (by omega)]
        · have hpassed := @ih rm (p ++ [v]) l (by omega)
          rw [if_neg fun h => hv (Option.some.inj h), if_neg hv, ← hnext]
          simpa using hpassed
      · have hzero : rm.toNat = 0 := by omega
        rw [if_neg (fun h => hrm h.2), hzero, remove_first_zero]

/-- `s` is what the loop has passed. -/
theorem lre_backward_eq {rm : ℤ} {l s : List Bytes} :
    lre_backward x l.length rm (l ++ s) = (remove_first x rm.toNat l.reverse).reverse ++ s := by
  induction l using List.reverseRecOn generalizing rm s with
  | nil => rfl
  | append_singleton l v ih =>
    rw [length_append, length_singleton, lre_backward, reverse_append]
    by_cases hrm : rm > 0
    · have hnext : rm.toNat = (rm - 1).toNat + 1 := by omega
      have hhere : (l ++ [v] ++ s)[l.length]? = some v := by simp
      rw [if_pos hrm, hhere, hnext, reverse_singleton, singleton_append, remove_first]
      by_cases hv : v = x
      · have herase : (l ++ [v] ++ s).eraseIdx l.length = l ++ s := by
          simp [eraseIdx_append_of_length_le]
        rw [if_pos (congrArg some hv), if_pos hv, herase, ih]
      · rw [if_neg fun h => hv (Option.some.inj h), if_neg hv, ← hnext, append_assoc, ih]
        simp
    · have hzero : rm.toNat = 0 := by omega
      rw [if_neg hrm, hzero, remove_first_zero]
      simp

/-- The absolute value of the least `i64` is itself in release mode, so that the loop has nothing to
do. -/
theorem remove_count_eq (c : ℤ) (l : List Bytes) :
    remove_count c x l =
      if c > 0 then lre_forward x l.length 0 c l
      else if c < 0 then lre_backward x l.length (if c = -2 ^ 63 then c else -c) l
      else l.filter (· ≠ x) := by
  have hforward := @lre_forward_eq x l.length c [] l le_rfl
  have hbackward : ∀ rm : ℤ, lre_backward x l.length rm l = _ := fun rm =>
    (congrArg (lre_backward x l.length rm) (append_nil l).symm).trans lre_backward_eq
  unfold remove_count
  rw [hbackward]
  simp only [length_nil, nil_append] at hforward
  split
  · exact hforward.symm
  · split
    · rename_i hmin
      rw [hmin]
      simp [remove_first_zero]
    · simp_all

end Loops

/-! ## LREM -/

/-- `l'` is `l` without `n` of the `x` in it: the first ones, or the last ones. -/
def Without (from_head : Bool) (x : Bytes) (n : ℕ) (l l' : List Bytes) : Prop :=
  ∃ p s, l = p ++ s ∧
    if from_head then p.count x = n ∧ l' = p.filter (· ≠ x) ++ s
    else s.count x = n ∧ l' = p ++ s.filter (· ≠ x)

/-- How many there are to remove. -/
def doomed (c : ℤ) (x : Bytes) (l : List Bytes) : ℕ :=
  if c = 0 then l.count x else min c.natAbs (l.count x)

theorem remove_first_without (x : Bytes) (n : ℕ) (l : List Bytes) :
    Without true x (min n (l.count x)) l (remove_first x n l) := by
  induction l generalizing n with
  | nil => exact ⟨[], [], rfl, by simp, rfl⟩
  | cons v l ih =>
    cases n with
    | zero => exact ⟨[], v :: l, rfl, by simp, rfl⟩
    | succ n =>
      by_cases hv : v = x
      · obtain ⟨p, s, hl, hcount, hleft⟩ := ih n
        refine ⟨v :: p, s, by rw [hl]; rfl, ?_, ?_⟩
        · simp [hv, hcount]
        · simp [remove_first, hv, hleft]
      · obtain ⟨p, s, hl, hcount, hleft⟩ := ih (n + 1)
        refine ⟨v :: p, s, by rw [hl]; rfl, ?_, ?_⟩
        · simp [hv, hcount]
        · simp [remove_first, hv, hleft]

theorem remove_count_without {c : ℤ} (hc : c ≠ -2 ^ 63) (x : Bytes) (l : List Bytes) :
    Without (decide (0 ≤ c)) x (doomed c x l) l (remove_count c x l) := by
  unfold remove_count doomed
  obtain hpos | rfl | hneg := lt_trichotomy 0 c
  · have hnat : c.natAbs = c.toNat := by omega
    rw [if_pos hpos, if_neg hpos.ne', hnat, decide_eq_true hpos.le]
    exact remove_first_without x c.toNat l
  · exact ⟨l, [], by simp, by simp, by simp⟩
  · obtain ⟨p, s, hl, hcount, hleft⟩ := remove_first_without x (-c).toNat l.reverse
    have hnat : c.natAbs = (-c).toNat := by omega
    rw [if_neg hneg.ne, if_neg hneg.not_gt, if_neg hc, if_pos hneg, decide_eq_false (by omega)]
    refine ⟨s.reverse, p.reverse, ?_, ?_, ?_⟩
    · rw [← reverse_append, ← hl, reverse_reverse]
    · rw [count_reverse, hcount, count_reverse, hnat]
    · rw [hleft, reverse_append, filter_reverse]

theorem Without.length {from_head : Bool} {x : Bytes} {n : ℕ} {l l' : List Bytes}
    (h : Without from_head x n l l') : l.length - l'.length = n := by
  have hsplit : ∀ l : List Bytes, l.length = l.count x + (l.filter (· ≠ x)).length := by
    intro l
    rw [← countP_eq_length_filter, List.count]
    simpa using l.length_eq_countP_add_countP (· == x)
  obtain ⟨p, s, rfl, h⟩ := h
  cases from_head with
  | true =>
    obtain ⟨rfl, rfl⟩ := h
    rw [length_append, length_append, hsplit p]
    omega
  | false =>
    obtain ⟨rfl, rfl⟩ := h
    rw [length_append, length_append, hsplit s]
    omega

section Commands

variable {F : Type} [Score F] {C : Instant → Prop} {m : HashMap Bytes (Entry F)} {key : Bytes}
  {e : Entry F} {l : List Bytes}

/-- **LREM.** It removes that many occurrences from the end the sign of the count says, keeps the rest
in its order and replies the number, and removes the key exactly if nothing is left. -/
theorem lrem_removes (he : m[key]? = some e) (hvalue : e.data.value = .list l) {count : Bytes}
    {c : Int64} (hc : parse_i64 count = some c) (hmin : c.toInt ≠ -2 ^ 63) (x : Bytes)
    (rest : List Bytes) :
    (lre (key :: count :: x :: rest)).Wp (may C) (fun r m' =>
      r = .ok (int (doomed c.toInt x l)) ∧ (∀ k, k ≠ key → m'[k]? = m[k]?) ∧
        ∃ l', Without (decide (0 ≤ c.toInt)) x (doomed c.toInt x l) l l' ∧
          m'[key]? = if l' = [] then none else some { e with data := .List l' }) m := by
  unfold lre
  simp only [hc]
  have hleft := remove_count_without hmin x l
  rw [wp_with_list he hvalue, hleft.length, remove_if]
  split
  · rename_i hempty
    refine wp_access.mpr ⟨rfl, fun k hk => ?_, _, hleft, ?_⟩
    · rw [alter_of_ne hk, insert_of_ne hk]
    · rw [alter_eq_erase rfl, Std.ExtTreeMap.getElem?_erase_self, if_pos (List.isEmpty_iff.mp hempty)]
  · rename_i hempty
    refine ⟨rfl, fun k hk => insert_of_ne hk, _, hleft, ?_⟩
    rw [Std.ExtTreeMap.getElem?_insert_self, if_neg fun h => hempty (List.isEmpty_iff.mpr h)]

end Commands

theorem lrem_removes_last :
    let l := [as_bytes "a", as_bytes "b", as_bytes "a"]
    let e : Entry Resp.Infinity := ⟨.List l, none, 0, 1, 1⟩
    let m : HashMap Bytes (Entry Resp.Infinity) := (∅ : HashMap Bytes _).insert (as_bytes "k") e
    (lre [as_bytes "k", as_bytes "-1", as_bytes "a"]).Wp (may fun _ => True)
      (fun r _ => r = .ok (int 1)) m := by
  intro l e m
  have hc : parse_i64 (as_bytes "-1") = some (-1) := by decide +kernel
  exact (lrem_removes (m := m) (e := e) (l := l) Std.ExtTreeMap.getElem?_insert_self rfl hc (by decide)
    (as_bytes "a") []).mono fun r m' h => h.1

end ValkeyRs.Lists
