/-
Ranges of positions, in lists and in sorted sets.

LRANGE, LTRIM and the commands about ranks take a first and a last position, both included, and a
negative one counts from the end. `between` is what they are to select. Each of the three functions
behind them moves a negative position in its own way, and all go wrong for a last position that is
still negative after the length has been added: `list_range` takes it for the largest `usize`, and
`ni` and `norm_idx` for the first position.
-/
import ValkeyRs.Deque
import ValkeyRs.ZsetOrder

set_option autoImplicit false

open ValkeyRs Text Storage Zset Strings Maps Compact List

namespace ValkeyRs.Ranges

/-! ## The specification -/

/-- A position from the front; a negative one counts from the end. -/
def position (n : ℕ) (i : ℤ) : ℤ := if i < 0 then n + i else i

/-- The elements at the positions from `s` to `e`. -/
def between {α : Type} (s e : ℤ) (l : List α) : List α :=
  ((List.finRange l.length).filter fun i : Fin l.length => s ≤ i ∧ i ≤ e).map l.get

theorem between_eq {α : Type} (s e : ℤ) (l : List α) :
    between s e l = (l.drop s.toNat).take ((e + 1).toNat - s.toNat) := by
  induction l generalizing s e with
  | nil => simp [between]
  | cons a l ih =>
    -- the positions behind the first one are those of the rest, moved by one
    have hrest : between s e (a :: l) =
        (if s ≤ 0 ∧ 0 ≤ e then [a] else []) ++ between (s - 1) (e - 1) l := by
      by_cases hin : s ≤ 0 ∧ 0 ≤ e
      · simp [between, finRange_succ, filter_map, Function.comp_def, hin]
      · simp [between, finRange_succ, filter_map, Function.comp_def, hin]
    rw [hrest, ih]
    by_cases hs : s ≤ 0
    · have hs0 : s.toNat = 0 := by omega
      have hs1 : (s - 1).toNat = 0 := by omega
      by_cases he : 0 ≤ e
      · have hnext : (e + 1).toNat = e.toNat + 1 := by omega
        simp [hs, he, hs0, hs1, hnext]
      · have hnone : (e + 1).toNat = 0 ∧ e.toNat = 0 := by omega
        simp [he, hs0, hs1, hnone]
    · have hnext : s.toNat = (s - 1).toNat + 1 := by omega
      have hcount : (e - 1 + 1).toNat - (s - 1).toNat = (e + 1).toNat - ((s - 1).toNat + 1) := by omega
      simp only [hs, false_and, if_false, nil_append, hnext, drop_succ_cons, hcount]

/-- A last position in front of the first one is moved to it: that shows if the range starts there. -/
theorem between_clamped_iff {α : Type} {s e : ℤ} {l : List α} :
    between s (max e 0) l = between s e l ↔ l = [] ∨ 0 ≤ e ∨ 0 < s := by
  rw [between_eq, between_eq, take_eq_take_iff, length_drop, ← length_eq_zero_iff]
  omega

/-- The index arithmetic that LTRIM and the sorted sets share. -/
theorem take_clamped {α : Type} {s e : ℤ} {l : List α} {p : Prop} [Decidable p] {i n : ℕ}
    (hp : p ↔ i > e.toNat ∨ i ≥ l.length) (hi : i = s.toNat)
    (hn : ¬ p → n = min e.toNat (l.length - 1) + 1 - i) :
    (if p then [] else (l.drop i).take n) = between s (max e 0) l := by
  rw [between_eq]
  by_cases h : p
  · rw [if_pos h, eq_comm, take_eq_nil_iff, drop_eq_nil_iff]
    rw [hp] at h
    omega
  · rw [if_neg h, ← hi, take_eq_take_iff, length_drop, hn h]
    rw [hp] at h
    omega

/-! ## Lists -/

section Lists

open ValkeyRs.Lists Deque

theorem trimmed_eq (start stop : ℤ) (l : List Bytes) :
    trimmed start stop l =
      between (position l.length start) (max (position l.length stop) 0) l := by
  have hni : ∀ i : ℤ, ni i l.length = max (position l.length i) 0 := by
    intro i
    unfold ni position
    split <;> omega
  unfold trimmed
  simp only [hni]
  exact take_clamped (by omega) (by omega) (by omega)

/-- Where `list_range` starts, as a `usize`. -/
def range_start (n : ℕ) (start : ℤ) : ℕ := (if start < 0 then max (n + start) 0 else start).toNat

/-- What `list_range` returns of a list. -/
def cut (start stop : ℤ) (l : List Bytes) : List Bytes :=
  let s := range_start l.length start
  let e := DataType.range_stop l.length stop
  if s > e ∨ s ≥ l.length then [] else (l.drop s).take ((e - s + 1) % 2 ^ 64)

/-- `e - s + 1` does not overflow, where `list_range` computes it. -/
def CountFits (n : ℕ) (start stop : ℤ) : Prop :=
  let s := range_start n start
  let e := DataType.range_stop n stop
  s > e ∨ s ≥ n ∨ e - s + 1 < 2 ^ 64

theorem range_start_eq (n : ℕ) (start : ℤ) : range_start n start = (position n start).toNat := by
  unfold range_start position
  split <;> omega

theorem range_stop_of_nonneg {n : ℕ} {stop : ℤ} (hn : n ≠ 0) (hlt : n < 2 ^ 63)
    (h : 0 ≤ position n stop) :
    DataType.range_stop n stop = min (position n stop).toNat (n - 1) := by
  unfold DataType.range_stop position at *
  split at h <;> omega

theorem range_stop_of_neg {n : ℕ} {stop : ℤ} (h : position n stop < 0) :
    DataType.range_stop n stop = 2 ^ 64 - 1 := by
  unfold DataType.range_stop position at *
  split at h <;> omega

variable {start stop : ℤ} {l : List Bytes} (hlt : l.length < 2 ^ 63)

include hlt

theorem cut_right
    (h : l = [] ∨ 0 ≤ position l.length stop ∨ l.length ≤ position l.length start) :
    cut start stop l = between (position l.length start) (position l.length stop) l ∧
      CountFits l.length start stop := by
  unfold cut CountFits
  rw [range_start_eq]
  by_cases hbehind : l.length ≤ (position l.length start).toNat
  · rw [if_pos (.inr hbehind), between_eq, drop_eq_nil_of_le hbehind, take_nil]
    exact ⟨rfl, .inr (.inl hbehind)⟩
  · have hne : l.length ≠ 0 := by omega
    have hstop : 0 ≤ position l.length stop := by
      rcases h with rfl | h | h
      · exact absurd rfl hne
      · exact h
      · omega
    rw [range_stop_of_nonneg hne hlt hstop]
    have hclamped : max (position l.length stop) 0 = position l.length stop := by omega
    refine ⟨?_, by omega⟩
    rw [← hclamped]
    exact take_clamped (by omega) rfl (by omega)

theorem cut_wrong (hstop : position l.length stop < 0)
    (hin : 0 < position l.length start ∧ position l.length start < l.length) :
    cut start stop l ≠ [] := by
  unfold cut
  rw [range_start_eq, range_stop_of_neg hstop, if_neg (by omega), Nat.mod_eq_of_lt (by omega), ne_eq,
    take_eq_nil_iff, drop_eq_nil_iff]
  omega

omit hlt

variable {F : Type} [Score F] {C : Instant → Prop} {m : HashMap Bytes (Entry F)} {key : Bytes}
  {e : Entry F} {Q : Except Halt (Reply F) → HashMap Bytes (Entry F) → Prop}

theorem list_range_of_value {d : DataType F} (horderly : Orderly d) (hvalue : d.value = .list l)
    (start stop : ℤ) : d.list_range start stop = some (cut start stop l) := by
  unfold DataType.list_range cut
  rw [list_len_of_value horderly hvalue, apply_ite some]
  cases d with
  | List l' =>
    cases hvalue
    rfl
  | ListPack lp =>
    cases hvalue
    rfl
  | String | Hash | Set | ZSet | Stream | IntSet => cases hvalue

theorem wp_read_list (he : m[key]? = some e) {present : DataType F → Option (Reply F)}
    {absent : Reply F} : (read_list key present absent).Wp (may C) Q m ↔
      Q (.ok ((present e.data).getD wrong_type)) m := by
  rw [read_list, wp_access, alter_eq_self rfl, he]
  rfl

theorem wp_with_list (he : m[key]? = some e) (hvalue : e.data.value = .list l)
    {f : List Bytes → List Bytes} {found : List Bytes → StoreM F (Reply F)} {absent : Reply F} :
    (with_list key f found absent).Wp (may C) Q m ↔
      (found l).Wp (may C) Q (m.insert key { e with data := .List (f l) }) := by
  have hl := DataType.as_list_eq_some.mpr hvalue
  have hedit : edit_list f e = { e with data := .List (f l) } := by rw [edit_list, hl]
  rw [with_list, wp_access, alter_eq_insert (by rw [he]; rfl), he]
  dsimp only
  rw [hl, hedit]

/-- **Ranges of lists.** LRANGE returns the elements between the two positions and LTRIM leaves them,
without an overflow, exactly if the list is empty, or the last position is not in front of it, or the
first one is behind it. -/
theorem list_ranges_iff (he : m[key]? = some e) (hvalue : e.data.value = .list l)
    (horderly : Orderly e.data) (hlt : l.length < 2 ^ 63) {start stop : Bytes} {st sp : Int64}
    (hst : parse_i64 start = some st) (hsp : parse_i64 stop = some sp) (rest : List Bytes) :
    let selected := between (position l.length st.toInt) (position l.length sp.toInt) l
    ((lr (key :: start :: stop :: rest)).Wp (may C)
        (fun r m' => r = .ok (.Array (some (selected.map bull))) ∧ m' = m) m ∧
      (ltr (key :: start :: stop :: rest)).Wp (may C)
        (fun r m' => r = .ok ok ∧ m' = m.insert key { e with data := .List selected }) m ∧
      CountFits l.length st.toInt sp.toInt) ↔
    l = [] ∨ 0 ≤ position l.length sp.toInt ∨ l.length ≤ position l.length st.toInt := by
  intro selected
  unfold lr ltr
  simp only [hst, hsp]
  rw [wp_read_list he, wp_with_list he hvalue, list_range_of_value horderly hvalue, trimmed_eq]
  constructor
  · rintro ⟨⟨hcut, -⟩, ⟨-, hinsert⟩, -⟩
    by_contra hcond
    rw [not_or, not_or, not_le, not_le] at hcond
    obtain ⟨hne, hstop, hstart⟩ := hcond
    have hclamped : between (position l.length st.toInt) (max (position l.length sp.toInt) 0) l =
        selected := by
      have hget := congrArg (fun m' : HashMap Bytes (Entry F) => m'[key]?) hinsert
      simp only [Std.ExtTreeMap.getElem?_insert_self, Option.some.injEq, Entry.mk.injEq,
        DataType.List.injEq, and_true] at hget
      exact hget
    have hpos := (between_clamped_iff.mp hclamped).resolve_left hne
    have hnil : selected = [] := by
      have hnone : (position l.length sp.toInt + 1).toNat = 0 := by omega
      unfold selected
      rw [between_eq, hnone, Nat.zero_sub, take_zero]
    refine cut_wrong hlt hstop ⟨by omega, hstart⟩ ?_
    rw [hnil] at hcut
    simpa using hcut
  · intro h
    obtain ⟨hcut, hfits⟩ := cut_right hlt h
    have hclamped : between (position l.length st.toInt) (max (position l.length sp.toInt) 0) l =
        selected := by
      refine between_clamped_iff.mpr ?_
      rw [← length_eq_zero_iff] at h ⊢
      omega
    rw [hcut, hclamped]
    exact ⟨⟨rfl, rfl⟩, ⟨rfl, rfl⟩, hfits⟩

end Lists

/-- `LRANGE k 1 -4` and `LTRIM k 0 -4` on a list of three: the last position is in front of it. LRANGE
returns all from the second element on, and LTRIM leaves the first one. -/
theorem list_ranges_past_front :
    let l := [as_bytes "a", as_bytes "b", as_bytes "c"]
    let w : World Resp.Infinity := .single (as_bytes "k") ⟨.List l, none, 0, 1, 1⟩ .still
    ((Lists.lr [as_bytes "k", as_bytes "1", as_bytes "-4"]).run World.step w).1 =
        .ok (.Array (some [bull (as_bytes "b"), bull (as_bytes "c")])) ∧
      Lists.trimmed 0 (-4) l = [as_bytes "a"] ∧
      between (position 3 1) (position 3 (-4)) l = [] ∧
      between (position 3 0) (position 3 (-4)) l = [] :=
  ⟨rfl, by decide, by decide, by decide⟩

theorem list_ranges_iff_one :
    let l := [as_bytes "a", as_bytes "b", as_bytes "c"]
    let e : Entry Resp.Infinity := ⟨.List l, none, 0, 1, 1⟩
    let m : HashMap Bytes (Entry Resp.Infinity) := (∅ : HashMap Bytes _).insert (as_bytes "k") e
    (Lists.lr [as_bytes "k", as_bytes "1", as_bytes "-1"]).Wp (may fun _ => True) (fun r m' =>
      r = .ok (.Array (some ((between 1 2 l).map bull))) ∧ m' = m) m := by
  intro l e m
  have hst : parse_i64 (as_bytes "1") = some 1 := by decide +kernel
  have hsp : parse_i64 (as_bytes "-1") = some (-1) := by decide +kernel
  exact ((list_ranges_iff (C := fun _ => True) (m := m) (e := e) (l := l)
    Std.ExtTreeMap.getElem?_insert_self rfl trivial (by decide) hst hsp []).mpr
      (.inr (.inl (by decide)))).1

/-! ## Sorted sets -/

section Zsets

variable {F : Type} [Score F] {T : Instant} {m : HashMap Bytes (Entry F)} {z : ZSetData F}

omit [Score F] in
theorem entries_range_eq (all : List (Bytes × F)) (start stop : ℤ) :
    entries_range all start stop =
      between (position all.length start) (max (position all.length stop) 0) all := by
  have hnorm : ∀ i : ℤ, norm_idx i all.length = (position all.length i).toNat := by
    intro i
    unfold norm_idx position
    split <;> omega
  unfold entries_range
  simp only [hnorm]
  split
  · rename_i hnil
    rw [length_eq_zero_iff.mp hnil]
    rfl
  · exact take_clamped (by omega) rfl (by omega)

/-- **Ranges of ranks.** The entries between two ranks are returned, from the front and from the back,
and ZREMRANGEBYRANK removes those that are returned from the front, exactly if there are no entries,
or the last rank is not in front of them, or the first one is not at the front. -/
theorem rank_ranges_iff {args : List Bytes} {key : String} {start stop : ℤ}
    (hargs : zremrangebyrank_request args = .ok (key, (.ranks start stop : Removal F)))
    (hz : zset_at T m (as_bytes key) = some z) :
    let all := zset_entries z
    let first := position all.length start
    let last := position all.length stop
    (zset_range z start stop = between first last all ∧
      zset_rev_range z start stop = between first last all.reverse ∧
      (zremrangebyrank args).Wp (may (· = T)) (fun r m' =>
        r = .ok (int (between first last all).length) ∧
        (∃ z', zset_at T m' (as_bytes key) = some z' ∧ ∀ x, z'.members[x]? =
          if x ∈ (between first last all).map Prod.fst then none else z.members[x]?) ∧
        ∀ k, k ≠ as_bytes key → seen T m' k = seen T m k) m) ↔
    all = [] ∨ 0 ≤ last ∨ 0 < first := by
  intro all first last
  constructor
  · rintro ⟨hrange, -⟩
    rw [zset_range, entries_range_eq] at hrange
    exact between_clamped_iff.mp hrange
  · intro h
    have hrange : zset_range z start stop = between first last all :=
      (entries_range_eq _ _ _).trans (between_clamped_iff.mpr h)
    refine ⟨hrange, ?_, ?_⟩
    · rw [zset_rev_range, entries_range_eq, length_reverse]
      exact between_clamped_iff.mpr (h.imp_left reverse_eq_nil_iff.mpr)
    · rw [zremrangebyrank_eq, hargs]
      refine wp_removal_at (fun z₁ hz₁ => ?_) fun hnone => nomatch hnone.symm.trans hz
      cases hz.symm.trans hz₁
      obtain ⟨hstored, hothers⟩ := stored_zset (T := T) (m := m) (as_bytes key)
        (rebuild_scores (remove_members z ((Removal.ranks start stop).victims z)))
      have hvictims : (Removal.ranks start stop).victims z = (between first last all).map Prod.fst :=
        congrArg (List.map Prod.fst) hrange
      refine ⟨?_, ⟨_, hstored, fun x => ?_⟩, hothers⟩
      · show Except.ok (int ((Removal.ranks start stop).victims z).length) = _
        rw [hvictims, length_map]
      · rw [hvictims]
        exact getElem?_remove_members _ _ _

end Zsets

/-- The sorted set of one member. -/
def one_member : ZSetData Resp.Infinity := ZSetData.new.add (as_bytes "a") .pos

/-- `ZRANGE k 0 -2` on a sorted set of one member returns it. -/
theorem rank_range_past_front :
    zset_range one_member 0 (-2) = [(as_bytes "a", .pos)] ∧
      between (position 1 0) (position 1 (-2)) (zset_entries one_member) = [] := by
  decide +kernel

theorem rank_ranges_iff_one :
    zset_range one_member 0 (-1) = between 0 0 (zset_entries one_member) := by
  have hsize : (zset_entries one_member).length = 1 := by decide +kernel
  have h := (@rank_ranges_iff Resp.Infinity _ 0
    ((∅ : HashMap Bytes _).insert (as_bytes "k") ⟨.ZSet one_member, none, 0, 1, 1⟩) one_member
    [as_bytes "k", as_bytes "0", as_bytes "-1"] "k" 0 (-1) rfl rfl).mpr
  rw [hsize] at h
  exact (h (.inr (.inl (by decide)))).1

end ValkeyRs.Ranges
