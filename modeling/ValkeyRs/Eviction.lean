/-
The memory limit.

SET calls `maybe_evict` before it writes. With a limit and a policy that evicts, one key is evicted
when the limit is exceeded, and the check succeeds: nobody looks whether that was enough. The key is
the first of the best of a sample of keys, and when the policy wants keys that expire and there is
none in the sample, nothing is evicted and the check succeeds all the same.

So the check does what it is for exactly if, in every sample there can be, there is a key that may
be evicted, and evicting it is enough whichever it is. Which key it is is up to the clock and to
chance for all policies but those that count accesses; with those it is one of the keys with the
lowest counter.
-/
import ValkeyRs.Maps
import ValkeyRs.Runs
import ValkeyRs.Strings
import ValkeyRs.Surroundings

set_option autoImplicit false

open ValkeyRs Text Runs Maps Storage List Store Std.ExtTreeMap

namespace ValkeyRs.Eviction

section Check

variable {F : Type} [LinearOrder F] {α : Type}

/-! ## Memory -/

def total (entries : List (Bytes × Entry F)) : ℕ :=
  (entries.map fun p => p.2.memory_usage p.1.length).sum

def used (m : HashMap Bytes (Entry F)) : ℕ := total m.toList

theorem nodup_of_keys {l : List (Bytes × Entry F)} (h : (l.map Prod.fst).Nodup) : l.Nodup :=
  List.Nodup.of_map _ h

theorem nodup_toList (m : HashMap Bytes (Entry F)) : m.toList.Nodup := by
  refine nodup_of_keys ?_
  rw [map_fst_toList_eq_keys]
  exact nodup_keys

theorem arranged_perm (a : Arrangement) (m : HashMap Bytes (Entry F)) :
    (arranged a m).Perm m.toList := by
  refine (perm_ext_iff_of_nodup (nodup_of_keys (nodup_arranged a m)) (nodup_toList m)).mpr ?_
  rintro ⟨k, e⟩
  rw [mem_arranged, mem_toList_iff_getElem?_eq_some]

theorem total_arranged (a : Arrangement) (m : HashMap Bytes (Entry F)) :
    total (arranged a m) = used m := ((arranged_perm a m).map _).sum_eq

variable {m : HashMap Bytes (Entry F)} {e : Entry F} {keys l : List Bytes} {policy : EvictionPolicy}

theorem used_erase {k : Bytes} (h : m[k]? = some e) :
    used (m.erase k) + e.memory_usage k.length = used m := by
  have hperm : m.toList.Perm ((k, e) :: (m.erase k).toList) := by
    have hnot : (k, e) ∉ (m.erase k).toList := by
      rw [mem_toList_iff_getElem?_eq_some, getElem?_erase_self]
      nofun
    refine (perm_ext_iff_of_nodup (nodup_toList m)
      (nodup_cons.mpr ⟨hnot, nodup_toList _⟩)).mpr ?_
    rintro ⟨k', e'⟩
    rw [mem_cons, mem_toList_iff_getElem?_eq_some,
      mem_toList_iff_getElem?_eq_some, getElem?_erase]
    by_cases hk : k = k'
    · subst hk
      rw [h, if_pos Std.ReflCmp.compare_self]
      simp [eq_comm]
    · rw [if_neg (mt Std.LawfulEqCmp.eq_of_compare hk)]
      simp [Ne.symm hk]
  have hsum : used m = total ((k, e) :: (m.erase k).toList) := (hperm.map _).sum_eq
  rw [hsum, total, map_cons, sum_cons]
  exact Nat.add_comm _ _

/-! ## Calls -/

section Calls

variable {Q : Except Halt α → View F → Prop} {v : View F}

theorem wp_access {key : Bytes} {g : Option (Entry F) → Option (Entry F)}
    {f : Option (Entry F) → StoreM F α} :
    (access key g >>= f).Wp sees Q v ↔
      (f v.keyspace[key]?).Wp sees Q { v with keyspace := v.keyspace.alter key g } := by
  constructor
  · intro h
    exact h _ _ ⟨rfl, rfl⟩
  · rintro h r v' ⟨rfl, rfl⟩
    exact h

theorem wp_peek {key : Bytes} {f : Option (Entry F) → StoreM F α} :
    (access key id >>= f).Wp sees Q v ↔ (f v.keyspace[key]?).Wp sees Q v := by
  rw [wp_access, alter_eq_self rfl]

theorem wp_iter {f : List (Bytes × Entry F) → StoreM F α} :
    (iter >>= f).Wp sees Q v ↔ ∀ a, (f (arranged a v.keyspace)).Wp sees Q v := by
  constructor
  · intro h a
    exact h _ _ ⟨⟨a, rfl⟩, rfl⟩
  · rintro h r v' ⟨⟨a, rfl⟩, rfl⟩
    exact h a

theorem wp_now {f : Instant → StoreM F α} :
    (now >>= f).Wp sees Q v ↔ ∀ t, (f t).Wp sees Q v := by
  constructor
  · intro h t
    exact h t v rfl
  · rintro h t v' rfl
    exact h t

theorem wp_random {f : ℕ → StoreM F α} :
    (random >>= f).Wp sees Q v ↔ ∀ n, (f n).Wp sees Q v := by
  constructor
  · intro h n
    exact h n v rfl
  · rintro h n v' rfl
    exact h n

theorem wp_config {f : EvictionConfig → StoreM F α} :
    (eviction_config >>= f).Wp sees Q v ↔ (f v.config).Wp sees Q v := by
  constructor
  · intro h
    exact h _ _ ⟨rfl, rfl⟩
  · rintro h r v' ⟨rfl, rfl⟩
    exact h

end Calls

/-! ## Samples -/

/-- `n` of the keys, each once, in any order; or all of them when there are not so many. -/
structure Draws (n : ℕ) (keys l : List Bytes) : Prop where
  nodup : l.Nodup
  subset : l ⊆ keys
  length : l.length = min n keys.length

theorem swap_remove_perm {idx : ℕ} (h : idx < keys.length) :
    ∃ rest, swap_remove keys idx = some (keys[idx], rest) ∧ (keys[idx] :: rest).Perm keys := by
  rcases eq_nil_or_concat keys with rfl | ⟨init, last, rfl⟩
  · cases h
  rw [concat_eq_append] at h
  simp only [concat_eq_append]
  have hremove : swap_remove (init ++ [last]) idx =
      some ((init ++ [last])[idx], ((init ++ [last]).set idx last).dropLast) := by
    unfold swap_remove
    rw [List.getElem?_eq_getElem h, List.getLast?_concat]
  refine ⟨_, hremove, ?_⟩
  by_cases hlast : idx < init.length
  · have hset : ((init ++ [last]).set idx last).dropLast = init.set idx last := by
      rw [set_append_left _ _ hlast, dropLast_concat]
    rw [hset, getElem_append_left hlast]
    calc init[idx] :: init.set idx last
        _ |>.Perm (init[idx] :: last :: init.eraseIdx idx) :=
          (set_perm_cons_eraseIdx hlast last).cons _
        _ |>.Perm (last :: init[idx] :: init.eraseIdx idx) := List.Perm.swap _ _ _
        _ |>.Perm (last :: init) := (getElem_cons_eraseIdx_perm hlast).cons _
        _ |>.Perm (init ++ [last]) := (perm_append_singleton last init).symm
  · have hidx : idx = init.length := by
      rw [length_append, length_singleton] at h
      omega
    have hset : ((init ++ [last]).set idx last).dropLast = init := by
      rw [hidx, set_append_right _ _ (le_refl _), Nat.sub_self, set_cons_zero,
        dropLast_concat]
    have hkey : (init ++ [last])[idx] = last := by
      simp only [hidx, getElem_concat_length]
    rw [hset, hkey]
    exact (perm_append_singleton last init).symm

theorem draws_cons_iff {n : ℕ} (hnodup : keys.Nodup) {key : Bytes}
    {rest : List Bytes} (hperm : (key :: rest).Perm keys) :
    Draws (n + 1) keys (key :: l) ↔ Draws n rest l := by
  have hlen := hperm.length_eq
  rw [length_cons] at hlen
  have hsplit := nodup_cons.mp (hperm.nodup_iff.mpr hnodup)
  constructor
  · intro hl
    obtain ⟨hkey, hnodup⟩ := nodup_cons.mp hl.nodup
    refine ⟨hnodup, fun k hk => ?_, ?_⟩
    · rcases mem_cons.mp (hperm.mem_iff.mpr (hl.subset (mem_cons_of_mem _ hk))) with
        rfl | hrest
      · exact absurd hk hkey
      · exact hrest
    · have hlength := hl.length
      rw [length_cons] at hlength
      omega
  · intro hl
    refine ⟨nodup_cons.mpr ⟨fun hkey => hsplit.1 (hl.subset hkey), hl.nodup⟩, ?_, ?_⟩
    · exact fun k hk => hperm.mem_iff.mp (cons_subset_cons key hl.subset hk)
    · have hlength := hl.length
      rw [length_cons]
      omega

theorem wp_draw {Q : Except Halt (List Bytes) → View F → Prop} {v : View F} (n : ℕ)
    (hnodup : keys.Nodup) (candidates : List Bytes) :
    (draw_candidates n keys candidates).Wp sees Q v ↔
      ∀ l, Draws n keys l → Q (.ok (candidates ++ l)) v := by
  induction n generalizing keys candidates with
  | zero =>
    constructor
    · intro h l hl
      have hnil : l = [] := eq_nil_of_length_eq_zero (hl.length.trans (Nat.zero_min _))
      rw [hnil, append_nil]
      exact h
    · intro h
      have hq := h [] ⟨nodup_nil, nil_subset _, (Nat.zero_min _).symm⟩
      rw [append_nil] at hq
      exact hq
  | succ n ih =>
    unfold draw_candidates
    by_cases hempty : keys = []
    · subst hempty
      constructor
      · intro h l hl
        have hnil : l = [] := eq_nil_of_subset_nil hl.subset
        rw [hnil, append_nil]
        exact h
      · intro h
        have hq := h [] ⟨nodup_nil, nil_subset _, rfl⟩
        rw [append_nil] at hq
        exact hq
    · have hpos : 0 < keys.length := length_pos_of_ne_nil hempty
      rw [if_neg (by simpa using hempty), wp_random]
      dsimp only
      constructor
      · intro h l hl
        cases l with
        | nil =>
          have hlength := hl.length
          rw [length_nil] at hlength
          omega
        | cons key l =>
          -- the key is drawn by its place
          obtain ⟨idx, hidx, rfl⟩ := mem_iff_getElem.mp (hl.subset mem_cons_self)
          obtain ⟨rest, hremove, hperm⟩ := swap_remove_perm hidx
          have hnext := h idx
          rw [Nat.mod_eq_of_lt hidx, hremove] at hnext
          have hrestnodup := (nodup_cons.mp (hperm.nodup_iff.mpr hnodup)).2
          have hq := (ih hrestnodup _).mp hnext l ((draws_cons_iff hnodup hperm).mp hl)
          rw [append_assoc] at hq
          exact hq
      · intro h r
        obtain ⟨rest, hremove, hperm⟩ := swap_remove_perm (Nat.mod_lt r hpos)
        rw [hremove]
        have hrestnodup := (nodup_cons.mp (hperm.nodup_iff.mpr hnodup)).2
        refine (ih hrestnodup _).mpr fun l hl => ?_
        rw [append_assoc]
        exact h _ ((draws_cons_iff hnodup hperm).mpr hl)

/-- A sample of the keys of a map. -/
structure IsSample (samples : ℕ) (m : HashMap Bytes (Entry F)) (l : List Bytes) : Prop where
  nodup : l.Nodup
  known : ∀ k ∈ l, ∃ e, m[k]? = some e
  length : l.length = min samples m.size

theorem draws_iff_sample {samples : ℕ} {a : Arrangement} : Draws samples
    ((arranged a m).map Prod.fst) l ↔ IsSample samples m l := by
  have hmem : ∀ k, k ∈ (arranged a m).map Prod.fst ↔ ∃ e, m[k]? = some e := by
    intro k
    rw [mem_map]
    constructor
    · rintro ⟨⟨k', e⟩, hmem, rfl⟩
      exact ⟨e, (mem_arranged a m).mp hmem⟩
    · rintro ⟨e, he⟩
      exact ⟨(k, e), (mem_arranged a m).mpr he, rfl⟩
  have hlen : ((arranged a m).map Prod.fst).length = m.size := by
    rw [length_map, length_arranged]
  constructor
  · intro h
    exact ⟨h.nodup, fun k hk => (hmem k).mp (h.subset hk), hlen ▸ h.length⟩
  · intro h
    exact ⟨h.nodup, fun k hk => (hmem k).mpr (h.known k hk), hlen.symm ▸ h.length⟩

def candidates (samples : ℕ) (all_keys : List Bytes) : StoreM F (List Bytes) :=
  if all_keys.length ≤ samples then pure all_keys
  else draw_candidates samples all_keys []

/-- The candidates can be any sample, in any order: if the sample is all keys, this is an order in
which the map can be traversed. -/
theorem wp_candidates {Q : Except Halt (List Bytes) → View F → Prop} {v : View F} (samples : ℕ) :
    (∀ a, (candidates samples ((arranged a v.keyspace).map Prod.fst)).Wp sees Q v) ↔
      ∀ l, IsSample samples v.keyspace l → Q (.ok l) v := by
  have hlen : ∀ a, ((arranged a v.keyspace).map Prod.fst).length = v.keyspace.size := by
    intro a
    rw [length_map, length_arranged]
  by_cases hall : v.keyspace.size ≤ samples
  · constructor
    · intro h l hl
      have hkeys : ((arranged .sorted v.keyspace).map Prod.fst).Perm v.keyspace.keys := by
        rw [map_fst_arranged]
        exact List.Perm.refl _
      have hperm : l.Perm v.keyspace.keys := by
        have hdraws := (draws_iff_sample (a := .sorted)).mpr hl
        have hsub := hl.nodup.subperm hdraws.subset
        refine (hsub.perm_of_length_le ?_).trans hkeys
        rw [hlen, hl.length, Nat.min_eq_right hall]
      have ha := h ⟨fun keys => if keys = v.keyspace.keys then l else keys, fun keys => by
        split
        · rename_i heq
          rw [heq]
          exact hperm
        · exact List.Perm.refl _⟩
      unfold candidates at ha
      rw [if_pos ((hlen _).trans_le hall), map_fst_arranged] at ha
      simp only [if_true] at ha
      exact ha
    · intro h a
      unfold candidates
      rw [if_pos ((hlen a).trans_le hall)]
      refine h _ (draws_iff_sample.mp ⟨nodup_arranged a _, List.Subset.refl _, ?_⟩)
      rw [hlen, Nat.min_eq_right hall]
  · have hdraw : ∀ a, (candidates samples ((arranged a v.keyspace).map Prod.fst)).Wp sees Q v ↔
        ∀ l, IsSample samples v.keyspace l → Q (.ok l) v := by
      intro a
      unfold candidates
      rw [if_neg (by rw [hlen]; exact hall), wp_draw samples (nodup_arranged a _) []]
      simp only [draws_iff_sample, nil_append]
    constructor
    · intro h
      exact (hdraw .sorted).mp (h .sorted)
    · intro h a
      exact (hdraw a).mpr h

/-! ## Victims -/

def eligible (policy : EvictionPolicy) (e : Entry F) : Bool :=
  !(policy.is_volatile && e.expires_at.isNone)

theorem not_skipped (h : eligible policy e = true) :
    ¬ (policy.is_volatile && e.expires_at.isNone) = true := by
  intro hskip
  rw [eligible, hskip] at h
  cases h

theorem skipped (h : eligible policy e = false) :
    (policy.is_volatile && e.expires_at.isNone) = true := by
  rw [eligible, Bool.not_eq_false'] at h
  exact h

/-- The policies that go by the number of accesses, and by nothing else. -/
def counts : EvictionPolicy → Bool
  | .AllKeysLfu | .VolatileLfu => true
  | _ => false

def lfu_score (e : Entry F) : ℤ := i64_max - (min e.lfu_counter 255 : ℕ)

/-- A score that the entry can get; the clock and chance can give the same to all. -/
def tie (policy : EvictionPolicy) (e : Entry F) : ℤ :=
  match policy with
  | .AllKeysLfu | .VolatileLfu => lfu_score e
  | .AllKeysRandom | .VolatileRandom => -2 ^ 63
  | _ => i64_max

section Victims

variable {Q : Except Halt (Option (Bytes × ℤ)) → View F → Prop} {v : View F}
  {policy : EvictionPolicy} (hpolicy : policy ≠ .Noeviction)

include hpolicy

variable {e : Entry F} {l : List Bytes} {victim : Option (Bytes × ℤ)}

theorem wp_score {R : Except Halt α → View F → Prop} {f : ℤ → StoreM F α}
    (h : ∀ score, (counts policy = true → score = lfu_score e) → (f score).Wp sees R v) :
    (eviction_score policy e >>= f).Wp sees R v := by
  unfold eviction_score
  cases policy with
  | Noeviction => exact absurd rfl hpolicy
  | AllKeysLru | VolatileLru => exact wp_now.mpr fun t => h _ fun hc => by cases hc
  | AllKeysLfu | VolatileLfu => exact h _ fun _ => rfl
  | AllKeysRandom | VolatileRandom => exact wp_random.mpr fun n => h _ fun hc => by cases hc
  | VolatileTtl =>
    cases e.expires_at with
    | none => exact h _ fun hc => by cases hc
    | some t => exact wp_now.mpr fun t => h _ fun hc => by cases hc

theorem wp_score_tie {R : Except Halt α → View F → Prop} {f : ℤ → StoreM F α}
    (he : eligible policy e = true) (h : (eviction_score policy e >>= f).Wp sees R v) :
    (f (tie policy e)).Wp sees R v := by
  unfold eviction_score at h
  cases policy with
  | Noeviction => exact absurd rfl hpolicy
  | AllKeysLru | VolatileLru =>
    have hlate := wp_now.mp h (e.last_access + (2 ^ 63 - 1))
    rw [Nat.add_sub_cancel_left] at hlate
    exact hlate
  | AllKeysLfu | VolatileLfu => exact h
  | AllKeysRandom | VolatileRandom => exact wp_random.mp h 0
  | VolatileTtl =>
    cases hexpires : e.expires_at with
    | none => simp [eligible, EvictionPolicy.is_volatile, hexpires] at he
    | some t =>
      rw [hexpires] at h
      have hlate := wp_now.mp h t
      rw [Nat.sub_self] at hlate
      exact hlate

/-- What is known of the victim when part of the candidates has been looked at. -/
def Wins (policy : EvictionPolicy) (m : HashMap Bytes (Entry F)) (l : List Bytes) :
    Option (Bytes × ℤ) → Prop
  | none => ∀ k ∈ l, ∀ e, m[k]? = some e → eligible policy e = false
  | some (k, score) => k ∈ l ∧ ∃ e, m[k]? = some e ∧ eligible policy e = true ∧
      (counts policy = true → score = lfu_score e ∧
        ∀ j ∈ l, ∀ e', m[j]? = some e' → eligible policy e' = true → lfu_score e' ≤ score)

omit hpolicy in
theorem wins_concat {m : HashMap Bytes (Entry F)} (h : Wins policy m l victim) {key : Bytes}
    (hkey : ∀ e, m[key]? = some e → eligible policy e = true →
      ∃ k score, victim = some (k, score) ∧ (counts policy = true → lfu_score e ≤ score)) :
    Wins policy m (l ++ [key]) victim := by
  cases victim with
  | none =>
    intro k hk e he
    rcases mem_append.mp hk with hk | hk
    · exact h k hk e he
    · rw [mem_singleton.mp hk] at he
      by_contra heligible
      obtain ⟨_, _, hnone, -⟩ := hkey e he (Bool.not_eq_false _ ▸ heligible)
      cases hnone
  | some best =>
    obtain ⟨hmem, e, he, heligible, hbest⟩ := h
    refine ⟨mem_append_left _ hmem, e, he, heligible, fun hc => ⟨(hbest hc).1, ?_⟩⟩
    intro j hj e' he' heligible'
    rcases mem_append.mp hj with hj | hj
    · exact (hbest hc).2 j hj e' he' heligible'
    · rw [mem_singleton.mp hj] at he'
      obtain ⟨k, score, heq, hle⟩ := hkey e' he' heligible'
      cases heq
      exact hle hc

omit hpolicy in
theorem wins_better {m : HashMap Bytes (Entry F)}
    (h : Wins policy m l victim) {key : Bytes} {score : ℤ} (he : m[key]? = some e)
    (heligible : eligible policy e = true) (hscore : counts policy = true → score = lfu_score e)
    (hbetter : ∀ k best, victim = some (k, best) → best < score) :
    Wins policy m (l ++ [key]) (some (key, score)) := by
  refine ⟨mem_append_right _ (mem_singleton_self key), e, he, heligible, fun hc => ?_⟩
  refine ⟨hscore hc, fun j hj e' he' heligible' => ?_⟩
  rcases mem_append.mp hj with hj | hj
  · cases victim with
    | none =>
      rw [h j hj e' he'] at heligible'
      cases heligible'
    | some best =>
      obtain ⟨-, e₀, -, -, hbest⟩ := h
      exact ((hbest hc).2 j hj e' he' heligible').trans (hbetter best.1 best.2 rfl).le
  · rw [mem_singleton.mp hj, he] at he'
    cases he'
    exact (hscore hc).ge

theorem wp_choose {seen : List Bytes} (hseen : Wins policy v.keyspace seen victim)
    (h : ∀ r, Wins policy v.keyspace (seen ++ l) r → Q (.ok r) v) :
    (choose_victim policy l victim).Wp sees Q v := by
  induction l generalizing seen victim with
  | nil =>
    rw [append_nil] at h
    exact h victim hseen
  | cons key l ih =>
    rw [append_cons] at h
    unfold choose_victim
    rw [wp_peek]
    cases hkey : v.keyspace[key]? with
    | none =>
      refine ih (wins_concat hseen fun e he => ?_) h
      rw [hkey] at he
      cases he
    | some e =>
      dsimp only
      by_cases heligible : eligible policy e = true
      · rw [if_neg (not_skipped heligible)]
        refine wp_score hpolicy fun score hscore => ?_
        cases victim with
        | none =>
          exact ih (wins_better hseen hkey heligible hscore fun _ _ hnone => by cases hnone) h
        | some best =>
          refine Prog.Wp.ite (fun hgt => ?_) fun hle => ?_
          · refine ih (wins_better hseen hkey heligible hscore fun _ _ hbest => ?_) h
            cases hbest
            exact hgt
          · refine ih (wins_concat hseen fun e' he' _ => ⟨best.1, best.2, rfl, fun hc => ?_⟩) h
            rw [hkey] at he'
            cases he'
            rw [← hscore hc]
            exact not_lt.mp hle
      · rw [if_pos (skipped (Bool.eq_false_iff.mpr heligible))]
        refine ih (wins_concat hseen fun e' he' heligible' => ?_) h
        rw [hkey] at he'
        cases he'
        exact absurd heligible' heligible

theorem choose_keeps {k : Bytes} {score : ℤ}
    (hle : ∀ j ∈ l, ∀ e, v.keyspace[j]? = some e → eligible policy e = true → tie policy e ≤ score)
    (h : (choose_victim policy l (some (k, score))).Wp sees Q v) :
    Q (.ok (some (k, score))) v := by
  induction l with
  | nil => exact h
  | cons key l ih =>
    have ih := ih fun j hj => hle j (mem_cons_of_mem _ hj)
    unfold choose_victim at h
    rw [wp_peek] at h
    cases hkey : v.keyspace[key]? with
    | none =>
      rw [hkey] at h
      exact ih h
    | some e =>
      rw [hkey] at h
      dsimp only at h
      by_cases heligible : eligible policy e = true
      · rw [if_neg (not_skipped heligible)] at h
        have htie := wp_score_tie hpolicy heligible h
        rw [if_neg (not_lt.mpr (hle key mem_cons_self e hkey heligible))] at htie
        exact ih htie
      · rw [if_pos (skipped (Bool.eq_false_iff.mpr heligible))] at h
        exact ih h

theorem choose_first {k : Bytes} (he : v.keyspace[k]? = some e)
    (heligible : eligible policy e = true)
    (hle : ∀ j ∈ l, ∀ e', v.keyspace[j]? = some e' → eligible policy e' = true →
      tie policy e' ≤ tie policy e) (h : (choose_victim policy (k :: l) none).Wp sees Q v) :
    Q (.ok (some (k, tie policy e))) v := by
  unfold choose_victim at h
  rw [wp_peek, he] at h
  dsimp only at h
  rw [if_neg (not_skipped heligible)] at h
  exact choose_keeps hpolicy hle (wp_score_tie hpolicy heligible h)

omit hpolicy in
theorem choose_none (hnone : ∀ k ∈ l, ∀ e, v.keyspace[k]? = some e → eligible policy e = false)
    (h : (choose_victim policy l none).Wp sees Q v) : Q (.ok none) v := by
  induction l with
  | nil => exact h
  | cons key l ih =>
    have ih := ih fun j hj => hnone j (mem_cons_of_mem _ hj)
    unfold choose_victim at h
    rw [wp_peek] at h
    cases hkey : v.keyspace[key]? with
    | none =>
      rw [hkey] at h
      exact ih h
    | some e =>
      rw [hkey] at h
      dsimp only at h
      have heligible := hnone key mem_cons_self e hkey
      rw [if_pos (skipped heligible)] at h
      exact ih h

end Victims

/-! ## The check -/

def out_of_memory : Halt := .Err "ERR OOM command not allowed when used memory > 'maxmemory'."

def evict : Option (Bytes × ℤ) → StoreM F Unit
  | some (key, _) => do
    let _ ← access key fun _ => none
    call .count_evicted
  | none => return ()

theorem maybe_evict_eq : (maybe_evict : StoreM F Unit) =
    eviction_config >>= fun config =>
      if config.maxmemory = 0 then pure ()
      else iter >>= fun entries =>
        if total entries ≤ config.maxmemory then pure ()
        else if config.policy = .Noeviction then .fail out_of_memory
        else iter >>= fun entries =>
          if (entries.map Prod.fst).isEmpty then pure ()
          else candidates (max config.maxmemory_samples 1) (entries.map Prod.fst) >>= fun l =>
            choose_victim config.policy l none >>= evict := by
  refine congrArg (eviction_config >>= ·) (funext fun config => ?_)
  refine if_congr Iff.rfl rfl ?_
  refine congrArg (iter >>= ·) (funext fun entries => ?_)
  refine if_congr Iff.rfl rfl ?_
  by_cases hpolicy : config.policy = .Noeviction
  · simp only [hpolicy, if_true]
    rfl
  · simp only [hpolicy, if_false]
    refine congrArg (iter >>= ·) (funext fun entries => ?_)
    refine if_congr Iff.rfl rfl ?_
    have hevict : ∀ l : List Bytes, (choose_victim config.policy l none >>= fun victim =>
        match victim with
        | some (key, _) => do
          let _ ← access key fun _ => none
          call .count_evicted
        | none => return ()) = (choose_victim config.policy l none >>= evict : StoreM F Unit) := by
      intro l
      refine congrArg (choose_victim config.policy l none >>= ·) (funext fun victim => ?_)
      rcases victim with _ | ⟨key, score⟩
      · rfl
      · rfl
    simp only [candidates, Prog.ite_bind, ← hevict] <;> rfl

/-- A check does what it is for: it succeeds with the limit kept, or fails with the limit exceeded. -/
def Keeps (limit : ℕ) : Except Halt Unit → View F → Prop
  | .ok _, v => used v.keyspace ≤ limit
  | .error e, v => e = out_of_memory ∧ limit < used v.keyspace

/-- No entry of the sample that may be evicted has a lower counter, if the policy looks at it. -/
def Unbeaten (policy : EvictionPolicy) (m : HashMap Bytes (Entry F)) (l : List Bytes)
    (e : Entry F) : Prop :=
  counts policy = true → ∀ j ∈ l, ∀ e', m[j]? = some e' → eligible policy e' = true →
    min e.lfu_counter 255 ≤ min e'.lfu_counter 255

/-- One of the sample may be evicted, and whichever it is, one is enough. -/
structure OneIsEnough (config : EvictionConfig) (m : HashMap Bytes (Entry F)) (l : List Bytes) :
    Prop where
  some_victim : ∃ k ∈ l, ∃ e, m[k]? = some e ∧ eligible config.policy e = true
  every_victim : ∀ k ∈ l, ∀ e, m[k]? = some e → eligible config.policy e = true →
    Unbeaten config.policy m l e → used m ≤ config.maxmemory + e.memory_usage k.length

/-- The limit is kept already, or it is one, and either nothing is evicted or one key is enough. -/
def Manageable (config : EvictionConfig) (m : HashMap Bytes (Entry F)) : Prop :=
  used m ≤ config.maxmemory ∨ 0 < config.maxmemory ∧ (config.policy = .Noeviction ∨
    ∀ l, IsSample (max config.maxmemory_samples 1) m l → OneIsEnough config m l)

theorem tie_le_of_unbeaten (h : Unbeaten policy m l e) :
    ∀ j ∈ l, ∀ e', m[j]? = some e' → eligible policy e' = true → tie policy e' ≤ tie policy e := by
  intro j hj e' he' heligible
  unfold tie
  split
  · have := h rfl j hj e' he' heligible
    unfold lfu_score
    omega
  · have := h rfl j hj e' he' heligible
    unfold lfu_score
    omega
  · exact le_refl _
  · exact le_refl _
  · exact le_refl _

theorem keeps_evict {limit : ℕ} {v : View F} {k : Bytes}
    (he : v.keyspace[k]? = some e) (score : ℤ) : (evict (some (k, score))).Wp sees (Keeps limit) v ↔
      used v.keyspace ≤ limit + e.memory_usage k.length := by
  unfold evict
  have hcount : ∀ v' : View F, (call .count_evicted).Wp sees (Keeps limit) v' ↔
      used v'.keyspace ≤ limit := by
    intro v'
    constructor
    · intro h
      exact h () v' rfl
    · rintro h _ v'' rfl
      exact h
  have hused := used_erase he
  rw [wp_access, hcount, alter_eq_erase rfl]
  constructor
  · intro h
    have h' : used (v.keyspace.erase k) ≤ limit := h
    omega
  · intro h
    show used (v.keyspace.erase k) ≤ limit
    omega

/-- **One check.** Whatever the clock, chance and the order of the map say, a check does what it is
for, if and only if the store is manageable. -/
theorem wp_maybe_evict_iff {v : View F} :
    maybe_evict.Wp sees (Keeps v.config.maxmemory) v ↔
      Manageable v.config v.keyspace := by
  rw [maybe_evict_eq, wp_config]
  by_cases hfits : used v.keyspace ≤ v.config.maxmemory
  · -- nothing is evicted
    refine iff_of_true ?_ (.inl hfits)
    refine Prog.Wp.ite (fun _ => hfits) fun _ => wp_iter.mpr fun a => ?_
    rw [total_arranged, if_pos hfits]
    exact hfits
  by_cases hlimit : v.config.maxmemory = 0
  · rw [if_pos hlimit]
    refine iff_of_false hfits ?_
    rintro (h | ⟨hpos, -⟩)
    · exact hfits h
    · exact absurd hlimit hpos.ne'
  rw [if_neg hlimit, wp_iter]
  simp only [total_arranged, if_neg hfits]
  by_cases hpolicy : v.config.policy = .Noeviction
  · simp only [hpolicy, if_true]
    exact iff_of_true (fun _ => ⟨rfl, not_le.mp hfits⟩)
      (.inr ⟨Nat.pos_of_ne_zero hlimit, .inl hpolicy⟩)
  simp only [hpolicy, if_false, wp_iter]
  have hkeys : ∀ a, ((arranged a v.keyspace).map Prod.fst).isEmpty = false := by
    intro a
    rw [isEmpty_eq_false_iff]
    intro hnil
    have hnone : arranged a v.keyspace = [] := map_eq_nil_iff.mp hnil
    have hzero := total_arranged a v.keyspace
    rw [hnone] at hzero
    exact hfits (hzero ▸ Nat.zero_le _)
  simp only [hkeys, Bool.false_eq_true, if_false, Prog.wp_bind]
  have hmanageable : Manageable v.config v.keyspace ↔
      ∀ l, IsSample (max v.config.maxmemory_samples 1) v.keyspace l →
        OneIsEnough v.config v.keyspace l := by
    constructor
    · rintro (h | ⟨-, h | h⟩)
      · exact absurd h hfits
      · exact absurd h hpolicy
      · exact h
    · exact fun h => .inr ⟨Nat.pos_of_ne_zero hlimit, .inr h⟩
  have : Nonempty Arrangement := ⟨.sorted⟩
  rw [hmanageable, forall_const, wp_candidates]
  constructor
  · intro h l hl
    constructor
    · by_contra hno
      refine hfits (choose_none (fun k hk e he => ?_) (Prog.wp_bind.mp (h l hl)))
      by_contra heligible
      exact hno ⟨k, hk, e, he, Bool.not_eq_false _ ▸ heligible⟩
    · intro k hk e he heligible hunbeaten
      -- the sample can be drawn with this key at its head
      have hperm := perm_cons_erase hk
      have hfirst : IsSample (max v.config.maxmemory_samples 1) v.keyspace (k :: l.erase k) :=
        ⟨hperm.nodup_iff.mp hl.nodup, fun j hj => hl.known j (hperm.mem_iff.mpr hj),
          hperm.length_eq ▸ hl.length⟩
      have hchosen := choose_first hpolicy he heligible
        (fun j hj => tie_le_of_unbeaten hunbeaten j (mem_of_mem_erase hj))
        (Prog.wp_bind.mp (h _ hfirst))
      exact (keeps_evict he (tie v.config.policy e)).mp hchosen
  · intro h l hl
    obtain ⟨⟨k₀, hk₀, e₀, he₀, heligible₀⟩, hevery⟩ := h l hl
    refine Prog.wp_bind.mpr ?_
    have hstart : Wins v.config.policy v.keyspace [] none := fun k hk => by cases hk
    refine wp_choose hpolicy hstart fun r hr => ?_
    rcases r with _ | ⟨k, score⟩
    · rw [hr k₀ hk₀ e₀ he₀] at heligible₀
      cases heligible₀
    · obtain ⟨hk, e, he, heligible, hbest⟩ := hr
      refine (keeps_evict he score).mpr (hevery k hk e he heligible fun hc j hj e' he' heligible' => ?_)
      have hle := (hbest hc).2 j hj e' he' heligible'
      rw [(hbest hc).1] at hle
      unfold lfu_score at hle
      omega

end Check

/-! ## Runs of SET -/

section Runs

open Strings Zset

variable {F : Type} [Score F]

/-- SET up to the check: what it will write and reply, or the reply it returns without a check. -/
def set_before (args : List Bytes) :
    StoreM F (Except (Reply F) (Bytes × Bytes × SetOptions × Option Bytes)) :=
  match args with
  | key :: value :: opts => do
    match ← set_options key opts ⟨none, false, false, false⟩ with
    | .error reply => return .error reply
    | .ok opts => do
      let key_exists ← exists_key key
      if opts.nx && key_exists then
        if opts.get then return .error (← read_string key bull null_bulk)
        else return .error null_bulk
      else if opts.xx && !key_exists then return .error null_bulk
      else return .ok (key, value, opts, ← old_value key opts.get)
  | _ => return .error (.Error (wrong_number "set"))

/-- SET from the check on. -/
def set_behind : Except (Reply F) (Bytes × Bytes × SetOptions × Option Bytes) → StoreM F (Reply F)
  | .error reply => return reply
  | .ok (key, value, opts, old) => do
    maybe_evict
    set key (.String value) opts.ttl
    return if opts.get then .BulkString old else ok

theorem cmd_set_eq (args : List Bytes) :
    (cmd_set args : StoreM F (Reply F)) = set_before args >>= set_behind := by
  unfold cmd_set set_before
  rcases args with _ | ⟨key, _ | ⟨value, opts⟩⟩
  · rfl
  · rfl
  rw [Prog.bind_assoc]
  refine congrArg (set_options key opts _ >>= ·) (funext fun r => ?_)
  cases r with
  | error reply => rfl
  | ok opts =>
    rw [Prog.bind_assoc]
    refine congrArg (exists_key key >>= ·) (funext fun found => ?_)
    simp only [Prog.ite_bind, Prog.bind_assoc, Prog.pure'_bind, set_behind, bind_pure]

def check_world (args : List Bytes) (w : World F) : Option (World F) :=
  match (set_before args).run World.step w with
  | (.ok (.ok _), w') => some w'
  | _ => none

/-- The world behind a SET. -/
def set_step (w : World F) (args : List Bytes) : World F := ((cmd_set args).run World.step w).2

/-- If SET makes the check, the check does what it is for. -/
def Checked (w : World F) (args : List Bytes) : Prop :=
  ∀ w', check_world args w = some w' → Keeps w'.store.evict_config.maxmemory
    (maybe_evict.run World.step w').1 (maybe_evict.run World.step w').2.view

/-- If SET makes the check, it finds a store that is manageable. -/
def ManageableAt (w : World F) (args : List Bytes) : Prop :=
  ∀ w', check_world args w = some w' → Manageable w'.store.evict_config w'.store.keyspace

theorem check_world_refill {args : List Bytes} {w w' : World F} (h : check_world args w = some w')
    (env : Env) : ∃ env', check_world args (w.under env') = some (w'.under env) := by
  obtain ⟨env', hrun⟩ := run_refill (set_before args) w env
  refine ⟨env', ?_⟩
  unfold check_world at h ⊢
  rw [hrun]
  rcases hbefore : (set_before args).run World.step w with ⟨r, w₁⟩
  rw [hbefore] at h
  split at h
  · rename_i heq
    cases heq
    cases h
    rfl
  · cases h

/-- The surroundings of a run can be chosen again at each SET. -/
theorem along_under_iff {C D : World F → List Bytes → Prop}
    (h : ∀ (w : World F) args, (∀ env, C (w.under env) args) ↔ ∀ env, D (w.under env) args) (w : World F)
    (sets : List (List Bytes)) :
    (∀ env, Along set_step C (w.under env) sets) ↔ ∀ env, Along set_step D (w.under env) sets := by
  induction sets generalizing w with
  | nil => exact Iff.rfl
  | cons args sets ih =>
    have hrest : ∀ {E : World F → List Bytes → Prop},
        (∀ env, Along set_step E (w.under env) (args :: sets)) →
          ∀ env₀ env, Along set_step E ((set_step (w.under env₀) args).under env) sets := by
      intro E hall env₀ env
      obtain ⟨env', hrun⟩ := run_refill (cmd_set args) (w.under env₀) env
      have hstep : set_step (w.under env') args = (set_step (w.under env₀) args).under env :=
        congrArg Prod.snd hrun
      have htail := (hall env').2
      rw [hstep] at htail
      exact htail
    constructor
    · intro hall env
      exact ⟨(h w args).mp (fun env => (hall env).1) env,
        (ih (set_step (w.under env) args)).mp (hrest hall env) (set_step (w.under env) args).env⟩
    · intro hall env
      exact ⟨(h w args).mpr (fun env => (hall env).1) env,
        (ih (set_step (w.under env) args)).mpr (hrest hall env) (set_step (w.under env) args).env⟩

/-- **The memory limit.** In every surroundings and at every SET of a run the check does what it is
for, if and only if in every surroundings every check of the run finds a store that is
manageable. -/
theorem memory_limit_iff (w : World F) (sets : List (List Bytes)) :
    (∀ env, Along set_step Checked (w.under env) sets) ↔
      ∀ env, Along set_step ManageableAt (w.under env) sets := by
  refine along_under_iff (fun w args => ?_) w sets
  constructor
  · intro h env w' hw'
    have hwp : maybe_evict.Wp sees
        (Keeps w'.store.evict_config.maxmemory) w'.view := by
      refine wp_sees_iff.mpr fun env' => ?_
      obtain ⟨start, hstart⟩ := check_world_refill hw' env'
      exact h start _ hstart
    exact wp_maybe_evict_iff.mp hwp
  · intro h env w' hw'
    exact wp_sees_iff.mp (wp_maybe_evict_iff.mpr (h env w' hw')) w'.env

/-- A store that holds two keys, of 65 bytes each, and is to hold ten bytes. -/
def full_world : World Resp.Infinity where
  store :=
    { keyspace := (∅ : HashMap Bytes (Entry Resp.Infinity)).insert (as_bytes "a")
        ⟨.String [], none, 0, 1, 1⟩ |>.insert (as_bytes "b") ⟨.String [], none, 0, 1, 1⟩
      evicted_keys := 0
      evict_config := ⟨10, .AllKeysRandom, 5⟩
      watchers := ∅
      dirty_count := 0 }
  env := .still
  channels := 0
  sent := []

/-- One of the keys is evicted for a SET, and the check succeeds. -/
theorem memory_limit_exceeded :
    (check_world (["c", "v"].map as_bytes) full_world).map
        (fun w => (maybe_evict.run World.step w).1.toOption) = some (some ()) ∧
      (check_world (["c", "v"].map as_bytes) full_world).map
        (fun w => (w.store.evict_config.maxmemory, used w.store.keyspace,
          used (maybe_evict.run World.step w).2.store.keyspace)) = some (10, 130, 65) := by
  constructor
  · decide +kernel
  · decide +kernel

end Runs

end ValkeyRs.Eviction
