/-
The order of a sorted set.

A sorted set is kept twice, by member and by score. The commands about the order go through the
buckets of scores: ranks count what comes first, ranges and pops take a piece of the whole listing.
Over consistent indexes all of them speak of one list, the entries in the order of scores and, within
a score, of members; that list has every member once.
-/
import ValkeyRs.FullIteration
import ValkeyRs.ZsetCalls

set_option autoImplicit false

open ValkeyRs Text Storage Scan List Option

namespace ValkeyRs.Zset

variable {F : Type} [Score F]

/-! ## Ranks -/

/-- The loop of `zset_rank` and `zset_rev_rank` over the buckets, in the order they are taken. -/
def rank_loop (target : F) (member : Bytes) : List (F × List Bytes) → ℕ → Option ℕ
  | [], _ => none
  | (score, members) :: buckets, rank =>
    if score = target then
      match members.idxOf? member with
      | some i => some (rank + i)
      | none => rank_loop target member buckets (rank + members.length)
    else rank_loop target member buckets (rank + members.length)

def zset_rank (zset : ZSetData F) (member : Bytes) : Option ℕ := do
  let target ← zset.members[member]?
  rank_loop target member (zset.scores.toList.map fun (s, b) => (s, b.toList)) 0

def zset_rev_rank (zset : ZSetData F) (member : Bytes) : Option ℕ := do
  let target ← zset.members[member]?
  rank_loop target member (zset.scores.toList.reverse.map fun (s, b) => (s, b.toList.reverse)) 0

def listed (buckets : List (F × List Bytes)) : List (Bytes × F) :=
  buckets.flatMap fun (s, members) => members.map (·, s)

omit [Score F] in
theorem idxOf?_bucket [DecidableEq F] (members : List Bytes) (s target : F) (member : Bytes) :
    (members.map (·, s)).idxOf? (member, target) =
      if s = target then members.idxOf? member else none := by
  induction members with
  | nil => simp
  | cons m members ih =>
    by_cases hs : s = target
    · simp_all [List.idxOf?_cons]
    · simp_all [List.idxOf?_cons]

theorem rank_loop_eq (target : F) (member : Bytes) (buckets : List (F × List Bytes)) (rank : ℕ) :
    rank_loop target member buckets rank =
      ((listed buckets).idxOf? (member, target)).map (rank + ·) := by
  induction buckets generalizing rank with
  | nil => simp [rank_loop, listed]
  | cons bucket buckets ih =>
    obtain ⟨s, members⟩ := bucket
    have hsplit : (listed ((s, members) :: buckets)).idxOf? (member, target) =
        ((members.map (·, s)).idxOf? (member, target)).or
          (((listed buckets).idxOf? (member, target)).map (· + members.length)) := by
      simp [listed, List.idxOf?, List.findIdx?_append]
    rw [hsplit, idxOf?_bucket, rank_loop, ih]
    by_cases hs : s = target
    · simp only [if_pos hs]
      cases members.idxOf? member with
      | some i => rfl
      | none => simp [Function.comp_def, Nat.add_assoc, Nat.add_comm members.length]
    · simp [hs, Function.comp_def, Nat.add_assoc, Nat.add_comm members.length]

variable {z : ZSetData F}

theorem zset_rank_eq (m : Bytes) :
    zset_rank z m = z.members[m]?.bind fun s => (zset_entries z).idxOf? (m, s) := by
  have hlist : listed (z.scores.toList.map fun (s, b) => (s, b.toList)) = zset_entries z := by
    simp [listed, zset_entries, flatMap_map]
  simp [zset_rank, rank_loop_eq, hlist]

theorem zset_rev_rank_eq (m : Bytes) :
    zset_rev_rank z m = z.members[m]?.bind fun s => (zset_entries z).reverse.idxOf? (m, s) := by
  have hlist : listed (z.scores.toList.reverse.map fun (s, b) => (s, b.toList.reverse)) =
      (zset_entries z).reverse := by
    unfold listed zset_entries
    rw [flatMap_map, reverse_flatMap]
    simp [Function.comp_def, map_reverse]
  simp only [zset_rev_rank, rank_loop_eq, hlist, Nat.zero_add, Option.map_id']
  rfl

/-! ## The listing -/

theorem mem_listing (h : Consistent z) {m : Bytes} {s : F} :
    (m, s) ∈ zset_entries z ↔ z.members[m]? = some s :=
  mem_zset_entries.trans (h.index m s)

theorem nodup_zset_entries : (zset_entries z).Nodup := by
  refine List.Pairwise.imp ?_ (zset_entries_sorted z)
  rintro a b hab rfl
  exact entry_lt_asymm hab hab

theorem length_zset_entries (h : Consistent z) : (zset_entries z).length = z.members.size := by
  -- the members of the listing are the keys of the map, each once
  have hnodup : ((zset_entries z).map Prod.fst).Nodup := by
    refine List.Nodup.map_on ?_ nodup_zset_entries
    rintro ⟨m, s⟩ hs ⟨m', s'⟩ hs' (rfl : m = m')
    have heq := ((mem_listing h).mp hs).symm.trans ((mem_listing h).mp hs')
    rw [Option.some.inj heq]
  have hkeys : ((zset_entries z).map Prod.fst).Perm z.members.keys := by
    refine (perm_ext_iff_of_nodup hnodup Std.ExtTreeMap.nodup_keys).mpr fun m => ?_
    rw [Std.ExtTreeMap.mem_keys, Std.ExtTreeMap.mem_iff_isSome_getElem?, isSome_iff_exists]
    simp [mem_listing h]
  rw [← Std.ExtTreeMap.length_keys, ← hkeys.length_eq, length_map]

omit [Score F] in
theorem entries_range_one {l : List (Bytes × F)} {r : ℕ} (h : r < l.length) :
    entries_range l r r = [l[r]] := by
  have hne : l.length ≠ 0 := by omega
  have hidx : norm_idx r l.length = r := if_neg (by omega)
  simp [entries_range, hidx, hne, Nat.not_le.mpr h, take_one_drop_eq_of_lt_length h]

omit [Score F] in
theorem entries_range_all (l : List (Bytes × F)) : entries_range l 0 (-1) = l := by
  by_cases hnil : l = []
  · simp [entries_range, hnil]
  · have hpos := length_pos_of_ne_nil hnil
    have hlast : (max ((l.length : ℤ) + -1) 0).toNat = l.length - 1 := by omega
    have hall : l.length - 1 + 1 = l.length := by omega
    simp [entries_range, norm_idx, hnil, hlast, hall]

omit [Score F] in
theorem idxOf?_getElem [DecidableEq F] {l : List (Bytes × F)} (hl : l.Nodup) {i : ℕ}
    (hi : i < l.length) : l.idxOf? l[i] = some i := by
  refine List.idxOf?_eq_some_iff.mpr ⟨hi, rfl, fun j hj heq => ?_⟩
  exact hj.ne (hl.getElem_inj_iff.mp heq)

theorem rank_of_member (h : Consistent z) {m : Bytes} {s : F} (hm : z.members[m]? = some s) :
    ∃ r, ∃ hr : r < (zset_entries z).length, (zset_entries z)[r] = (m, s) ∧
      zset_rank z m = some r ∧ zset_rev_rank z m = some ((zset_entries z).length - 1 - r) := by
  obtain ⟨r, hr, hat⟩ := getElem_of_mem ((mem_listing h).mpr hm)
  refine ⟨r, hr, hat, ?_, ?_⟩
  · rw [zset_rank_eq, hm, bind_some, ← hat]
    exact idxOf?_getElem nodup_zset_entries hr
  · have hlt : (zset_entries z).length - 1 - r < (zset_entries z).reverse.length := by
      rw [length_reverse]
      omega
    have hback : (zset_entries z).length - 1 - ((zset_entries z).length - 1 - r) = r := by omega
    have hrev : (zset_entries z).reverse[(zset_entries z).length - 1 - r] = (m, s) := by
      simp only [getElem_reverse, hback, hat]
    rw [zset_rev_rank_eq, hm, bind_some, ← hrev]
    exact idxOf?_getElem (nodup_reverse.mpr nodup_zset_entries) hlt

/-- **Ranks.** Over consistent indexes every member stands at its rank, ranks and reverse ranks mirror
each other, no two members have one rank, and the ranges over everything list the members in their
order and the other way round. -/
theorem ranks_coherent (h : Consistent z) :
    (∀ (m : Bytes) (s : F), z.members[m]? = some s → ∃ r < z.members.size,
      zset_rank z m = some r ∧ zset_range z r r = [(m, s)] ∧
        zset_rev_rank z m = some (z.members.size - 1 - r)) ∧
    (∀ m m' r, zset_rank z m = some r → zset_rank z m' = some r → m = m') ∧
    (∀ m s, (m, s) ∈ zset_range z 0 (-1) ↔ z.members[m]? = some s) ∧
    (zset_range z 0 (-1)).Pairwise entry_lt ∧
    zset_rev_range z 0 (-1) = (zset_range z 0 (-1)).reverse := by
  unfold zset_range zset_rev_range
  simp only [entries_range_all]
  refine ⟨fun m s hm => ?_, fun m m' r hm hm' => ?_, fun m s => mem_listing h,
    zset_entries_sorted z, trivial⟩
  · obtain ⟨r, hr, hat, hrank, hrev⟩ := rank_of_member h hm
    rw [length_zset_entries h] at hrev
    refine ⟨r, length_zset_entries h ▸ hr, hrank, ?_, hrev⟩
    rw [entries_range_one hr, hat]
  · have hsome : ∀ {x : Bytes}, zset_rank z x = some r → ∃ s, z.members[x]? = some s := by
      intro x hx
      rw [zset_rank_eq, bind_eq_some_iff] at hx
      exact ⟨_, hx.choose_spec.1⟩
    obtain ⟨s, hs⟩ := hsome hm
    obtain ⟨s', hs'⟩ := hsome hm'
    obtain ⟨r₁, hr₁, hat, hrank, -⟩ := rank_of_member h hs
    obtain ⟨r₂, hr₂, hat', hrank', -⟩ := rank_of_member h hs'
    cases hm.symm.trans hrank
    cases hm'.symm.trans hrank'
    exact congrArg Prod.fst (hat.symm.trans hat')

theorem ranks_coherent_one :
    let z : ZSetData Resp.Infinity := ZSetData.new.add (as_bytes "a") .pos
    Consistent z ∧ ∃ r < z.members.size, zset_rank z (as_bytes "a") = some r ∧
      zset_range z r r = [(as_bytes "a", .pos)] ∧
        zset_rev_rank z (as_bytes "a") = some (z.members.size - 1 - r) :=
  ⟨consistent_new.add _ _, (ranks_coherent (consistent_new.add _ _)).1 _ _
    Std.ExtTreeMap.getElem?_insert_self⟩

/-! ## ZADD -/

/-- The conditions under which a pair takes effect on a member with the score `old`, if it has
one. -/
def TakesEffect (flags : ZaddFlags) (score : F) (old : Option F) : Prop :=
  ¬ (flags.nx = true ∧ old ≠ none) ∧ ¬ (flags.xx = true ∧ old = none) ∧
    ¬ (flags.gt = true ∧ ∃ o, old = some o ∧ o ≥ score) ∧
    ¬ (flags.lt = true ∧ ∃ o, old = some o ∧ o ≤ score)

theorem zadd_should_iff {flags : ZaddFlags} {score : F} {old : Option F} :
    zadd_should flags score old = true ↔ TakesEffect flags score old := by
  cases old with
  | none => simp [zadd_should, TakesEffect]
  | some o => simp [zadd_should, TakesEffect]; grind

instance (flags : ZaddFlags) (score : F) (old : Option F) :
    Decidable (TakesEffect flags score old) := decidable_of_iff _ zadd_should_iff

/-- The pairs applied one after the other to the scores of the members, and how many of them added a
member or changed a score. -/
def add_pairs (flags : ZaddFlags) : List (F × Bytes) → (Bytes → Option F) → (Bytes → Option F) × ℕ
  | [], scores => (scores, 0)
  | (s, m) :: pairs, scores =>
    if TakesEffect flags s (scores m) then
      let (after, count) := add_pairs flags pairs (Function.update scores m (some s))
      (after, if scores m = some s then count else count + 1)
    else add_pairs flags pairs scores

/-- The pairs in the arguments, if every score can be read. -/
def read_pairs : List Bytes → Option (List (F × Bytes))
  | s :: m :: rest => do
    let score ← (parse_score s : Except Halt F).toOption
    return (score, m) :: (← read_pairs rest)
  | _ => some []

theorem zadd_pairs_cons {s : Bytes} {score : F} (hs : parse_score s = .ok score) (flags : ZaddFlags)
    (m : Bytes) (rest : List Bytes) (z : ZSetData F) (n : ℕ) :
    zadd_pairs flags (s :: m :: rest) z n =
      if TakesEffect flags score z.members[m]? then zadd_pairs flags rest (z.add m score)
        (if z.members[m]? = some score then n else n + 1)
      else zadd_pairs flags rest z n := by
  rw [zadd_pairs, hs]
  simp only [← zadd_should_iff]
  rfl

theorem zadd_pairs_error {rest : List Bytes} (h : (read_pairs rest : Option (List (F × Bytes))) = none)
    (flags : ZaddFlags) (z : ZSetData F) (n : ℕ) :
    ∃ e, zadd_pairs flags rest z n = .error (.Err e) := by
  induction rest using List.twoStepInduction generalizing z n with
  | nil | singleton => simp [read_pairs] at h
  | cons_cons s m rest ih _ =>
    cases hs : (parse_score s : Except Halt F) with
    | error e =>
      obtain ⟨text, rfl⟩ : ∃ text, e = .Err text := by
        unfold parse_score err at hs
        grind
      exact ⟨text, by rw [zadd_pairs, hs]; rfl⟩
    | ok score =>
      have hrest : (read_pairs rest : Option (List (F × Bytes))) = none :=
        eq_none_iff_forall_ne_some.mpr (by simpa [read_pairs, hs, Except.toOption] using h)
      rw [zadd_pairs_cons hs]
      split
      · exact ih hrest _ _
      · exact ih hrest _ _

theorem zadd_pairs_ok {rest : List Bytes} {pairs : List (F × Bytes)} (h : read_pairs rest = some pairs)
    (flags : ZaddFlags) (z : ZSetData F) (n : ℕ) :
    ∃ z', zadd_pairs flags rest z n = .ok (z', n + (add_pairs flags pairs (z.members[·]?)).2) ∧
      ∀ x, z'.members[x]? = (add_pairs flags pairs (z.members[·]?)).1 x := by
  induction rest using List.twoStepInduction generalizing z n pairs with
  | nil | singleton =>
    cases h
    exact ⟨z, rfl, fun _ => rfl⟩
  | cons_cons s m rest ih _ =>
    cases hs : (parse_score s : Except Halt F) with
    | error e => simp [read_pairs, hs, Except.toOption] at h
    | ok score =>
      cases hrest : (read_pairs rest : Option (List (F × Bytes))) with
      | none => simp [read_pairs, hs, hrest, Except.toOption] at h
      | some pairs' =>
        obtain rfl : (score, m) :: pairs' = pairs := by
          simpa [read_pairs, hs, hrest, Except.toOption] using h
        rw [zadd_pairs_cons hs, add_pairs]
        by_cases heffect : TakesEffect flags score z.members[m]?
        · -- the scores after the pair are those of the set after the addition
          have hadd : ((z.add m score).members[·]?) =
              Function.update (z.members[·]?) m (some score) := by
            funext x
            by_cases hx : x = m
            · subst hx
              simp [ZSetData.add]
            · simp [ZSetData.add, hx, Ne.symm hx, Std.ExtTreeMap.getElem?_insert]
          obtain ⟨z', hz', hscores⟩ := ih hrest (z.add m score)
            (if z.members[m]? = some score then n else n + 1)
          rw [hadd] at hz' hscores
          simp only [if_pos heffect]
          refine ⟨z', hz'.trans ?_, hscores⟩
          split
          · rfl
          · rw [Nat.add_assoc, Nat.add_comm 1]
        · simp only [if_neg heffect]
          exact ih hrest z n

section Commands

variable {T : Instant} {m : HashMap Bytes (Entry F)}

theorem stored_zset (key : Bytes) (z : ZSetData F) :
    zset_at T ((swept T m key).insert key ⟨.ZSet z, none, T, 1, 1⟩) key = some z ∧
      ∀ k, k ≠ key → seen T ((swept T m key).insert key ⟨.ZSet z, none, T, 1, 1⟩) k = seen T m k := by
  refine ⟨?_, fun k hk => seen_congr ?_⟩
  · have hseen : seen T ((swept T m key).insert key ⟨.ZSet z, none, T, 1, 1⟩) key = some _ :=
      seen_of_some Std.ExtTreeMap.getElem?_insert_self rfl
    rw [zset_at, hseen]
    rfl
  · rw [Maps.insert_of_ne hk, swept_of_ne hk]

/-- `z'` is `z` without its first entries in the order, or its last ones. -/
structure Pops (from_max : Bool) (count : ℕ) (z z' : ZSetData F) (popped : List (Bytes × F)) :
    Prop where
  length : popped.length = min count z.members.size
  ordered : popped.Pairwise fun a b => if from_max then entry_lt b a else entry_lt a b
  extreme : ∀ a ∈ popped, ∀ m s, z'.members[m]? = some s →
    if from_max then entry_lt (m, s) a else entry_lt a (m, s)
  scores : ∀ m s, z.members[m]? = some s ↔ (m, s) ∈ popped ∨ z'.members[m]? = some s
  removed : ∀ m s, (m, s) ∈ popped → z'.members[m]? = none
  consistent : Consistent z'

theorem getElem?_remove_members (z : ZSetData F) (ms : List Bytes) (x : Bytes) :
    (remove_members z ms).members[x]? = if x ∈ ms then none else z.members[x]? := by
  have herase : ∀ members : HashMap Bytes F,
      (ms.foldl (fun members m => members.erase m) members)[x]? =
        if x ∈ ms then none else members[x]? := by
    induction ms with
    | nil => simp
    | cons m ms ih =>
      intro members
      rw [foldl_cons, ih, Std.ExtTreeMap.getElem?_erase]
      by_cases hx : m = x
      · simp [hx]
      · simp [hx, Ne.symm hx]
  exact herase z.members

theorem pops (h : Consistent z) (from_max : Bool) (count : ℕ) :
    Pops from_max count z
      (rebuild_scores (remove_members z ((pop_entries z from_max count).map Prod.fst)))
      (pop_entries z from_max count) := by
  -- the listing, from the side the entries are taken from
  obtain ⟨l, hl, hsorted, hmem, hlen⟩ : ∃ l : List (Bytes × F),
      pop_entries z from_max count = l.take count ∧
      l.Pairwise (fun a b => if from_max then entry_lt b a else entry_lt a b) ∧
      (∀ m s, (m, s) ∈ l ↔ z.members[m]? = some s) ∧ l.length = z.members.size := by
    have hsorted := zset_entries_sorted z
    cases from_max with
    | false => exact ⟨zset_entries z, by simp [pop_entries], by simpa using hsorted,
        fun m s => mem_listing h, length_zset_entries h⟩
    | true => exact ⟨(zset_entries z).reverse, by simp [pop_entries],
        by simpa [pairwise_reverse] using hsorted, by simp [mem_listing h],
        by rw [length_reverse, length_zset_entries h]⟩
  rw [hl]
  rw [← take_append_drop count l, pairwise_append] at hsorted
  have hsplit : ∀ e, e ∈ l ↔ e ∈ l.take count ∨ e ∈ l.drop count := by
    intro e
    rw [← mem_append, take_append_drop]
  have hscore : ∀ {m : Bytes} {s s' : F}, (m, s) ∈ l → (m, s') ∈ l → s = s' := fun hs hs' =>
    Option.some.inj (((hmem _ _).mp hs).symm.trans ((hmem _ _).mp hs'))
  -- what is left is the rest of the listing
  have hleft : ∀ m s, (rebuild_scores (remove_members z ((l.take count).map Prod.fst))).members[m]? =
      some s ↔ (m, s) ∈ l.drop count := by
    intro m s
    show (remove_members z _).members[m]? = some s ↔ _
    rw [getElem?_remove_members]
    by_cases hm : m ∈ (l.take count).map Prod.fst
    · obtain ⟨⟨m, s'⟩, hs', rfl⟩ := mem_map.mp hm
      rw [if_pos hm]
      refine iff_of_false nofun fun hs => ?_
      obtain rfl := hscore ((hsplit _).mpr (.inl hs')) ((hsplit _).mpr (.inr hs))
      have hlt := hsorted.2.2 _ hs' _ hs
      split at hlt <;> exact entry_lt_asymm hlt hlt
    · rw [if_neg hm, ← hmem, hsplit]
      exact or_iff_right fun hs => hm (mem_map_of_mem (f := Prod.fst) hs)
  refine ⟨by rw [length_take, hlen], hsorted.1, fun a ha m s hs => ?_, fun m s => ?_,
    fun m s hs => ?_, consistent_rebuild_scores _⟩
  · exact hsorted.2.2 a ha _ ((hleft m s).mp hs)
  · rw [hleft, ← hmem, hsplit]
  · show (remove_members z _).members[m]? = none
    rw [getElem?_remove_members, if_pos (mem_map_of_mem (f := Prod.fst) hs)]

/-! ### The commands -/

/-- Entries of the set under `key` have been popped and replied, and nothing else has changed. -/
def PopsAt (T : Instant) (m : HashMap Bytes (Entry F)) (key : Bytes) (from_max : Bool) (count : ℕ)
    (z : ZSetData F) (reply : List (Bytes × F) → Reply F) (r : Except Halt (Reply F))
    (m' : HashMap Bytes (Entry F)) : Prop :=
  ∃ z' popped, Pops from_max count z z' popped ∧ r = .ok (reply popped) ∧
    zset_at T m' key = some z' ∧ ∀ k, k ≠ key → seen T m' k = seen T m k

theorem zpop_pops {cmd : String} {from_max : Bool} {args : List Bytes} {key : String} {count : ℕ}
    (hargs : zpop_request cmd from_max args = .ok (key, (.pop from_max count : Removal F)))
    (hz : zset_at T m (as_bytes key) = some z) (h : Consistent z) :
    (zpop cmd from_max args).Wp (may (· = T)) (PopsAt T m (as_bytes key) from_max count z fun popped =>
      .Array (some (with_scores popped))) m := by
  rw [zpop_eq, hargs]
  refine wp_removal_at (fun z₁ hz₁ => ?_) fun hnone => nomatch hnone.symm.trans hz
  cases hz.symm.trans hz₁
  exact ⟨_, _, pops h from_max count, rfl, stored_zset _ _⟩

/-- The key has no sorted set, or an empty one. -/
def NothingToPop (T : Instant) (m : HashMap Bytes (Entry F)) (key : Bytes) : Prop :=
  ∃ name, str_from_bytes key = .ok name ∧ ∀ z, zset_at T m (as_bytes name) = some z → z.is_empty

theorem zmpop_keys_pops {is_min : Bool} {count : ℕ} {before after : List Bytes} {k : Bytes}
    {key : String} (hbefore : ∀ b ∈ before, NothingToPop T m b) (hk : str_from_bytes k = .ok key)
    (hz : zset_at T m (as_bytes key) = some z) (hne : ¬ z.is_empty) (h : Consistent z) :
    (zmpop_keys is_min count (before ++ k :: after)).Wp (may (· = T))
      (PopsAt T m (as_bytes key) (!is_min) count z fun popped =>
        .Array (some [bulk (as_bytes key), .Array (some (with_scores popped))])) m := by
  induction before generalizing m with
  | nil =>
    rw [nil_append, zmpop_keys, hk]
    refine (Prog.lift_pure_bind key _).symm ▸ ?_
    rw [get_zset_eq]
    refine wp_read_zset_at ?_
    rw [hz]
    dsimp only
    rw [if_neg hne]
    refine wp_set_none ?_
    rintro now rfl
    exact ⟨_, _, pops h (!is_min) count, rfl, stored_zset _ _⟩
  | cons b before ih =>
    obtain ⟨name, hname, hempty⟩ := hbefore b mem_cons_self
    -- the key is looked at, which shows in nothing, and passed over
    have hsame : ∀ x, zset_at T (swept T m (as_bytes name)) x = zset_at T m x := fun x => by
      rw [zset_at, seen_swept, zset_at]
    have hrest : (zmpop_keys is_min count (before ++ k :: after)).Wp (may (· = T))
        (PopsAt T m (as_bytes key) (!is_min) count z fun popped =>
          .Array (some [bulk (as_bytes key), .Array (some (with_scores popped))]))
        (swept T m (as_bytes name)) := by
      refine (ih (fun b' hb' => ?_) ((hsame _).trans hz)).mono ?_
      · obtain ⟨name', hname', hempty'⟩ := hbefore b' (mem_cons_of_mem _ hb')
        exact ⟨name', hname', fun z' hz' => hempty' z' ((hsame _).symm.trans hz')⟩
      · rintro r m' ⟨z', popped, hpops, hr, hz', hothers⟩
        exact ⟨z', popped, hpops, hr, hz', fun x hx => (hothers x hx).trans seen_swept⟩
    rw [cons_append, zmpop_keys, hname]
    refine (Prog.lift_pure_bind name _).symm ▸ ?_
    rw [get_zset_eq]
    refine wp_read_zset_at ?_
    cases hz' : zset_at T m (as_bytes name) with
    | none => exact hrest
    | some z' =>
      dsimp only
      rw [if_pos (hempty z' hz')]
      exact hrest

/-- What the arguments of ZMPOP ask for: the side, the count and the keys. -/
def zmpop_request (args : List Bytes) : Except Halt (Bool × ℕ × List Bytes) := do
  if args.length < 3 then err (wrong_number "zmpop") else do
  let numkeys ← parse_usize (← arg args 0)
  if args.length < (← checked (2 + numkeys)) then err "ERR syntax error" else do
  let is_min ← zmpop_side (← arg args (1 + numkeys))
  let count ← zmpop_count (args.drop (2 + numkeys))
  return (is_min, count, (args.drop 1).take numkeys)

theorem zmpop_eq (args : List Bytes) : (zmpop args : StoreM F (Reply F)) = (do
    let (is_min, count, keys) ← zmpop_request args
    zmpop_keys is_min count keys) := by
  simp only [zmpop, zmpop_request, Prog.lift_ite, Prog.ite_bind, Prog.lift_bind, Prog.bind_assoc,
    Prog.lift_pure_bind, lift_err_bind]

/-- **Pops.** The two pops return the first or the last entries of the set in their order, with
their scores, and leave the others; ZMPOP does the same to the first of its keys that has something
to pop, and no command changes another key. -/
theorem pops_take_extremes {key : String} (hz : zset_at T m (as_bytes key) = some z)
    (h : Consistent z) (count : ℕ) :
    (∀ args, zpop_request "zpopmin" false args = .ok (key, (.pop false count : Removal F)) →
      (zpopmin args).Wp (may (· = T)) (PopsAt T m (as_bytes key) false count z fun popped =>
        .Array (some (with_scores popped))) m) ∧
    (∀ args, zpop_request "zpopmax" true args = .ok (key, (.pop true count : Removal F)) →
      (zpopmax args).Wp (may (· = T)) (PopsAt T m (as_bytes key) true count z fun popped =>
        .Array (some (with_scores popped))) m) ∧
    (∀ args is_min before k after, zmpop_request args = .ok (is_min, count, before ++ k :: after) →
      (∀ b ∈ before, NothingToPop T m b) → str_from_bytes k = .ok key → ¬ z.is_empty →
      (zmpop args).Wp (may (· = T)) (PopsAt T m (as_bytes key) (!is_min) count z fun popped =>
        .Array (some [bulk (as_bytes key), .Array (some (with_scores popped))])) m) := by
  refine ⟨fun args hargs => zpop_pops hargs hz h, fun args hargs => zpop_pops hargs hz h, ?_⟩
  intro args is_min before k after hargs hbefore hk hne
  rw [zmpop_eq, hargs]
  exact zmpop_keys_pops hbefore hk hz hne h

/-- Each of the three commands on a set of two members with one score. -/
theorem pops_take_extremes_two :
    let z : ZSetData Resp.Infinity := (ZSetData.new.add (as_bytes "a") .pos).add (as_bytes "b") .pos
    let m : HashMap Bytes (Entry Resp.Infinity) :=
      (swept 0 ∅ (as_bytes "k")).insert (as_bytes "k") ⟨.ZSet z, none, 0, 1, 1⟩
    (zpopmin [as_bytes "k"]).Wp (may (· = 0)) (PopsAt 0 m (as_bytes "k") false 1 z fun popped =>
      .Array (some (with_scores popped))) m ∧
    (zpopmax [as_bytes "k"]).Wp (may (· = 0)) (PopsAt 0 m (as_bytes "k") true 1 z fun popped =>
      .Array (some (with_scores popped))) m ∧
    (zmpop (["2", "j", "k", "MAX"].map as_bytes)).Wp (may (· = 0))
      (PopsAt 0 m (as_bytes "k") true 1 z fun popped =>
        .Array (some [bulk (as_bytes "k"), .Array (some (with_scores popped))])) m := by
  intro z m
  have hz : zset_at 0 m (as_bytes "k") = some z := (stored_zset (as_bytes "k") z).1
  obtain ⟨hmin, hmax, hmpop⟩ := pops_take_extremes hz ((consistent_new.add _ _).add _ _) 1
  refine ⟨hmin _ (by rfl), hmax _ (by rfl), ?_⟩
  refine hmpop _ false [as_bytes "j"] (as_bytes "k") [] (by rfl) ?_ (by rfl) (by decide +kernel)
  rintro b hb
  rw [mem_singleton.mp hb]
  exact ⟨"j", by rfl, fun z' hz' => nomatch hz'⟩

end Commands

end ValkeyRs.Zset
