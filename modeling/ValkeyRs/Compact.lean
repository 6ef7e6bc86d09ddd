/-
The compact representations: what LPUSH, RPUSH and SADD do to a value, whichever way it is kept.

A listpack that the commands have built is `Packs` of its values: the bytes are those of the values,
and none of them is too long for the lengths around it. Pushing keeps this, so a push does to the
value what it does to a list (`push_value`). In the same way adding numbers to an intset adds their
texts to a set, if every text is the one that the number is written with (`sadd_value`).
-/
import ValkeyRs.Collections

set_option autoImplicit false

open ValkeyRs Text Storage Zset Strings Maps List

namespace ValkeyRs.Compact

variable {F : Type} [Score F]

/-! ## Lists -/

/-- A value that is short enough for a listpack: its length there, with what stands around it, fits
a `u32`. -/
def Packable (v : Bytes) : Prop := v.length + 15 < 2 ^ 32

/-- The listpack of these values. -/
structure Packs (lp : ListPack) (values : List Bytes) : Prop where
  eq : lp = ListPack.from_entries (values.map .String)
  packable : ∀ v ∈ values, Packable v

/-- A value as the live commands represent it. -/
def Orderly : DataType F → Prop
  | .ListPack lp => ∃ values, Packs lp values
  | _ => True

theorem Packable.encode {v : Bytes} (h : Packable v) :
    (Listpack.encode_entry (.String v)).length + 10 < 2 ^ 32 := by
  unfold Packable at h
  have hlen : (Listpack.encode_entry (.String v)).length =
      (Listpack.string_header v.length).length + v.length := length_append
  have hheader : (Listpack.string_header v.length).length ≤ 5 := by
    unfold Listpack.string_header
    rw [apply_ite List.length, apply_ite List.length, apply_ite List.length, apply_ite List.length]
    simp only [length_cons, length_nil, Codec.length_le_bytes]
    have hlt : v.length < 2 ^ 32 := by omega
    rw [if_pos hlt]
    split
    · omega
    · split
      · omega
      · split <;> omega
  omega

variable {lp : ListPack}
variable {values : List Bytes}

theorem Packs.iter (h : Packs lp values) : lp.iter = values.map .String := by
  rw [h.eq]
  refine ListPack.iter_from_entries fun entry hentry => ?_
  obtain ⟨v, hv, rfl⟩ := mem_map.mp hentry
  exact (h.packable v hv).encode

theorem Packs.to_vec (h : Packs lp values) : lp.to_vec = values := by
  rw [ListPack.to_vec, h.iter, map_map]
  exact map_id values

theorem Packs.len (h : Packs lp values) : lp.len = values.length := by
  rw [h.eq, ListPack.len, (ListPack.packed_from_entries _).1, length_map]

theorem packs_new : Packs ListPack.new [] := ⟨rfl, fun _ hv => (not_mem_nil hv).elim⟩

theorem Packs.push_one (h : Packs lp values) (front : Bool)
    {v : Bytes} (hv : Packable v) :
    Packs (Collections.pack_one front lp v) (Collections.push_one front values v) := by
  cases front with
  | true =>
    refine ⟨?_, ?_⟩
    · rw [Collections.pack_one, if_pos rfl, ListPack.push_front, h.iter]
      rfl
    · intro x hx
      rcases mem_cons.mp hx with rfl | hx
      · exact hv
      · exact h.packable x hx
  | false =>
    refine ⟨?_, ?_⟩
    · rw [Collections.pack_one, if_neg Bool.false_ne_true, h.eq, ← ListPack.from_entries_append]
      show _ = ListPack.from_entries ((values ++ [v]).map .String)
      rw [map_append]
      rfl
    · intro x hx
      rcases mem_append.mp hx with hx | hx
      · exact h.packable x hx
      · rw [mem_singleton.mp hx]
        exact hv

theorem Packs.push (h : Packs lp values) (front : Bool)
    {new : List Bytes} (hnew : ∀ v ∈ new, Packable v) :
    Packs (new.foldl (Collections.pack_one front) lp)
      (new.foldl (Collections.push_one front) values) := by
  induction new generalizing lp values with
  | nil => exact h
  | cons v new ih =>
    exact ih (h.push_one front (hnew v mem_cons_self)) fun x hx =>
      hnew x (mem_cons_of_mem _ hx)

theorem push_value {d : DataType F} (hd : Orderly d) {l : List Bytes} (hl : d.value = .list l)
    (front : Bool) {new : List Bytes} (hnew : ∀ v ∈ new, Packable v) :
    ∃ d', Collections.push front new d =
        some (d', (new.foldl (Collections.push_one front) l).length) ∧
      d'.value = .list (new.foldl (Collections.push_one front) l) ∧ Orderly d' := by
  cases d with
  | List items =>
    injection hl with hl
    subst hl
    exact ⟨_, rfl, rfl, trivial⟩
  | ListPack lp =>
    obtain ⟨values, hvalues⟩ := hd
    have hpush := hvalues.push front hnew
    injection hl with hl
    rw [hvalues.to_vec] at hl
    subst hl
    rw [← hpush.len]
    refine ⟨_, rfl, ?_⟩
    dsimp only [DataType.maybe_upgrade_list]
    split
    · exact ⟨congrArg Value.list hpush.to_vec, trivial⟩
    · exact ⟨congrArg Value.list hpush.to_vec, _, hpush⟩
  | String | Hash | Set | ZSet | Stream | IntSet => cases hl

theorem list_or_push_none (d : DataType F) (front : Bool) (new : List Bytes) :
    (∃ l, d.value = .list l) ∨ Collections.push front new d = none := by
  cases d with
  | List l => exact .inl ⟨l, rfl⟩
  | ListPack lp => exact .inl ⟨lp.to_vec, rfl⟩
  | String | Hash | Set | ZSet | Stream | IntSet => exact .inr rfl

/-! ## Sets -/

theorem sadd_members_eq (members : List Bytes) (s : HashSet Bytes) (n : ℕ) :
    (Collections.sadd_members members s n).1 = gather s members := by
  induction members generalizing s n with
  | nil => rfl
  | cons m members ih =>
    rw [Collections.sadd_members, ih]
    rfl

theorem mem_sadd_integers (members : List Bytes) (is : IntSet) (n : ℕ) (v : ℤ) :
    v ∈ (Collections.sadd_integers members is n).1.iter ↔
      v ∈ is.iter ∨ ∃ m ∈ members, ∃ i, parse_i64 m = some i ∧ i.toInt = v := by
  induction members generalizing is n with
  | nil => simp only [Collections.sadd_integers, not_mem_nil, false_and, exists_false, or_false]
  | cons m members ih =>
    rw [Collections.sadd_integers]
    simp only [mem_cons, exists_eq_or_imp]
    cases hm : parse_i64 m with
    | none =>
      have hnone : ¬ ∃ i : Int64, none = some i ∧ i.toInt = v := by
        rintro ⟨i, hi, -⟩
        cases hi
      rw [ih, or_iff_right hnone]
    | some i =>
      have hsome : (∃ j : Int64, some i = some j ∧ j.toInt = v) ↔ v = i.toInt := by
        constructor
        · rintro ⟨j, hj, rfl⟩
          cases hj
          rfl
        · rintro rfl
          exact ⟨i, rfl, rfl⟩
      rw [ih, is.mem_add, hsome, or_assoc, or_left_comm]

/-- A number that is written as the server writes it. -/
def Canonical (m : Bytes) : Prop := ∀ n, parse_i64 m = some n → int_bytes n = m

theorem parse_i64_toString {v : ℤ} (hlo : -2 ^ 63 ≤ v) (hhi : v < 2 ^ 63) :
    parse_i64 (as_bytes (toString v)) = some (Int64.ofInt v) := by
  have hparse : parse_int (some 64) (toString v) = .ok v := by
    refine parse_signed_repr _ _ _ (fun _ => ?_) fun _ => ?_
    · have hmax : v.toNat ≤ 2 ^ (64 - 1) - 1 := by omega
      exact decide_eq_true hmax
    · have hmin : (-v).toNat ≤ 2 ^ (64 - 1) := by omega
      exact decide_eq_true hmin
  rw [parse_i64, text, from_utf8_as_bytes]
  show ((parse_int (some 64) (toString v)).toOption).map Int64.ofInt = _
  rw [hparse]
  rfl

theorem parse_member {is : IntSet} {v : ℤ} (hv : v ∈ is.iter) {i : Int64}
    (h : parse_i64 (as_bytes (toString v)) = some i) : i.toInt = v := by
  obtain ⟨hlo, hhi⟩ := is.bounds hv
  rw [parse_i64_toString hlo hhi] at h
  cases h
  exact Int64.toInt_ofInt_of_le hlo hhi

theorem gather_sadd_integers {members : List Bytes} (hint : Collections.all_integers members = true)
    (hcanon : ∀ m ∈ members, Canonical m) (is : IntSet) (n : ℕ) :
    gather ∅ (Collections.sadd_integers members is n).1.members =
      gather (gather ∅ is.members) members := by
  refine Std.ExtTreeSet.ext_mem fun k => ?_
  rw [mem_gather, mem_gather, mem_gather]
  refine or_congr_right ?_ |>.trans (or_assoc).symm
  unfold IntSet.members
  simp only [mem_map, mem_sadd_integers]
  constructor
  · rintro ⟨v, hv | ⟨m, hm, i, hi, rfl⟩, rfl⟩
    · exact .inl ⟨v, hv, rfl⟩
    · have htext : int_bytes i = m := hcanon m hm i hi
      unfold int_bytes at htext
      rw [htext]
      exact .inr hm
  · rintro (⟨v, hv, rfl⟩ | hk)
    · exact ⟨v, .inl hv, rfl⟩
    · obtain ⟨i, hi⟩ := Option.isSome_iff_exists.mp (all_eq_true.mp hint k hk)
      exact ⟨i.toInt, .inr ⟨k, hk, i, hi, rfl⟩, hcanon k hk i hi⟩

/-- The members go into an intset: the key is not there, or holds one, and all are numbers. -/
def IntoIntSet (existing : Option (DataType F)) (members : List Bytes) : Prop :=
  Collections.all_integers members = true ∧ ∀ d, existing = some d → ∃ is, d = .IntSet is

theorem sadd_intset_value {members : List Bytes} (hint : Collections.all_integers members = true)
    (hcanon : ∀ m ∈ members, Canonical m) (is : IntSet) :
    ∃ d' n, Collections.sadd_data members (.IntSet is : DataType F) = some (d', n) ∧
      d'.value = .set (gather (gather ∅ is.members) members) ∧ Orderly d' := by
  refine ⟨_, _, rfl, ?_⟩
  have hvalue := gather_sadd_integers hint hcanon is 0
  split
  · exact ⟨congrArg Value.set hvalue, trivial⟩
  · exact ⟨congrArg Value.set hvalue, trivial⟩

/-- What SADD makes of the value it finds. -/
theorem sadd_value {existing : Option (DataType F)} {s : HashSet Bytes} {members : List Bytes}
    (hs : existing = none ∧ s = ∅ ∨ ∃ d, existing = some d ∧ d.value = .set s)
    (hcanon : IntoIntSet existing members → ∀ m ∈ members, Canonical m) :
    ∃ d' n, Collections.sadd_data members (Collections.sadd_start members existing) = some (d', n) ∧
      d'.value = .set (gather s members) ∧ Orderly d' := by
  have hset : ∀ x : HashSet Bytes, ∃ d' n,
      Collections.sadd_data members (.Set x : DataType F) = some (d', n) ∧
        d'.value = .set (gather x members) ∧ Orderly d' := fun x =>
    ⟨_, _, rfl, congrArg Value.set (sadd_members_eq members x 0), trivial⟩
  unfold Collections.sadd_start
  by_cases hint : Collections.all_integers members = true
  · simp only [if_pos hint]
    obtain ⟨rfl, rfl⟩ | ⟨d, rfl, hd⟩ := hs
    · have hempty : gather ∅ IntSet.new.members = (∅ : HashSet Bytes) := rfl
      have hnew := sadd_intset_value (F := F) hint
        (hcanon ⟨hint, fun d hd => by cases hd⟩) IntSet.new
      rwa [hempty] at hnew
    · cases d with
      | Set x =>
        injection hd with hd
        subst hd
        exact hset x
      | IntSet is =>
        injection hd with hd
        subst hd
        refine sadd_intset_value hint (hcanon ⟨hint, fun d hd => ?_⟩) is
        cases hd
        exact ⟨is, rfl⟩
      | String | List | Hash | ZSet | Stream | ListPack => cases hd
  · simp only [if_neg hint]
    obtain ⟨rfl, rfl⟩ | ⟨d, rfl, hd⟩ := hs
    · exact hset ∅
    · cases d with
      | Set x =>
        injection hd with hd
        subst hd
        exact hset x
      | IntSet is =>
        injection hd with hd
        subst hd
        exact hset _
      | String | List | Hash | ZSet | Stream | ListPack => cases hd

/-- Either a value is a set, or SADD replies that it is not. -/
theorem set_or_sadd_none (d : DataType F) (members : List Bytes) :
    (∃ s, d.value = .set s) ∨
      Collections.sadd_data members (Collections.sadd_start members (some d)) = none := by
  unfold Collections.sadd_start
  cases d with
  | Set s => exact .inl ⟨s, rfl⟩
  | IntSet is => exact .inl ⟨_, rfl⟩
  | String | List | Hash | ZSet | Stream | ListPack =>
    refine .inr ?_
    split <;> rfl

end ValkeyRs.Compact
