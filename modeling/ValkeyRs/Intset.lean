/-
The intset, `crates/storage/src/intset.rs`: a set of integers as sorted numbers of one width.

The values stand one behind the other in the narrowest of three widths that holds them all; the
width grows when a value needs it and never shrinks. All access goes through `get_value`, by
position, and `contains` is a binary search. What the operations keep, and what the type carries
as a field, is that the bytes are those of a strictly increasing sequence of numbers that fit the
width (`Codes`). From this, `add` is what it is on sets (`mem_add`).
-/
import ValkeyRs.Codec

set_option autoImplicit false

open ValkeyRs Text Codec List

namespace ValkeyRs.Storage

inductive IntSetEncoding where
  | Int16
  | Int32
  | Int64
  deriving Repr, DecidableEq

namespace IntSetEncoding

/-- `encoding as usize`. -/
def width : IntSetEncoding → ℕ
  | .Int16 => 2
  | .Int32 => 4
  | .Int64 => 8

/-- The number is one of this width. -/
def Fits (enc : IntSetEncoding) (v : ℤ) : Prop :=
  -(256 ^ enc.width : ℤ) ≤ 2 * v ∧ 2 * v < 256 ^ enc.width

theorem Fits.mono {enc enc' : IntSetEncoding} {v : ℤ} (h : enc.Fits v)
    (hle : enc.width ≤ enc'.width) : enc'.Fits v := by
  have hpow : (256 ^ enc.width : ℤ) ≤ 256 ^ enc'.width := pow_le_pow_right₀ (by norm_num) hle
  exact ⟨by linarith [h.1], by linarith [h.2]⟩

end IntSetEncoding

namespace Intset

/-- `IntSet::encoding_for`. -/
def encoding_for (val : ℤ) : IntSetEncoding :=
  if -32768 ≤ val ∧ val ≤ 32767 then .Int16
  else if -2147483648 ≤ val ∧ val ≤ 2147483647 then .Int32
  else .Int64

theorem encoding_for_fits {val : ℤ} (hlo : -2 ^ 63 ≤ val) (hhi : val < 2 ^ 63) :
    (encoding_for val).Fits val := by
  unfold encoding_for IntSetEncoding.Fits
  split
  · constructor <;> norm_num [IntSetEncoding.width] <;> omega
  · split
    · constructor <;> norm_num [IntSetEncoding.width] <;> omega
    · constructor <;> norm_num [IntSetEncoding.width] <;> omega

def get_value (data : Bytes) (enc : IntSetEncoding) (index : ℕ) : ℤ :=
  of_le_bytes_int ((data.drop (index * enc.width)).take enc.width)

/-- `IntSetIter`, to its end. -/
def values (data : Bytes) (length : ℕ) (enc : IntSetEncoding) : List ℤ :=
  (List.range length).map (get_value data enc)

/-- `push_raw`, for every value of a list. -/
def encode (enc : IntSetEncoding) (vs : List ℤ) : Bytes := vs.flatMap (le_bytes_int enc.width)

/-- The bytes are those of a strictly increasing sequence of numbers that fit. -/
structure Codes (data : Bytes) (length : ℕ) (enc : IntSetEncoding) (vs : List ℤ) : Prop where
  length : vs.length = length
  data : data = encode enc vs
  fits : ∀ v ∈ vs, enc.Fits v
  sorted : vs.Pairwise (· < ·)

theorem get_value_encode {enc : IntSetEncoding} {vs : List ℤ} (h : ∀ v ∈ vs, enc.Fits v) {i : ℕ}
    (hi : i < vs.length) : get_value (encode enc vs) enc i = vs[i] := by
  have hfits := h _ (getElem_mem hi)
  unfold get_value encode
  rw [drop_flatMap_width (length_le_bytes_int enc.width), drop_eq_getElem_cons hi,
    flatMap_cons, take_left' (length_le_bytes_int _ _)]
  exact of_le_bytes_int_le_bytes_int hfits.1 hfits.2

theorem Codes.values_eq {data : Bytes} {length : ℕ} {enc : IntSetEncoding} {vs : List ℤ}
    (h : Codes data length enc vs) : values data length enc = vs := by
  have hlen := h.length
  subst hlen
  rw [h.data]
  refine ext_getElem (by simp [values]) fun i hi hi' => ?_
  simp only [values, getElem_map, getElem_range]
  exact get_value_encode h.fits hi'

/-! ## Binary search -/

/-- The loop of `contains`, with what it may still take: the interval gets shorter in each turn. -/
def search (get : ℕ → ℤ) (val : ℤ) : ℕ → ℕ → ℕ → ℕ
  | 0, lo, _ => lo
  | fuel + 1, lo, hi =>
    if lo < hi then
      let mid := (lo + hi) / 2
      if get mid < val then search get val fuel (mid + 1) hi else search get val fuel lo mid
    else lo

/-- On an increasing sequence the search finds where `val` would have to be: everything in front
is smaller and nothing from there on is. -/
theorem search_spec {get : ℕ → ℤ} {val : ℤ} {n : ℕ}
    (hmono : ∀ i j, i < j → j < n → get i < get j) {fuel lo hi : ℕ} (hfuel : hi - lo ≤ fuel)
    (hle : lo ≤ hi) (hn : hi ≤ n) (hlo : ∀ i, i < lo → get i < val)
    (hhi : ∀ i, hi ≤ i → i < n → val ≤ get i) :
    search get val fuel lo hi ≤ n ∧ (∀ i, i < search get val fuel lo hi → get i < val) ∧
      ∀ i, search get val fuel lo hi ≤ i → i < n → val ≤ get i := by
  induction fuel generalizing lo hi with
  | zero =>
    have heq : lo = hi := by omega
    subst heq
    exact ⟨hn, hlo, hhi⟩
  | succ fuel ih =>
    rw [search]
    by_cases hlt : lo < hi
    · rw [if_pos hlt]
      have hmid : lo ≤ (lo + hi) / 2 ∧ (lo + hi) / 2 < hi := by omega
      generalize (lo + hi) / 2 = mid at hmid
      by_cases hval : get mid < val
      · rw [if_pos hval]
        refine ih (by omega) (by omega) hn (fun i hi' => ?_) hhi
        rcases Nat.lt_succ_iff_lt_or_eq.mp hi' with hlt' | heq
        · exact (hmono i mid hlt' (by omega)).trans hval
        · rw [heq]
          exact hval
      · rw [if_neg hval]
        refine ih (by omega) (by omega) (by omega) hlo (fun i hmi hin => ?_)
        rcases Nat.lt_or_eq_of_le hmi with hlt' | heq
        · exact (not_lt.mp hval).trans (hmono mid i hlt' hin).le
        · rw [← heq]
          exact not_lt.mp hval
    · rw [if_neg hlt]
      have heq : lo = hi := by omega
      subst heq
      exact ⟨hn, hlo, hhi⟩

def contains (data : Bytes) (length : ℕ) (enc : IntSetEncoding) (val : ℤ) : Bool :=
  let lo := search (get_value data enc) val length 0 length
  lo < length && get_value data enc lo = val

theorem contains_iff {data : Bytes} {length : ℕ} {enc : IntSetEncoding} {vs : List ℤ} {val : ℤ}
    (h : Codes data length enc vs) : contains data length enc val = true ↔ val ∈ vs := by
  have hlen := h.length
  subst hlen
  have hget : ∀ i (hi : i < vs.length), get_value data enc i = vs[i] := by
    intro i hi
    rw [h.data]
    exact get_value_encode h.fits hi
  have hmono : ∀ i j, i < j → j < vs.length → get_value data enc i < get_value data enc j := by
    intro i j hij hj
    rw [hget i (by omega), hget j hj]
    exact pairwise_iff_getElem.mp h.sorted i j (by omega) hj hij
  obtain ⟨hle, hbefore, hafter⟩ := @search_spec _ val _ hmono vs.length 0
    vs.length (by omega) (by omega) le_rfl (fun i hi => absurd hi (Nat.not_lt_zero i))
    (fun i hi hi' => absurd hi' (by omega))
  unfold contains
  generalize search (get_value data enc) val vs.length 0 vs.length = lo at hle hbefore hafter
  rw [Bool.and_eq_true, decide_eq_true_eq, decide_eq_true_eq]
  constructor
  · rintro ⟨hlt, heq⟩
    rw [hget lo hlt] at heq
    rw [← heq]
    exact getElem_mem hlt
  · intro hmem
    obtain ⟨i, hi, rfl⟩ := getElem_of_mem hmem
    -- the position of a member is the one the search comes to
    have hloi : lo = i := by
      rcases Nat.lt_trichotomy lo i with hlt | heq | hgt
      · have h1 := hafter lo le_rfl (by omega)
        have h2 := hmono lo i hlt hi
        rw [hget i hi] at h2
        exact absurd h1 (not_le.mpr h2)
      · exact heq
      · have h1 := hbefore i hgt
        rw [hget i hi] at h1
        exact absurd h1 (lt_irrefl _)
    subst hloi
    exact ⟨hi, hget lo hi⟩

/-! ## Changes -/

section Changes

variable {data : Bytes} {length : ℕ} {enc : IntSetEncoding} {vs : List ℤ}

theorem Codes.widen {enc' : IntSetEncoding} (h : Codes data length enc vs)
    (hle : enc.width ≤ enc'.width) : Codes (encode enc' vs) vs.length enc' vs :=
  ⟨rfl, rfl, fun v hv => (h.fits v hv).mono hle, h.sorted⟩

/-- The bytes of a number between those of the first `pos` and the rest. -/
theorem Codes.insert (h : Codes data length enc vs) {val : ℤ} {pos : ℕ} (hval : enc.Fits val)
    (hpos : pos ≤ vs.length) (hbefore : ∀ v ∈ vs.take pos, v < val)
    (hafter : ∀ v ∈ vs.drop pos, val < v) :
    Codes (data.take (pos * enc.width) ++ (le_bytes_int enc.width val ++
      data.drop (pos * enc.width))) (length + 1) enc (vs.take pos ++ val :: vs.drop pos) := by
  have hsorted : (vs.take pos ++ vs.drop pos).Pairwise (· < ·) := by
    rw [take_append_drop]
    exact h.sorted
  obtain ⟨htake, hdrop, hcross⟩ := pairwise_append.mp hsorted
  refine ⟨?_, ?_, ?_, ?_⟩
  · rw [length_append, length_cons, ← h.length, length_take, length_drop]
    omega
  · rw [h.data, encode, encode, take_flatMap_width (length_le_bytes_int _),
      drop_flatMap_width (length_le_bytes_int _), flatMap_append, flatMap_cons]
  · intro v hv
    rcases mem_append.mp hv with hv | hv
    · exact h.fits v (mem_of_mem_take hv)
    · rcases mem_cons.mp hv with rfl | hv
      · exact hval
      · exact h.fits v (mem_of_mem_drop hv)
  · refine pairwise_append.mpr ⟨htake, pairwise_cons.mpr ⟨hafter, hdrop⟩, ?_⟩
    intro v hv v' hv'
    rcases mem_cons.mp hv' with rfl | hv'
    · exact hbefore v hv
    · exact hcross v hv v' hv'

/-- The numbers in front of the first greater one are smaller than a number that is not there. -/
theorem lt_of_mem_take_findIdx (h : vs.Pairwise (· < ·)) {val : ℤ} (hval : val ∉ vs) :
    (∀ v ∈ vs.take (vs.findIdx (val < ·)), v < val) ∧
      ∀ v ∈ vs.drop (vs.findIdx (val < ·)), val < v := by
  constructor
  · intro v hv
    obtain ⟨i, hi, rfl⟩ := mem_take_iff_getElem.mp hv
    have hle : vs[i] ≤ val := by simpa using not_of_lt_findIdx (p := (val < ·)) (by omega : i < _)
    exact lt_of_le_of_ne hle fun heq => hval (heq ▸ getElem_mem _)
  · intro v hv
    obtain ⟨i, hi, rfl⟩ := mem_drop_iff_getElem.mp hv
    have hlt : vs.findIdx (val < ·) < vs.length := by omega
    have hfirst : val < vs[vs.findIdx (val < ·)] := by simpa using findIdx_getElem (w := hlt)
    cases i with
    | zero => exact hfirst
    | succ i => exact hfirst.trans (pairwise_iff_getElem.mp h _ _ _ _ (by omega))

theorem mem_take_cons_drop {pos : ℕ} {val v : ℤ} :
    v ∈ vs.take pos ++ val :: vs.drop pos ↔ v = val ∨ v ∈ vs := by
  have hsplit : v ∈ vs ↔ v ∈ vs.take pos ∨ v ∈ vs.drop pos := by
    rw [← mem_append, take_append_drop]
  rw [mem_append, mem_cons, hsplit]
  tauto

end Changes

end Intset

/-- `IntSet`: the bytes, the number of values and their width. -/
structure IntSet where
  data : Bytes
  length : ℕ
  encoding : IntSetEncoding
  coded : ∃ vs, Intset.Codes data length encoding vs

namespace IntSet

def new : IntSet := ⟨[], 0, .Int16, [], rfl, rfl, by simp, List.Pairwise.nil⟩

def len (self : IntSet) : ℕ := self.length

def is_empty (self : IntSet) : Bool := self.length = 0

def iter (self : IntSet) : List ℤ := Intset.values self.data self.length self.encoding

variable (self : IntSet)

theorem codes_iter : Intset.Codes self.data self.length self.encoding self.iter := by
  obtain ⟨vs, h⟩ := self.coded
  rw [iter, h.values_eq]
  exact h

theorem bounds {v : ℤ} (hv : v ∈ self.iter) : -2 ^ 63 ≤ v ∧ v < 2 ^ 63 := by
  have hwide : IntSetEncoding.Int64.Fits v :=
    (self.codes_iter.fits v hv).mono (by cases self.encoding <;> decide)
  unfold IntSetEncoding.Fits at hwide
  norm_num [IntSetEncoding.width] at hwide ⊢
  omega

def contains (self : IntSet) (val : ℤ) : Bool :=
  Intset.contains self.data self.length self.encoding val

theorem contains_iff (val : ℤ) : self.contains val = true ↔ val ∈ self.iter :=
  Intset.contains_iff self.codes_iter

/-- Upgrade the encoding to at least `min_enc`. -/
def upgrade_to (self : IntSet) (min_enc : IntSetEncoding) : IntSet :=
  if h : min_enc.width ≤ self.encoding.width then self
  else
    { data := Intset.encode min_enc self.iter
      length := self.iter.length
      encoding := min_enc
      coded := ⟨self.iter, self.codes_iter.widen (Nat.le_of_not_le h)⟩ }

theorem iter_upgrade_to (min_enc : IntSetEncoding) :
    (self.upgrade_to min_enc).iter = self.iter := by
  unfold upgrade_to
  split
  · rfl
  · rename_i h
    exact (self.codes_iter.widen (Nat.le_of_not_le h)).values_eq

theorem width_le_upgrade_to (min_enc : IntSetEncoding) :
    min_enc.width ≤ (self.upgrade_to min_enc).encoding.width := by
  unfold upgrade_to
  split
  · assumption
  · exact le_rfl

/-- Where `add` puts a value that is not there yet. -/
theorem codes_insert (val : Int64) (h : ¬ self.contains val.toInt = true) :
    let wide := self.upgrade_to (Intset.encoding_for val.toInt)
    let pos := wide.iter.findIdx (val.toInt < ·)
    Intset.Codes (wide.data.take (pos * wide.encoding.width) ++
      (le_bytes_int wide.encoding.width val.toInt ++
        wide.data.drop (pos * wide.encoding.width))) (wide.length + 1) wide.encoding
      (self.iter.take pos ++ val.toInt :: self.iter.drop pos) := by
  intro wide pos
  have hiter : wide.iter = self.iter := self.iter_upgrade_to _
  have hfits : wide.encoding.Fits val.toInt :=
    (Intset.encoding_for_fits val.le_toInt val.toInt_lt).mono (self.width_le_upgrade_to _)
  have hmem : val.toInt ∉ wide.iter := by
    rw [hiter, ← self.contains_iff]
    exact h
  obtain ⟨hbefore, hafter⟩ := Intset.lt_of_mem_take_findIdx wide.codes_iter.sorted hmem
  rw [← hiter]
  exact wide.codes_iter.insert hfits findIdx_le_length hbefore hafter

def add (self : IntSet) (val : Int64) : IntSet × Bool :=
  if h : self.contains val.toInt = true then (self, false)
  else
    let wide := self.upgrade_to (Intset.encoding_for val.toInt)
    let pos := wide.iter.findIdx (val.toInt < ·)
    ({ data := wide.data.take (pos * wide.encoding.width) ++
          (le_bytes_int wide.encoding.width val.toInt ++
            wide.data.drop (pos * wide.encoding.width))
       length := wide.length + 1
       encoding := wide.encoding
       coded := ⟨_, self.codes_insert val h⟩ }, true)

theorem mem_add (val : Int64) (v : ℤ) :
    v ∈ (self.add val).1.iter ↔ v = val.toInt ∨ v ∈ self.iter := by
  unfold add
  split
  · rename_i h
    constructor
    · exact .inr
    · rintro (rfl | hv)
      · exact (self.contains_iff _).mp h
      · exact hv
  · rename_i h
    show v ∈ Intset.values _ _ _ ↔ _
    rw [(self.codes_insert val h).values_eq]
    exact Intset.mem_take_cons_drop

end IntSet

end ValkeyRs.Storage
