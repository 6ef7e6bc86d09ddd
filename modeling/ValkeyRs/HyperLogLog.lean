/-
HyperLogLogs: `crates/commands/src/hyperloglog.rs`.

A HyperLogLog is a string: a header, and one byte for each register. PFADD puts the rank of each
element into its register unless a greater one is there, and PFMERGE takes the greater of two
registers. So a register holds the greatest rank of the elements that go to it. The hash and the
estimate of PFCOUNT are parameters of the commands; `murmur` is the hash of the source.

What the keys stand for is a set of elements each. The registers are a function of that set, which
takes unions to pointwise maxima.
-/
import ValkeyRs.Runs
import ValkeyRs.StoreWp
import ValkeyRs.Strings

set_option autoImplicit false

open ValkeyRs Text Storage Zset Strings Maps Runs List Option Function

namespace ValkeyRs.HyperLogLog

def HLL_P : ℕ := 14

def HLL_REGISTERS : ℕ := 2 ^ HLL_P

def HDR_LEN : ℕ := 16

/-! ## The hash -/

/-- Where an element goes, with which rank, and what the registers are counted as. -/
structure Hasher where
  index_and_rank : Bytes → Fin HLL_REGISTERS × UInt8
  estimate : Bytes → UInt64

def M : UInt64 := 0xc6a4a7935bd1e995

/-- `u64::from_le_bytes`, also of fewer than eight bytes. -/
def from_le_bytes (bytes : Bytes) : UInt64 :=
  bytes.foldr (fun b k => b.toUInt64 ||| (k <<< 8)) 0

def murmur_blocks : Bytes → UInt64 → UInt64
  | b0 :: b1 :: b2 :: b3 :: b4 :: b5 :: b6 :: b7 :: rest, h =>
    let k := from_le_bytes [b0, b1, b2, b3, b4, b5, b6, b7] * M
    let k := (k ^^^ (k >>> 47)) * M
    murmur_blocks rest ((h ^^^ k) * M)
  | [], h => h
  | rem, h => (h ^^^ from_le_bytes rem) * M

def murmur64a (key : Bytes) (seed : UInt64) : UInt64 :=
  let h := murmur_blocks key (seed ^^^ (UInt64.ofNat key.length * M))
  let h := (h ^^^ (h >>> 47)) * M
  h ^^^ (h >>> 47)

def trailing_zeros (n : UInt64) : ℕ := ((List.range 64).takeWhile fun i => !n.toNat.testBit i).length

def index_and_rank (ele : Bytes) : Fin HLL_REGISTERS × UInt8 :=
  let h := murmur64a ele 0xadc83b19
  let rest := (h >>> 14) ||| ((1 : UInt64) <<< 50)
  (⟨h.toNat % HLL_REGISTERS, Nat.mod_lt _ (Nat.two_pow_pos HLL_P)⟩,
    UInt8.ofNat (trailing_zeros rest) + 1)

def murmur (estimate : Bytes → UInt64) : Hasher := ⟨index_and_rank, estimate⟩

/-! ## The commands -/

def magic : Bytes := as_bytes "HYLL"

def new_hll : Bytes := magic ++ List.replicate (HDR_LEN - 4) 0 ++ List.replicate HLL_REGISTERS 0

def is_hll (buf : Bytes) : Bool := buf.length = HDR_LEN + HLL_REGISTERS ∧ buf.take 4 = magic

/-- `buf[HDR_LEN + i]`. -/
def register (buf : Bytes) (i : ℕ) : UInt8 := buf.getD (HDR_LEN + i) 0

section Commands

variable {F : Type} [Score F] (H : Hasher)

def invalid_hll : Reply F := .Error "WRONGTYPE Key is not a valid HyperLogLog string value."

/-- The HyperLogLog under a key, or the reply to return with. -/
def load (key : Bytes) : StoreM F (Except (Reply F) (Option Bytes)) := do
  match (← Store.get key).map Entry.data with
  | some (.String buf) => if is_hll buf then return .ok (some buf) else return .error invalid_hll
  | some _ => return .error wrong_type
  | none => return .ok none

def saved (buf : Bytes) (vacant : Entry F) (entry : Option (Entry F)) : Entry F :=
  match entry with
  | some entry => { entry with data := .String buf }
  | none => vacant

def save (key : Bytes) (buf : Bytes) : StoreM F Unit := do
  let vacant ← Entry.new (.String buf) none (← Store.now)
  let _ ← Store.access key fun entry => some (saved buf vacant entry)

/-- The loop of `cmd_pfadd`, with whether a register has changed. -/
def pfadd_elements : List Bytes → Bytes → Bool → Bytes × Bool
  | [], buf, changed => (buf, changed)
  | ele :: rest, buf, changed =>
    let (idx, rank) := H.index_and_rank ele
    if rank > register buf idx then pfadd_elements rest (buf.set (HDR_LEN + idx) rank) true
    else pfadd_elements rest buf changed

def cmd_pfadd (args : List Bytes) : StoreM F (Reply F) :=
  match args with
  | [] => return .Error (wrong_number "pfadd")
  | key :: elements => do
    match ← load key with
    | .error e => return e
    | .ok loaded => do
      let (buf, changed) := pfadd_elements H elements (loaded.getD new_hll) loaded.isNone
      if changed then save key buf
      return int (if changed then 1 else 0)

/-- The registers, each with the one of `buf` if that is greater. -/
def merge_into (merged buf : Bytes) : Bytes :=
  merged.mapIdx fun i m => if register buf i > m then register buf i else m

/-- The loop of `cmd_pfcount`, with whether one of the keys exists. -/
def pfcount_keys : List Bytes → Bytes → Bool → StoreM F (Except (Reply F) (Bytes × Bool))
  | [], merged, found => return .ok (merged, found)
  | key :: rest, merged, found => do
    match ← load key with
    | .error e => return .error e
    | .ok none => pfcount_keys rest merged found
    | .ok (some buf) => pfcount_keys rest (merge_into merged buf) true

def cmd_pfcount (args : List Bytes) : StoreM F (Reply F) := do
  if args.isEmpty then return .Error (wrong_number "pfcount") else
  match ← pfcount_keys args (List.replicate HLL_REGISTERS 0) false with
  | .error e => return e
  | .ok (merged, found) => return int (if found then (H.estimate merged).toNat else 0)

/-- The inner loop of `cmd_pfmerge`, over the first registers. -/
def merge_registers (src : Bytes) : ℕ → Bytes → Bytes
  | 0, buf => buf
  | i + 1, buf =>
    let buf := merge_registers src i buf
    if register src i > register buf i then buf.set (HDR_LEN + i) (register src i) else buf

def pfmerge_keys : List Bytes → Bytes → StoreM F (Except (Reply F) Bytes)
  | [], buf => return .ok buf
  | key :: rest, buf => do
    match ← load key with
    | .error e => return .error e
    | .ok none => pfmerge_keys rest buf
    | .ok (some src) => pfmerge_keys rest (merge_registers src HLL_REGISTERS buf)

def cmd_pfmerge (args : List Bytes) : StoreM F (Reply F) :=
  match args with
  | [] => return .Error (wrong_number "pfmerge")
  | dest :: keys => do
    match ← load dest with
    | .error e => return e
    | .ok loaded => do
      match ← pfmerge_keys keys (loaded.getD new_hll) with
      | .error e => return e
      | .ok buf => do
        save dest buf
        return ok

end Commands

/-! ## Sets of elements -/

section Registers

variable {H : Hasher} {S T : Finset Bytes} {buf src : Bytes}

/-- The greatest rank of the elements that go to a register. -/
def register_of (H : Hasher) (S : Finset Bytes) (i : ℕ) : ℕ :=
  S.sup fun e => if ((H.index_and_rank e).1 : ℕ) = i then (H.index_and_rank e).2.toNat else 0

theorem register_of_empty (i : ℕ) : register_of H ∅ i = 0 := Finset.sup_empty

theorem register_of_union (i : ℕ) :
    register_of H (S ∪ T) i = max (register_of H S i) (register_of H T i) := Finset.sup_union

theorem register_of_insert (e : Bytes) (i : ℕ) : register_of H (insert e S) i =
    max (if ((H.index_and_rank e).1 : ℕ) = i then (H.index_and_rank e).2.toNat else 0)
      (register_of H S i) := Finset.sup_insert

def header : Bytes := magic ++ List.replicate (HDR_LEN - 4) 0

theorem header_length : header.length = HDR_LEN := by decide

/-- The bytes of a HyperLogLog whose registers are those of a set of elements. -/
structure IsHll (H : Hasher) (S : Finset Bytes) (buf : Bytes) : Prop where
  length : buf.length = HDR_LEN + HLL_REGISTERS
  header : buf.take HDR_LEN = header
  registers : ∀ i < HLL_REGISTERS, (register buf i).toNat = register_of H S i

theorem isHll_new : IsHll H ∅ new_hll := by
  have hnew : new_hll = header ++ List.replicate HLL_REGISTERS 0 := rfl
  refine ⟨?_, ?_, fun i hi => ?_⟩
  · rw [hnew, length_append, header_length, length_replicate]
  · rw [hnew, ← header_length, take_left]
  · rw [hnew, register_of_empty]
    unfold register
    have hlen : i < (List.replicate HLL_REGISTERS (0 : UInt8)).length := by
      rwa [length_replicate]
    rw [← header_length, getD_append_right _ _ _ _ (Nat.le_add_right _ _), Nat.add_sub_cancel_left,
      getD_eq_getElem _ _ hlen, getElem_replicate]
    rfl

theorem IsHll.is_hll (h : IsHll H S buf) : is_hll buf = true := by
  have hfour : buf.take 4 = magic := by
    have htake : buf.take 4 = (buf.take HDR_LEN).take 4 := by
      rw [take_take]
      rfl
    rw [htake, h.header]
    decide
  exact decide_eq_true ⟨h.length, hfour⟩

theorem IsHll.ext (h : IsHll H S buf) (h' : IsHll H S src) : buf = src := by
  refine ext_getElem (h.length.trans h'.length.symm) fun j hj hj' => ?_
  by_cases hhead : j < HDR_LEN
  · have htake : (buf.take HDR_LEN)[j]? = (src.take HDR_LEN)[j]? := by rw [h.header, h'.header]
    rw [List.getElem?_take_of_lt hhead, List.getElem?_take_of_lt hhead,
      List.getElem?_eq_getElem hj, List.getElem?_eq_getElem hj'] at htake
    exact Option.some.inj htake
  · have hlen := h.length
    have hsplit : HDR_LEN + (j - HDR_LEN) = j := by omega
    have hregister : ∀ b : Bytes, ∀ hb : j < b.length, register b (j - HDR_LEN) = b[j] := by
      intro b hb
      unfold register
      rw [hsplit, getD_eq_getElem _ _ hb]
    have hi : j - HDR_LEN < HLL_REGISTERS := by omega
    rw [← hregister buf hj, ← hregister src hj', ← UInt8.toNat_inj, h.registers _ hi,
      h'.registers _ hi]

theorem register_set {i j : ℕ} (v : UInt8) (hj : HDR_LEN + j < buf.length) :
    register (buf.set (HDR_LEN + j) v) i = if i = j then v else register buf i := by
  unfold register
  rw [getD_eq_getElem?_getD, List.getElem?_set]
  by_cases hij : i = j
  · rw [hij, if_pos rfl, if_pos rfl, if_pos hj]
    rfl
  · rw [if_neg hij, if_neg (by omega), getD_eq_getElem?_getD]

theorem IsHll.set (h : IsHll H S buf) {j : ℕ} (hj : j < HLL_REGISTERS) {v : UInt8}
    (hT : ∀ i < HLL_REGISTERS, register_of H T i = if i = j then v.toNat else register_of H S i) :
    IsHll H T (buf.set (HDR_LEN + j) v) := by
  have hlen := h.length
  refine ⟨?_, ?_, fun i hi => ?_⟩
  · rw [length_set, h.length]
  · rw [take_set_of_le (Nat.le_add_right _ _), h.header]
  · rw [register_set v (by omega), hT i hi]
    split
    · rfl
    · exact h.registers i hi

theorem IsHll.congr (h : IsHll H S buf)
    (hT : ∀ i < HLL_REGISTERS, register_of H T i = register_of H S i) : IsHll H T buf :=
  ⟨h.length, h.header, fun i hi => (h.registers i hi).trans (hT i hi).symm⟩

/-! ## The loops -/

theorem IsHll.add (h : IsHll H S buf) (e : Bytes) :
    IsHll H (insert e S) (if (H.index_and_rank e).2 > register buf (H.index_and_rank e).1 then
      buf.set (HDR_LEN + (H.index_and_rank e).1) (H.index_and_rank e).2 else buf) := by
  have hidx := (H.index_and_rank e).1.isLt
  have hreg := h.registers _ hidx
  by_cases hgt : (H.index_and_rank e).2 > register buf (H.index_and_rank e).1
  · rw [if_pos hgt]
    have hlt := UInt8.lt_iff_toNat_lt.mp hgt
    refine h.set hidx fun i hi => ?_
    rw [register_of_insert]
    by_cases hi : i = (H.index_and_rank e).1
    · rw [if_pos hi.symm, if_pos hi, hi]
      omega
    · rw [if_neg (Ne.symm hi), if_neg hi, Nat.zero_max]
  · rw [if_neg hgt]
    have hle := UInt8.le_iff_toNat_le.mp (UInt8.not_lt.mp hgt)
    refine h.congr fun i hi => ?_
    rw [register_of_insert]
    by_cases hi : i = (H.index_and_rank e).1
    · rw [if_pos hi.symm, hi]
      omega
    · rw [if_neg (Ne.symm hi), Nat.zero_max]

/-- PFADD makes the registers those of all elements, and says whether the bytes have changed. -/
theorem pfadd_elements_spec (elements : List Bytes) (h : IsHll H S buf) (changed : Bool) :
    IsHll H (S ∪ elements.toFinset) (pfadd_elements H elements buf changed).1 ∧
      ((pfadd_elements H elements buf changed).2 = true ↔
        changed = true ∨ (pfadd_elements H elements buf changed).1 ≠ buf) := by
  induction elements generalizing S buf changed with
  | nil =>
    refine ⟨?_, ?_⟩
    · rw [toFinset_nil, Finset.union_empty]
      exact h
    · exact ⟨.inl, fun h => h.resolve_right fun hne => hne rfl⟩
  | cons e elements ih =>
    have hadd := h.add e
    have hset : S ∪ (e :: elements).toFinset = insert e S ∪ elements.toFinset := by
      rw [toFinset_cons, Finset.union_insert, Finset.insert_union]
    rw [hset]
    unfold pfadd_elements
    dsimp only
    by_cases hgt : (H.index_and_rank e).2 > register buf (H.index_and_rank e).1
    · rw [if_pos hgt] at hadd
      rw [if_pos hgt]
      obtain ⟨hfinal, hchanged⟩ := ih hadd true
      refine ⟨hfinal, ?_⟩
      -- registers only grow, so the one that has grown differs at the end
      have hne : (pfadd_elements H elements (buf.set (HDR_LEN + (H.index_and_rank e).1)
          (H.index_and_rank e).2) true).1 ≠ buf := by
        intro heq
        have hidx := (H.index_and_rank e).1.isLt
        have hlast := hfinal.registers _ hidx
        rw [heq, register_of_union, register_of_insert, if_pos rfl] at hlast
        have hlt := UInt8.lt_iff_toNat_lt.mp hgt
        omega
      rw [hchanged]
      exact ⟨fun _ => .inr hne, fun _ => .inl rfl⟩
    · rw [if_neg hgt] at hadd
      rw [if_neg hgt]
      exact ih hadd changed

theorem merge_registers_spec (hsrc : IsHll H T src) (h : IsHll H S buf) (n : ℕ)
    (hn : n ≤ HLL_REGISTERS) :
    (merge_registers src n buf).length = buf.length ∧
      (merge_registers src n buf).take HDR_LEN = header ∧
      ∀ i < HLL_REGISTERS, (register (merge_registers src n buf) i).toNat =
        if i < n then max (register_of H S i) (register_of H T i) else register_of H S i := by
  induction n with
  | zero =>
    refine ⟨rfl, h.header, fun i hi => ?_⟩
    exact h.registers i hi
  | succ n ih =>
    obtain ⟨hlen, hhead, hregs⟩ := ih (by omega)
    have hbuf := h.length
    have hthis := hregs n (by omega)
    rw [if_neg (lt_irrefl n)] at hthis
    have hother := hsrc.registers n (by omega)
    unfold merge_registers
    by_cases hgt : register src n > register (merge_registers src n buf) n
    · have hlt := UInt8.lt_iff_toNat_lt.mp hgt
      rw [if_pos hgt]
      refine ⟨?_, ?_, fun i hi => ?_⟩
      · rw [length_set, hlen]
      · rw [take_set_of_le (Nat.le_add_right _ _), hhead]
      · rw [register_set _ (by omega)]
        by_cases hin : i = n
        · rw [if_pos hin, if_pos (by omega), hin]
          omega
        · rw [if_neg hin, hregs i hi]
          exact if_congr (by omega) rfl rfl
    · have hle := UInt8.le_iff_toNat_le.mp (UInt8.not_lt.mp hgt)
      rw [if_neg hgt]
      refine ⟨hlen, hhead, fun i hi => ?_⟩
      rw [hregs i hi]
      by_cases hin : i = n
      · rw [hin, if_neg (lt_irrefl n), if_pos (Nat.lt_succ_self n)]
        omega
      · exact if_congr (by omega) rfl rfl

theorem IsHll.merge (h : IsHll H S buf) (hsrc : IsHll H T src) :
    IsHll H (S ∪ T) (merge_registers src HLL_REGISTERS buf) := by
  obtain ⟨hlen, hhead, hregs⟩ := merge_registers_spec hsrc h HLL_REGISTERS (le_refl _)
  refine ⟨hlen.trans h.length, hhead, fun i hi => ?_⟩
  rw [hregs i hi, if_pos hi, register_of_union]

/-- The registers without the header, as PFCOUNT adds them up. -/
structure Merged (H : Hasher) (S : Finset Bytes) (merged : Bytes) : Prop where
  length : merged.length = HLL_REGISTERS
  registers : ∀ i (hi : i < merged.length), (merged.get ⟨i, hi⟩).toNat = register_of H S i

theorem merged_zero : Merged H ∅ (List.replicate HLL_REGISTERS 0) := by
  refine ⟨length_replicate, fun i hi => ?_⟩
  rw [get_eq_getElem, getElem_replicate, register_of_empty]
  rfl

theorem Merged.ext {merged merged' : Bytes} (h : Merged H S merged) (h' : Merged H S merged') :
    merged = merged' := by
  refine ext_get (h.length.trans h'.length.symm) fun i hi hi' => ?_
  rw [← UInt8.toNat_inj, h.registers i hi, h'.registers i hi']

theorem Merged.merge {merged : Bytes} (h : Merged H S merged) (hbuf : IsHll H T buf) :
    Merged H (S ∪ T) (merge_into merged buf) := by
  have hlen : (merge_into merged buf).length = merged.length := length_mapIdx
  refine ⟨hlen.trans h.length, fun i hi => ?_⟩
  have him : i < merged.length := hlen ▸ hi
  have hreg := hbuf.registers i (h.length ▸ him)
  have hold : merged[i].toNat = register_of H S i := h.registers i him
  have hget : (merge_into merged buf).get ⟨i, hi⟩ =
      if register buf i > merged[i] then register buf i else merged[i] := by
    unfold merge_into
    rw [get_eq_getElem, getElem_mapIdx]
  rw [hget, register_of_union]
  by_cases hgt : register buf i > merged[i]
  · have hlt := UInt8.lt_iff_toNat_lt.mp hgt
    rw [if_pos hgt]
    omega
  · have hle := UInt8.le_iff_toNat_le.mp (UInt8.not_lt.mp hgt)
    rw [if_neg hgt]
    omega

end Registers

/-! ## Keys as sets of elements -/

/-- The elements of the HyperLogLog under each key that exists. -/
abbrev Elements := Bytes → Option (Finset Bytes)

def Elements.all (A : Elements) (keys : List Bytes) : Finset Bytes :=
  keys.toFinset.biUnion fun k => (A k).getD ∅

theorem Elements.all_cons (A : Elements) (key : Bytes) (keys : List Bytes) :
    A.all (key :: keys) = (A key).getD ∅ ∪ A.all keys := by
  unfold Elements.all
  rw [toFinset_cons, Finset.biUnion_insert]

section Keys

variable {F : Type} [Score F] {H : Hasher} {A : Elements} {C : Instant → Prop}
  {m : HashMap Bytes (Entry F)}

/-- Every key holds the HyperLogLog of its elements, or nothing. -/
def Refines (H : Hasher) (A : Elements) (m : HashMap Bytes (Entry F)) : Prop :=
  ∀ key, match A key with
    | none => m[key]? = none
    | some S => ∃ e buf, m[key]? = some e ∧ e.expires_at = none ∧ e.data = .String buf ∧ IsHll H S buf

/-- What `load` finds: the HyperLogLog of the elements. -/
def Loaded (H : Hasher) (S : Option (Finset Bytes)) (loaded : Option Bytes) : Prop :=
  match S, loaded with
  | none, none => True
  | some S, some buf => IsHll H S buf
  | _, _ => False

theorem load_wp (h : Refines H A m) (key : Bytes) :
    (load key).Wp (may C) (fun r m' => m' = m ∧ ∃ loaded, r = .ok (.ok loaded) ∧
      Loaded H (A key) loaded ∧ string_of m[key]? = loaded) m := by
  have hkey := h key
  cases hA : A key with
  | none =>
    rw [hA] at hkey
    refine wp_get (fun _ => ⟨rfl, none, rfl, trivial, ?_⟩) (fun e he => ?_) fun e t now he => ?_
    · rw [hkey]
      rfl
    · cases hkey.symm.trans he
    · cases hkey.symm.trans he
  | some S =>
    rw [hA] at hkey
    obtain ⟨e, buf, he, hexp, hdata, hbuf⟩ := hkey
    refine wp_get (fun hnone => ?_) (fun e' he' _ => ?_) fun e' t now he' ht => ?_
    · cases he.symm.trans hnone
    · cases he.symm.trans he'
      rw [map_some, hdata]
      dsimp only
      rw [if_pos hbuf.is_hll]
      refine ⟨rfl, some buf, rfl, hbuf, ?_⟩
      rw [he]
      unfold string_of
      rw [map_some, hdata]
    · cases he.symm.trans he'
      cases hexp.symm.trans ht

theorem loaded_getD {S : Option (Finset Bytes)} {loaded : Option Bytes} (h : Loaded H S loaded) :
    IsHll H (S.getD ∅) (loaded.getD new_hll) ∧ loaded.isNone = S.isNone := by
  cases S <;> cases loaded
  · exact ⟨isHll_new, rfl⟩
  · exact h.elim
  · exact h.elim
  · exact ⟨h, rfl⟩

theorem save_wp (h : Refines H A m) (key : Bytes) {S : Finset Bytes} {buf : Bytes}
    (hbuf : IsHll H S buf) :
    (save key buf).Wp (may C) (fun r m' => r = .ok () ∧
      Refines H (Function.update A key (some S)) m' ∧ string_of m'[key]? = some buf) m := by
  refine wp_now.mpr fun now _ => wp_access.mpr ⟨rfl, fun k => ?_, ?_⟩
  · by_cases hk : k = key
    · rw [hk, update_self]
      refine ⟨_, buf, Std.ExtTreeMap.getElem?_alter_self, ?_, ?_, hbuf⟩
      · -- an entry that is replaced did not expire either
        have hkey := h key
        cases hA : A key with
        | none =>
          rw [hA] at hkey
          rw [hkey]
          rfl
        | some S' =>
          rw [hA] at hkey
          obtain ⟨e, buf', he, hexp, -, -⟩ := hkey
          rw [he]
          exact hexp
      · cases m[key]? <;> rfl
    · have hother := h k
      rw [update_of_ne hk, alter_of_ne hk]
      exact hother
  · rw [Std.ExtTreeMap.getElem?_alter_self]
    cases m[key]? <;> rfl

theorem pfmerge_keys_wp (h : Refines H A m) (keys : List Bytes) {S : Finset Bytes} {buf : Bytes}
    (hbuf : IsHll H S buf) :
    (pfmerge_keys keys buf).Wp (may C) (fun r m' => m' = m ∧ ∃ buf',
      r = .ok (.ok buf') ∧ IsHll H (S ∪ A.all keys) buf') m := by
  induction keys generalizing S buf with
  | nil => exact ⟨rfl, buf, rfl, by rwa [Elements.all, toFinset_nil, Finset.biUnion_empty,
      Finset.union_empty]⟩
  | cons key keys ih =>
    refine .bind (load_wp h key) ?_ (fun e m' h => (nomatch h.2.choose_spec.1))
    rintro _ _ ⟨rfl, loaded, hr, hloaded, -⟩
    cases hr
    rw [Elements.all_cons]
    generalize A key = elements at hloaded ⊢
    match elements, loaded with
    | none, none =>
      rw [getD_none, Finset.empty_union]
      exact ih hbuf
    | some T, some src =>
      rw [getD_some, ← Finset.union_assoc]
      exact ih (hbuf.merge hloaded)
    | none, some _ | some _, none => exact hloaded.elim

theorem pfcount_keys_wp (h : Refines H A m) (keys : List Bytes) {S : Finset Bytes} {merged : Bytes}
    (hmerged : Merged H S merged) (found : Bool) :
    (pfcount_keys keys merged found).Wp (may C) (fun r m' => m' = m ∧ ∃ merged',
      r = .ok (.ok (merged', found || keys.any fun k => (A k).isSome)) ∧
        Merged H (S ∪ A.all keys) merged') m := by
  induction keys generalizing S merged found with
  | nil =>
    refine ⟨rfl, merged, ?_, ?_⟩
    · rw [any_nil, Bool.or_false]
    · rwa [Elements.all, toFinset_nil, Finset.biUnion_empty, Finset.union_empty]
  | cons key keys ih =>
    refine .bind (load_wp h key) ?_ (fun e m' h => (nomatch h.2.choose_spec.1))
    rintro _ _ ⟨rfl, loaded, hr, hloaded, -⟩
    cases hr
    rw [Elements.all_cons, any_cons]
    generalize A key = elements at hloaded ⊢
    match elements, loaded with
    | none, none =>
      rw [getD_none, Finset.empty_union, isSome_none, Bool.false_or]
      exact ih hmerged found
    | some T, some src =>
      rw [getD_some, ← Finset.union_assoc, isSome_some, Bool.true_or, Bool.or_true]
      exact ih (hmerged.merge hloaded) true
    | none, some _ | some _, none => exact hloaded.elim

theorem Refines.relabel (h : Refines H A m) {key : Bytes} {S : Finset Bytes} {buf : Bytes}
    (hstored : string_of m[key]? = some buf) (hbuf : IsHll H S buf) :
    Refines H (Function.update A key (some S)) m := by
  intro k
  by_cases hk : k = key
  · rw [hk, update_self]
    have hkey := h key
    cases hA : A key with
    | none =>
      rw [hA] at hkey
      rw [hkey] at hstored
      cases hstored
    | some T =>
      rw [hA] at hkey
      obtain ⟨e, buf', he, hexp, hdata, -⟩ := hkey
      unfold string_of at hstored
      rw [he, map_some, hdata] at hstored
      cases hstored
      exact ⟨e, buf, he, hexp, hdata, hbuf⟩
  · rw [update_of_ne hk]
    exact h k

/-- What PFADD comes to: the elements are added, and the reply says whether the key is new or its
bytes have changed. -/
theorem pfadd_wp (h : Refines H A m) (key : Bytes) (elements : List Bytes) :
    (cmd_pfadd H (key :: elements)).Wp (may C) (fun r m' =>
      Refines H (Function.update A key (some ((A key).getD ∅ ∪ elements.toFinset))) m' ∧
        ∃ changed : Bool, r = .ok (int (if changed then 1 else 0)) ∧
          ((A key).isSome → (changed = true ↔ string_of m'[key]? ≠ string_of m[key]?))) m := by
  refine .bind (load_wp h key) ?_ (fun e m' h => (nomatch h.2.choose_spec.1))
  rintro _ _ ⟨rfl, loaded, hr, hloaded, hstored⟩
  cases hr
  obtain ⟨hbuf, hnone⟩ := loaded_getD hloaded
  obtain ⟨hfinal, hchanged⟩ := pfadd_elements_spec elements hbuf loaded.isNone
  dsimp only
  by_cases hc : (pfadd_elements H elements (loaded.getD new_hll) loaded.isNone).2 = true
  · rw [if_pos hc]
    refine .bind (save_wp h key hfinal) ?_ (fun e m' h => (nomatch h.1))
    rintro _ m' ⟨-, hrefines, hnow⟩
    rw [if_pos hc]
    refine ⟨hrefines, true, rfl, fun hsome => ⟨fun _ => ?_, fun _ => rfl⟩⟩
    -- the key was there, so it is the bytes that have changed
    cases loaded with
    | none =>
      rw [← not_isNone, ← hnone] at hsome
      cases hsome
    | some buf =>
      rw [hnow, hstored]
      intro heq
      rcases hchanged.mp hc with hnew | hne
      · cases hnew
      · exact hne (Option.some.inj heq)
  · rw [if_neg hc, if_neg hc]
    obtain ⟨hloaded', hsame⟩ := not_or.mp fun h => hc (hchanged.mpr h)
    cases loaded with
    | none => exact absurd rfl hloaded'
    | some buf =>
      rw [not_not.mp hsame] at hfinal
      refine ⟨h.relabel hstored hfinal, false, rfl, fun _ => ⟨nofun, fun hne => absurd rfl hne⟩⟩

theorem pfmerge_wp (h : Refines H A m) (dest : Bytes) (keys : List Bytes) :
    (cmd_pfmerge (dest :: keys)).Wp (may C) (fun _ m' =>
      Refines H (Function.update A dest (some ((A dest).getD ∅ ∪ A.all keys))) m') m := by
  refine .bind (load_wp h dest) ?_ (fun e m' h => (nomatch h.2.choose_spec.1))
  rintro _ _ ⟨rfl, loaded, hr, hloaded, -⟩
  cases hr
  refine .bind (pfmerge_keys_wp h keys (loaded_getD hloaded).1) ?_
    (fun e m' h => (nomatch h.2.choose_spec.1))
  rintro _ _ ⟨rfl, buf, hr, hbuf⟩
  cases hr
  refine .bind (save_wp h dest hbuf) ?_ (fun e m' h => (nomatch h.1))
  rintro _ m' ⟨-, hrefines, -⟩
  exact hrefines

/-- PFCOUNT of some keys is the estimate of all their elements. -/
theorem pfcount_wp (h : Refines H A m) {keys : List Bytes} (hkeys : keys ≠ []) :
    (cmd_pfcount H keys).Wp (may C) (fun r m' => m' = m ∧
      ∀ merged, Merged H (A.all keys) merged → r = .ok (int
        (if keys.any fun k => (A k).isSome then (H.estimate merged).toNat else 0))) m := by
  unfold cmd_pfcount
  rw [if_neg (by rwa [List.isEmpty_iff])]
  refine .bind (pfcount_keys_wp h keys merged_zero false) ?_
    (fun e m' h => (nomatch h.2.choose_spec.1))
  rintro _ _ ⟨rfl, merged, hr, hmerged⟩
  cases hr
  refine ⟨rfl, fun merged' hmerged' => ?_⟩
  rw [Finset.empty_union] at hmerged
  rw [hmerged.ext hmerged', Bool.false_or]

end Keys

/-! ## Runs -/

inductive PfCommand where
  | PFADD (args : List Bytes)
  | PFMERGE (args : List Bytes)
  deriving Repr, DecidableEq

section Runs

variable {F : Type} [Score F]

def PfCommand.handler (H : Hasher) : PfCommand → StoreM F (Reply F)
  | .PFADD args => cmd_pfadd H args
  | .PFMERGE args => cmd_pfmerge args

def PfCommand.step (H : Hasher) (w : World F) (c : PfCommand) : World F :=
  ((c.handler H : StoreM F (Reply F)).run World.step w).2

/-- What a command adds: elements, or those of other keys. -/
def Elements.step (A : Elements) : PfCommand → Elements
  | .PFADD (key :: elements) => Function.update A key (some ((A key).getD ∅ ∪ elements.toFinset))
  | .PFMERGE (dest :: keys) => Function.update A dest (some ((A dest).getD ∅ ∪ A.all keys))
  | _ => A

/-- The elements that have been added to each key, directly or through merged keys. -/
def elements_of (cs : List PfCommand) : Elements := run Elements.step (fun _ => none) cs

theorem refines_step {H : Hasher} {A : Elements} {w : World F} (h : Refines H A w.store.keyspace)
    (c : PfCommand) : Refines H (A.step c) (PfCommand.step H w c).store.keyspace := by
  have hwithin : w.Within fun _ => True := fun _ => trivial
  match c with
  | .PFADD [] | .PFMERGE [] => exact h
  | .PFADD (key :: elements) => exact (run_of_wp (pfadd_wp h key elements) hwithin).1
  | .PFMERGE (dest :: keys) => exact run_of_wp (pfmerge_wp h dest keys) hwithin

theorem refines_run (H : Hasher) (env : Env) (cs : List PfCommand) :
    Refines H (elements_of cs) (run (PfCommand.step H) (World.new env : World F) cs).store.keyspace := by
  have hrun : ∀ (cs : List PfCommand) (A : Elements) (w : World F), Refines H A w.store.keyspace →
      Refines H (run .step A cs) (run (PfCommand.step H) w cs).store.keyspace := by
    intro cs
    induction cs with
    | nil => exact fun A w h => h
    | cons c cs ih => exact fun A w h => ih _ _ (refines_step h c)
  exact hrun cs _ _ fun key => Std.ExtTreeMap.getElem?_empty

def stored (w : World F) (key : Bytes) : Bytes := (string_of w.store.keyspace[key]?).getD []

theorem Refines.exists_iff {H : Hasher} {A : Elements} {m : HashMap Bytes (Entry F)}
    (h : Refines H A m) (key : Bytes) : (m[key]?).isSome = (A key).isSome := by
  have hkey := h key
  cases hA : A key with
  | none =>
    rw [hA] at hkey
    rw [hkey]
    rfl
  | some S =>
    rw [hA] at hkey
    obtain ⟨e, buf, he, -⟩ := hkey
    rw [he]
    rfl

theorem Refines.stored {H : Hasher} {A : Elements} {w : World F} (h : Refines H A w.store.keyspace)
    {key : Bytes} {S : Finset Bytes} (hS : A key = some S) :
    IsHll H S (HyperLogLog.stored w key) ∧
      string_of w.store.keyspace[key]? = some (HyperLogLog.stored w key) := by
  have hkey := h key
  rw [hS] at hkey
  obtain ⟨e, buf, he, -, hdata, hbuf⟩ := hkey
  have hstring : string_of w.store.keyspace[key]? = some buf := by
    unfold string_of
    rw [he, map_some, hdata]
  unfold HyperLogLog.stored
  rw [hstring]
  exact ⟨hbuf, rfl⟩

theorem IsHll.ne_iff {H : Hasher} {S T : Finset Bytes} {buf src : Bytes} (h : IsHll H S buf)
    (h' : IsHll H T src) : src ≠ buf ↔ ∃ i < HLL_REGISTERS, register src i ≠ register buf i := by
  constructor
  · intro hne
    by_contra hall
    push Not at hall
    refine hne (h'.ext (h.congr fun i hi => ?_))
    rw [← h'.registers i hi, ← h.registers i hi, hall i hi]
  · rintro ⟨i, -, hi⟩ rfl
    exact hi rfl

/-- PFCOUNT of some keys, at least one of which exists, is that of their PFMERGE into a new key. -/
theorem pfcount_merge {H : Hasher} {A : Elements} {w : World F} (h : Refines H A w.store.keyspace)
    {keys : List Bytes} {fresh : Bytes} (hexists : ∃ k ∈ keys, (A k).isSome = true)
    (hfresh : A fresh = none) :
    ((cmd_pfcount H keys).run World.step w).1 =
      ((cmd_pfcount H [fresh]).run World.step
        (PfCommand.step H w (.PFMERGE (fresh :: keys)))).1 := by
  have hwithin : ∀ w : World F, w.Within fun _ => True := fun _ _ => trivial
  obtain ⟨k, hk, hsome⟩ := hexists
  have hkeys : keys ≠ [] := ne_nil_of_mem hk
  have hmerge := refines_step h (.PFMERGE (fresh :: keys))
  obtain ⟨-, hcount⟩ := run_of_wp (pfcount_wp h hkeys) (hwithin w)
  obtain ⟨-, hcount'⟩ := run_of_wp (pfcount_wp hmerge (cons_ne_nil fresh [])) (hwithin _)
  -- both are the estimate of the same elements
  obtain ⟨merged, hmerged⟩ : ∃ merged, Merged H (A.all keys) merged := by
    have hrun := run_of_wp (pfcount_keys_wp h keys merged_zero false) (hwithin w)
    obtain ⟨-, merged, -, hmerged⟩ := hrun
    rw [Finset.empty_union] at hmerged
    exact ⟨merged, hmerged⟩
  have hall : (A.step (.PFMERGE (fresh :: keys))).all [fresh] = A.all keys := by
    rw [Elements.all_cons, Elements.all, toFinset_nil, Finset.biUnion_empty, Finset.union_empty]
    show (Function.update A fresh _ fresh).getD ∅ = _
    rw [update_self, getD_some, hfresh, getD_none, Finset.empty_union]
  have hany : (keys.any fun k => (A k).isSome) = true := any_eq_true.mpr ⟨k, hk, hsome⟩
  have hany' : ([fresh].any fun k => (A.step (.PFMERGE (fresh :: keys)) k).isSome) = true := by
    refine any_eq_true.mpr ⟨fresh, mem_singleton_self fresh, ?_⟩
    show (Function.update A fresh _ fresh).isSome = true
    rw [update_self]
    rfl
  rw [hcount merged hmerged, hcount' merged (hall ▸ hmerged), hany, hany']

/-- **HyperLogLogs.** After any run from the empty store, the registers under a key are those of the
elements that have been added to it, directly or through merged keys, and so depend on the set of
these elements alone; PFCOUNT of several keys, one of which exists, is that of a new key with their
PFMERGE; and PFADD on a key that exists replies 1 exactly if some register changes. -/
theorem hll_merge_laws (H : Hasher) (env : Env) (cs : List PfCommand) :
    let w := run (PfCommand.step H) (World.new env : World F) cs
    (∀ key S, elements_of cs key = some S → ∀ i < HLL_REGISTERS,
      (register (stored w key) i).toNat = register_of H S i) ∧
    (∀ key, (w.store.keyspace[key]?).isSome = (elements_of cs key).isSome) ∧
    (∀ env' cs' key key', elements_of cs' key' = elements_of cs key →
      string_of (run (PfCommand.step H) (World.new env' : World F) cs').store.keyspace[key']? =
        string_of w.store.keyspace[key]?) ∧
    (∀ keys fresh, (∃ k ∈ keys, (w.store.keyspace[k]?).isSome = true) →
      w.store.keyspace[fresh]? = none →
      ((cmd_pfcount H keys).run World.step w).1 =
        ((cmd_pfcount H [fresh]).run World.step
          (PfCommand.step H w (.PFMERGE (fresh :: keys)))).1) ∧
    ∀ key elements, (w.store.keyspace[key]?).isSome = true →
      let r := (cmd_pfadd H (key :: elements)).run World.step w
      ∃ changed : Bool, r.1 = .ok (int (if changed then 1 else 0)) ∧
        (changed = true ↔
          ∃ i < HLL_REGISTERS, register (stored r.2 key) i ≠ register (stored w key) i) := by
  intro w
  have h := refines_run (F := F) H env cs
  refine ⟨fun key S hS => (h.stored hS).1.registers, h.exists_iff, ?_, ?_, ?_⟩
  · intro env' cs' key key' heq
    have h' := refines_run (F := F) H env' cs'
    cases hS : elements_of cs key with
    | none =>
      have hkey := h key
      have hkey' := h' key'
      rw [hS] at hkey
      rw [heq, hS] at hkey'
      rw [hkey, hkey']
    | some S =>
      obtain ⟨hbuf, hstring⟩ := h.stored hS
      obtain ⟨hbuf', hstring'⟩ := h'.stored (heq.trans hS)
      rw [hstring, hstring', hbuf'.ext hbuf]
  · rintro keys fresh ⟨k, hk, hsome⟩ hfresh
    refine pfcount_merge h ⟨k, hk, (h.exists_iff k).symm.trans hsome⟩ ?_
    rw [← isNone_iff_eq_none, ← not_isSome, ← h.exists_iff fresh, hfresh]
    rfl
  · intro key elements hsome r
    obtain ⟨hrefines, changed, hr, hiff⟩ := run_of_wp (pfadd_wp h key elements)
      (C := fun _ => True) fun _ => trivial
    refine ⟨changed, hr, ?_⟩
    rw [h.exists_iff key] at hsome
    obtain ⟨S, hS⟩ := isSome_iff_exists.mp hsome
    obtain ⟨hbuf, hstring⟩ := h.stored hS
    obtain ⟨hbuf', hstring'⟩ := hrefines.stored (update_self ..)
    rw [hiff hsome, ← hbuf.ne_iff hbuf', hstring, hstring', ne_eq, ne_eq, some_inj]

/-- One key, merged into another. -/
theorem hll_merge_laws_one :
    let H := murmur fun _ => 0
    let w := run (PfCommand.step H) (World.new .still : World Resp.Infinity) [.PFADD [as_bytes "k"]]
    ((cmd_pfcount H [as_bytes "k"]).run World.step w).1 =
      ((cmd_pfcount H [as_bytes "f"]).run World.step
        (PfCommand.step H w (.PFMERGE [as_bytes "f", as_bytes "k"]))).1 := by
  refine (hll_merge_laws (murmur fun _ => 0) .still [.PFADD [as_bytes "k"]]).2.2.2.1 [as_bytes "k"]
    (as_bytes "f") ⟨as_bytes "k", mem_singleton_self _, ?_⟩ ?_
  · decide +kernel
  · decide +kernel

end Runs

end ValkeyRs.HyperLogLog
