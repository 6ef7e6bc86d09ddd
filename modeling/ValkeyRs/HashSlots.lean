/-
Hash slots, `crates/cluster/src/slots.rs`, and the check sum of `crates/commands/src/cluster.rs`.

The repository has the check sum twice. The cluster crate goes through a table, eight bits of the
register at a time; the command crate shifts bit by bit. They are the same function
(`crc16_eq_crc16_xmodem`): each takes in a byte by eight steps of one register, the table being
those eight steps for the 256 values of the window (`crc16_tab_spec`).

What a tag is (`HashTag`) is said by where the braces are; `extract_hashtag` looks for them from the
left, and finds the tag exactly when there is one.
-/
import ValkeyRs.Crc
import ValkeyRs.Resp

set_option autoImplicit false

open ValkeyRs.Text

namespace ValkeyRs.Cluster

/-! ## The check sum -/

set_option maxRecDepth 4000 in
def CRC16_TAB : Vector (BitVec 16) 256 :=
  #v[0x0000, 0x1021, 0x2042, 0x3063, 0x4084, 0x50a5, 0x60c6, 0x70e7, 0x8108, 0x9129, 0xa14a, 0xb16b,
    0xc18c, 0xd1ad, 0xe1ce, 0xf1ef, 0x1231, 0x0210, 0x3273, 0x2252, 0x52b5, 0x4294, 0x72f7, 0x62d6,
    0x9339, 0x8318, 0xb37b, 0xa35a, 0xd3bd, 0xc39c, 0xf3ff, 0xe3de, 0x2462, 0x3443, 0x0420, 0x1401,
    0x64e6, 0x74c7, 0x44a4, 0x5485, 0xa56a, 0xb54b, 0x8528, 0x9509, 0xe5ee, 0xf5cf, 0xc5ac, 0xd58d,
    0x3653, 0x2672, 0x1611, 0x0630, 0x76d7, 0x66f6, 0x5695, 0x46b4, 0xb75b, 0xa77a, 0x9719, 0x8738,
    0xf7df, 0xe7fe, 0xd79d, 0xc7bc, 0x48c4, 0x58e5, 0x6886, 0x78a7, 0x0840, 0x1861, 0x2802, 0x3823,
    0xc9cc, 0xd9ed, 0xe98e, 0xf9af, 0x8948, 0x9969, 0xa90a, 0xb92b, 0x5af5, 0x4ad4, 0x7ab7, 0x6a96,
    0x1a71, 0x0a50, 0x3a33, 0x2a12, 0xdbfd, 0xcbdc, 0xfbbf, 0xeb9e, 0x9b79, 0x8b58, 0xbb3b, 0xab1a,
    0x6ca6, 0x7c87, 0x4ce4, 0x5cc5, 0x2c22, 0x3c03, 0x0c60, 0x1c41, 0xedae, 0xfd8f, 0xcdec, 0xddcd,
    0xad2a, 0xbd0b, 0x8d68, 0x9d49, 0x7e97, 0x6eb6, 0x5ed5, 0x4ef4, 0x3e13, 0x2e32, 0x1e51, 0x0e70,
    0xff9f, 0xefbe, 0xdfdd, 0xcffc, 0xbf1b, 0xaf3a, 0x9f59, 0x8f78, 0x9188, 0x81a9, 0xb1ca, 0xa1eb,
    0xd10c, 0xc12d, 0xf14e, 0xe16f, 0x1080, 0x00a1, 0x30c2, 0x20e3, 0x5004, 0x4025, 0x7046, 0x6067,
    0x83b9, 0x9398, 0xa3fb, 0xb3da, 0xc33d, 0xd31c, 0xe37f, 0xf35e, 0x02b1, 0x1290, 0x22f3, 0x32d2,
    0x4235, 0x5214, 0x6277, 0x7256, 0xb5ea, 0xa5cb, 0x95a8, 0x8589, 0xf56e, 0xe54f, 0xd52c, 0xc50d,
    0x34e2, 0x24c3, 0x14a0, 0x0481, 0x7466, 0x6447, 0x5424, 0x4405, 0xa7db, 0xb7fa, 0x8799, 0x97b8,
    0xe75f, 0xf77e, 0xc71d, 0xd73c, 0x26d3, 0x36f2, 0x0691, 0x16b0, 0x6657, 0x7676, 0x4615, 0x5634,
    0xd94c, 0xc96d, 0xf90e, 0xe92f, 0x99c8, 0x89e9, 0xb98a, 0xa9ab, 0x5844, 0x4865, 0x7806, 0x6827,
    0x18c0, 0x08e1, 0x3882, 0x28a3, 0xcb7d, 0xdb5c, 0xeb3f, 0xfb1e, 0x8bf9, 0x9bd8, 0xabbb, 0xbb9a,
    0x4a75, 0x5a54, 0x6a37, 0x7a16, 0x0af1, 0x1ad0, 0x2ab3, 0x3a92, 0xfd2e, 0xed0f, 0xdd6c, 0xcd4d,
    0xbdaa, 0xad8b, 0x9de8, 0x8dc9, 0x7c26, 0x6c07, 0x5c64, 0x4c45, 0x3ca2, 0x2c83, 0x1ce0, 0x0cc1,
    0xef1f, 0xff3e, 0xcf5d, 0xdf7c, 0xaf9b, 0xbfba, 0x8fd9, 0x9ff8, 0x6e17, 0x7e36, 0x4e55, 0x5e74,
    0x2e93, 0x3eb2, 0x0ed1, 0x1ef0]

/-- `byte as u16`. -/
def as_u16 (byte : UInt8) : BitVec 16 := byte.toBitVec.setWidth 16

/-- `((crc >> 8) ^ (byte as u16)) & 0xFF`. -/
def crc16_idx (crc : BitVec 16) (byte : UInt8) : BitVec 16 :=
  ((crc >>> 8) ^^^ as_u16 byte) &&& 0xFF

variable (crc : BitVec 16)

theorem crc16_idx_lt (byte : UInt8) : (crc16_idx crc byte).toNat < 256 := by
  rw [crc16_idx, BitVec.toNat_and]
  exact Nat.and_lt_two_pow (n := 8) _ (by decide)

/-- The body of the loop of `crc16`. -/
def crc16_round (crc : BitVec 16) (byte : UInt8) : BitVec 16 :=
  CRC16_TAB.get ⟨(crc16_idx crc byte).toNat, crc16_idx_lt crc byte⟩ ^^^ crc <<< 8

def crc16 (data : Bytes) : BitVec 16 := data.foldl crc16_round 0

/-- One round of the inner loop of `crc16_xmodem`. -/
def crc16_shift (crc : BitVec 16) : BitVec 16 :=
  if crc &&& 0x8000 ≠ 0 then (crc <<< 1) ^^^ 0x1021 else crc <<< 1

/-- The body of the outer loop of `crc16_xmodem`. -/
def crc16_xmodem_round (crc : BitVec 16) (byte : UInt8) : BitVec 16 :=
  (List.range 8).foldl (fun crc _ => crc16_shift crc) (crc ^^^ as_u16 byte <<< 8)

def crc16_xmodem (data : Bytes) : BitVec 16 := data.foldl crc16_xmodem_round 0

/-! ## Hash slots -/

/-- The bytes `{` and `}`. -/
def open_brace : UInt8 := 123

def close_brace : UInt8 := 125

def extract_hashtag (key : Bytes) : Bytes :=
  match key.findIdx? (· == open_brace) with
  | none => []
  | some i =>
    let rest := key.drop (i + 1)
    match rest.findIdx? (· == close_brace) with
    | some end_rel => if (rest.take end_rel).isEmpty then [] else rest.take end_rel
    | none => []

def key_hash_slot (key : Bytes) : BitVec 16 :=
  let tag := extract_hashtag key
  let data := if tag.isEmpty then key else tag
  crc16 data % 16384

/-- `CLUSTER KEYSLOT`, which takes the whole key. -/
def cluster_keyslot {F : Type} (args : List Bytes) : Resp.RespValue F :=
  match args with
  | [] => .Error "ERR wrong number of arguments for 'CLUSTER KEYSLOT' command"
  | key :: _ => .Integer (Int64.ofNat (crc16_xmodem key % 16384).toNat)

/-! ## One register -/

/-- `crc & 0x8000 != 0` asks for the topmost bit. -/
theorem crc16_shift_eq_bit : crc16_shift crc = Crc.bit 0x1021 crc := by
  have htop : crc &&& 0x8000 ≠ 0 ↔ crc.msb = true := by
    have hmask : (0x8000 : BitVec 16) = BitVec.twoPow 16 15 := by decide
    rw [hmask, BitVec.and_twoPow, BitVec.msb_eq_getLsbD_last]
    by_cases h : crc.getLsbD 15 <;> simp [h]
  unfold crc16_shift Crc.bit
  by_cases h : crc.msb = true
  · rw [if_pos (htop.mpr h), if_pos h]
  · rw [if_neg (mt htop.mp h), if_neg h]

/-- The inner loop of `crc16_xmodem` is eight steps of the register. -/
theorem crc16_shifts :
    (List.range 8).foldl (fun crc _ => crc16_shift crc) crc = Crc.bits 0x1021 8 crc := by
  rw [List.foldl_const, List.length_range, funext crc16_shift_eq_bit]
  rfl

theorem crc16_tab_spec (i : Fin 256) :
    CRC16_TAB.get i = Crc.bits 0x1021 8 (BitVec.ofNat 16 i.val <<< 8) := by
  revert i
  decide +kernel

theorem crc16_idx_eq (byte : UInt8) : crc16_idx crc byte = (crc ^^^ as_u16 byte <<< 8) >>> 8 := by
  have hmask : ∀ i, (hi : i < 16) → (0xFF : BitVec 16)[i] = decide (i < 8) := by decide
  unfold crc16_idx as_u16
  ext i hi
  rw [BitVec.getElem_and, hmask i hi]
  by_cases hlow : i < 8
  · have hin : 8 + i < 16 := by omega
    simp [hlow, hin]
  · have hout : ¬ 8 + i < 16 := by omega
    have hcrc : crc.getLsbD (8 + i) = false := BitVec.getLsbD_of_ge _ _ (by omega)
    simp [hlow, hout, hcrc]

theorem shift_byte (byte : UInt8) : (crc ^^^ as_u16 byte <<< 8) <<< 8 = crc <<< 8 := by
  rw [BitVec.shiftLeft_xor_distrib, ← BitVec.shiftLeft_add, as_u16]
  simp

theorem crc16_round_eq (byte : UInt8) : crc16_round crc byte = crc16_xmodem_round crc byte := by
  have hidx : BitVec.ofNat 16 (crc16_idx crc byte).toNat = (crc ^^^ as_u16 byte <<< 8) >>> 8 := by
    rw [BitVec.ofNat_toNat, BitVec.setWidth_eq, crc16_idx_eq]
  calc crc16_round crc byte
      = Crc.bits 0x1021 8 (((crc ^^^ as_u16 byte <<< 8) >>> 8) <<< 8) ^^^ crc <<< 8 := by
        rw [crc16_round, crc16_tab_spec, hidx]
    _ = Crc.bits 0x1021 8 (crc ^^^ as_u16 byte <<< 8) := by
        rw [Crc.bits_eq_table 0x1021 8 (crc ^^^ as_u16 byte <<< 8), shift_byte]
    _ = crc16_xmodem_round crc byte := (crc16_shifts _).symm

theorem crc16_eq_crc16_xmodem (data : Bytes) : crc16 data = crc16_xmodem data := by
  rw [crc16, crc16_xmodem, funext₂ crc16_round_eq]

/-! ## Hash tags -/

/-- The key has a hash tag: what stands between its first opening brace and the first closing
brace after that, if that is not empty. -/
def HashTag (key tag : Bytes) : Prop :=
  ∃ pre post, key = pre ++ open_brace :: (tag ++ close_brace :: post) ∧
    open_brace ∉ pre ∧ tag ≠ [] ∧ close_brace ∉ tag

/-- `position` of a byte that stands behind a part without it. -/
theorem findIdx?_of_first {b : UInt8} {pre rest : Bytes} (h : b ∉ pre) :
    (pre ++ b :: rest).findIdx? (· == b) = some pre.length := by
  induction pre with
  | nil => simp [List.findIdx?_cons]
  | cons c pre ih =>
    obtain ⟨hne, hpre⟩ := not_or.mp (mt List.mem_cons.mpr h)
    have hcb : (c == b) = false := by simpa using Ne.symm hne
    rw [List.cons_append, List.findIdx?_cons, hcb, ih hpre]
    rfl

/-- What `position` has found: the byte, behind a part without it. -/
theorem first_of_findIdx? {b : UInt8} {l : Bytes} {i : ℕ} (h : l.findIdx? (· == b) = some i) :
    ∃ pre rest, l = pre ++ b :: rest ∧ b ∉ pre ∧ pre.length = i := by
  induction l generalizing i with
  | nil => simp at h
  | cons c l ih =>
    rw [List.findIdx?_cons] at h
    by_cases hcb : c = b
    · simp only [hcb, beq_self_eq_true, if_true, Option.some.injEq] at h
      exact ⟨[], l, by rw [hcb]; rfl, List.not_mem_nil, h⟩
    · simp only [beq_eq_false_iff_ne.mpr hcb, Bool.false_eq_true, if_false] at h
      obtain ⟨j, hj, rfl⟩ := Option.map_eq_some_iff.mp h
      obtain ⟨pre, rest, rfl, hpre, hlen⟩ := ih hj
      refine ⟨c :: pre, rest, rfl, ?_, by simp [hlen]⟩
      intro hmem
      rcases List.mem_cons.mp hmem with heq | hin
      · exact hcb heq.symm
      · exact hpre hin

theorem extract_hashtag_of_tag {key tag : Bytes} (h : HashTag key tag) :
    extract_hashtag key = tag := by
  obtain ⟨pre, post, rfl, hpre, htag, hclose⟩ := h
  have hrest : (pre ++ open_brace :: (tag ++ close_brace :: post)).drop (pre.length + 1)
      = tag ++ close_brace :: post := by
    rw [← List.drop_drop, List.drop_left]
    rfl
  unfold extract_hashtag
  simp only [findIdx?_of_first hpre, hrest, findIdx?_of_first hclose, List.take_left]
  simp [htag]

theorem hashTag_of_extract {key : Bytes} (h : extract_hashtag key ≠ []) :
    HashTag key (extract_hashtag key) := by
  unfold extract_hashtag at h ⊢
  -- every way of not finding a tag leaves the empty one
  cases hopen : key.findIdx? (· == open_brace) with
  | none => simp [hopen] at h
  | some i =>
    obtain ⟨pre, rest, rfl, hpre, rfl⟩ := first_of_findIdx? hopen
    have hrest : (pre ++ open_brace :: rest).drop (pre.length + 1) = rest := by
      rw [← List.drop_drop, List.drop_left]
      rfl
    simp only [hopen, hrest] at h ⊢
    cases hclose : rest.findIdx? (· == close_brace) with
    | none => simp [hclose] at h
    | some j =>
      obtain ⟨tag, post, rfl, htag, rfl⟩ := first_of_findIdx? hclose
      simp only [hclose, List.take_left] at h ⊢
      by_cases hempty : tag = []
      · simp [hempty] at h
      · simp only [List.isEmpty_iff, hempty, if_false]
        exact ⟨pre, post, rfl, hpre, hempty, htag⟩

/-! ## The slot of a key -/

theorem key_hash_slot_of_tag {key tag : Bytes} (h : HashTag key tag) :
    key_hash_slot key = crc16 tag % 16384 := by
  have htag : tag ≠ [] := h.choose_spec.choose_spec.2.2.1
  simp [key_hash_slot, extract_hashtag_of_tag h, htag]

theorem key_hash_slot_of_no_tag {key : Bytes} (h : ∀ tag, ¬ HashTag key tag) :
    key_hash_slot key = crc16 key % 16384 := by
  have hnone : extract_hashtag key = [] := by
    by_contra hne
    exact h _ (hashTag_of_extract hne)
  simp [key_hash_slot, hnone]

/-- **Hash slots.** The two check sums are one function; the slot is that of the hash tag, if the
key has one, and that of the key otherwise; and there are 16384 slots. -/
theorem key_hash_slot_spec :
    (∀ data, crc16 data = crc16_xmodem data) ∧
      ∀ key, (∀ tag, HashTag key tag → key_hash_slot key = crc16 tag % 16384) ∧
        ((∀ tag, ¬ HashTag key tag) → key_hash_slot key = crc16 key % 16384) ∧
          key_hash_slot key < 16384 := by
  refine ⟨crc16_eq_crc16_xmodem, fun key => ⟨fun tag => key_hash_slot_of_tag, ?_, ?_⟩⟩
  · exact key_hash_slot_of_no_tag
  · exact BitVec.umod_lt _ (by decide)

/-- Two keys with the tag `user`, and one whose braces hold nothing. -/
theorem key_hash_slot_user :
    key_hash_slot (as_bytes "\x7buser\x7d1000") = crc16 (as_bytes "user") % 16384 ∧
      key_hash_slot (as_bytes "a\x7buser\x7db\x7d") = crc16 (as_bytes "user") % 16384 ∧
        key_hash_slot (as_bytes "\x7b\x7duser") = crc16 (as_bytes "\x7b\x7duser") % 16384 := by
  refine ⟨(key_hash_slot_spec.2 _).1 _ ⟨[], as_bytes "1000", ?_⟩,
    (key_hash_slot_spec.2 _).1 _ ⟨as_bytes "a", as_bytes "b\x7d", ?_⟩,
    (key_hash_slot_spec.2 _).2.1 ?_⟩
  · decide
  · decide
  · intro tag h
    have hnone : extract_hashtag (as_bytes "\x7b\x7duser") = [] := by decide
    have htag := extract_hashtag_of_tag h
    exact h.choose_spec.choose_spec.2.2.1 (htag.symm.trans hnone)

/-- `CLUSTER KEYSLOT` names the slot of a key that has no tag. -/
theorem cluster_keyslot_of_no_tag {F : Type} {key : Bytes} (h : ∀ tag, ¬ HashTag key tag) :
    cluster_keyslot (F := F) [key] = .Integer (Int64.ofNat (key_hash_slot key).toNat) := by
  rw [key_hash_slot_of_no_tag h, crc16_eq_crc16_xmodem]
  rfl

/-- `CLUSTER KEYSLOT` of the command crate names the slot that the cluster routes a key by exactly if
it has no tag, or one that falls into the slot of the whole key. -/
theorem cluster_keyslot_agrees_iff {F : Type} (key : Bytes) :
    cluster_keyslot (F := F) [key] = .Integer (Int64.ofNat (key_hash_slot key).toNat) ↔
      ∀ tag, HashTag key tag → crc16 tag % 16384 = crc16 key % 16384 := by
  by_cases h : ∃ tag, HashTag key tag
  · obtain ⟨tag, htag⟩ := h
    have hinj {a b : BitVec 16} (hab : Int64.ofNat a.toNat = Int64.ofNat b.toNat) : a = b := by
      have hint := congrArg Int64.toInt hab
      rw [Int64.toInt_ofNat_of_lt (by omega), Int64.toInt_ofNat_of_lt (by omega)] at hint
      exact BitVec.eq_of_toNat_eq (by omega)
    rw [key_hash_slot_of_tag htag, cluster_keyslot, ← crc16_eq_crc16_xmodem]
    refine ⟨fun heq tag' htag' => ?_, fun hall => by rw [hall tag htag]⟩
    rw [← extract_hashtag_of_tag htag', extract_hashtag_of_tag htag]
    exact (hinj (Resp.RespValue.Integer.inj heq)).symm
  · rw [not_exists] at h
    exact iff_of_true (cluster_keyslot_of_no_tag h) fun tag htag => absurd htag (h tag)

end ValkeyRs.Cluster
