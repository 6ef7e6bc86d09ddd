/-
What is written is read again.

Each encoder of the format has a decoder that reads its bytes as the value they came from
(`Encodes`), as long as the lengths can be written: `encode_length` has four bytes for a length. The
representation of a value is not kept: a listpack comes back as a list and an intset as a set. What
is kept is the value that a client sees, and of a stream all but the consumer groups, which are not
written.

`load_save_cases` puts this together with `insert_all_run` and says what a store is after it has
been saved and loaded, whatever the clocks do in between: the copies are those of the entries that
the code makes of their expiry times, and if one cannot be made the loading panics.
-/
import ValkeyRs.RdbContents
import ValkeyRs.Values

set_option autoImplicit false

open ValkeyRs Text Resp Storage Codec Codec.Decoder Maps

namespace ValkeyRs.Rdb

/-! ## Numbers, lengths and strings -/

theorem number_encode (w n : ℕ) : Encodes (number w) (le_bytes w n) (n % 256 ^ w) := by
  have hbytes := Encodes.bytes RdbError.UnexpectedEof (le_bytes w n)
  rw [length_le_bytes] at hbytes
  refine hbytes.map ?_
  rw [of_le_bytes_le_bytes]
  exact .pure _

theorem number_encode_of_lt {w n : ℕ} (h : n < 256 ^ w) : Encodes (number w) (le_bytes w n) n := by
  have hnum := number_encode w n
  rwa [Nat.mod_eq_of_lt h] at hnum

theorem decode_length_encode (n : ℕ) : Encodes decode_length (encode_length n) (n % 2 ^ 32) := by
  unfold encode_length
  by_cases h6 : n < 2 ^ 6
  · have hfirst : (UInt8.ofNat n).toNat = n := Listpack.toNat_ofNat_of_lt (by omega)
    rw [if_pos h6]
    refine (Encodes.byte _ _).map ?_
    rw [hfirst, if_pos (by omega), Nat.mod_eq_of_lt (by omega)]
    exact .pure n
  by_cases h14 : n < 2 ^ 14
  · -- the six low bits of the first byte, and the second
    have hfirst : (UInt8.ofNat (0x40 + n / 256)).toNat = 0x40 + n / 256 :=
      Listpack.toNat_ofNat_of_lt (by omega)
    have hsecond : (UInt8.ofNat n).toNat = n % 256 := UInt8.toNat_ofNat'
    have hvalue : (0x40 + n / 256) % 64 * 256 + n % 256 = n % 2 ^ 32 := by omega
    rw [if_neg h6, if_pos h14]
    refine (Encodes.byte _ (UInt8.ofNat (0x40 + n / 256))).bind (c := [UInt8.ofNat n]) ?_
    rw [hfirst, if_neg (by omega), if_pos (by omega)]
    refine (Encodes.byte _ _).map ?_
    rw [hsecond, hvalue]
    exact .pure _
  · rw [if_neg h6, if_neg h14]
    refine (Encodes.byte _ 0x80).bind (c := le_bytes 4 n) ?_
    exact number_encode 4 n

theorem decode_length_encode_of_lt {n : ℕ} (h : n < 2 ^ 32) :
    Encodes decode_length (encode_length n) n := by
  have hlen := decode_length_encode n
  rwa [Nat.mod_eq_of_lt h] at hlen

/-- **Lengths.** A 64-bit length is read back from its code, with nothing but what follows left,
exactly if it fits into 32 bits. -/
theorem length_codec_iff (n : UInt64) (r : Bytes) :
    (∃ pos, decode_length (encode_length n.toNat ++ r) 0 = .ok (n.toNat, pos) ∧
      (encode_length n.toNat ++ r).drop pos = r) ↔ n.toNat < 2 ^ 32 := by
  have hcode := decode_length_encode n.toNat [] r
  rw [List.nil_append, List.length_nil, Nat.zero_add] at hcode
  rw [hcode]
  constructor
  · rintro ⟨pos, hread, -⟩
    have hvalue : n.toNat % 2 ^ 32 = n.toNat := congrArg Prod.fst (Except.ok.inj hread)
    omega
  · intro hn
    rw [Nat.mod_eq_of_lt hn]
    exact ⟨_, rfl, List.drop_left⟩

/-- 2^32 is written as 0. -/
theorem length_codec_wraps :
    decode_length (encode_length (4294967296 : UInt64).toNat ++ []) 0 = .ok (0, 5) := by
  decide

theorem decode_string_encode {s : Bytes} (h : s.length < 2 ^ 32) :
    Encodes decode_string (encode_string s) s :=
  (decode_length_encode_of_lt h).bind (.bytes _ s)

theorem decode_id_encode (id : StreamId) : Encodes decode_id (encode_id id) id := by
  have hword : ∀ x : UInt64, Encodes (number 8) (le_bytes 8 x.toNat) x.toNat := fun x =>
    number_encode_of_lt x.toNat_lt
  refine (hword id.ms).bind ((hword id.seq).map ?_)
  rw [UInt64.ofNat_toNat, UInt64.ofNat_toNat]
  exact .pure id

theorem decode_pair_encode {p : Bytes × Bytes} (h : p.1.length < 2 ^ 32 ∧ p.2.length < 2 ^ 32) :
    Encodes decode_pair (encode_pair p) p :=
  (decode_string_encode h.1).bind ((decode_string_encode h.2).map (.pure p))

theorem foldl_append_singleton {α : Type} (xs ys : List α) :
    xs.foldl (fun l x => l ++ [x]) ys = ys ++ xs := by
  induction xs generalizing ys with
  | nil => simp
  | cons x xs ih => rw [List.foldl_cons, ih, List.append_assoc, List.singleton_append]

theorem times_append {α : Type} {d : Decoder RdbError α} {enc : α → Bytes} {xs : List α}
    (h : ∀ x ∈ xs, Encodes d (enc x) x) :
    Encodes (times (fun l => do return l ++ [← d]) xs.length []) (xs.flatMap enc) xs := by
  have htimes := Encodes.times (d := fun l => do return l ++ [← d]) (f := fun l x => l ++ [x])
    (fun x hx l => (h x hx).map (.pure (l ++ [x]))) []
  rwa [foldl_append_singleton, List.nil_append] at htimes

theorem decode_stream_entry_encode {e : StreamId × List (Bytes × Bytes)} (hlen : e.2.length < 2 ^ 32)
    (hfields : ∀ p ∈ e.2, p.1.length < 2 ^ 32 ∧ p.2.length < 2 ^ 32) :
    Encodes decode_stream_entry (encode_stream_entry e) e := by
  refine (decode_id_encode e.1).bind ((decode_length_encode_of_lt hlen).bind ?_)
  exact (times_append fun p hp => decode_pair_encode (hfields p hp)).map (.pure e)

theorem decode_score_encode {F : Type} [FloatBits F] (score : F) : Encodes decode_score
    (encode_score score) score := by
  have hnum : Encodes (number 8) (encode_score score) (FloatBits.to_bits score).toNat :=
    number_encode_of_lt (FloatBits.to_bits score).toNat_lt
  refine hnum.map ?_
  rw [UInt64.ofNat_toNat, FloatBits.from_bits_to_bits]
  exact .pure score

/-! ## Values -/

def ungrouped {F : Type} : Value F → Value F
  | .stream entries _ last_id => .stream entries ∅ last_id
  | value => value

section Values

variable {F : Type} [LinearOrder F]

/-- Every length in the value can be written. -/
def Fits : DataType F → Prop
  | .String s => s.length < 2 ^ 32
  | .List list => list.length < 2 ^ 32 ∧ ∀ x ∈ list, x.length < 2 ^ 32
  | .Set set => set.size < 2 ^ 32 ∧ ∀ x ∈ set, x.length < 2 ^ 32
  | .ZSet zset =>
    zset.members.size < 2 ^ 32 ∧ ∀ (member : Bytes) score, zset.members[member]? = some score →
      member.length < 2 ^ 32
  | .Hash hash =>
    hash.size < 2 ^ 32 ∧ ∀ (field value : Bytes), hash[field]? = some value →
      field.length < 2 ^ 32 ∧ value.length < 2 ^ 32
  | .Stream stream =>
    stream.entries.size < 2 ^ 32 ∧ ∀ (id : StreamId) (fields : List (Bytes × Bytes)), stream.entries[id]? = some fields →
      fields.length < 2 ^ 32 ∧ ∀ p ∈ fields, p.1.length < 2 ^ 32 ∧ p.2.length < 2 ^ 32
  | .ListPack lp => lp.count < 2 ^ 32 ∧ lp.Short
  | .IntSet s => s.length < 2 ^ 32

theorem length_toString_i64 {v : ℤ} (hlo : -2 ^ 63 ≤ v) (hhi : v < 2 ^ 63) :
    (as_bytes (toString v)).length < 2 ^ 32 := by
  have hlen := length_toString_int (n := v) (e := 19) (by omega) (by omega)
  omega

theorem length_to_bytes {prev_len : ℕ} {entries : List ListPackEntry}
    (h : Listpack.Short prev_len entries) :
    ∀ x ∈ entries.map ListPackEntry.to_bytes, x.length < 2 ^ 32 := by
  induction entries generalizing prev_len with
  | nil =>
    intro x hx
    cases hx
  | cons entry entries ih =>
    intro x hx
    rw [List.map_cons] at hx
    rcases List.mem_cons.mp hx with rfl | hx
    · cases entry with
      | Integer i => exact length_toString_i64 i.le_toInt i.toInt_lt
      | String s =>
        have hpiece := h.1
        rw [Listpack.length_piece, Listpack.encode_entry, Listpack.encode_string,
          List.length_append] at hpiece
        show s.length < 2 ^ 32
        omega
    · exact ih h.2 x hx

theorem length_int_member {s : IntSet} : ∀ x ∈ s.members, x.length < 2 ^ 32 := by
  intro x hx
  obtain ⟨v, hv, rfl⟩ := List.mem_map.mp hx
  exact length_toString_i64 (s.bounds hv).1 (s.bounds hv).2

theorem times_set {xs : List Bytes} (h : ∀ x ∈ xs, x.length < 2 ^ 32) :
    Encodes (times (fun set : HashSet Bytes => do return set.insert (← decode_string)) xs.length ∅)
      (xs.flatMap encode_string) (gather ∅ xs) :=
  .times (f := Std.ExtTreeSet.insert)
    (fun x hx set => (decode_string_encode (h x hx)).map (.pure (set.insert x))) ∅

theorem times_fill {κ α : Type} [Ord κ] [Std.TransOrd κ] {d : Decoder RdbError (κ × α)}
    {enc : κ × α → Bytes} {xs : List (κ × α)} (h : ∀ p ∈ xs, Encodes d (enc p) p) :
    Encodes (times (fun m : Std.ExtTreeMap κ α => do
      let p ← d
      return m.insert p.1 p.2) xs.length ∅) (xs.flatMap enc) (fill ∅ xs) :=
  .times (f := fun (m : Std.ExtTreeMap κ α) (p : κ × α) => m.insert p.1 p.2)
    (fun p hp m => (h p hp).map (.pure (m.insert p.1 p.2))) ∅

def with_member (zset : ZSetData F) (p : Bytes × F) : ZSetData F :=
  ⟨ZSetData.link zset.scores p.1 p.2, zset.members.insert p.1 p.2⟩

theorem members_foldl_with_member (xs : List (Bytes × F)) (zset : ZSetData F) :
    (xs.foldl with_member zset).members = fill zset.members xs := by
  induction xs generalizing zset with
  | nil => rfl
  | cons p xs ih => exact ih (with_member zset p)

theorem type_byte_ne (data : DataType F) : type_byte data ≠ RDB_OPCODE_EOF ∧
    type_byte data ≠ RDB_OPCODE_EXPIRETIME_MS ∧ type_byte data ≠ RDB_OPCODE_EXPIRETIME := by
  cases data <;> simp only [type_byte] <;> decide

variable [FloatBits F]

theorem decode_zset_member_encode (zset : ZSetData F) {p : Bytes × F} (h : p.1.length < 2 ^ 32) :
    Encodes (decode_zset_member zset) (encode_string p.1 ++ encode_score p.2)
      (with_member zset p) :=
  (decode_string_encode h).bind ((decode_score_encode p.2).map (.pure (with_member zset p)))

theorem decode_value_encode (a : Arrangement) {data : DataType F} (h : Fits data) :
    ∃ data', Encodes (decode_value (type_byte data)) (encode_value a data) data' ∧
      data'.value = ungrouped data.value := by
  cases data with
  | String s =>
    refine ⟨.String s, ?_, rfl⟩
    exact (decode_string_encode h).map (.pure _)
  | List list =>
    refine ⟨.List list, ?_, rfl⟩
    exact (decode_length_encode_of_lt h.1).bind 
      ((times_append fun x hx => decode_string_encode (h.2 x hx)).map (.pure _))
  | ListPack lp =>
    obtain ⟨hlen, hshort⟩ := h.2.iter_eq
    have htimes := times_append fun x hx => decode_string_encode (length_to_bytes hshort x hx)
    rw [List.length_map, hlen, List.flatMap_map] at htimes
    refine ⟨.List lp.to_vec, ?_, rfl⟩
    exact (decode_length_encode_of_lt h.1).bind (htimes.map (.pure _))
  | Set set =>
    have hperm := a.perm set.toList
    have hmem : ∀ x, x ∈ a.order set.toList ↔ x ∈ set := fun x =>
      hperm.mem_iff.trans Std.ExtTreeSet.mem_toList
    have htimes := times_set fun x hx => h.2 x ((hmem x).mp hx)
    rw [gather_eq hmem, hperm.length_eq, Std.ExtTreeSet.length_toList] at htimes
    refine ⟨.Set set, ?_, rfl⟩
    exact (decode_length_encode_of_lt h.1).bind (htimes.map (.pure _))
  | IntSet s =>
    have htimes := times_set (length_int_member (s := s))
    rw [IntSet.members, List.length_map, s.codes_iter.length, List.flatMap_map] at htimes
    refine ⟨.Set (gather ∅ s.members), ?_, rfl⟩
    exact (decode_length_encode_of_lt h).bind (htimes.map (.pure _))
  | ZSet zset =>
    have hshort : ∀ p ∈ arranged a zset.members, p.1.length < 2 ^ 32 := fun p hp =>
      h.2 p.1 p.2 ((mem_arranged a _).mp hp)
    have htimes := Encodes.times
      (fun p hp zset => decode_zset_member_encode (F := F) zset (hshort p hp)) .new
    rw [length_arranged] at htimes
    refine ⟨.ZSet ((arranged a zset.members).foldl with_member .new), ?_, ?_⟩
    · exact (decode_length_encode_of_lt h.1).bind (htimes.map (.pure _))
    · have hfill := fill_eq (nodup_arranged a zset.members) fun _ _ => mem_arranged a zset.members
      rw [DataType.value, members_foldl_with_member]
      exact congrArg Value.zset hfill
  | Hash hash =>
    have hpair : ∀ p ∈ arranged a hash, Encodes decode_pair (encode_pair p) p := fun p hp =>
      decode_pair_encode (h.2 p.1 p.2 ((mem_arranged a hash).mp hp))
    have hfill := fill_eq (nodup_arranged a hash) fun _ _ => mem_arranged a hash
    have htimes := times_fill hpair
    rw [hfill, length_arranged] at htimes
    refine ⟨.Hash hash, ?_, rfl⟩
    exact (decode_length_encode_of_lt h.1).bind (htimes.map (.pure _))
  | Stream stream =>
    have hentry : ∀ e ∈ stream.entries.toList,
        Encodes decode_stream_entry (encode_stream_entry e) e := by
      intro e he
      obtain ⟨hlen, hfields⟩ := h.2 e.1 e.2 (Std.ExtTreeMap.mem_toList_iff_getElem?_eq_some.mp he)
      exact decode_stream_entry_encode hlen hfields
    have htimes := times_fill hentry
    rw [fill_toList, Std.ExtTreeMap.length_toList] at htimes
    refine ⟨.Stream ⟨stream.entries, ∅, stream.last_id, ∅⟩, ?_, rfl⟩
    refine (decode_length_encode_of_lt h.1).bind ((decode_length_encode _).bind ?_)
    exact htimes.bind ((decode_id_encode stream.last_id).map (.pure _))

end Values

/-! ## Expiry times -/

section Stamps

variable {F : Type} [LinearOrder F]

def encode_stamp : Stamp → Bytes
  | .none => []
  | .ms t => RDB_OPCODE_EXPIRETIME_MS :: le_bytes 8 t
  | .sec t => RDB_OPCODE_EXPIRETIME :: le_bytes 4 t

/-- The expiry time that is written for an entry in given surroundings. -/
def stamp_at (env : Env) : Option Instant → Stamp
  | none => .none
  | some expires_at => .ms ((millis (env.wall 0) + millis (expires_at - env.clock 0)) % 2 ^ 64)

/-- The record is one of the entry, written when the surroundings had the property. -/
def Saves (I : Env → Prop) (p : Bytes × Entry F) (r : Record F) : Prop :=
  r.key = p.1 ∧ r.data = p.2.data ∧ ∃ env, I env ∧ r.stamp = stamp_at env p.2.expires_at

theorem save_expiry_run (entry : Entry F) (w : World F) :
    ∃ env', (env' = w.env ∨ env' = w.env.tick.tick_wall) ∧
      (save_expiry entry).run World.step w =
        (.ok (encode_stamp (stamp_at w.env entry.expires_at)), { w with env := env' }) := by
  unfold save_expiry
  cases entry.expires_at with
  | none => exact ⟨w.env, .inl rfl, rfl⟩
  | some expires_at =>
    refine ⟨w.env.tick.tick_wall, .inr rfl, ?_⟩
    have hmod := le_bytes_mod 8 (millis (w.env.wall 0) + millis (expires_at - w.env.clock 0))
    rw [stamp_at, encode_stamp]
    exact congrArg (fun b => (Except.ok (RDB_OPCODE_EXPIRETIME_MS :: b), _)) hmod.symm

end Stamps

/-! ## Entries -/

section Files

variable {F : Type} [LinearOrder F] [FloatBits F]

def encode_record (inner : Bytes → Arrangement) (r : Record F) : Bytes :=
  encode_stamp r.stamp ++ encode_entry (inner r.key) r.key r.data

/-- Everything in the record can be written. -/
def Record.Fits (r : Record F) : Prop :=
  r.key.length < 2 ^ 32 ∧ Rdb.Fits r.data ∧
    match r.stamp with
    | .none => True
    | .ms t => t < 2 ^ 64
    | .sec t => t < 2 ^ 32

/-- What the second record has to do with the first, if that one was written and the second one
read. -/
def Reads (r r' : Record F) : Prop :=
  r'.stamp = r.stamp ∧ r'.key = r.key ∧ r'.data.value = ungrouped r.data.value

theorem decode_entry_encode (a : Arrangement) {key : Bytes} {data : DataType F}
    (hkey : key.length < 2 ^ 32) (hdata : Fits data) :
    ∃ data', Encodes decode_entry (encode_entry a key data) (key, data') ∧
      data'.value = ungrouped data.value := by
  obtain ⟨data', hencodes, hvalue⟩ := decode_value_encode a hdata
  refine ⟨data', ?_, hvalue⟩
  refine (Encodes.byte _ (type_byte data)).bind (c := encode_string key ++ encode_value a data) ?_
  exact (decode_string_encode hkey).bind (hencodes.map (Encodes.pure _))

variable (inner : Bytes → Arrangement)

theorem decode_stamp_encode {r : Record F} (h : r.Fits) :
    ∃ opcode rest, encode_record inner r = opcode :: rest ∧ opcode ≠ RDB_OPCODE_EOF ∧
      Encodes (decode_stamp opcode) (encode_stamp r.stamp) r.stamp := by
  obtain ⟨stamp, key, data⟩ := r
  obtain ⟨-, -, hstamp⟩ := h
  obtain ⟨heof, hms, hsec⟩ := type_byte_ne data
  cases stamp with
  | none =>
    refine ⟨type_byte data, _, rfl, heof, ?_⟩
    rw [decode_stamp, if_neg hms, if_neg hsec]
    exact .pure _
  | ms t =>
    have hnum : Encodes (number 8) (le_bytes 8 t) t := number_encode_of_lt hstamp
    refine ⟨RDB_OPCODE_EXPIRETIME_MS, _, rfl, by decide, ?_⟩
    rw [decode_stamp, if_pos rfl]
    exact (Encodes.byte _ RDB_OPCODE_EXPIRETIME_MS).bind (c := le_bytes 8 t)
      (hnum.map (Encodes.pure _))
  | sec t =>
    have hnum : Encodes (number 4) (le_bytes 4 t) t := number_encode_of_lt hstamp
    refine ⟨RDB_OPCODE_EXPIRETIME, _, rfl, by decide, ?_⟩
    rw [decode_stamp, if_neg (by decide), if_pos rfl]
    exact (Encodes.byte _ RDB_OPCODE_EXPIRETIME).bind (c := le_bytes 4 t)
      (hnum.map (Encodes.pure _))

theorem parse_records {rs : List (Record F)} (h : ∀ r ∈ rs, r.Fits)
    (before after : Bytes) {turns : ℕ} (hturns : rs.length < turns) :
    ∃ rs', List.Forall₂ Reads rs rs' ∧
      parse (before ++ (rs.flatMap (encode_record inner) ++ RDB_OPCODE_EOF :: after)) turns
        before.length = (rs', .eof) := by
  induction rs generalizing before turns with
  | nil =>
    obtain ⟨turns, rfl⟩ := Nat.exists_eq_succ_of_ne_zero (Nat.ne_of_gt hturns)
    refine ⟨[], .nil, ?_⟩
    have hget : (before ++ (RDB_OPCODE_EOF :: after))[before.length]? = some RDB_OPCODE_EOF := by
      simp
    rw [List.flatMap_nil, List.nil_append, parse, hget]
    dsimp only
    rw [if_pos rfl]
  | cons r rs ih =>
    obtain ⟨turns, rfl⟩ := Nat.exists_eq_succ_of_ne_zero (Nat.ne_of_gt (Nat.zero_lt_of_lt hturns))
    have hr := h r List.mem_cons_self
    obtain ⟨data', hentry, hvalue⟩ := decode_entry_encode (inner r.key) hr.1 hr.2.1
    obtain ⟨opcode, rest, hfirst, heof, hstamp⟩ := decode_stamp_encode inner hr
    obtain ⟨rs', hreads, hparse⟩ := ih (fun r hr => h r (List.mem_cons_of_mem _ hr))
      (before ++ encode_record inner r) (Nat.lt_of_succ_lt_succ hturns)
    refine ⟨⟨r.stamp, r.key, data'⟩ :: rs', .cons ⟨rfl, rfl, hvalue⟩ hreads, ?_⟩
    -- the buffer, cut behind the expiry time and behind the entry
    generalize htail : rs.flatMap (encode_record inner) ++ RDB_OPCODE_EOF :: after = tail at hparse
    have hget : (before ++ (encode_record inner r ++ tail))[before.length]? = some opcode := by
      rw [hfirst]
      simp
    have hstamp' := hstamp before (encode_entry (inner r.key) r.key r.data ++ tail)
    have hentry' := hentry (before ++ encode_stamp r.stamp) tail
    have hcut : before ++ (encode_record inner r ++ tail) = before ++ (encode_stamp r.stamp ++
        (encode_entry (inner r.key) r.key r.data ++ tail)) := by
      rw [encode_record, List.append_assoc]
    rw [List.append_assoc, List.length_append] at hentry'
    rw [List.append_assoc, List.length_append] at hparse
    rw [List.flatMap_cons, List.append_assoc, htail, parse, hget]
    dsimp only
    rw [if_neg heof, hcut, hstamp']
    dsimp only
    rw [hentry', Nat.add_assoc, ← List.length_append, ← encode_record, ← hcut]
    dsimp only
    rw [hparse]

/-! ## Files -/

theorem length_le_flatMap_records (rs : List (Record F)) :
    rs.length ≤ (rs.flatMap (encode_record inner)).length := by
  induction rs with
  | nil => exact le_rfl
  | cons r rs ih =>
    have hentry : 0 < (encode_entry (inner r.key) r.key r.data).length := Nat.succ_pos _
    rw [List.flatMap_cons, List.length_append, encode_record, List.length_append, List.length_cons]
    omega

theorem verify_finish (crc64 : Bytes → UInt64) (body : Bytes) :
    verify crc64 (finish crc64 body) = .ok () := by
  unfold verify finish
  dsimp only
  generalize RDB_MAGIC ++ (body ++ [RDB_OPCODE_EOF]) = buf
  have hlt : (crc64 buf).toNat < 256 ^ 8 := (crc64 buf).toNat_lt
  rw [List.length_append, length_le_bytes, if_neg (by omega), Nat.add_sub_cancel, List.drop_left,
    List.take_left, of_le_bytes_le_bytes_of_lt hlt, if_neg (not_not.mpr rfl)]

theorem load_finish (crc64 : Bytes → UInt64) (inner : Bytes → Arrangement) {rs : List (Record F)}
    (h : ∀ r ∈ rs, r.Fits) :
    ∃ rs', List.Forall₂ Reads rs rs' ∧
      load crc64 (finish crc64 (rs.flatMap (encode_record inner))) =
        (do insert_all rs'; return .ok () : StoreM F (Except RdbError Unit)) := by
  generalize hbuf : finish crc64 (rs.flatMap (encode_record inner)) = buf
  have hcut : buf = RDB_MAGIC ++ (rs.flatMap (encode_record inner) ++ RDB_OPCODE_EOF ::
      le_bytes 8 (crc64 (RDB_MAGIC ++ (rs.flatMap (encode_record inner) ++
        [RDB_OPCODE_EOF]))).toNat) := by
    rw [← hbuf, finish]
    simp only [List.append_assoc, List.cons_append, List.nil_append]
  have hturns : rs.length < buf.length := by
    have hle := length_le_flatMap_records inner rs
    rw [hcut, List.length_append, List.length_append, List.length_cons]
    omega
  have hmagic : buf.take 9 = RDB_MAGIC := by
    rw [hcut]
    exact List.take_left' rfl
  obtain ⟨rs', hreads, hparse⟩ := parse_records inner h RDB_MAGIC (le_bytes 8 (crc64 (RDB_MAGIC ++
    (rs.flatMap (encode_record inner) ++ [RDB_OPCODE_EOF]))).toNat) hturns
  rw [← hcut] at hparse
  have hparse' : parse (F := F) buf buf.length 9 = (rs', .eof) := hparse
  have hverify : verify crc64 buf = .ok () := by rw [← hbuf, verify_finish]
  refine ⟨rs', hreads, ?_⟩
  rw [load_eq, contents, ending, if_pos hmagic, if_pos hmagic, hparse', hverify]
  rfl

theorem save_entries_run (items : List (Bytes × Entry F))
    {I : Env → Prop} (hI : ∀ env, I env → I env.tick ∧ I env.tick_wall) {w : World F}
    (hw : I w.env) :
    ∃ rs env', List.Forall₂ (Saves I) items rs ∧
      (save_entries inner items).run World.step w =
        (.ok (rs.flatMap (encode_record inner)), { w with env := env' }) := by
  induction items generalizing w with
  | nil => exact ⟨[], w.env, .nil, rfl⟩
  | cons p items ih =>
    obtain ⟨key, entry⟩ := p
    obtain ⟨env₁, henv₁, hexpiry⟩ := save_expiry_run entry w
    have hI₁ : I env₁ := by
      rcases henv₁ with rfl | rfl
      · exact hw
      · exact (hI _ (hI _ hw).1).2
    obtain ⟨rs, env₂, hsaves, hrun⟩ := ih (w := { w with env := env₁ }) hI₁
    refine ⟨⟨stamp_at w.env entry.expires_at, key, entry.data⟩ :: rs, env₂,
      .cons ⟨rfl, rfl, w.env, hw, rfl⟩ hsaves, ?_⟩
    rw [save_entries, Prog.run_bind, hexpiry]
    dsimp only
    rw [Prog.run_bind, hrun, List.flatMap_cons, encode_record, List.append_assoc]
    rfl

/-! ## The store, saved and loaded -/

/-- The entry `e'` comes of saving `e` in some surroundings and loading it in others. -/
def Survives (I I' : Env → Prop) (key : Bytes) (e e' : Entry F) : Prop :=
  e'.data.value = ungrouped e.data.value ∧
    ∃ env env' data, I env ∧ I' env' ∧ ∀ w : World F, w.env = env' →
      ((make ⟨stamp_at env e.expires_at, key, data⟩).run World.step w).1 = .ok e'

/-- An entry cannot be loaded at all. -/
def Stalls (I I' : Env → Prop) (key : Bytes) (e : Entry F) : Prop :=
  ∃ env env' data halt, I env ∧ I' env' ∧ ∀ w : World F, w.env = env' →
    ((make ⟨stamp_at env e.expires_at, key, data⟩).run World.step w).1 = .error halt

/-- The record is what can be read of an entry that was saved. -/
def Passes (I : Env → Prop) (p : Bytes × Entry F) (r : Record F) : Prop :=
  r.key = p.1 ∧ r.data.value = ungrouped p.2.data.value ∧
    ∃ env, I env ∧ r.stamp = stamp_at env p.2.expires_at

theorem load_save_cases (crc64 : Bytes → UInt64) (inner : Bytes → Arrangement) {I I' : Env → Prop}
    (hI : ∀ env, I env → I env.tick ∧ I env.tick_wall)
    (hI' : ∀ env, I' env → I' env.tick ∧ I' env.tick_wall) {w w' : World F}
    (hw : I w.env.rearrange) (hw' : I' w'.env) (hempty : w'.store.keyspace = ∅)
    (hfits : ∀ (k : Bytes) (e : Entry F), w.store.keyspace[k]? = some e →
      k.length < 2 ^ 32 ∧ Fits e.data) :
    ∃ buf, ((save crc64 inner).run World.step w).1 = .ok buf ∧
      ((∃ halt, ((load crc64 buf).run World.step w').1 = .error halt ∧
          ∃ (k : Bytes) (e : Entry F), w.store.keyspace[k]? = some e ∧ Stalls I I' k e) ∨
        ((load crc64 buf).run World.step w').1 = .ok (.ok ()) ∧
          ∀ k : Bytes, Option.Rel (Survives I I' k) w.store.keyspace[k]?
            ((load crc64 buf).run World.step w').2.store.keyspace[k]?) := by
  have hmem : ∀ (k : Bytes) (e : Entry F), (k, e) ∈ arranged (w.env.arrange 0) w.store.keyspace ↔
      w.store.keyspace[k]? = some e := fun k e => mem_arranged _ _
  have hnodup := nodup_arranged (w.env.arrange 0) w.store.keyspace
  have hiter : (save crc64 inner).run World.step w = ((do
      let body ← save_entries inner (arranged (w.env.arrange 0) w.store.keyspace)
      return finish crc64 body : StoreM F Bytes)).run World.step
        { w with env := w.env.rearrange } := rfl
  generalize arranged (w.env.arrange 0) w.store.keyspace = items at hmem hnodup hiter
  obtain ⟨rs, env₁, hsaves, hsave⟩ :=
    save_entries_run inner items hI (w := { w with env := w.env.rearrange }) hw
  rw [Prog.run_bind, hsave] at hiter
  -- the records can be written because the entries can
  have hrecords : ∀ r ∈ rs, r.Fits := by
    intro r hr
    obtain ⟨p, hp, hkey, hdata, env, -, hstamp⟩ := forall₂_mem_right hsaves hr
    obtain ⟨hlen, hfit⟩ := hfits p.1 p.2 ((hmem p.1 p.2).mp hp)
    refine ⟨by rw [hkey]; exact hlen, by rw [hdata]; exact hfit, ?_⟩
    rw [hstamp]
    cases p.2.expires_at with
    | none => trivial
    | some t => exact Nat.mod_lt _ (by positivity)
  obtain ⟨rs', hreads, hload⟩ := load_finish crc64 inner hrecords
  refine ⟨finish crc64 (rs.flatMap (encode_record inner)), by rw [hiter]; rfl, ?_⟩
  rw [hload, Prog.run_bind]
  have hpasses : List.Forall₂ (Passes I) items rs' := by
    refine forall₂_comp ?_ hsaves hreads
    rintro p r r' ⟨hkey, hdata, env, henv, hstamp⟩ ⟨hstamp', hkey', hvalue⟩
    exact ⟨hkey'.trans hkey, by rw [hvalue, hdata], env, henv, hstamp'.trans hstamp⟩
  rcases insert_all_run rs' hI' hw' with ⟨halt, ⟨r', hr', env', henv', hmake⟩, hrun⟩ |
    ⟨entries, env', -, hall, hrun⟩
  · -- an entry that cannot be made
    have hhalt := hrun w' rfl
    obtain ⟨⟨k, e⟩, hp, hkey, -, env, henv, hstamp⟩ := forall₂_mem_right hpasses hr'
    refine .inl ⟨halt, ?_, k, e, (hmem k e).mp hp, env, env', r'.data, halt, henv, henv', ?_⟩
    · generalize (insert_all rs').run World.step w' = result at hhalt
      obtain ⟨x, w''⟩ := result
      dsimp only at hhalt
      rw [hhalt]
    · obtain ⟨stamp, key, data⟩ := r'
      dsimp only at hkey hstamp
      rw [← hstamp, ← hkey]
      exact hmake
  · rw [hrun w' rfl]
    refine .inr ⟨rfl, fun k => ?_⟩
    have hcopies : List.Forall₂ (fun (p q : Bytes × Entry F) =>
        q.1 = p.1 ∧ Survives I I' p.1 p.2 q.2) items entries := by
      refine forall₂_comp ?_ hpasses hall
      rintro ⟨k, e⟩ ⟨stamp, key, data⟩ ⟨k', e'⟩ ⟨hkey, hvalue, env, henv, hstamp⟩
        ⟨hkey', env', henv', hmake⟩
      have hdata : e'.data = data := make_data (hmake { w' with env := env' } rfl)
      refine ⟨hkey'.trans hkey, by rw [hdata, hvalue], env, env', data, henv, henv', ?_⟩
      rw [← hstamp, ← hkey]
      exact hmake
    have hfinal := fill_copies hnodup hmem hcopies k
    rw [← hempty] at hfinal
    exact hfinal

end Files

end ValkeyRs.Rdb
