/-
The listpack, `crates/storage/src/listpack.rs`: a short list in one byte string.

An entry is written as the length of what is in front of it, the integer or string, and its own
length once more at the end. The reader does not use the first of these and takes from the last only
whether it is one byte or five, so iterating gives back the entries as long as no entry is longer
than a `u32` can say (`iter_eq`).

The fields of the source's type are private to its module, and what its methods build is a sequence
of entries; that is a field of the type here. `ListPack::from_bytes`, which takes any bytes, is used
by no other module and left out.
-/
import ValkeyRs.Codec

set_option autoImplicit false

open ValkeyRs Text Codec List UInt8

namespace ValkeyRs.Storage

inductive ListPackEntry where
  | Integer (i : Int64)
  | String (b : Bytes)
  deriving DecidableEq

def ListPackEntry.to_bytes : ListPackEntry → Bytes
  | .Integer i => as_bytes (toString i.toInt)
  | .String b => b

namespace Listpack

/-! ## Lengths, integers and strings -/

def encode_prevlen (len : ℕ) : Bytes :=
  if len < 128 then [ofNat len] else 0xFE :: le_bytes 4 len

def decode_prevlen : Bytes → Option (ℕ × ℕ)
  | [] => none
  | first :: rest =>
    if first.toNat < 0xFE then some (first.toNat, 1)
    else if first.toNat = 0xFE ∧ 4 ≤ rest.length then some (of_le_bytes (rest.take 4), 5)
    else none

/-- `encode_backlen` writes a length as `encode_prevlen` does. -/
def encode_backlen (len : ℕ) : Bytes := encode_prevlen len

def prevlen_size (len : ℕ) : ℕ := if len < 128 then 1 else 5

def encode_integer (val : ℤ) : Bytes :=
  if 0 ≤ val ∧ val ≤ 63 then [ofNat val.toNat]
  else if -8192 ≤ val ∧ val ≤ 8191 then
    -- the low 14 bits of the number, behind the tag 01
    let encoded := (val % 65536).toNat
    [ofNat (0x40 + encoded / 256 % 64), ofNat encoded]
  else if -2147483648 ≤ val ∧ val ≤ 2147483647 then 0x80 :: le_bytes_int 4 val
  else 0x81 :: le_bytes_int 8 val

def decode_integer : Bytes → Option (ℤ × ℕ)
  | [] => none
  | first :: rest =>
    if first.toNat / 64 = 0 then some (first.toNat, 1)
    else if first.toNat / 64 = 1 then
      rest.head?.map fun lo =>
        let raw := first.toNat % 64 * 256 + lo.toNat
        -- bit 13 is the sign
        (if raw / 0x2000 % 2 = 1 then (raw : ℤ) - 16384 else raw, 2)
    else if first.toNat = 0x80 ∧ 4 ≤ rest.length then some (of_le_bytes_int (rest.take 4), 5)
    else if first.toNat = 0x81 ∧ 8 ≤ rest.length then some (of_le_bytes_int (rest.take 8), 9)
    else none

def string_header (len : ℕ) : Bytes :=
  if len < 12 then [ofNat (0xE0 + len)]
  else if len < 256 then [0xF0, ofNat len]
  else if len < 65536 then 0xF1 :: le_bytes 2 len
  else if len < 2 ^ 32 then 0xF2 :: le_bytes 4 len
  else 0xF3 :: le_bytes 8 len

def encode_string (data : Bytes) : Bytes := string_header data.length ++ data

/-- The length a string header gives, and its own. The longer headers are tested first: their
low bits look like a short length. -/
def decode_header : Bytes → Option (ℕ × ℕ)
  | [] => none
  | first :: rest =>
    if first.toNat = 0xF0 then if 1 ≤ rest.length then some (of_le_bytes (rest.take 1), 2) else none
    else if first.toNat = 0xF1 then
      if 2 ≤ rest.length then some (of_le_bytes (rest.take 2), 3) else none
    else if first.toNat = 0xF2 then
      if 4 ≤ rest.length then some (of_le_bytes (rest.take 4), 5) else none
    else if first.toNat = 0xF3 then
      if 8 ≤ rest.length then some (of_le_bytes (rest.take 8), 9) else none
    else if first.toNat % 16 < 12 then some (first.toNat % 16, 1)
    else none

def decode_string (buf : Bytes) : Option (Bytes × ℕ) :=
  match decode_header buf with
  | some (len, header_size) =>
    if header_size + len > buf.length then none
    else some ((buf.drop header_size).take len, header_size + len)
  | none => none

/-! ## Entries -/

def encode_entry : ListPackEntry → Bytes
  | .Integer i => encode_integer i.toInt
  | .String s => encode_string s

/-- What `push_back` appends to a buffer of `prev_len` bytes. The length at the end counts
itself. -/
def piece (prev_len : ℕ) (entry : ListPackEntry) : Bytes :=
  let entry_buf := encode_entry entry
  let total_with_1byte_backlen := prevlen_size prev_len + entry_buf.length + 1
  let backlen_size := if total_with_1byte_backlen < 128 then 1 else 5
  let total_entry_len := prevlen_size prev_len + entry_buf.length + backlen_size
  encode_prevlen prev_len ++ (entry_buf ++ encode_backlen total_entry_len)

def decode_entry (buf : Bytes) : Option (ListPackEntry × ℕ) :=
  match buf with
  | [] => none
  | first :: _ =>
    if first.toNat / 64 = 3 then (decode_string buf).map fun (b, n) => (.String b, n)
    else (decode_integer buf).map fun (i, n) => (.Integer (Int64.ofInt i), n)

def decode_backlen : Bytes → Option ℕ
  | [] => none
  | first :: rest =>
    if first.toNat < 0xFE then some first.toNat
    else if 4 ≤ rest.length then some (of_le_bytes (rest.take 4))
    else none

/-- `ListPackIter::next`: the entry, and what is left. -/
def next (rest : Bytes) : Option (ListPackEntry × Bytes) :=
  match decode_prevlen rest with
  | none => none
  | some (_, size) =>
    match decode_entry (rest.drop size) with
    | none => none
    | some (entry, data_len) =>
      let tail := (rest.drop size).drop data_len
      match decode_backlen tail with
      | none => none
      | some backlen_val => some (entry, tail.drop (prevlen_size backlen_val))

/-- The iterator, with the number of entries that are still to come. -/
def iter_from : ℕ → Bytes → List ListPackEntry
  | 0, _ => []
  | remaining + 1, rest =>
    match next rest with
    | some (entry, rest) => entry :: iter_from remaining rest
    | none => []

/-- The bytes of a sequence of entries, in a buffer that has `prev_len` bytes already. -/
def pack (prev_len : ℕ) : List ListPackEntry → Bytes
  | [] => []
  | entry :: entries =>
    piece prev_len entry ++ pack (prev_len + (piece prev_len entry).length) entries

/-! ## Reading back -/

theorem toNat_ofNat_of_lt {n : ℕ} (h : n < 256) : (ofNat n).toNat = n := by
  rw [toNat_ofNat']
  exact Nat.mod_eq_of_lt h

/-- A field of `w` bytes at the start of a buffer. -/
theorem field_append {w : ℕ} {field : Bytes} (h : field.length = w) (r : Bytes) :
    w ≤ (field ++ r).length ∧ (field ++ r).take w = field :=
  ⟨by simp [h], take_left' h⟩

@[simp] theorem length_encode_prevlen (len : ℕ) :
    (encode_prevlen len).length = prevlen_size len := by
  unfold encode_prevlen prevlen_size
  split
  · rfl
  · rw [length_cons, length_le_bytes]

theorem decode_prevlen_encode (len : ℕ) (r : Bytes) :
    ∃ v, decode_prevlen (encode_prevlen len ++ r) = some (v, prevlen_size len) := by
  unfold encode_prevlen prevlen_size
  by_cases h : len < 128
  · have hbyte : (ofNat len).toNat = len := toNat_ofNat_of_lt (by omega)
    refine ⟨len, ?_⟩
    rw [if_pos h, if_pos h, singleton_append, decode_prevlen, hbyte, if_pos (by omega)]
  · refine ⟨of_le_bytes (le_bytes 4 len), ?_⟩
    obtain ⟨hlen, htake⟩ := field_append (length_le_bytes 4 len) r
    rw [if_neg h, if_neg h, cons_append, decode_prevlen, if_neg (by decide),
      if_pos ⟨by decide, hlen⟩, htake]

/-- The length at the end is read back if a `u32` can say it. -/
theorem decode_backlen_encode {len : ℕ} (h : len < 2 ^ 32) (r : Bytes) :
    decode_backlen (encode_backlen len ++ r) = some len := by
  unfold encode_backlen encode_prevlen
  by_cases hlt : len < 128
  · have hbyte : (ofNat len).toNat = len := toNat_ofNat_of_lt (by omega)
    rw [if_pos hlt, singleton_append, decode_backlen, hbyte, if_pos (by omega)]
  · obtain ⟨hlen, htake⟩ := field_append (length_le_bytes 4 len) r
    rw [if_neg hlt, cons_append, decode_backlen, if_neg (by decide), if_pos hlen, htake,
      of_le_bytes_le_bytes_of_lt (by simpa using h)]

theorem decode_integer_wide {tag : UInt8} {w : ℕ} {val : ℤ} (r : Bytes)
    (htag : tag.toNat = 0x80 ∧ w = 4 ∨ tag.toNat = 0x81 ∧ w = 8)
    (hlo : -(256 ^ w : ℤ) ≤ 2 * val) (hhi : 2 * val < 256 ^ w) :
    decode_integer (tag :: le_bytes_int w val ++ r) = some (val, w + 1) := by
  obtain ⟨hlen, htake⟩ := field_append (length_le_bytes_int w val) r
  have hval := of_le_bytes_int_le_bytes_int hlo hhi
  rw [cons_append, decode_integer]
  rcases htag with ⟨htag, hw⟩ | ⟨htag, hw⟩
  · subst hw
    rw [htag, if_neg (by decide), if_neg (by decide), if_pos ⟨rfl, hlen⟩, htake, hval]
  · subst hw
    rw [htag, if_neg (by decide), if_neg (by decide), if_neg (fun h => absurd h.1 (by decide)),
      if_pos ⟨rfl, hlen⟩, htake, hval]

theorem decode_integer_encode {val : ℤ} (hlo : -2 ^ 63 ≤ val) (hhi : val < 2 ^ 63) (r : Bytes) :
    decode_integer (encode_integer val ++ r) = some (val, (encode_integer val).length) := by
  unfold encode_integer
  by_cases h6 : 0 ≤ val ∧ val ≤ 63
  · have hbyte : (ofNat val.toNat).toNat = val.toNat := toNat_ofNat_of_lt (by omega)
    rw [if_pos h6, singleton_append, decode_integer, hbyte, if_pos (by omega)]
    simp [Int.toNat_of_nonneg h6.1]
  · rw [if_neg h6]
    by_cases h14 : -8192 ≤ val ∧ val ≤ 8191
    · rw [if_pos h14]
      have henc : ((val % 65536).toNat : ℤ) = val % 65536 := Int.toNat_of_nonneg (by omega)
      generalize (val % 65536).toNat = encoded at henc
      have hhigh : (ofNat (0x40 + encoded / 256 % 64)).toNat = 0x40 + encoded / 256 % 64 :=
        toNat_ofNat_of_lt (by omega)
      have hlow : (ofNat encoded).toNat = encoded % 256 := toNat_ofNat'
      rw [cons_append, decode_integer, hhigh, if_neg (by omega), if_pos (by omega),
        singleton_append, List.head?_cons, Option.map_some, hlow]
      dsimp only
      congr 2
      split <;> omega
    · rw [if_neg h14]
      by_cases h32 : -2147483648 ≤ val ∧ val ≤ 2147483647
      · rw [if_pos h32, decode_integer_wide r (.inl ⟨by decide, rfl⟩) (by omega) (by omega),
          length_cons, length_le_bytes_int]
      · rw [if_neg h32, decode_integer_wide r (.inr ⟨by decide, rfl⟩) (by omega) (by omega),
          length_cons, length_le_bytes_int]

theorem decode_header_encode {len : ℕ} (h : len < 2 ^ 64) (r : Bytes) :
    decode_header (string_header len ++ r) = some (len, (string_header len).length) := by
  have hfield := fun w => field_append (length_le_bytes w len) r
  unfold string_header
  by_cases h12 : len < 12
  · have hbyte : (ofNat (0xE0 + len)).toNat = 0xE0 + len := toNat_ofNat_of_lt (by omega)
    rw [if_pos h12, singleton_append, decode_header, hbyte, if_neg (by omega),
      if_neg (by omega), if_neg (by omega), if_neg (by omega), if_pos (by omega)]
    congr 2
    omega
  · rw [if_neg h12]
    by_cases h8 : len < 256
    · have hone : [ofNat len] = le_bytes 1 len := rfl
      obtain ⟨hlen, htake⟩ := hfield 1
      rw [if_pos h8, cons_append, hone, decode_header, if_pos (by decide), if_pos hlen, htake,
        of_le_bytes_le_bytes_of_lt (by simpa using h8)]
      rfl
    · rw [if_neg h8]
      by_cases h16 : len < 65536
      · obtain ⟨hlen, htake⟩ := hfield 2
        rw [if_pos h16, cons_append, decode_header, if_neg (by decide), if_pos (by decide),
          if_pos hlen, htake, of_le_bytes_le_bytes_of_lt (by simpa using h16)]
        rfl
      · rw [if_neg h16]
        by_cases h32 : len < 2 ^ 32
        · obtain ⟨hlen, htake⟩ := hfield 4
          rw [if_pos h32, cons_append, decode_header, if_neg (by decide), if_neg (by decide),
            if_pos (by decide), if_pos hlen, htake, of_le_bytes_le_bytes_of_lt (by simpa using h32)]
          rfl
        · obtain ⟨hlen, htake⟩ := hfield 8
          rw [if_neg h32, cons_append, decode_header, if_neg (by decide), if_neg (by decide),
            if_neg (by decide), if_pos (by decide), if_pos hlen, htake,
            of_le_bytes_le_bytes_of_lt (by simpa using h)]
          rfl

theorem decode_string_encode {s : Bytes} (h : s.length < 2 ^ 64) (r : Bytes) :
    decode_string (encode_string s ++ r) = some (s, (encode_string s).length) := by
  unfold decode_string encode_string
  rw [append_assoc, decode_header_encode h]
  dsimp only
  have hlen : ¬ (string_header s.length).length + s.length >
      (string_header s.length ++ (s ++ r)).length := by
    simp only [length_append]
    omega
  rw [if_neg hlen, drop_left, take_left, length_append]

theorem decode_entry_integer {buf r : Bytes} {v : ℤ} {n : ℕ}
    (h : decode_integer (buf ++ r) = some (v, n)) (hbuf : buf ≠ []) :
    decode_entry (buf ++ r) = some (.Integer (Int64.ofInt v), n) := by
  obtain ⟨first, rest, rfl⟩ := exists_cons_of_ne_nil hbuf
  rw [cons_append] at h ⊢
  have hfirst : ¬ first.toNat / 64 = 3 := by
    intro hthree
    rw [decode_integer, if_neg (by omega), if_neg (by omega), if_neg (by omega),
      if_neg (by omega)] at h
    cases h
  rw [decode_entry, if_neg hfirst, h]
  rfl

theorem string_header_first (len : ℕ) :
    ∃ first rest, string_header len = first :: rest ∧ first.toNat / 64 = 3 := by
  unfold string_header
  split
  · refine ⟨_, _, rfl, ?_⟩
    rw [toNat_ofNat_of_lt (by omega)]
    omega
  · split
    · exact ⟨_, _, rfl, by decide⟩
    · split
      · exact ⟨_, _, rfl, by decide⟩
      · split
        · exact ⟨_, _, rfl, by decide⟩
        · exact ⟨_, _, rfl, by decide⟩

theorem encode_integer_ne_nil (v : ℤ) : encode_integer v ≠ [] := by
  unfold encode_integer
  split
  · exact cons_ne_nil _ _
  · split
    · exact cons_ne_nil _ _
    · split
      · exact cons_ne_nil _ _
      · exact cons_ne_nil _ _

theorem decode_entry_encode {entry : ListPackEntry} (h : (encode_entry entry).length < 2 ^ 64)
    (r : Bytes) :
    decode_entry (encode_entry entry ++ r) = some (entry, (encode_entry entry).length) := by
  cases entry with
  | Integer i =>
    have hdecode := decode_integer_encode i.le_toInt i.toInt_lt r
    have hentry := decode_entry_integer hdecode (encode_integer_ne_nil _)
    rw [Int64.ofInt_toInt] at hentry
    exact hentry
  | String s =>
    have hlen : s.length < 2 ^ 64 := by
      have : (encode_string s).length < 2 ^ 64 := h
      rw [encode_string, length_append] at this
      omega
    have hdecode := decode_string_encode hlen r
    obtain ⟨first, rest, hheader, hfirst⟩ := string_header_first s.length
    show decode_entry (encode_string s ++ r) = _
    have hcons : encode_string s ++ r = first :: (rest ++ (s ++ r)) := by
      rw [encode_string, hheader]
      simp
    rw [hcons] at hdecode ⊢
    rw [decode_entry, if_pos hfirst, hdecode]
    rfl

theorem length_piece (prev_len : ℕ) (entry : ListPackEntry) :
    (piece prev_len entry).length = prevlen_size prev_len + (encode_entry entry).length +
      if prevlen_size prev_len + (encode_entry entry).length + 1 < 128 then 1 else 5 := by
  unfold piece encode_backlen
  rw [length_append, length_append, length_encode_prevlen, length_encode_prevlen,
    ← Nat.add_assoc]
  generalize prevlen_size prev_len + (encode_entry entry).length = body
  by_cases h : body + 1 < 128
  · rw [if_pos h, prevlen_size, if_pos h]
  · rw [if_neg h, prevlen_size, if_neg (by omega)]

theorem piece_eq (prev_len : ℕ) (entry : ListPackEntry) :
    piece prev_len entry =
      encode_prevlen prev_len ++ (encode_entry entry ++ encode_backlen (piece prev_len entry).length) := by
  rw [length_piece]
  rfl

theorem next_piece {prev_len : ℕ} {entry : ListPackEntry}
    (h : (piece prev_len entry).length < 2 ^ 32) (r : Bytes) :
    next (piece prev_len entry ++ r) = some (entry, r) := by
  have heq := piece_eq prev_len entry
  have hlen := congrArg List.length heq
  rw [length_append, length_append] at hlen
  generalize (piece prev_len entry).length = total at h heq hlen
  have hback : (encode_backlen total).length = prevlen_size total := length_encode_prevlen total
  obtain ⟨v, hprev⟩ := decode_prevlen_encode prev_len (encode_entry entry ++ (encode_backlen total ++ r))
  unfold next
  rw [heq, append_assoc, append_assoc, hprev]
  dsimp only
  rw [drop_left' (length_encode_prevlen prev_len), decode_entry_encode (by omega)]
  dsimp only
  rw [drop_left, decode_backlen_encode h]
  dsimp only
  rw [drop_left' hback]

/-- Every entry is short enough for its length to be written. -/
def Short (prev_len : ℕ) : List ListPackEntry → Prop
  | [] => True
  | entry :: entries =>
    (piece prev_len entry).length < 2 ^ 32 ∧ Short (prev_len + (piece prev_len entry).length) entries

theorem iter_from_pack {prev_len : ℕ} {entries : List ListPackEntry} (h : Short prev_len entries) :
    iter_from entries.length (pack prev_len entries) = entries := by
  induction entries generalizing prev_len with
  | nil => rfl
  | cons entry entries ih =>
    have hentry := next_piece h.1 (pack (prev_len + (piece prev_len entry).length) entries)
    rw [pack, length_cons, iter_from, hentry]
    dsimp only
    rw [ih h.2]

/-- Entries that leave room for the two lengths around them are short enough, wherever they are. -/
theorem short_of_lt {entries : List ListPackEntry}
    (h : ∀ entry ∈ entries, (encode_entry entry).length + 10 < 2 ^ 32) (prev_len : ℕ) :
    Short prev_len entries := by
  induction entries generalizing prev_len with
  | nil => trivial
  | cons entry entries ih =>
    refine ⟨?_, ih (fun e he => h e (mem_cons_of_mem _ he)) _⟩
    have hentry := h entry mem_cons_self
    have hprev : prevlen_size prev_len ≤ 5 := by
      unfold prevlen_size
      split <;> omega
    rw [length_piece]
    split <;> omega

theorem pack_append (prev_len : ℕ) (entries : List ListPackEntry) (entry : ListPackEntry) :
    pack prev_len (entries ++ [entry]) =
      pack prev_len entries ++ piece (prev_len + (pack prev_len entries).length) entry := by
  induction entries generalizing prev_len with
  | nil => simp [pack]
  | cons e entries ih =>
    rw [cons_append, pack, pack, ih, append_assoc, length_append, Nat.add_assoc]

end Listpack

/-- `ListPack`: the bytes and the number of entries. -/
structure ListPack where
  data : Bytes
  count : ℕ
  packed : ∃ entries : List ListPackEntry, entries.length = count ∧ data = Listpack.pack 0 entries

namespace ListPack

def new : ListPack := ⟨[], 0, [], rfl, rfl⟩

def len (self : ListPack) : ℕ := self.count

def is_empty (self : ListPack) : Bool := self.count = 0

def iter (self : ListPack) : List ListPackEntry := Listpack.iter_from self.count self.data

def to_vec (self : ListPack) : List Bytes := self.iter.map ListPackEntry.to_bytes

def push_back (self : ListPack) (entry : ListPackEntry) : ListPack where
  data := self.data ++ Listpack.piece self.data.length entry
  count := self.count + 1
  packed := by
    obtain ⟨entries, hlen, hdata⟩ := self.packed
    refine ⟨entries ++ [entry], ?_, ?_⟩
    · rw [length_append, hlen, length_singleton]
    · rw [Listpack.pack_append, ← hdata, Nat.zero_add]

def from_entries (entries : List ListPackEntry) : ListPack := entries.foldl push_back new

def push_front (self : ListPack) (entry : ListPackEntry) : ListPack :=
  from_entries (entry :: self.iter)

theorem from_entries_append (entries : List ListPackEntry) (entry : ListPackEntry) :
    from_entries (entries ++ [entry]) = (from_entries entries).push_back entry := by
  unfold from_entries
  rw [foldl_append]
  rfl

theorem packed_from_entries (entries : List ListPackEntry) :
    (from_entries entries).count = entries.length ∧
      (from_entries entries).data = Listpack.pack 0 entries := by
  induction entries using List.reverseRecOn with
  | nil => exact ⟨rfl, rfl⟩
  | append_singleton entries entry ih =>
    rw [from_entries_append, length_append, Listpack.pack_append, Nat.zero_add, ← ih.1, ← ih.2]
    exact ⟨rfl, rfl⟩

/-- No entry is too long for its length to be written. -/
def Short (self : ListPack) : Prop :=
  ∃ entries : List ListPackEntry,
    entries.length = self.count ∧ self.data = Listpack.pack 0 entries ∧ Listpack.Short 0 entries

theorem Short.iter_eq {self : ListPack} (h : self.Short) :
    self.iter.length = self.count ∧ Listpack.Short 0 self.iter := by
  obtain ⟨entries, hlen, hdata, hshort⟩ := h
  have hiter : self.iter = entries := by
    unfold iter
    rw [hdata, ← hlen, Listpack.iter_from_pack hshort]
  rw [hiter]
  exact ⟨hlen, hshort⟩

theorem iter_from_entries {entries : List ListPackEntry}
    (h : ∀ entry ∈ entries, (Listpack.encode_entry entry).length + 10 < 2 ^ 32) :
    (from_entries entries).iter = entries := by
  obtain ⟨hcount, hdata⟩ := packed_from_entries entries
  rw [iter, hcount, hdata, Listpack.iter_from_pack (Listpack.short_of_lt h 0)]

end ListPack

end ValkeyRs.Storage
