/-
Snapshots, `crates/persistence/src/rdb.rs`: the store as one byte string, and back.

A snapshot is a magic number, the entries, an end mark and a checksum. An entry is an optional
expiry time, a type, the key and the value; all numbers are of fixed width or in a code with
three classes (`encode_length`), and all byte strings carry their length in front.

`save` and `load` are programs on the store: they go through the map or insert into it, and read
the clocks, entry by entry. The decoding itself is a `Decoder`, with the source's cursor. In which
order a hash map is traversed is left open. The checksum is an arbitrary function, and what is
asked of the floating-point numbers is that their bits determine them. The file is its contents;
errors of the file system are left out, as is the variant `RdbError::Store`, which nothing makes.
-/
import ValkeyRs.StoreRules
import ValkeyRs.Zset

set_option autoImplicit false

open ValkeyRs Text Resp Storage Codec Codec.Decoder

namespace ValkeyRs.Rdb

/-- `f64::to_le_bytes` and `f64::from_le_bytes` go through the bits of a number. -/
class FloatBits (F : Type) where
  to_bits : F → UInt64
  from_bits : UInt64 → F
  from_bits_to_bits : ∀ x, from_bits (to_bits x) = x

instance : FloatBits Infinity where
  to_bits
    | .pos => 0x7ff0000000000000
    | .neg => 0xfff0000000000000
  from_bits b := if b = 0x7ff0000000000000 then .pos else .neg
  from_bits_to_bits x := by cases x <;> rfl

def RDB_MAGIC : Bytes := as_bytes "REDIS0010"

def RDB_TYPE_STRING : UInt8 := 0
def RDB_TYPE_LIST : UInt8 := 1
def RDB_TYPE_SET : UInt8 := 2
def RDB_TYPE_ZSET : UInt8 := 3
def RDB_TYPE_HASH : UInt8 := 4
def RDB_TYPE_STREAM : UInt8 := 19

def RDB_OPCODE_EXPIRETIME_MS : UInt8 := 0xFC
def RDB_OPCODE_EXPIRETIME : UInt8 := 0xFD
def RDB_OPCODE_EOF : UInt8 := 0xFF

inductive RdbError where
  | InvalidMagic
  | CrcMismatch
  | UnknownType (b : UInt8)
  | UnexpectedEof
  deriving Repr, DecidableEq

/-! ## Lengths and strings -/

def encode_length (len : ℕ) : Bytes :=
  if len < 2 ^ 6 then [UInt8.ofNat len]
  else if len < 2 ^ 14 then [UInt8.ofNat (0x40 + len / 256), UInt8.ofNat len]
  else 0x80 :: le_bytes 4 len

def next_byte : Decoder RdbError UInt8 := byte .UnexpectedEof

/-- The next number of `w` bytes. -/
def number (w : ℕ) : Decoder RdbError ℕ := do
  return of_le_bytes (← bytes .UnexpectedEof w)

def decode_length : Decoder RdbError ℕ := do
  let first ← next_byte
  -- the two highest bits tell the class
  if first.toNat / 64 = 0 then return first.toNat
  else if first.toNat / 64 = 1 then do
    let second ← next_byte
    return first.toNat % 64 * 256 + second.toNat
  else if first.toNat / 64 = 2 then
    if first = 0x80 then number 4 else fail .InvalidMagic
  else if first.toNat % 64 = 0 then number 1
  else if first.toNat % 64 = 1 then number 2
  else if first.toNat % 64 = 2 then number 4
  else fail .InvalidMagic

def encode_string (data : Bytes) : Bytes := encode_length data.length ++ data

def decode_string : Decoder RdbError Bytes := do
  let len ← decode_length
  bytes .UnexpectedEof len

/-! ## Values -/

section Values

variable {F : Type} [LinearOrder F] [FloatBits F]

def encode_score (score : F) : Bytes := le_bytes 8 (FloatBits.to_bits score).toNat

def encode_id (id : StreamId) : Bytes := le_bytes 8 id.ms.toNat ++ le_bytes 8 id.seq.toNat

def type_byte : DataType F → UInt8
  | .String _ => RDB_TYPE_STRING
  | .List _ | .ListPack _ => RDB_TYPE_LIST
  | .Set _ | .IntSet _ => RDB_TYPE_SET
  | .ZSet _ => RDB_TYPE_ZSET
  | .Hash _ => RDB_TYPE_HASH
  | .Stream _ => RDB_TYPE_STREAM

def encode_strings (items : List Bytes) : Bytes :=
  encode_length items.length ++ items.flatMap encode_string

def encode_pair (p : Bytes × Bytes) : Bytes := encode_string p.1 ++ encode_string p.2

def encode_stream_entry (e : StreamId × List (Bytes × Bytes)) : Bytes :=
  encode_id e.1 ++ (encode_length e.2.length ++ e.2.flatMap encode_pair)

def encode_stream (stream : StreamData) : Bytes :=
  let total_entries := (stream.entries.toList.map fun e => e.2.length).sum
  encode_length stream.entries.size ++ (encode_length total_entries ++
    (stream.entries.toList.flatMap encode_stream_entry ++ encode_id stream.last_id))

/-- The value of an entry, its hash maps traversed in the order `a`. -/
def encode_value (a : Arrangement) : DataType F → Bytes
  | .String s => encode_string s
  | .List list => encode_strings list
  | .Set set => encode_length set.size ++ (a.order set.toList).flatMap encode_string
  | .ZSet zset =>
    encode_length zset.len ++
      (arranged a zset.members).flatMap fun p => encode_string p.1 ++ encode_score p.2
  | .Hash hash => encode_length hash.size ++ (arranged a hash).flatMap encode_pair
  | .Stream stream => encode_stream stream
  | .ListPack lp =>
    encode_length lp.len ++ lp.iter.flatMap fun entry => encode_string entry.to_bytes
  | .IntSet s =>
    encode_length s.len ++ s.iter.flatMap fun val => encode_string (as_bytes (toString val))

def decode_score : Decoder RdbError F := do
  return FloatBits.from_bits (UInt64.ofNat (← number 8))

def decode_id : Decoder RdbError StreamId := do
  let ms ← number 8
  let seq ← number 8
  return ⟨UInt64.ofNat ms, UInt64.ofNat seq⟩

def decode_pair : Decoder RdbError (Bytes × Bytes) := do
  let field ← decode_string
  let value ← decode_string
  return (field, value)

def decode_stream_entry : Decoder RdbError (StreamId × List (Bytes × Bytes)) := do
  let id ← decode_id
  let num_fields ← decode_length
  let fields ← times (fun fields => do return fields ++ [← decode_pair]) num_fields []
  return (id, fields)

/-- The members of a sorted set, put under their scores as they come. -/
def decode_zset_member (zset : ZSetData F) : Decoder RdbError (ZSetData F) := do
  let member ← decode_string
  let score ← decode_score
  return ⟨ZSetData.link zset.scores member score, zset.members.insert member score⟩

def decode_value (type_byte : UInt8) : Decoder RdbError (DataType F) :=
  if type_byte = RDB_TYPE_STRING then do
    return .String (← decode_string)
  else if type_byte = RDB_TYPE_LIST then do
    let len ← decode_length
    return .List (← times (fun list => do return list ++ [← decode_string]) len [])
  else if type_byte = RDB_TYPE_SET then do
    let len ← decode_length
    return .Set (← times (fun set => do return set.insert (← decode_string)) len ∅)
  else if type_byte = RDB_TYPE_ZSET then do
    let len ← decode_length
    return .ZSet (← times decode_zset_member len .new)
  else if type_byte = RDB_TYPE_HASH then do
    let len ← decode_length
    return .Hash (← times (fun hash => do
      let p ← decode_pair
      return hash.insert p.1 p.2) len ∅)
  else if type_byte = RDB_TYPE_STREAM then do
    let num_ids ← decode_length
    let _total_pairs ← decode_length
    let entries ← times (fun entries => do
      let e ← decode_stream_entry
      return entries.insert e.1 e.2) num_ids ∅
    let last_id ← decode_id
    return .Stream ⟨entries, ∅, last_id, ∅⟩
  else fail (.UnknownType type_byte)

end Values

/-! ## Saving -/

section Files

variable {F : Type} [LinearOrder F] [FloatBits F]

/-- `as_millis`, and `as u64` behind it: the number is written with eight bytes. -/
def millis (d : ℕ) : ℕ := d / 10 ^ 6

def save_expiry (entry : Entry F) : StoreM F Bytes :=
  match entry.expires_at with
  | none => return []
  | some expires_at => do
    let remaining := expires_at - (← Store.now)
    let now_ms := millis (← Store.unix_time)
    return RDB_OPCODE_EXPIRETIME_MS :: le_bytes 8 (now_ms + millis remaining)

def encode_entry (a : Arrangement) (key : Bytes) (data : DataType F) : Bytes :=
  type_byte data :: (encode_string key ++ encode_value a data)

def save_entries (inner : Bytes → Arrangement) : List (Bytes × Entry F) → StoreM F Bytes
  | [] => return []
  | (key, entry) :: items => do
    let expiry ← save_expiry entry
    let rest ← save_entries inner items
    return expiry ++ (encode_entry (inner key) key entry.data ++ rest)

def finish (crc64 : Bytes → UInt64) (body : Bytes) : Bytes :=
  let buf := RDB_MAGIC ++ (body ++ [RDB_OPCODE_EOF])
  buf ++ le_bytes 8 (crc64 buf).toNat

def save (crc64 : Bytes → UInt64) (inner : Bytes → Arrangement) : StoreM F Bytes := do
  let items ← Store.iter
  let body ← save_entries inner items
  return finish crc64 body

/-! ## Loading -/

/-- The expiry time in front of an entry. -/
inductive Stamp where
  | none
  | ms (t : ℕ)
  | sec (t : ℕ)
  deriving Repr, DecidableEq

/-- The expiry opcodes. Any other byte is the type, and stays where it is. -/
def decode_stamp (opcode : UInt8) : Decoder RdbError Stamp :=
  if opcode = RDB_OPCODE_EXPIRETIME_MS then do
    let _ ← next_byte
    return .ms (← number 8)
  else if opcode = RDB_OPCODE_EXPIRETIME then do
    let _ ← next_byte
    return .sec (← number 4)
  else return .none

/-- `Instant + Duration`, which panics when the sum cannot be represented. -/
def add_instant (t : Instant) (d : Duration) : StoreM F Instant :=
  if t + d > instant_max then .fail .Panic else return t + d

/-- `expires_at`: nothing, if the time has passed. -/
def load_expiry : Stamp → StoreM F (Option Instant)
  | .none => return none
  | .ms expire_ms => do
    let now_ms := millis (← Store.unix_time) % 2 ^ 64
    if expire_ms > now_ms then do
      let now ← Store.now
      return some (← add_instant now ((expire_ms - now_ms) * 10 ^ 6))
    else return none
  | .sec expire_sec => do
    let now_sec := (← Store.unix_time) / 10 ^ 9
    if expire_sec > now_sec then do
      let now ← Store.now
      return some (← add_instant now ((expire_sec - now_sec) * 10 ^ 9))
    else return none

def decode_entry : Decoder RdbError (Bytes × DataType F) := do
  let actual_type ← next_byte
  let key ← decode_string
  let data ← decode_value actual_type
  return (key, data)

/-- `checked_duration_since(Instant::now())`. -/
def time_left : Option Instant → StoreM F (Option Duration)
  | none => return none
  | some expires_at => do
    let now ← Store.now
    return if now ≤ expires_at then some (expires_at - now) else none

/-- `Entry::new`, with what is left of the time. -/
def new_entry (data : DataType F) (expires_at : Option Instant) : StoreM F (Entry F) := do
  let ttl ← time_left expires_at
  Entry.new data ttl (← Store.now)

/-- The loop over the entries. Each turn gets past one byte at least, so there are no more turns
than bytes. -/
def load_entries (buf : Bytes) : ℕ → ℕ → StoreM F (Except RdbError Unit)
  | 0, _ => return .error .UnexpectedEof
  | turns + 1, pos =>
    match buf[pos]? with
    | none => return .error .UnexpectedEof
    | some opcode =>
      if opcode = RDB_OPCODE_EOF then return .ok ()
      else match decode_stamp opcode buf pos with
        | .error e => return .error e
        | .ok (stamp, pos) => do
          let expires_at ← load_expiry stamp
          match decode_entry buf pos with
          | .error e => return .error e
          | .ok ((key, data), pos) => do
            let entry ← new_entry data expires_at
            let _ ← Store.access key fun _ => some entry
            load_entries buf turns pos

def verify (crc64 : Bytes → UInt64) (buf : Bytes) : Except RdbError Unit :=
  if buf.length < 8 then .error .UnexpectedEof
  else
    let data_end := buf.length - 8
    if of_le_bytes (buf.drop data_end) ≠ (crc64 (buf.take data_end)).toNat then
      .error .CrcMismatch
    else .ok ()

def load (crc64 : Bytes → UInt64) (buf : Bytes) : StoreM F (Except RdbError Unit) :=
  if buf.length < 9 then return .error .InvalidMagic
  else if buf.take 9 ≠ RDB_MAGIC then return .error .InvalidMagic
  else do
    match ← load_entries buf buf.length 9 with
    | .error e => return .error e
    | .ok () => return verify crc64 buf

end Files

end ValkeyRs.Rdb
