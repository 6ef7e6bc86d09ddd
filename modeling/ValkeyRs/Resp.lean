/-
The RESP codec, `crates/proto/src/lib.rs`: the value type, the encoder and the twelve parsers of the
decoder.

The parsers return `ParseResult`, and Rust's early `return` is `Except`'s: `.ok` is
`ParseResult::Ok`, `.error .incomplete` is `ParseResult::Incomplete` and an `Err` is `.error (.fail
(.Err e))`. A fourth way out, `.error (.fail (.Panic _))`, is where the Rust would panic: a slice
out of range, a `usize` addition that overflows, an allocation that is not served.

`Mach` says which machine the arithmetic is taken on. With 64-bit lengths and additions it is the
one the code is compiled for; with no widths it is the reading over unbounded naturals, where a
declared length is just a number.

`f64` is a parameter. The codec only ever parses and prints it, and every statement about the codec
holds whatever those two functions do.
-/
import ValkeyRs.Text
import ValkeyRs.Incremental

set_option autoImplicit false

open ValkeyRs Text Incremental

namespace ValkeyRs.Resp

/-! ## Values -/

inductive ParseFloatError where
  | Empty
  | Invalid
  deriving Repr, DecidableEq

/-- What the codec uses of `f64`: `str::parse`, `format!("{:.17}")` and the two infinities. -/
class FloatText (F : Type) where
  parse : String → Except ParseFloatError F
  fmt17 : F → String
  is_infinite : F → Bool
  is_sign_negative : F → Bool
  infinity : F
  neg_infinity : F

/-- The least there can be of `f64`, its two infinities, and no text for anything else. Runs
of the codec on concrete input are evaluated with it. -/
inductive Infinity where
  | pos
  | neg
  deriving Repr, DecidableEq

instance : FloatText Infinity where
  parse s :=
    if s = "inf" ∨ s = "+inf" then .ok .pos
    else if s = "-inf" then .ok .neg
    else .error .Invalid
  fmt17 _ := ""
  is_infinite _ := true
  is_sign_negative d := d == .neg
  infinity := .pos
  neg_infinity := .neg

inductive RespValue (F : Type) where
  | SimpleString (s : String)
  | Error (s : String)
  | Integer (n : Int64)
  | BulkString (b : Option Bytes)
  | Array (items : Option (List (RespValue F)))
  | Map (entries : List (RespValue F × RespValue F))
  | Double (d : F)
  | Boolean (b : Bool)
  | BigNumber (n : BitVec 128)
  | BlobError (type_desc payload : Bytes)
  | VerbatimString (tag : String) (content : Bytes)

/-- `RespError`. Its `Io` variant belongs to the socket and never comes from the codec. -/
inductive RespError where
  | Incomplete
  | InvalidPrefix (s : String)
  | ParseInt (e : ParseIntError)
  | ParseFloat (e : ParseFloatError)
  | Utf8 (e : Utf8Error)
  deriving Repr, DecidableEq

inductive Panic where
  | Overflow
  | SliceOutOfRange
  | Alloc
  deriving Repr, DecidableEq

/-- Why a parser stopped for good: it answered `Err`, or the Rust would panic. -/
inductive Fault where
  | Err (e : RespError)
  | Panic (p : Panic)
  deriving Repr, DecidableEq

/-- `ParseResult`, for any result: the result, or why there is none. -/
abbrev Parse := Except (Stop Fault)

/-- What `parse_value` produces: the bytes consumed and the value. -/
abbrev Parsed (F : Type) := ℕ × RespValue F

variable {F : Type}

/-! ## The encoder -/

def crlf : Bytes := [13, 10]

/-- `str::trim_end_matches` at one character. -/
def trim_end_matches (c : Char) (s : String) : String :=
  String.ofList (s.toList.reverse.dropWhile (· == c)).reverse

/-- What `encode_value` writes for a `Double` between its prefix and its line end. -/
def encode_double [FloatText F] (d : F) : Bytes :=
  if FloatText.is_infinite d then
    if FloatText.is_sign_negative d then as_bytes "-inf" else as_bytes "inf"
  else as_bytes (trim_end_matches '.' (trim_end_matches '0' (FloatText.fmt17 d)))

mutual

/-- `encode_value`: the bytes appended to the output buffer. -/
def encode_value [FloatText F] : RespValue F → Bytes
  | .SimpleString s => 43 :: (as_bytes s ++ crlf)
  | .Error s => 45 :: (as_bytes s ++ crlf)
  | .Integer n => 58 :: (as_bytes (toString n.toInt) ++ crlf)
  | .BulkString none => as_bytes "$-1\r\n"
  | .BulkString (some b) => 36 :: (as_bytes (toString b.length) ++ crlf ++ b ++ crlf)
  | .Array none => as_bytes "*-1\r\n"
  | .Array (some items) => 42 :: (as_bytes (toString items.length) ++ crlf ++ encode_items items)
  | .Map entries => 37 :: (as_bytes (toString entries.length) ++ crlf ++ encode_entries entries)
  | .Double d => 44 :: (encode_double d ++ crlf)
  | .Boolean b => 35 :: ((if b then [116] else [102]) ++ crlf)
  | .BigNumber n => 40 :: (as_bytes (toString n.toInt) ++ crlf)
  | .BlobError type_desc payload =>
    33 :: (as_bytes (toString (type_desc.length + payload.length)) ++ crlf
      ++ (type_desc ++ payload) ++ crlf)
  | .VerbatimString tag content =>
    61 :: (as_bytes (toString ((as_bytes tag).length + 1 + content.length)) ++ crlf
      ++ (as_bytes tag ++ [58] ++ content) ++ crlf)

def encode_items [FloatText F] : List (RespValue F) → Bytes
  | [] => []
  | v :: vs => encode_value v ++ encode_items vs

def encode_entries [FloatText F] : List (RespValue F × RespValue F) → Bytes
  | [] => []
  | (k, v) :: es => encode_value k ++ encode_value v ++ encode_entries es

end

/-! ## The machine -/

/-- The arithmetic a run of the parser is taken on. -/
structure Mach where
  /-- The width at which declared lengths and counts are parsed. -/
  len_bits : Option ℕ
  /-- The width of `usize` additions. -/
  add_bits : Option ℕ
  /-- The largest request that `Vec::with_capacity` serves, in bytes. -/
  max_alloc : Option ℕ
  /-- `size_of::<RespValue>()`, which the language leaves open. -/
  value_size : ℕ

def Mach.unbounded : Mach := ⟨none, none, none, 1⟩

/-- The 64-bit machine, with requests of up to `limit` bytes served. Whatever the limit, a
request above `isize::MAX` panics with a capacity overflow. -/
def Mach.bits64 (value_size limit : ℕ) : Mach :=
  ⟨some 64, some 64, some (min limit (2 ^ 63 - 1)), value_size⟩

/-- A `usize` sum, in a build that checks for overflow. -/
def checked_sum (M : Mach) (n : ℕ) : Parse ℕ :=
  if fits (unsigned_max M.add_bits) n then .ok n else .error (.fail (.Panic .Overflow))

/-- `Vec::with_capacity`, by the bytes it asks for. -/
def with_capacity (M : Mach) (bytes : ℕ) : Parse Unit :=
  if fits M.max_alloc bytes then .ok () else .error (.fail (.Panic .Alloc))

def slice (buf : Bytes) (a b : ℕ) : Parse Bytes :=
  if a ≤ b ∧ b ≤ buf.length then .ok ((buf.drop a).take (b - a))
  else .error (.fail (.Panic .SliceOutOfRange))

/-! ## Lines -/

/-- The window loop of `find_crlf`. -/
def find_window : Bytes → Option ℕ
  | a :: b :: rest => if a = 13 ∧ b = 10 then some 0 else (find_window (b :: rest)).map (· + 1)
  | _ => none

def find_crlf (buf : Bytes) (start : ℕ) : Option ℕ :=
  (find_window (buf.drop start)).map (start + ·)

/-- `read_line`: where the line ends and where the next one starts. -/
def read_line (buf : Bytes) : Parse (ℕ × ℕ) :=
  match find_crlf buf 0 with
  | some cr => if buf.length ≤ cr + 1 then .error .incomplete else .ok (cr, cr + 2)
  | none => .error .incomplete

/-- A `?`-style conversion of a library error into the decoder's. -/
def lift_err {ε α : Type} (f : ε → RespError) : Except ε α → Parse α
  | .ok a => .ok a
  | .error e => .error (.fail (.Err (f e)))

@[simp] theorem lift_err_ok {ε α : Type} (f : ε → RespError) (a : α) :
    lift_err f (.ok a) = .ok a := rfl

/-- The prelude all parsers of a prefixed value share: the text of the first line after
the prefix byte, and how many bytes prefix and line take. -/
def header (buf : Bytes) : Parse (String × ℕ) := do
  let rest ← slice buf 1 buf.length
  let (line_end, c) ← read_line rest
  let line ← slice buf 1 (1 + line_end)
  let s ← lift_err .Utf8 (from_utf8 line)
  return (s, c + 1)

/-- The tail all parsers of a length-prefixed payload share: the payload, and the bytes
consumed by it, its line end and everything before. -/
def payload (M : Mach) (buf : Bytes) (line_consumed len : ℕ) :
    Parse (Bytes × ℕ) := do
  let total ← checked_sum M (line_consumed + len + 2)
  if buf.length < total then .error .incomplete else do
  let data ← slice buf line_consumed (line_consumed + len)
  return (data, total)

/-! ## The parsers -/

/-- A value that is one line: the line's text decides the value. -/
def parse_line (value : String → Parse (RespValue F)) (buf : Bytes) :
    Parse (Parsed F) := do
  let (s, consumed) ← header buf
  let v ← value s
  return (consumed, v)

def parse_simple_string (buf : Bytes) : Parse (Parsed F) :=
  parse_line (fun s => .ok (.SimpleString s)) buf

def parse_error (buf : Bytes) : Parse (Parsed F) :=
  parse_line (fun s => .ok (.Error s)) buf

def parse_integer (buf : Bytes) : Parse (Parsed F) :=
  parse_line (fun s => do
    let n ← lift_err .ParseInt (parse_int (some 64) s)
    return .Integer (Int64.ofInt n)) buf

def parse_double [FloatText F] (buf : Bytes) : Parse (Parsed F) :=
  parse_line (fun s =>
    if s = "inf" ∨ s = "+inf" then .ok (.Double FloatText.infinity)
    else if s = "-inf" then .ok (.Double FloatText.neg_infinity)
    else do
      let d ← lift_err .ParseFloat (FloatText.parse s)
      return .Double d) buf

def parse_bignumber (buf : Bytes) : Parse (Parsed F) :=
  parse_line (fun s => do
    -- the one place where the reason of a failed conversion is dropped
    let n ← lift_err (fun _ => .InvalidPrefix "invalid bignumber") (parse_int (some 128) s)
    return .BigNumber (BitVec.ofInt 128 n)) buf

def parse_boolean (buf : Bytes) : Parse (Parsed F) :=
  match buf with
  | _ :: b1 :: b2 :: b3 :: _ =>
    if b2 ≠ 13 ∨ b3 ≠ 10 then .error (.fail (.Err (.InvalidPrefix "bad boolean")))
    else if b1 = 116 then .ok (4, .Boolean true)
    else if b1 = 102 then .ok (4, .Boolean false)
    else .error (.fail (.Err (.InvalidPrefix
      ("expected t/f, got " ++ String.singleton (Char.ofNat b1.toNat)))))
  | _ => .error .incomplete

def parse_bulk_string (M : Mach) (buf : Bytes) : Parse (Parsed F) := do
  let (s, line_consumed) ← header buf
  let len ← lift_err .ParseInt (parse_int M.len_bits s)
  if len < 0 then return (line_consumed, .BulkString none)
  let (data, total) ← payload M buf line_consumed len.toNat
  return (total, .BulkString (some data))

/-- `for _ in 0..count` of `parse_array`. -/
def parse_items (p : Bytes → Parse (Parsed F)) (buf : Bytes) :
    ℕ → ℕ → List (RespValue F) → Parse (ℕ × List (RespValue F))
  | 0, offset, items => .ok (offset, items)
  | count + 1, offset, items =>
    if buf.length ≤ offset then .error .incomplete else do
    let (consumed, value) ← p (buf.drop offset)
    parse_items p buf count (offset + consumed) (items ++ [value])

/-- `parse_array`. The vector is allocated for the declared count before any item has been
seen. -/
def parse_array (M : Mach) (p : Bytes → Parse (Parsed F)) (buf : Bytes) : Parse (Parsed F) := do
  let (s, line_consumed) ← header buf
  let count ← lift_err .ParseInt (parse_int M.len_bits s)
  if count < 0 then return (line_consumed, .Array none)
  with_capacity M (M.value_size * count.toNat)
  let (offset, items) ← parse_items p buf count.toNat line_consumed []
  return (offset, .Array (some items))

/-- `for _ in 0..count` of `parse_map`. -/
def parse_entries (p : Bytes → Parse (Parsed F)) (buf : Bytes) :
    ℕ → ℕ → List (RespValue F × RespValue F) →
      Parse (ℕ × List (RespValue F × RespValue F))
  | 0, offset, entries => .ok (offset, entries)
  | count + 1, offset, entries =>
    if buf.length ≤ offset then .error .incomplete else do
    let (consumed, key) ← p (buf.drop offset)
    if buf.length ≤ offset + consumed then .error .incomplete else do
    let (consumed', val) ← p (buf.drop (offset + consumed))
    parse_entries p buf count (offset + consumed + consumed') (entries ++ [(key, val)])

def parse_map (M : Mach) (p : Bytes → Parse (Parsed F)) (buf : Bytes) : Parse (Parsed F) := do
  let (s, line_consumed) ← header buf
  let count ← lift_err .ParseInt (parse_nat M.len_bits s)
  with_capacity M (2 * M.value_size * count)
  let (offset, entries) ← parse_entries p buf count line_consumed []
  return (offset, .Map entries)

def parse_blob_error (M : Mach) (buf : Bytes) : Parse (Parsed F) := do
  let (s, line_consumed) ← header buf
  let len ← lift_err .ParseInt (parse_int M.len_bits s)
  if len < 0 then .error (.fail (.Err (.InvalidPrefix "blob error cannot be null"))) else do
  let (data, total) ← payload M buf line_consumed len.toNat
  if 3 ≤ data.length then return (total, .BlobError (data.take 3) (data.drop 3))
  return (total, .BlobError data [])

def parse_verbatim (M : Mach) (buf : Bytes) : Parse (Parsed F) := do
  let (s, line_consumed) ← header buf
  let len ← lift_err .ParseInt (parse_nat M.len_bits s)
  let (data, total) ← payload M buf line_consumed len
  if 4 ≤ data.length ∧ data[3]? = some 58 then do
    let tag ← lift_err .Utf8 (from_utf8 (data.take 3))
    return (total, .VerbatimString tag (data.drop 4))
  else do
    let tag ← lift_err .Utf8 (from_utf8 data)
    return (total, .VerbatimString tag [])

/-- `parse_inline`. The only parser whose line starts at the first byte. -/
def parse_inline (buf : Bytes) : Parse (Parsed F) := do
  let (line_end, consumed) ← read_line buf
  let line ← slice buf 0 line_end
  let s ← lift_err .Utf8 (from_utf8 line)
  return (consumed, .SimpleString s)

/-- The `match prefix` of `parse_value`; `p` parses the elements of aggregates. -/
def parse_prefixed [FloatText F] (M : Mach) (p : Bytes → Parse (Parsed F)) (tag : UInt8)
    (buf : Bytes) : Parse (Parsed F) :=
  match tag with
  | 43 => parse_simple_string buf
  | 45 => parse_error buf
  | 58 => parse_integer buf
  | 36 => parse_bulk_string M buf
  | 42 => parse_array M p buf
  | 37 => parse_map M p buf
  | 44 => parse_double buf
  | 35 => parse_boolean buf
  | 40 => parse_bignumber buf
  | 33 => parse_blob_error M buf
  | 61 => parse_verbatim M buf
  | _ => parse_inline buf

def MAX_DEPTH : ℕ := 1024

/-- `parse_value` with the number of levels that may still be entered, which is
`MAX_DEPTH + 1 - depth`: the check `depth > MAX_DEPTH` is the case `0`. -/
def parse_levels [FloatText F] (M : Mach) : ℕ → Bytes → Parse (Parsed F)
  | 0, _ => .error (.fail (.Err (.InvalidPrefix "nesting too deep")))
  | _ + 1, [] => .error .incomplete
  | n + 1, tag :: rest => parse_prefixed M (parse_levels M n) tag (tag :: rest)

def parse_value [FloatText F] (M : Mach) (buf : Bytes) (depth : ℕ) : Parse (Parsed F) :=
  parse_levels M (MAX_DEPTH + 1 - depth) buf

/-! ## The decoder -/

/-- `RespDecoder`. Its `depth` field is never read and is left out. -/
structure RespDecoder where
  resp3 : Bool
  deriving Repr, DecidableEq

def RespDecoder.new : RespDecoder := ⟨false⟩

/-- A decoded command named HELLO switches the connection to RESP3. -/
def RespDecoder.note (self : RespDecoder) : RespValue F → RespDecoder
  | .Array (some (.BulkString (some cmd) :: _)) =>
    if eq_ignore_ascii_case cmd (as_bytes "HELLO") then ⟨true⟩ else self
  | _ => self

/-- `RespDecoder::decode`: the answer, the decoder afterwards and the bytes left over. -/
def RespDecoder.decode [FloatText F] (M : Mach) (self : RespDecoder) (src : Bytes) :
    Except Fault (Option (RespValue F)) × RespDecoder × Bytes :=
  if src = [] then (.ok none, self, src)
  else
    match parse_value M src 0 with
    | .ok (consumed, value) => (.ok (some value), self.note value, src.drop consumed)
    | .error .incomplete => (.ok none, self, src)
    | .error (.fail e) => (.error e, self, src)

/-- The decoder is the one its parser gives rise to: the test for an empty buffer changes
nothing, because the parser asks for more input there as well. -/
theorem decode_eq_ofParser [FloatText F] (M : Mach) :
    (RespDecoder.decode M : Decode UInt8 Fault (RespValue F) RespDecoder)
      = ofParser (fun src => parse_value M src 0) RespDecoder.note := by
  funext self src
  cases src with
  | nil => rfl
  | cons c rest =>
    simp only [RespDecoder.decode, ofParser, reduceCtorEq, if_false]
    rcases parse_value M (c :: rest) 0 with (_ | e) | ⟨consumed, value⟩ <;> rfl

end ValkeyRs.Resp
