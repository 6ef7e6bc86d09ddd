/-
The log, `crates/persistence/src/aof.rs`: how commands are written to the append-only file, and the
loop that reads them back.

`replay` keeps a buffer, tries to parse one command at its front, and reads more of the file when
the parser says that something is missing. How many bytes a read returns is up to the system, so the
file comes as a sequence of chunks. The loop is a function from one state to the next (`turn`), and
the commands that are passed to `replay_command` are recorded in the state, in order.

The parser notices that a command is incomplete only where the buffer ends between two arguments or
inside the first line. Where it ends inside an argument, `parse_token` makes up an empty one.

`Vec::with_capacity` for the number of items a command announces is a panic if there is no `room`
for them. Of `RespToken`, the variants that the parser never makes are left out.
-/
import ValkeyRs.Resp

set_option autoImplicit false

open ValkeyRs Text Resp

namespace ValkeyRs.Aof

/-! ## Writing -/

def append_arg (arg : Bytes) : Bytes :=
  36 :: (as_bytes (toString arg.length) ++ (crlf ++ (arg ++ crlf)))

/-- `AofWriter::append`: the bytes of one command. -/
def append (cmd : List Bytes) : Bytes :=
  42 :: (as_bytes (toString cmd.length) ++ (crlf ++ cmd.flatMap append_arg))

def log (cmds : List (List Bytes)) : Bytes := cmds.flatMap append

/-! ## Parsing -/

inductive RespToken where
  | SimpleString (s : String)
  | Integer (n : ℤ)
  | BulkString (b : Bytes)
  deriving Repr, DecidableEq

inductive ParseResult where
  | Ok (consumed : ℕ) (items : List RespToken)
  | Incomplete
  | Err (e : String)
  | Panic
  deriving Repr, DecidableEq

def read_line (buf : Bytes) : Option (ℕ × ℕ) := (find_window buf).map fun i => (i, i + 2)

/-- `str::parse::<i64>`, with a default. -/
def parse_or (default : ℤ) (s : String) : ℤ :=
  match parse_int (some 64) s with
  | .ok n => n
  | .error _ => default

/-- `str::from_utf8`, with a default. -/
def utf8_or (default : String) (b : Bytes) : String :=
  match from_utf8 b with
  | .ok s => s
  | .error _ => default

/-- A bulk string whose length has been read: `line_end` is where its bytes begin. -/
def bulk_token (buf : Bytes) (offset line_end : ℕ) (len : ℤ) : RespToken × ℕ :=
  if len < 0 then (.BulkString [], line_end)
  else if line_end + len.toNat + 2 > buf.length then (.BulkString [], offset)
  else (.BulkString ((buf.drop line_end).take len.toNat), line_end + len.toNat + 2)

/-- The arms of `parse_token`, by the first byte. -/
def token_at (buf : Bytes) (offset : ℕ) (first : UInt8) (line : Option (ℕ × ℕ)) : RespToken × ℕ :=
  let pos := offset + 1
  if first = 36 then
    match line with
    | some (n, end_) =>
      bulk_token buf offset (pos + end_) (parse_or (-1) (utf8_or "0" ((buf.drop pos).take n)))
    | none => (.BulkString [], pos)
  else if first = 43 then
    match line with
    | some (_, end_) =>
      (.SimpleString (utf8_or "" ((buf.drop pos).take (end_ - 2))), pos + end_)
    | none => (.SimpleString "", pos)
  else if first = 58 then
    match line with
    | some (_, end_) =>
      (.Integer (parse_or 0 (utf8_or "0" ((buf.drop pos).take (end_ - 2)))), pos + end_)
    | none => (.Integer 0, pos)
  else (.SimpleString "", pos)

def parse_token (buf : Bytes) (offset : ℕ) : RespToken × ℕ :=
  match buf[offset]? with
  | none => (.SimpleString "", offset)
  | some first => token_at buf offset first (read_line (buf.drop (offset + 1)))

/-- The loop `for _ in 0..count`; nothing if the buffer ends before an item. -/
def parse_tokens (buf : Bytes) : ℕ → ℕ → List RespToken → Option (List RespToken × ℕ)
  | 0, offset, items => some (items, offset)
  | count + 1, offset, items =>
    if buf.length ≤ offset then none
    else parse_tokens buf count (parse_token buf offset).2 (items ++ [(parse_token buf offset).1])

/-- The number of items, from the bytes behind the `*`: an error if it is no number. -/
def parse_count (rest : Bytes) (n : ℕ) : Except String ℤ :=
  match from_utf8 (rest.take n) with
  | .error _ => .error "bad count"
  | .ok s =>
    match parse_int (some 64) s with
    | .error _ => .error "bad count"
    | .ok count => .ok count

def parse_items (room : ℕ → Bool) (buf : Bytes) (count : ℤ) (consumed : ℕ) : ParseResult :=
  if count < 0 then .Ok consumed []
  else if !room count.toNat then .Panic
  else match parse_tokens buf count.toNat consumed [] with
    | none => .Incomplete
    | some (items, offset) => .Ok offset items

def parse_next_array (room : ℕ → Bool) (buf : Bytes) : ParseResult :=
  match buf with
  | [] => .Incomplete
  | first :: rest =>
    if first ≠ 42 then .Err "expected '*'"
    else match read_line rest with
      | none => .Incomplete
      | some (n, end_) =>
        match parse_count rest n with
        | .error e => .Err e
        | .ok count => parse_items room buf count (1 + end_)

/-! ## The loop -/

/-- What one `read` returns, unless it is at the end of the file. -/
structure Chunk where
  bytes : Bytes
  ne_nil : bytes ≠ []
  le : bytes.length ≤ 8192

/-- The state of `replay`: the buffer, what the reads will return, and the commands that have been
passed on. -/
structure Replay where
  buf : Bytes
  reads : List Chunk
  handed : List (List Bytes)

def Replay.start (reads : List Chunk) : Replay := ⟨[], reads, []⟩

/-- The argument a token stands for. -/
def RespToken.to_bytes : RespToken → Bytes
  | .BulkString b => b
  | .SimpleString s => as_bytes s
  | .Integer n => as_bytes (toString n)

/-- How one turn of the loop ends. -/
inductive Turn where
  | again (s : Replay)
  | ended (s : Replay)
  | crashed (s : Replay)

def turn (room : ℕ → Bool) (s : Replay) : Turn :=
  match parse_next_array room s.buf with
  | .Ok consumed items =>
    let cmd := items.map RespToken.to_bytes
    .again ⟨s.buf.drop consumed, s.reads, if cmd.isEmpty then s.handed else s.handed ++ [cmd]⟩
  | .Incomplete =>
    match s.reads with
    | [] => .ended s
    | chunk :: reads => .again ⟨s.buf ++ chunk.bytes, reads, s.handed⟩
  | .Err _ =>
    -- scan for the next `*`
    match s.buf.findIdx? (· = 42) with
    | some pos => .again { s with buf := s.buf.drop pos }
    | none => .ended s
  | .Panic => .crashed s

def replay (room : ℕ → Bool) : ℕ → Replay → Option Turn
  | 0, _ => none
  | n + 1, s =>
    match turn room s with
    | .again s' => replay room n s'
    | result => some result

end ValkeyRs.Aof
