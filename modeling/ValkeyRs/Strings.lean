/-
The string commands, `crates/commands/src/string.rs`.

Two ways of working on an entry occur side by side. Some commands read a copy and put a new
entry back through `Store::set`, which notifies the watchers first. The others, INCR and its
relatives, APPEND, SETRANGE and INCRBYFLOAT, change the entry in place under the guard of
`get_mut` and insert a fresh one when there is none; they neither look at the expiry time nor
notify anybody. `edit` is that second way, and each command gives its own change to the bytes.

The arithmetic on `i64` and `usize` wraps around, as it does in the release build.
-/
import ValkeyRs.Zset

set_option autoImplicit false

open ValkeyRs Text Storage Zset

namespace ValkeyRs.Strings

variable {F : Type} [Score F]

/-! ## Replies and arguments -/

def bull (b : Bytes) : Reply F := .BulkString (some b)

def null_bulk : Reply F := .BulkString none

def ok : Reply F := .SimpleString "OK"

def wrong_type : Reply F :=
  .Error "WRONGTYPE Operation against a key holding the wrong kind of value"

def not_integer : Reply F := .Error not_an_integer

def not_float : Reply F := .Error "ERR value is not a valid float"

def syntax_error : Reply F := .Error "ERR syntax error"

/-- `std::str::from_utf8(b).unwrap_or("")`. -/
def text (b : Bytes) : String := (from_utf8 b).toOption.getD ""

/-- `text.parse::<u64>()`, which is `usize` as well. -/
def parse_u64 (b : Bytes) : Option ℕ := (parse_nat (some 64) (text b)).toOption

def parse_i64 (b : Bytes) : Option Int64 := ((parse_int (some 64) (text b)).toOption).map Int64.ofInt

def parse_f64 (b : Bytes) : Option F := (Resp.FloatText.parse (text b)).toOption

/-! ## Reading -/

/-- The `match store.get(key)` of the commands that read one string. -/
def read_string (key : Bytes) (present : Bytes → Reply F) (absent : Reply F) :
    StoreM F (Reply F) := do
  match ← Store.get key with
  | some entry =>
    match entry.data with
    | .String s => return present s
    | _ => return wrong_type
  | none => return absent

def cmd_get (args : List Bytes) : StoreM F (Reply F) :=
  match args with
  | [key] => read_string key bull null_bulk
  | _ => return .Error (wrong_number "get")

def cmd_strlen (args : List Bytes) : StoreM F (Reply F) :=
  match args with
  | [key] => read_string key (fun s => int s.length) (int 0)
  | _ => return .Error (wrong_number "strlen")

def normalize_index (index len : ℤ) : ℤ :=
  if index < 0 then if len + index < 0 then 0 else len + index else index

/-- The bytes GETRANGE replies. -/
def byte_range (s : Bytes) (start stop : ℤ) : Bytes :=
  let len : ℤ := s.length
  let si := normalize_index start len
  let ei := normalize_index stop len
  if len = 0 ∨ si > ei ∨ si ≥ len then []
  else (s.drop si.toNat).take ((min ei (len - 1)).toNat + 1 - si.toNat)

def cmd_getrange (args : List Bytes) : StoreM F (Reply F) :=
  match args with
  | [key, start, stop] =>
    match parse_i64 start, parse_i64 stop with
    | some start, some stop =>
      read_string key (fun s => bull (byte_range s start.toInt stop.toInt)) (bull [])
    | _, _ => return not_integer
  | _ => return .Error (wrong_number "getrange")

def string_of (entry : Option (Entry F)) : Option Bytes :=
  match entry.map Entry.data with
  | some (.String s) => some s
  | _ => none

/-- The loop of `cmd_mget`. -/
def mget_values : List Bytes → StoreM F (List (Reply F))
  | [] => return []
  | key :: keys => do
    let value := string_of (← Store.get key)
    return .BulkString value :: (← mget_values keys)

def cmd_mget (args : List Bytes) : StoreM F (Reply F) := do
  if args.isEmpty then return .Error (wrong_number "mget")
  return .Array (some (← mget_values args))

/-! ## SET and its relatives -/

structure SetOptions where
  ttl : Option Duration
  nx : Bool
  xx : Bool
  get : Bool
  deriving Repr, DecidableEq

/-- How an expiry option reads its number: the unit, in nanoseconds, and whether the number is a
time since the epoch. -/
def expiry_option (name : String) : Option (ℕ × Bool) :=
  if name = "EX" then some (10 ^ 9, false)
  else if name = "PX" then some (10 ^ 6, false)
  else if name = "EXAT" then some (10 ^ 9, true)
  else if name = "PXAT" then some (10 ^ 6, true)
  else none

/-- EXAT and PXAT: the time that is left. A key whose time has passed is deleted. -/
def ttl_until (key : Bytes) (unit ts : ℕ) : StoreM F (Option Duration) := do
  let now := (← Store.unix_time) / unit % 2 ^ 64
  if ts > now then return some ((ts - now) * unit)
  else do
    let _ ← Store.del key
    return none

/-- The option loop of `cmd_set`: the options, or the reply it returns early with. -/
def set_options (key : Bytes) : List Bytes → SetOptions → StoreM F (Except (Reply F) SetOptions)
  | [], opts => return .ok opts
  | opt :: rest, opts =>
    match option_name opt with
    | none => return .error syntax_error
    | some name =>
      match expiry_option name with
      | some (unit, absolute) =>
        match rest with
        | [] => return .error syntax_error
        | number :: rest =>
          match parse_u64 number with
          | none => return .error not_integer
          | some n =>
            if absolute then do
              match ← ttl_until key unit n with
              | some ttl => set_options key rest { opts with ttl := some ttl }
              | none => return .error null_bulk
            else set_options key rest { opts with ttl := some (n * unit) }
      | none =>
        if name = "KEEPTTL" then set_options key rest { opts with ttl := none }
        else if name = "NX" then set_options key rest { opts with nx := true }
        else if name = "XX" then set_options key rest { opts with xx := true }
        else if name = "GET" then set_options key rest { opts with get := true }
        else return .error syntax_error

/-- The value SET GET replies, read before the new one is put in. -/
def old_value (key : Bytes) (get : Bool) : StoreM F (Option Bytes) :=
  if get then do return string_of (← Store.get key) else return none

/-- `cmd_set` behind its options. -/
def set_with (key value : Bytes) (opts : SetOptions) : StoreM F (Reply F) := do
  let key_exists ← Store.exists_key key
  if opts.nx && key_exists then
    if opts.get then read_string key bull null_bulk else return null_bulk
  else if opts.xx && !key_exists then return null_bulk
  else do
    let old ← old_value key opts.get
    Store.maybe_evict
    Store.set key (.String value) opts.ttl
    return if opts.get then .BulkString old else ok

def cmd_set (args : List Bytes) : StoreM F (Reply F) :=
  match args with
  | key :: value :: opts => do
    match ← set_options key opts ⟨none, false, false, false⟩ with
    | .error reply => return reply
    | .ok opts => set_with key value opts
  | _ => return .Error (wrong_number "set")

/-- The loop of `cmd_del`. -/
def del_keys : List Bytes → ℕ → StoreM F ℕ
  | [], count => return count
  | key :: keys, count => do
    let found ← Store.del key
    del_keys keys (if found then count + 1 else count)

def cmd_del (args : List Bytes) : StoreM F (Reply F) := do
  if args.isEmpty then return .Error (wrong_number "del")
  return int (← del_keys args 0)

def cmd_getset (args : List Bytes) : StoreM F (Reply F) :=
  match args with
  | [key, value] => do
    match ← Store.get key with
    | some entry =>
      match entry.data with
      | .String s => do
        Store.set key (.String value) none
        return bull s
      | _ => do
        -- the guard of `get` is still alive when `set` comes to the insertion
        Store.notify_watchers key
        let _ ← Store.now
        .fail .Deadlock
    | none => do
      Store.set key (.String value) none
      return null_bulk
  | _ => return .Error (wrong_number "getset")

/-- `for chunk in args.chunks(2) { store.set(chunk[0], chunk[1], None) }`. -/
def set_pairs : List Bytes → StoreM F Unit
  | key :: value :: rest => do
    Store.set key (.String value) none
    set_pairs rest
  | _ => return ()

/-- Whether one of the keys of the chunks exists; those behind it are not looked at. -/
def any_exists : List Bytes → StoreM F Bool
  | key :: _ :: rest => do
    if ← Store.exists_key key then return true
    any_exists rest
  | _ => return false

def cmd_mset (args : List Bytes) : StoreM F (Reply F) := do
  if args.isEmpty ∨ args.length % 2 ≠ 0 then return .Error (wrong_number "mset")
  set_pairs args
  return ok

def cmd_msetnx (args : List Bytes) : StoreM F (Reply F) := do
  if args.isEmpty ∨ args.length % 2 ≠ 0 then return .Error (wrong_number "msetnx")
  if ← any_exists args then return int 0
  set_pairs args
  return int 1

def cmd_setnx (args : List Bytes) : StoreM F (Reply F) :=
  match args with
  | [key, value] => do
    if ← Store.exists_key key then return int 0
    Store.set key (.String value) none
    return int 1
  | _ => return .Error (wrong_number "setnx")

/-- SETEX and PSETEX, with the unit of the time. -/
def setex (cmd : String) (unit : ℕ) (args : List Bytes) : StoreM F (Reply F) :=
  match args with
  | [key, time, value] =>
    match parse_u64 time with
    | some n => do
      Store.set key (.String value) (some (n * unit))
      return ok
    | none => return not_integer
  | _ => return .Error (wrong_number cmd)

def cmd_setex (args : List Bytes) : StoreM F (Reply F) := setex "setex" (10 ^ 9) args

def cmd_psetex (args : List Bytes) : StoreM F (Reply F) := setex "psetex" (10 ^ 6) args

/-- The option of `cmd_getex`: a new time to live, if any, or the reply it returns early with. -/
def getex_option (key : Bytes) (opts : List Bytes) :
    StoreM F (Except (Reply F) (Option Duration)) :=
  match opts with
  | [] => return .ok none
  | opt :: rest =>
    match option_name opt with
    | none => return .error syntax_error
    | some name =>
      match expiry_option name with
      | some (unit, absolute) =>
        match rest with
        | [] => return .error syntax_error
        | number :: _ =>
          -- a number that cannot be read counts as zero
          let n := (parse_u64 number).getD 0
          if absolute then do
            match ← ttl_until key unit n with
            | some ttl => return .ok (some ttl)
            | none => return .error null_bulk
          else return .ok (some (n * unit))
      | none =>
        if name = "PERSIST" then do
          let _ ← Store.access key fun entry => entry.map ({ · with expires_at := none })
          return .ok none
        else if name = "KEEPTTL" then return .ok none
        else return .error syntax_error

/-- The value of GETEX at its end, where anything but a string is `unreachable!`. -/
def getex_value (key : Bytes) : StoreM F (Reply F) := do
  match ← Store.get key with
  | some entry =>
    match entry.data with
    | .String s => return bull s
    | _ => .fail .Panic
  | none => return null_bulk

def cmd_getex (args : List Bytes) : StoreM F (Reply F) :=
  match args with
  | key :: opts =>
    if opts.length > 2 then return .Error (wrong_number "getex") else do
    match (← Store.get key).map Entry.data with
    | some (.String _) => do
      match ← getex_option key opts with
      | .error reply => return reply
      | .ok none => getex_value key
      | .ok (some ttl) => do
        match string_of (← Store.get key) with
        | some value => do
          Store.set key (.String value) (some ttl)
          getex_value key
        | none => return null_bulk
    | some _ => return wrong_type
    | none => return null_bulk
  | [] => return .Error (wrong_number "getex")

def cmd_getdel (args : List Bytes) : StoreM F (Reply F) :=
  match args with
  | [key] => do
    let entry ← Store.get key
    let _ ← Store.del key
    match entry.map Entry.data with
    | some (.String s) => return bull s
    | some _ => return wrong_type
    | none => return null_bulk
  | _ => return .Error (wrong_number "getdel")

/-! ## Editing in place -/

/-- `dm.insert(key, Entry::new(DataType::String(value), None))`. -/
def insert_string (key value : Bytes) : StoreM F Unit := do
  let entry ← Entry.new (.String value) none (← Store.now)
  let _ ← Store.access key fun _ => some entry

/-- The entry with its string changed, where `f` gives a new one. -/
def edit_entry (f : Bytes → Option Bytes) (entry : Entry F) : Entry F :=
  match entry.data with
  | .String s =>
    match f s with
    | some b => { entry with data := .String b }
    | none => entry
  | _ => entry

/-- `match dm.get_mut(key)`: change the string under the guard and reply, or do something else
when there is no entry. The first component of `f` is the new string, if it comes to that. -/
def edit (key : Bytes) (f : Bytes → Option Bytes × Except Halt (Reply F))
    (absent : StoreM F (Reply F)) : StoreM F (Reply F) := do
  match ← Store.access key (·.map (edit_entry fun s => (f s).1)) with
  | some entry =>
    match entry.data with
    | .String s => (f s).2
    | _ => return wrong_type
  | none => absent

/-- `new_val.to_string()`. -/
def int_bytes (n : Int64) : Bytes := as_bytes (toString n.toInt)

def cmd_incrby_internal (key : Bytes) (increment : Int64) : StoreM F (Reply F) :=
  edit key
    (fun s => match parse_i64 s with
      | some current =>
        (some (int_bytes (current + increment)), .ok (.Integer (current + increment)))
      | none => (none, .ok not_integer))
    (do
      insert_string key (int_bytes increment)
      return .Integer increment)

/-- INCR and DECR. -/
def incr (cmd : String) (by_ : Int64) (args : List Bytes) : StoreM F (Reply F) :=
  match args with
  | [key] => cmd_incrby_internal key by_
  | _ => return .Error (wrong_number cmd)

def cmd_incr (args : List Bytes) : StoreM F (Reply F) := incr "incr" 1 args

def cmd_decr (args : List Bytes) : StoreM F (Reply F) := incr "decr" (-1) args

/-- INCRBY and DECRBY. -/
def incrby (cmd : String) (sign : Int64 → Int64) (args : List Bytes) : StoreM F (Reply F) :=
  match args with
  | [key, by_] =>
    match parse_i64 by_ with
    | some n => cmd_incrby_internal key (sign n)
    | none => return not_integer
  | _ => return .Error (wrong_number cmd)

def cmd_incrby (args : List Bytes) : StoreM F (Reply F) := incrby "incrby" id args

def cmd_decrby (args : List Bytes) : StoreM F (Reply F) := incrby "decrby" (- ·) args

def cmd_incrbyfloat (args : List Bytes) : StoreM F (Reply F) :=
  match args with
  | [key, by_] =>
    match (parse_f64 by_ : Option F) with
    | none => return not_float
    | some increment =>
      let shown (d : F) : Bytes := as_bytes (Score.display d)
      edit key
        (fun s => match (parse_f64 s : Option F) with
          | some current =>
            let sum := shown (Score.add current increment)
            (some sum, .ok (bull sum))
          | none => (none, .ok not_float))
        (do
          insert_string key (shown increment)
          return bull (shown increment))
  | _ => return .Error (wrong_number "incrbyfloat")

def cmd_append (args : List Bytes) : StoreM F (Reply F) :=
  match args with
  | [key, value] =>
    edit key (fun s => (some (s ++ value), .ok (int (s ++ value).length)))
      (do
        insert_string key value
        return int value.length)
  | _ => return .Error (wrong_number "append")

/-- The string with `value` written over it at `offset`, and zeros in a gap. -/
def splice (s : Bytes) (offset : ℕ) (value : Bytes) : Bytes :=
  let stop := offset + value.length
  let buf := s ++ List.replicate (stop - s.length) 0
  buf.take offset ++ value ++ buf.drop stop

def cmd_setrange (args : List Bytes) : StoreM F (Reply F) :=
  match args with
  | [key, offset, value] =>
    match parse_u64 offset with
    | none => return not_integer
    | some offset =>
      let stop := (offset + value.length) % 2 ^ 64
      if stop > 512 * 1024 * 1024 then
        return .Error "ERR string exceeds maximum allowed size"
      -- when the sum has wrapped around, the range `offset..stop` is no range
      else if stop < offset then edit key (fun _ => (none, .error .Panic)) (.fail .Panic)
      else edit key
        (fun s => (some (splice s offset value), .ok (int (splice s offset value).length)))
        (do
          insert_string key (splice [] offset value)
          return int stop)
  | _ => return .Error (wrong_number "setrange")

/-! ## LCS -/

structure LcsOptions where
  want_len : Bool
  want_idx : Bool
  with_match_len : Bool
  min_match_len : ℕ
  deriving Repr, DecidableEq

/-- The option loop of `cmd_lcs`. -/
def lcs_options : List Bytes → LcsOptions → Except (Reply F) LcsOptions
  | [], opts => .ok opts
  | opt :: rest, opts =>
    if option_name opt = some "LEN" then lcs_options rest { opts with want_len := true }
    else if option_name opt = some "IDX" then lcs_options rest { opts with want_idx := true }
    else if option_name opt = some "WITHMATCHLEN" then
      lcs_options rest { opts with with_match_len := true }
    else if option_name opt = some "MINMATCHLEN" then
      match rest with
      | [] => .error syntax_error
      | len :: rest =>
        match parse_u64 len with
        | some n => lcs_options rest { opts with min_match_len := n }
        | none => .error not_integer
    else .error syntax_error

/-- A row of the table, from the one above it: `diag` and `left` are the neighbours of the next
cell. -/
def lcs_cells (x : UInt8) : Bytes → List ℕ → ℕ → ℕ → List ℕ
  | y :: b, up :: above, diag, left =>
    let cell := if x = y then diag + 1 else max up left
    cell :: lcs_cells x b above up cell
  | _, _, _, _ => []

/-- The rows of `dp`, the first of them all zeros. -/
def lcs_table (a b : Bytes) : List (List ℕ) :=
  a.scanl (fun above x => 0 :: lcs_cells x b above.tail 0 0) (List.replicate (b.length + 1) 0)

/-- `dp[ai * w + bi]`. -/
def lcs_cell (table : List (List ℕ)) (ai bi : ℕ) : ℕ := ((table[ai]?).getD []).getD bi 0

/-- The walk back through the table that collects the common bytes. A turn moves up or to the
left, so `ai + bi` turns are enough. -/
def lcs_walk (a b : Bytes) (table : List (List ℕ)) : ℕ → ℕ → ℕ → Bytes → Bytes
  | turns + 1, ai + 1, bi + 1, out =>
    if a.getD ai 0 = b.getD bi 0 then lcs_walk a b table turns ai bi (a.getD ai 0 :: out)
    else if lcs_cell table ai (bi + 1) ≥ lcs_cell table (ai + 1) bi then
      lcs_walk a b table turns ai (bi + 1) out
    else lcs_walk a b table turns (ai + 1) bi out
  | _, _, _, out => out

/-- The inner loop of the walk with IDX: where a run of equal bytes starts, and its length. -/
def match_run (a b : Bytes) : ℕ → ℕ → ℕ × ℕ × ℕ
  | ai + 1, bi + 1 =>
    if a.getD ai 0 = b.getD bi 0 then
      let (x, y, run) := match_run a b ai bi
      (x, y, run + 1)
    else (ai + 1, bi + 1, 0)
  | ai, bi => (ai, bi, 0)

/-- The walk with IDX, last match first. -/
def lcs_matches (a b : Bytes) (table : List (List ℕ)) (opts : LcsOptions) :
    ℕ → ℕ → ℕ → List (Reply F)
  | turns + 1, ai + 1, bi + 1 =>
    if a.getD ai 0 = b.getD bi 0 then
      let (x, y, run) := match_run a b (ai + 1) (bi + 1)
      let rest := lcs_matches a b table opts turns x y
      if run ≥ opts.min_match_len then
        .Array (some ([.Array (some [int x, int ai]), .Array (some [int y, int bi])] ++
          if opts.with_match_len then [int run] else [])) :: rest
      else rest
    else if lcs_cell table ai (bi + 1) ≥ lcs_cell table (ai + 1) bi then
      lcs_matches a b table opts turns ai (bi + 1)
    else lcs_matches a b table opts turns (ai + 1) bi
  | _, _, _ => []

/-- The reply of LCS to two strings. -/
def lcs_reply (opts : LcsOptions) (a b : Bytes) : Reply F :=
  let la := a.length
  let lb := b.length
  if la * lb > 64 * 1024 * 1024 then
    .Error "ERR Insufficient memory, failed allocating transient memory for LCS"
  else
    let table := lcs_table a b
    let lcs_len := lcs_cell table la lb
    if opts.want_len then int lcs_len
    else if !opts.want_idx then bull (lcs_walk a b table (la + lb) la lb [])
    else .Array (some [bull (as_bytes "matches"),
      .Array (some (lcs_matches a b table opts (la + lb) la lb)), bull (as_bytes "len"),
      int lcs_len])

/-- The closure `fetch`: the string under a key, empty if there is none. -/
def lcs_fetch (key : Bytes) : StoreM F (Except (Reply F) Bytes) := do
  match (← Store.get key).map Entry.data with
  | some (.String s) => return .ok s
  | some _ => return .error wrong_type
  | none => return .ok []

def cmd_lcs (args : List Bytes) : StoreM F (Reply F) :=
  match args with
  | key1 :: key2 :: opts =>
    match lcs_options opts ⟨false, false, false, 0⟩ with
    | .error reply => return reply
    | .ok opts =>
      if opts.want_len && opts.want_idx then
        return .Error "ERR If you want both the length and indexes, please just use IDX."
      else do
        match ← lcs_fetch key1 with
        | .error reply => return reply
        | .ok a =>
          match ← lcs_fetch key2 with
          | .error reply => return reply
          | .ok b => return lcs_reply opts a b
  | _ => return .Error (wrong_number "lcs")

/-! ## The commands by name -/

def handle (name : String) (args : List Bytes) : StoreM F (Reply F) :=
  match name with
  | "GET" => cmd_get args
  | "SET" => cmd_set args
  | "DEL" => cmd_del args
  | "GETSET" => cmd_getset args
  | "MGET" => cmd_mget args
  | "MSET" => cmd_mset args
  | "MSETNX" => cmd_msetnx args
  | "INCR" => cmd_incr args
  | "DECR" => cmd_decr args
  | "INCRBY" => cmd_incrby args
  | "DECRBY" => cmd_decrby args
  | "INCRBYFLOAT" => cmd_incrbyfloat args
  | "APPEND" => cmd_append args
  | "STRLEN" => cmd_strlen args
  | "GETRANGE" => cmd_getrange args
  | "SETRANGE" => cmd_setrange args
  | "SETNX" => cmd_setnx args
  | "SETEX" => cmd_setex args
  | "PSETEX" => cmd_psetex args
  | "GETEX" => cmd_getex args
  | "GETDEL" => cmd_getdel args
  | "LCS" => cmd_lcs args
  | _ => return .Error ("ERR unknown command `" ++ name ++ "`")

end ValkeyRs.Strings
