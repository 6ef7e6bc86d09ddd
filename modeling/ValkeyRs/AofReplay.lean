/-
`replay_command` of `crates/persistence/src/aof.rs`: the second implementation of the commands that
write, which rebuilds the store from the log.

It knows 26 commands and skips the others. Every one that puts a value into the store does so
through `Store::set` without a time to live, whatever the live command does about the expiry time,
and of the options of a command it reads none. A list or set is always a `List` or a `Set` here:
the store it starts from is empty, and it makes no listpack or intset itself.

The sums on `i64` wrap around, as they do in the release build.
-/
import ValkeyRs.Commands

set_option autoImplicit false

open ValkeyRs Text Storage Zset Strings Maps Server

namespace ValkeyRs.Aof

variable {F : Type} [Score F]

/-- `Result<(), String>`. -/
abbrev Replayed (F : Type) [Score F] := StoreM F (Except String Unit)

/-- `return Err(e.into())`. -/
def refuse (e : String) : Replayed F := return .error e

def wrong_args : Replayed F := refuse "wrong args"

/-- `store.set(key, data, None)`, at the end of an arm. -/
def put_back (key : Bytes) (data : DataType F) : Replayed F := do
  Store.set key data none
  return .ok ()

/-! ## Strings -/

/-- SET and GETSET: anything behind the value is ignored. -/
def replay_set (args : List Bytes) : Replayed F :=
  match args with
  | key :: value :: _ => put_back key (.String value)
  | _ => wrong_args

/-- SETEX and PSETEX, with the unit of the time. -/
def replay_setex (unit : ℕ) (args : List Bytes) : Replayed F :=
  match args with
  | key :: time :: value :: _ =>
    match parse_u64 time with
    | some n => do
      Store.set key (.String value) (some (n * unit))
      return .ok ()
    | none => refuse "bad ttl"
  | _ => wrong_args

def replay_setnx (args : List Bytes) : Replayed F :=
  match args with
  | key :: value :: _ => do
    if ← Store.exists_key key then return .ok ()
    else put_back key (.String value)
  | _ => wrong_args

def replay_edit (key : Bytes) (change : Bytes → Except String Bytes) (absent : Bytes) :
    Replayed F := do
  match ← Store.get key with
  | some entry =>
    match entry.data with
    | .String s =>
      match change s with
      | .ok value => put_back key (.String value)
      | .error e => refuse e
    | _ => refuse "wrong type"
  | none => put_back key (.String absent)

def replay_append (args : List Bytes) : Replayed F :=
  match args with
  | key :: value :: _ => replay_edit key (fun s => .ok (s ++ value)) value
  | _ => wrong_args

def recount (change : Int64 → Int64) (val : Bytes) : Except String Bytes :=
  match parse_i64 val with
  | some n => .ok (int_bytes (change n))
  | none => .error "not an integer"

/-- INCR and DECR. -/
def replay_incr (change : Int64 → Int64) (absent : Int64) (args : List Bytes) : Replayed F :=
  match args with
  | key :: _ => replay_edit key (recount change) (int_bytes absent)
  | [] => wrong_args

/-- INCRBY and DECRBY. -/
def replay_incrby (bad : String) (change : Int64 → Int64 → Int64) (absent : Int64 → Int64)
    (args : List Bytes) : Replayed F :=
  match args with
  | key :: by_ :: _ =>
    match parse_i64 by_ with
    | some n => replay_edit key (recount (change n)) (int_bytes (absent n))
    | none => refuse bad
  | _ => wrong_args

/-! ## Keys -/

def replay_del : List Bytes → Replayed F
  | [] => return .ok ()
  | key :: keys => do
    let _ ← Store.del key
    replay_del keys

/-- `store.expire(key, Instant::now() + dur)`. -/
def expire_after (key : Bytes) (dur : Duration) : Replayed F := do
  let at_ ← Keys.deadline dur
  let _ ← Store.expire key at_
  return .ok ()

/-- EXPIRE and PEXPIRE. -/
def replay_expire (unit : ℕ) (args : List Bytes) : Replayed F :=
  match args with
  | key :: time :: _ =>
    match parse_u64 time with
    | some n => expire_after key (n * unit)
    | none => refuse "bad ttl"
  | _ => wrong_args

/-- EXPIREAT and PEXPIREAT. A time that has passed changes nothing. -/
def replay_expireat (unit : ℕ) (args : List Bytes) : Replayed F :=
  match args with
  | key :: time :: _ =>
    match parse_i64 time with
    | some ts => do
      let target := ts.toInt.toNat * unit
      let wall ← Store.unix_time
      if wall ≤ target then expire_after key (target - wall) else return .ok ()
    | none => refuse "bad timestamp"
  | _ => wrong_args

/-- A hundred years. -/
def century : Duration := 86400 * 365 * 100 * 10 ^ 9

def replay_persist (args : List Bytes) : Replayed F :=
  match args with
  | key :: _ => expire_after key century
  | [] => wrong_args

/-- `if let Some(entry) = store.get(key)`: its data under the new key, without its expiry time. -/
def move_entry (key newkey : Bytes) : Replayed F := do
  match ← Store.get key with
  | some entry => do
    Store.set newkey entry.data none
    let _ ← Store.del key
    return .ok ()
  | none => return .ok ()

def replay_rename (args : List Bytes) : Replayed F :=
  match args with
  | key :: newkey :: _ => move_entry key newkey
  | _ => wrong_args

def replay_renamenx (args : List Bytes) : Replayed F :=
  match args with
  | key :: newkey :: _ => do
    if ← Store.exists_key newkey then return .ok ()
    else move_entry key newkey
  | _ => wrong_args

/-! ## Collections -/

/-- Read a copy, change it and put it back. `open_` takes the collection out of a value. -/
def replay_collection {α : Type} (key : Bytes) (open_ : DataType F → Option α)
    (change : Option α → Except String (DataType F)) : Replayed F := do
  match ← Store.get key with
  | some entry =>
    match open_ entry.data with
    | some c =>
      match change (some c) with
      | .ok data => put_back key data
      | .error e => refuse e
    | none => refuse "wrong type"
  | none =>
    match change none with
    | .ok data => put_back key data
    | .error e => refuse e

def list_of : DataType F → Option (List Bytes)
  | .List l => some l
  | _ => none

def hash_of : DataType F → Option (HashMap Bytes Bytes)
  | .Hash h => some h
  | _ => none

def set_of : DataType F → Option (HashSet Bytes)
  | .Set s => some s
  | _ => none

def zset_of : DataType F → Option (ZSetData F)
  | .ZSet z => some z
  | _ => none

def replay_rpush (args : List Bytes) : Replayed F :=
  match args with
  | key :: value :: rest =>
    replay_collection key list_of fun l =>
      .ok (.List ((value :: rest).foldl (Collections.push_one false) (l.getD [])))
  | _ => wrong_args

/-- The values are taken from the last to the first. -/
def replay_lpush (args : List Bytes) : Replayed F :=
  match args with
  | key :: value :: rest =>
    replay_collection key list_of fun l =>
      .ok (.List ((value :: rest).reverse.foldl (Collections.push_one true) (l.getD [])))
  | _ => wrong_args

/-- `for chunk in args[1..].chunks(2)`, where a chunk of one is left out. -/
def insert_pairs : List Bytes → HashMap Bytes Bytes → HashMap Bytes Bytes
  | field :: value :: rest, h => insert_pairs rest (h.insert field value)
  | _, h => h

def replay_hset (args : List Bytes) : Replayed F :=
  match args with
  | key :: field :: value :: rest =>
    replay_collection key hash_of fun h =>
      .ok (.Hash (insert_pairs (field :: value :: rest) (h.getD ∅)))
  | _ => wrong_args

def replay_sadd (args : List Bytes) : Replayed F :=
  match args with
  | key :: member :: rest =>
    replay_collection key set_of fun s => .ok (.Set (gather (s.getD ∅) (member :: rest)))
  | _ => wrong_args

/-- The pairs of ZADD. The first score that cannot be read ends it. -/
def add_scores : List Bytes → ZSetData F → Except String (ZSetData F)
  | s :: member :: rest, zset =>
    match (parse_f64 s : Option F) with
    | some score => add_scores rest (zset.add member score)
    | none => .error "bad score"
  | _, zset => .ok zset

def replay_zadd (args : List Bytes) : Replayed F :=
  match args with
  | key :: score :: member :: rest =>
    replay_collection key zset_of fun z =>
      (add_scores (score :: member :: rest) (z.getD .new)).map .ZSet
  | _ => wrong_args

def replay_flush : Replayed F := do
  Store.flush
  return .ok ()

/-! ## The commands by name -/

def replay_named (name : String) (args : List Bytes) : Replayed F :=
  match name with
  | "SET" => replay_set args
  | "SETEX" => replay_setex (10 ^ 9) args
  | "PSETEX" => replay_setex (10 ^ 6) args
  | "SETNX" => replay_setnx args
  | "GETSET" => replay_set args
  | "APPEND" => replay_append args
  | "INCR" => replay_incr (· + 1) 1 args
  | "DECR" => replay_incr (· - 1) (-1) args
  | "INCRBY" => replay_incrby "bad increment" (fun n val => val + n) id args
  | "DECRBY" => replay_incrby "bad decrement" (fun n val => val - n) (- ·) args
  | "DEL" | "UNLINK" => replay_del args
  | "EXPIRE" => replay_expire (10 ^ 9) args
  | "PEXPIRE" => replay_expire (10 ^ 6) args
  | "EXPIREAT" => replay_expireat (10 ^ 9) args
  | "PEXPIREAT" => replay_expireat (10 ^ 6) args
  | "PERSIST" => replay_persist args
  | "RPUSH" => replay_rpush args
  | "LPUSH" => replay_lpush args
  | "HSET" => replay_hset args
  | "SADD" => replay_sadd args
  | "ZADD" => replay_zadd args
  | "RENAME" => replay_rename args
  | "RENAMENX" => replay_renamenx args
  | "FLUSHDB" | "FLUSHALL" => replay_flush
  -- a warning is written, and the command is skipped
  | _ => return .ok ()

def replay_command (cmd : Cmd) : Replayed F :=
  match cmd with
  | [] => return .ok ()
  | first :: args =>
    match from_utf8 first with
    | .ok s => replay_named (to_ascii_uppercase s) args
    | .error _ => refuse "invalid command name"

/-- What `replay` does with the commands it is handed: an `Err` is written to the log, and the next
command follows. -/
def replay_all : List Cmd → StoreM F Unit
  | [] => return ()
  | cmd :: cmds => do
    let _ ← replay_command cmd
    replay_all cmds

end ValkeyRs.Aof
