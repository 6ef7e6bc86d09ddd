/-
The commands on keys, `crates/commands/src/keys.rs`: existence, expiry, renaming and removal.

The four commands of the EXPIRE family differ in the unit of their number and in whether it is a
duration or a time since the epoch. A number that cannot be read counts as zero, and a time that has
passed makes the key expire at once. The commands that only print, and those on whole keyspaces, are
left out.
-/
import ValkeyRs.Strings

set_option autoImplicit false

open ValkeyRs Text Storage Zset Strings Store

namespace ValkeyRs.Keys

variable {F : Type} [Score F]

/-! ## Existence -/

/-- `args.iter().filter(|k| store.exists(k)).count()`. -/
def count_existing : List Bytes → ℕ → StoreM F ℕ
  | [], count => return count
  | key :: keys, count => do
    let found ← exists_key key
    count_existing keys (if found then count + 1 else count)

def cmd_exists (args : List Bytes) : StoreM F (Reply F) := do
  if args.isEmpty then return .Error (wrong_number "exists")
  return int (← count_existing args 0)

def type_name : DataType F → String
  | .String _ => "string"
  | .List _ | .ListPack _ => "list"
  | .Hash _ => "hash"
  | .Set _ | .IntSet _ => "set"
  | .ZSet _ => "zset"
  | .Stream _ => "stream"

def cmd_type (args : List Bytes) : StoreM F (Reply F) :=
  match args with
  | [key] => do
    match ← get key with
    | some entry => return .SimpleString (type_name entry.data)
    | none => return .SimpleString "none"
  | _ => return .Error (wrong_number "type")

def cmd_unlink (args : List Bytes) : StoreM F (Reply F) := do
  if args.isEmpty then return .Error (wrong_number "unlink")
  return int (← del_keys args 0)

/-! ## Expiry -/

/-- `Instant::now() + dur`, which panics when there is no such time. -/
def deadline (dur : Duration) : StoreM F Instant := do
  let now ← now
  if now + dur > instant_max then .fail .Panic else return now + dur

inductive ExpireCond where
  | None
  | NX
  | XX
  | GT
  | LT
  deriving Repr, DecidableEq

def parse_expire_cond (s : String) : ExpireCond :=
  match to_ascii_uppercase s with
  | "NX" => .NX
  | "XX" => .XX
  | "GT" => .GT
  | "LT" => .LT
  | _ => .None

/-- The `match` of `check_expire_cond`, on the time that is left now. -/
def ExpireCond.holds (cond : ExpireCond) (cur : Option Duration) (new_dur : Duration) : Bool :=
  match cond with
  | .None => true
  | .NX => cur.isNone
  | .XX => cur.isSome
  -- a key that does not expire passes GT, and does not pass LT
  | .GT => cur.all (· < new_dur)
  | .LT => cur.any (new_dur < ·)

def check_expire_cond (key : Bytes) (new_dur : Duration) (cond : ExpireCond) : StoreM F Bool := do
  return cond.holds (← ttl key) new_dur

def expire_number (b : Bytes) : Int64 := (parse_i64 b).getD 0

def expire_cond (rest : List Bytes) : ExpireCond :=
  match rest with
  | [] => .None
  | opt :: _ => parse_expire_cond (text opt)

/-- The duration a number stands for. Of a time since the epoch, the present one in the same unit
is subtracted, as an `i64`. -/
def expire_duration (unit : ℕ) (absolute : Bool) (n : Int64) : StoreM F Duration :=
  if absolute then do
    let wall ← unix_time
    return (n - Int64.ofNat (wall / unit)).toInt.toNat * unit
  else return n.toInt.toNat * unit

/-- EXPIRE, PEXPIRE, EXPIREAT and PEXPIREAT. -/
def expire_with (cmd : String) (unit : ℕ) (absolute : Bool) (args : List Bytes) :
    StoreM F (Reply F) :=
  match args with
  | key :: number :: rest => do
    if ← exists_key key then do
      let dur ← expire_duration unit absolute (expire_number number)
      if ← check_expire_cond key dur (expire_cond rest) then do
        let at_ ← deadline dur
        let _ ← expire key at_
        return int 1
      else return int 0
    else return int 0
  | _ => return .Error (wrong_number cmd)

def cmd_expire (args : List Bytes) : StoreM F (Reply F) := expire_with "expire" (10 ^ 9) false args

def cmd_pexpire (args : List Bytes) : StoreM F (Reply F) :=
  expire_with "pexpire" (10 ^ 6) false args

def cmd_expireat (args : List Bytes) : StoreM F (Reply F) :=
  expire_with "expireat" (10 ^ 9) true args

def cmd_pexpireat (args : List Bytes) : StoreM F (Reply F) :=
  expire_with "pexpireat" (10 ^ 6) true args

/-- TTL and PTTL. -/
def time_left (cmd : String) (unit : ℕ) (args : List Bytes) : StoreM F (Reply F) :=
  match args with
  | [key] => do
    if ← exists_key key then do
      match ← ttl key with
      | some d => return int (d / unit)
      | none => return .Integer (-1)
    else return .Integer (-2)
  | _ => return .Error (wrong_number cmd)

def cmd_ttl (args : List Bytes) : StoreM F (Reply F) := time_left "ttl" (10 ^ 9) args

def cmd_pttl (args : List Bytes) : StoreM F (Reply F) := time_left "pttl" (10 ^ 6) args

def cmd_persist (args : List Bytes) : StoreM F (Reply F) :=
  match args with
  | [key] => do
    match ← get key with
    | some entry =>
      if entry.expires_at.isNone then return int 0
      else do
        set key entry.data none
        return int 1
    | none => return int 0
  | _ => return .Error (wrong_number "persist")

/-! ## Renaming -/

def ttl_of (entry : Entry F) : StoreM F (Option Duration) :=
  match entry.expires_at with
  | none => return none
  | some at_ => do
    let now ← now
    return some (at_ - now)

def cmd_rename (args : List Bytes) : StoreM F (Reply F) :=
  match args with
  | key :: newkey :: _ => do
    match ← get key with
    | some entry => do
      let ttl ← ttl_of entry
      let _ ← del key
      set newkey entry.data ttl
      return ok
    | none => return .Error "ERR no such key"
  | _ => return .Error (wrong_number "rename")

/-- Here the new key is set before the old one goes. -/
def cmd_renamenx (args : List Bytes) : StoreM F (Reply F) :=
  match args with
  | key :: newkey :: _ => do
    if ← exists_key newkey then return int 0
    else do
      match ← get key with
      | some entry => do
        let ttl ← ttl_of entry
        set newkey entry.data ttl
        let _ ← del key
        return int 1
      | none => return int 0
  | _ => return .Error (wrong_number "renamenx")

/-! ## The commands by name -/

def key_commands : List String :=
  ["EXISTS", "TYPE", "RENAME", "RENAMENX", "EXPIRE", "PEXPIRE", "EXPIREAT", "PEXPIREAT", "TTL",
    "PTTL", "PERSIST", "UNLINK"]

def handle (name : String) (args : List Bytes) : StoreM F (Reply F) :=
  match name with
  | "EXISTS" => cmd_exists args
  | "TYPE" => cmd_type args
  | "RENAME" => cmd_rename args
  | "RENAMENX" => cmd_renamenx args
  | "EXPIRE" => cmd_expire args
  | "PEXPIRE" => cmd_pexpire args
  | "EXPIREAT" => cmd_expireat args
  | "PEXPIREAT" => cmd_pexpireat args
  | "TTL" => cmd_ttl args
  | "PTTL" => cmd_pttl args
  | "PERSIST" => cmd_persist args
  | "UNLINK" => cmd_unlink args
  | _ => return .Error ("ERR unknown command `" ++ name ++ "`")

end ValkeyRs.Keys
