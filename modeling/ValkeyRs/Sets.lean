/-
The set commands, `crates/commands/src/set.rs`.

They all go through the methods of `Store`: a command reads a copy of the entry, changes the copy
and puts it back with `Store::set`, as a new entry without an expiry time. A set that has become
empty is put back like any other.

A set of integers is an intset, which `as_set_mut` and `to_set_clone` turn into a plain set. The
members of a plain set come in the order of the model's sets wherever the code iterates over a
hash set.
-/
import ValkeyRs.Collections

set_option autoImplicit false

open ValkeyRs Text Storage Zset Strings Collections
open Maps

namespace ValkeyRs.Storage.DataType

variable {F : Type} [LinearOrder F]

/-- The plain set: what `as_set_mut` gives out, and `to_set_clone`. -/
def to_set_clone : DataType F → Option (HashSet Bytes)
  | .Set s => some s
  | .IntSet is => some (gather ∅ is.members)
  | _ => none

def set_len : DataType F → Option ℕ
  | .Set s => some s.size
  | .IntSet is => some is.len
  | _ => none

/-- An intset has no answer to a member that is no integer. -/
def set_contains (self : DataType F) (member : Bytes) : Option Bool :=
  match self with
  | .Set s => some (s.contains member)
  | .IntSet is => (parse_i64 member).map fun v => is.contains v.toInt
  | _ => none

end ValkeyRs.Storage.DataType

namespace ValkeyRs.Sets

variable {F : Type} [Score F]

def members_reply (members : List Bytes) : Reply F := .Array (some (members.map bull))

/-! ## Reading -/

/-- `match store.get(key)`, where anything but a set has no answer. -/
def read_set (key : Bytes) (present : DataType F → Option (Reply F)) (absent : Reply F) :
    StoreM F (Reply F) := do
  match ← Store.get key with
  | some entry => return (present entry.data).getD wrong_type
  | none => return absent

def smembers (args : List Bytes) : StoreM F (Reply F) :=
  match args with
  | [key] => read_set key (fun data => data.to_set_clone.map fun s => members_reply s.toList)
      (members_reply [])
  | _ => return .Error (wrong_number "smembers")

def one_or_zero (b : Bool) : Reply F := int (if b then 1 else 0)

def sismember (args : List Bytes) : StoreM F (Reply F) :=
  match args with
  | [key, member] => read_set key (fun data => (data.set_contains member).map one_or_zero) (int 0)
  | _ => return .Error (wrong_number "sismember")

def smismember (args : List Bytes) : StoreM F (Reply F) :=
  match args with
  | key :: member :: rest =>
    let members := member :: rest
    read_set key
      (fun data => data.to_set_clone.map fun s =>
        .Array (some (members.map fun m => one_or_zero (s.contains m))))
      (.Array (some (members.map fun _ => int 0)))
  | _ => return .Error (wrong_number "smismember")

def scard (args : List Bytes) : StoreM F (Reply F) :=
  match args with
  | [key] => read_set key (fun data => data.set_len.map int) (int 0)
  | _ => return .Error (wrong_number "scard")

/-! ## Random members -/

/-- A member, by its place among the members. The range of the place must not be empty. -/
def draw_member (s : HashSet Bytes) : StoreM F (Option Bytes) :=
  if s.isEmpty then .fail .Panic
  else do
    let idx := (← Store.random) % s.size
    return s.toList[idx]?

/-- What SPOP and SRANDMEMBER reply when there is nothing to draw from. -/
def nothing_drawn (with_count : Bool) : Reply F := if with_count then members_reply [] else null_bulk

def draw_repeatedly (s : HashSet Bytes) : ℕ → List Bytes → StoreM F (List Bytes)
  | 0, drawn => return drawn
  | n + 1, drawn => do
    match ← draw_member s with
    | some m => draw_repeatedly s n (drawn ++ [m])
    | none => .fail .Panic

/-- The shuffle from place `i` down to the second one. -/
def shuffle : ℕ → List Bytes → StoreM F (List Bytes)
  | 0, chosen => return chosen
  | i + 1, chosen => do
    let j := (← Store.random) % (i + 2)
    shuffle i (swap chosen (i + 1) j)

/-- The reply of SRANDMEMBER to a set with members. -/
def srandmember_reply (s : HashSet Bytes) (count : Option Bytes) : StoreM F (Reply F) :=
  match count with
  | none => do return .BulkString (← draw_member s)
  | some count =>
    match parse_i64 count with
    | none => return not_integer
    | some n =>
      if n.toInt < 0 then do return members_reply (← draw_repeatedly s n.toInt.natAbs [])
      else do
        let chosen ← shuffle (s.size - 1) s.toList
        return members_reply (chosen.take n.toInt.natAbs)

def srandmember (args : List Bytes) : StoreM F (Reply F) :=
  match args with
  | key :: count => do
    if count.length > 1 then return .Error (wrong_number "srandmember")
    match ← Store.get key with
    | some entry =>
      match entry.data.to_set_clone with
      | some s =>
        if s.isEmpty then return nothing_drawn (!count.isEmpty)
        else srandmember_reply s count.head?
      | none => return wrong_type
    | none => return nothing_drawn (!count.isEmpty)
  | [] => return .Error (wrong_number "srandmember")

/-! ## Removing -/

/-- The loop of `srem`, with the number of members that were there. -/
def srem_members : List Bytes → HashSet Bytes → ℕ → HashSet Bytes × ℕ
  | [], s, removed => (s, removed)
  | m :: rest, s, removed =>
    srem_members rest (s.erase m) (if s.contains m then removed + 1 else removed)

def srem (args : List Bytes) : StoreM F (Reply F) :=
  match args with
  | key :: member :: rest => do
    match ← Store.get key with
    | some entry =>
      match entry.data.to_set_clone with
      | some s => do
        Store.set key (.Set (srem_members (member :: rest) s 0).1) none
        return int (srem_members (member :: rest) s 0).2
      | none => return wrong_type
    | none => return int 0
  | _ => return .Error (wrong_number "srem")

/-- The loop of `spop`: the set that is left, and the members taken out of it. When the count is
greater than the number of members, the set is empty before the loop is over. -/
def spop_members : ℕ → HashSet Bytes → List Bytes → StoreM F (HashSet Bytes × List Bytes)
  | 0, s, popped => return (s, popped)
  | n + 1, s, popped => do
    match ← draw_member s with
    | some m => spop_members n (s.erase m) (popped ++ [m])
    | none => spop_members n s popped

/-- The count of SPOP. -/
def spop_count : List Bytes → Option ℕ
  | [] => some 1
  | count :: _ => parse_u64 count

def spop (args : List Bytes) : StoreM F (Reply F) :=
  match args with
  | key :: count => do
    if count.length > 1 then return .Error (wrong_number "spop")
    match spop_count count with
    | none => return not_integer
    | some n =>
      match ← Store.get key with
      | some entry =>
        match entry.data.to_set_clone with
        | some s =>
          if s.isEmpty then return nothing_drawn (!count.isEmpty)
          else do
            let (s, popped) ← spop_members n s []
            Store.set key (.Set s) none
            if count.isEmpty then return .BulkString popped.head? else return members_reply popped
        | none => return wrong_type
      | none => return nothing_drawn (!count.isEmpty)
  | [] => return .Error (wrong_number "spop")

/-! ## Moving a member -/

/-- The second half of `smove`: the member goes into the destination. -/
def smove_in (dest member : Bytes) : StoreM F (Reply F) := do
  match (((← Store.get dest).map Entry.data).getD (.Set ∅)).to_set_clone with
  | some s => do
    Store.set dest (.Set (s.insert member)) none
    return int 1
  | none => return wrong_type

def smove (args : List Bytes) : StoreM F (Reply F) :=
  match args with
  | [source, dest, member] => do
    match ← Store.get source with
    | some entry =>
      match entry.data.to_set_clone with
      | some s =>
        if s.contains member then do
          -- the source is stored without the member before the destination is looked at
          Store.set source (.Set (s.erase member)) none
          smove_in dest member
        else return int 0
      | none => return wrong_type
    | none => return int 0
  | _ => return .Error (wrong_number "smove")

/-! ## Unions, intersections and differences -/

/-- The loop over the keys. `missing` says what a key without an entry counts as at its place;
where it says nothing the loop ends, and there is no list of sets. -/
def fetch_sets (missing : ℕ → Option (HashSet Bytes)) :
    List Bytes → List (HashSet Bytes) → StoreM F (Except (Reply F) (Option (List (HashSet Bytes))))
  | [], sets => return .ok (some sets)
  | key :: keys, sets => do
    match ← Store.get key with
    | some entry =>
      match entry.data.to_set_clone with
      | some s => fetch_sets missing keys (sets ++ [s])
      | none => return .error wrong_type
    | none =>
      match missing sets.length with
      | some s => fetch_sets missing keys (sets ++ [s])
      | none => return .ok none

def union (sets : List (HashSet Bytes)) : HashSet Bytes :=
  sets.foldl (fun result s => gather result s.toList) ∅

def smallest : List (HashSet Bytes) → HashSet Bytes
  | [] => ∅
  | s :: sets => sets.foldl (fun least s => if s.size < least.size then s else least) s

/-- The smallest set, of which only what is in all of them is kept. -/
def inter (sets : List (HashSet Bytes)) : HashSet Bytes :=
  (smallest sets).filter fun m => sets.all (·.contains m)

def diff : List (HashSet Bytes) → HashSet Bytes
  | [] => ∅
  | s :: others => others.foldl (fun result other => result.filter fun m => !other.contains m) s

/-- One of the three operations: what a missing key counts as, and what is made of the sets. -/
structure SetOp where
  missing : ℕ → Option (HashSet Bytes)
  combine : List (HashSet Bytes) → HashSet Bytes

def SetOp.union : SetOp := ⟨fun _ => some ∅, Sets.union⟩

def SetOp.inter : SetOp := ⟨fun _ => none, Sets.inter⟩

def SetOp.diff : SetOp := ⟨fun idx => if idx = 0 then none else some ∅, Sets.diff⟩

/-- The set an operation comes to; an empty one when the loop over the keys has ended early. -/
def SetOp.result (op : SetOp) (sets : Option (List (HashSet Bytes))) : HashSet Bytes :=
  (sets.map op.combine).getD ∅

/-- SUNION, SINTER and SDIFF. -/
def set_op (cmd : String) (op : SetOp) (args : List Bytes) : StoreM F (Reply F) := do
  if args.isEmpty then return .Error (wrong_number cmd)
  match ← fetch_sets op.missing args [] with
  | .error reply => return reply
  | .ok sets => return members_reply (op.result sets).toList

def sunion (args : List Bytes) : StoreM F (Reply F) := set_op "sunion" .union args

def sinter (args : List Bytes) : StoreM F (Reply F) := set_op "sinter" .inter args

def sdiff (args : List Bytes) : StoreM F (Reply F) := set_op "sdiff" .diff args

/-- SUNIONSTORE, SINTERSTORE and SDIFFSTORE. -/
def set_op_store (cmd : String) (op : SetOp) (args : List Bytes) : StoreM F (Reply F) :=
  match args with
  | dest :: key :: keys => do
    match ← fetch_sets op.missing (key :: keys) [] with
    | .error reply => return reply
    | .ok sets => do
      Store.set dest (.Set (op.result sets)) none
      return int (op.result sets).size
  | _ => return .Error (wrong_number cmd)

def sunionstore (args : List Bytes) : StoreM F (Reply F) := set_op_store "sunionstore" .union args

def sinterstore (args : List Bytes) : StoreM F (Reply F) := set_op_store "sinterstore" .inter args

def sdiffstore (args : List Bytes) : StoreM F (Reply F) := set_op_store "sdiffstore" .diff args

/-- The option loop of `sintercard`. -/
def intercard_limit : List Bytes → Option ℕ → Except (Reply F) (Option ℕ)
  | [], limit => .ok limit
  | opt :: rest, limit =>
    if option_name opt = some "LIMIT" then
      match rest with
      | [] => .ok limit
      | number :: rest => intercard_limit rest (parse_u64 number)
    else .error syntax_error

/-- How far the members are counted. The limit is looked at after a member is counted, so that a
limit of zero counts one. -/
def counted (limit : Option ℕ) (n : ℕ) : ℕ :=
  match limit with
  | some lim => min n (max lim 1)
  | none => n

def sintercard (args : List Bytes) : StoreM F (Reply F) :=
  match args with
  | numkeys :: key :: rest =>
    match parse_u64 numkeys with
    | none | some 0 => return not_integer
    | some n =>
      -- `1 + numkeys` wraps around, and the range of the keys is no range
      if 1 + n ≥ 2 ^ 64 then .fail .Panic
      else if (key :: rest).length < n then return .Error (wrong_number "sintercard")
      else match intercard_limit ((key :: rest).drop n) none with
        | .error reply => return reply
        | .ok limit => do
          match ← fetch_sets SetOp.inter.missing ((key :: rest).take n) [] with
          | .error reply => return reply
          | .ok sets => return int (counted limit (SetOp.inter.result sets).size)
  | _ => return .Error (wrong_number "sintercard")

/-! ## SSCAN -/

structure ScanOptions where
  pattern : Option String
  count : ℕ
  deriving Repr, DecidableEq

/-- The option loop of `sscan`. -/
def scan_options : List Bytes → ScanOptions → Except (Reply F) ScanOptions
  | [], opts => .ok opts
  | opt :: rest, opts =>
    match option_name opt, rest with
    | some "MATCH", pat :: rest =>
      scan_options rest { opts with pattern := (from_utf8 pat).toOption }
    | some "COUNT", number :: rest =>
      match (parse_u64 number).getD 0 with
      | 0 => .error not_integer
      | n => scan_options rest { opts with count := n }
    | _, _ => .error syntax_error

/-- `pat.split_once('*')`: before the first star it is the start of the text that counts, and
behind it the end. -/
def scan_matches (pattern : String) (text : String) : Bool :=
  match pattern.toList.span (· ≠ '*') with
  | (start, _ :: stop) => start.isPrefixOf text.toList && stop.isSuffixOf text.toList
  | (_, []) => text == pattern

def scan_filter (pattern : Option String) (members : List Bytes) : List Bytes :=
  match pattern with
  | some pat => members.filter fun m => scan_matches pat (text m)
  | none => members

/-- A page of the members, with the place of the next one in front. -/
def scan_page (cursor count : ℕ) (filtered : List Bytes) : Reply F :=
  let next := (cursor + count) % 2 ^ 64
  .Array (some [bull (as_bytes (toString (if next ≥ filtered.length then 0 else next))),
    members_reply ((filtered.drop cursor).take count)])

def sscan (args : List Bytes) : StoreM F (Reply F) :=
  match args with
  | key :: cursor :: opts =>
    match parse_u64 cursor with
    | none => return not_integer
    | some cursor =>
      match scan_options opts ⟨none, 10⟩ with
      | .error reply => return reply
      | .ok opts =>
        read_set key
          (fun data => data.to_set_clone.map fun s =>
            scan_page cursor opts.count (scan_filter opts.pattern s.toList))
          (.Array (some [bull (as_bytes "0"), members_reply []]))
  | _ => return .Error (wrong_number "sscan")

/-! ## The commands by name -/

def set_commands : List String :=
  ["SADD", "SMEMBERS", "SISMEMBER", "SMISMEMBER", "SCARD", "SREM", "SPOP", "SRANDMEMBER", "SMOVE",
    "SUNION", "SINTER", "SDIFF", "SUNIONSTORE", "SINTERSTORE", "SDIFFSTORE", "SSCAN", "SINTERCARD"]

def handle (name : String) (args : List Bytes) : StoreM F (Reply F) :=
  match name with
  | "SADD" => sadd args
  | "SMEMBERS" => smembers args
  | "SISMEMBER" => sismember args
  | "SMISMEMBER" => smismember args
  | "SCARD" => scard args
  | "SREM" => srem args
  | "SPOP" => spop args
  | "SRANDMEMBER" => srandmember args
  | "SMOVE" => smove args
  | "SUNION" => sunion args
  | "SINTER" => sinter args
  | "SDIFF" => sdiff args
  | "SUNIONSTORE" => sunionstore args
  | "SINTERSTORE" => sinterstore args
  | "SDIFFSTORE" => sdiffstore args
  | "SSCAN" => sscan args
  | "SINTERCARD" => sintercard args
  | _ => return .Error ("ERR unknown command '" ++ name ++ "'")

end ValkeyRs.Sets
