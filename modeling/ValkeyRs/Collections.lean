/-
The commands that add to a list, a hash or a set: LPUSH and RPUSH of `crates/commands/src/list.rs`,
HSET of `hash.rs` and SADD of `set.rs`.

A short list is kept as a listpack and a set of integers as an intset, until they grow over a
threshold or, for the set, until a member is no integer. The first two commands change the entry
under the guard of `entry(key).or_insert_with(..)`: one access, with the clock read in front of it
for the entry that may have to be made. SADD works on a copy and puts it back.
-/
import ValkeyRs.Strings
import ValkeyRs.Values

set_option autoImplicit false

open ValkeyRs Text Storage Zset Strings Maps

namespace ValkeyRs.Storage.DataType

variable {F : Type} [LinearOrder F]

def upgrade_to_list : DataType F → DataType F
  | .ListPack lp => .List lp.to_vec
  | data => data

def maybe_upgrade_list (threshold : ℕ) : DataType F → DataType F
  | .ListPack lp =>
    if lp.len > threshold then (DataType.ListPack lp).upgrade_to_list else .ListPack lp
  | data => data

def upgrade_to_set : DataType F → DataType F
  | .IntSet is => .Set (gather ∅ is.members)
  | data => data

end ValkeyRs.Storage.DataType

namespace ValkeyRs.Collections

variable {F : Type} [Score F]

/-- `<[T]>::swap`. -/
def swap {α : Type} (l : List α) (i j : ℕ) : List α :=
  match l[i]?, l[j]? with
  | some x, some y => (l.set i y).set j x
  | _, _ => l

/-! ## Lists -/

def LIST_COMPACT_THRESHOLD : ℕ := 128

def pack_one (front : Bool) (lp : ListPack) (v : Bytes) : ListPack :=
  if front then lp.push_front (.String v) else lp.push_back (.String v)

def push_one (front : Bool) (l : List Bytes) (v : Bytes) : List Bytes :=
  if front then v :: l else l ++ [v]

/-- The list with the values on it, and its length; nothing if it is no list. -/
def push (front : Bool) (values : List Bytes) : DataType F → Option (DataType F × ℕ)
  | .ListPack lp =>
    let lp := values.foldl (pack_one front) lp
    some ((DataType.ListPack lp).maybe_upgrade_list LIST_COMPACT_THRESHOLD, lp.len)
  | .List l =>
    let l := values.foldl (push_one front) l
    some (.List l, l.length)
  | _ => none

def push_entry (front : Bool) (values : List Bytes) (entry : Entry F) : Entry F :=
  match push front values entry.data with
  | some (data, _) => { entry with data := data }
  | none => entry

/-- LPUSH and RPUSH. -/
def push_with (cmd : String) (front : Bool) (args : List Bytes) : StoreM F (Reply F) :=
  match args with
  | key :: value :: rest => do
    let vacant ← Entry.new (.ListPack .new) none (← Store.now)
    let found ← Store.access key fun e => some (push_entry front (value :: rest) (e.getD vacant))
    match push front (value :: rest) (found.getD vacant).data with
    | some (_, len) => do
      Store.notify_watchers key
      return int len
    | none => return wrong_type
  | _ => return .Error (wrong_number cmd)

def lp (args : List Bytes) : StoreM F (Reply F) := push_with "lpush" true args

def rp (args : List Bytes) : StoreM F (Reply F) := push_with "rpush" false args

/-! ## Hashes -/

/-- The loop over the pairs, with the number of fields that are new. -/
def hset_fields : List Bytes → HashMap Bytes Bytes → ℕ → HashMap Bytes Bytes × ℕ
  | field :: value :: rest, h, added =>
    hset_fields rest (h.insert field value) (if h.contains field then added else added + 1)
  | _, h, added => (h, added)

def hset_entry (pairs : List Bytes) (entry : Entry F) : Entry F :=
  match entry.data with
  | .Hash h => { entry with data := .Hash (hset_fields pairs h 0).1 }
  | _ => entry

def hset (args : List Bytes) : StoreM F (Reply F) :=
  match args with
  | [] => return .Error "ERR wrong number of arguments"
  | key :: pairs =>
    if pairs.length < 2 ∨ pairs.length % 2 ≠ 0 then return .Error (wrong_number "hset")
    else do
      let vacant ← Entry.new (.Hash ∅) none (← Store.now)
      let found ← Store.access key fun e => some (hset_entry pairs (e.getD vacant))
      match (found.getD vacant).data with
      | .Hash h => return int (hset_fields pairs h 0).2
      | _ => return wrong_type

/-! ## Sets -/

def INTSET_THRESHOLD : ℕ := 512

def all_integers (members : List Bytes) : Bool := members.all fun m => (parse_i64 m).isSome

/-- The loop over the members of a set, with the number of new ones. -/
def sadd_members : List Bytes → HashSet Bytes → ℕ → HashSet Bytes × ℕ
  | [], s, added => (s, added)
  | m :: rest, s, added =>
    sadd_members rest (s.insert m) (if s.contains m then added else added + 1)

def sadd_integers : List Bytes → IntSet → ℕ → IntSet × ℕ
  | [], is, added => (is, added)
  | m :: rest, is, added =>
    match parse_i64 m with
    | some v => sadd_integers rest (is.add v).1 (if (is.add v).2 then added + 1 else added)
    | none => sadd_integers rest is added

def sadd_start (members : List Bytes) (existing : Option (DataType F)) : DataType F :=
  let entry := existing.getD (if all_integers members then .IntSet .new else .Set ∅)
  if all_integers members then entry else entry.upgrade_to_set

/-- The data with the members in it, and the number of new ones; nothing if it is no set. -/
def sadd_data (members : List Bytes) : DataType F → Option (DataType F × ℕ)
  | .Set s => some (.Set (sadd_members members s 0).1, (sadd_members members s 0).2)
  | .IntSet is =>
    let (is, added) := sadd_integers members is 0
    let entry : DataType F := .IntSet is
    some (if is.len > INTSET_THRESHOLD then entry.upgrade_to_set else entry, added)
  | _ => none

def sadd (args : List Bytes) : StoreM F (Reply F) :=
  match args with
  | key :: member :: rest => do
    let existing := (← Store.get key).map Entry.data
    match sadd_data (member :: rest) (sadd_start (member :: rest) existing) with
    | some (entry, added) => do
      Store.set key entry none
      return int added
    | none => return wrong_type
  | _ => return .Error (wrong_number "sadd")

/-! ## The commands by name -/

def collection_commands : List String := ["LPUSH", "RPUSH", "HSET", "SADD"]

def handle (name : String) (args : List Bytes) : StoreM F (Reply F) :=
  match name with
  | "LPUSH" => lp args
  | "RPUSH" => rp args
  | "HSET" => hset args
  | "SADD" => sadd args
  | _ => return .Error ("ERR unknown command `" ++ name ++ "`")

end ValkeyRs.Collections
