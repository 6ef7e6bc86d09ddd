/-
The hash commands, `crates/commands/src/hash.rs`.

The writing commands change the entry under the guard of `entry(key).or_insert_with(..)`, and
HDEL under that of `get_mut`: neither looks at an expiry time, and neither removes a hash that has
become empty. The reading ones go through `Store::get`.
-/
import ValkeyRs.Collections

set_option autoImplicit false

open ValkeyRs Text Storage Zset Strings Collections

namespace ValkeyRs.Hashes

variable {F : Type} [Score F]

/-! ## Writing -/

def edit_hash (f : HashMap Bytes Bytes → HashMap Bytes Bytes) (entry : Entry F) : Entry F :=
  match entry.data with
  | .Hash h => { entry with data := .Hash (f h) }
  | _ => entry

/-- `store.keyspace.entry(key).or_insert_with(..)`: change the hash, and reply from what it was. -/
def with_hash (key : Bytes) (f : HashMap Bytes Bytes → HashMap Bytes Bytes)
    (reply : HashMap Bytes Bytes → Reply F) : StoreM F (Reply F) := do
  let vacant ← Entry.new (.Hash ∅) none (← Store.now)
  let found ← Store.access key fun e => some (edit_hash f (e.getD vacant))
  match (found.getD vacant).data with
  | .Hash h => return reply h
  | _ => return wrong_type

/-- HSET in these terms. -/
theorem hset_eq (key : Bytes) (pairs : List Bytes) :
    (hset (key :: pairs) : StoreM F (Reply F)) =
      if pairs.length < 2 ∨ pairs.length % 2 ≠ 0 then return .Error (wrong_number "hset")
      else with_hash key (fun h => (hset_fields pairs h 0).1) fun h =>
        int (hset_fields pairs h 0).2 := rfl

def hmset (args : List Bytes) : StoreM F (Reply F) :=
  match args with
  | key :: pairs =>
    if pairs.length < 2 ∨ pairs.length % 2 ≠ 0 then return .Error (wrong_number "hmset")
    else with_hash key (fun h => (hset_fields pairs h 0).1) fun _ => ok
  | [] => return .Error (wrong_number "hmset")

/-- The sum HINCRBY puts into the field: a value that is no integer counts as zero. -/
def hincrby_value (field : Bytes) (incr : Int64) (h : HashMap Bytes Bytes) : Int64 :=
  ((h[field]?).bind parse_i64).getD 0 + incr

def hincrby (args : List Bytes) : StoreM F (Reply F) :=
  match args with
  | key :: field :: incr :: _ =>
    match parse_i64 incr with
    | none => return not_integer
    | some incr =>
      with_hash key (fun h => h.insert field (int_bytes (hincrby_value field incr h)))
        fun h => .Integer (hincrby_value field incr h)
  | _ => return .Error (wrong_number "hincrby")

/-- The sum HINCRBYFLOAT puts into the field, as text. -/
def hincrbyfloat_value (field : Bytes) (incr : F) (h : HashMap Bytes Bytes) : Bytes :=
  as_bytes (Score.display (Score.add (((h[field]?).bind parse_f64).getD Score.zero) incr))

def hincrbyfloat (args : List Bytes) : StoreM F (Reply F) :=
  match args with
  | key :: field :: incr :: _ =>
    match (parse_f64 incr : Option F) with
    | none => return .Error "ERR value is not a valid float or out of range"
    | some incr =>
      with_hash key (fun h => h.insert field (hincrbyfloat_value field incr h))
        fun h => bull (hincrbyfloat_value field incr h)
  | _ => return .Error (wrong_number "hincrbyfloat")

def hsetnx (args : List Bytes) : StoreM F (Reply F) :=
  match args with
  | [key, field, value] =>
    with_hash key (fun h => if h.contains field then h else h.insert field value)
      fun h => int (if h.contains field then 0 else 1)
  | _ => return .Error (wrong_number "hsetnx")

/-- The loop of HDEL, with the number of fields that were there. -/
def hdel_fields : List Bytes → HashMap Bytes Bytes → ℕ → HashMap Bytes Bytes × ℕ
  | [], h, count => (h, count)
  | f :: rest, h, count =>
    hdel_fields rest (h.erase f) (if h.contains f then count + 1 else count)

def hdel (args : List Bytes) : StoreM F (Reply F) :=
  match args with
  | key :: field :: rest => do
    match ← Store.access key (·.map (edit_hash fun h => (hdel_fields (field :: rest) h 0).1)) with
    | some entry =>
      match entry.data with
      | .Hash h => return int (hdel_fields (field :: rest) h 0).2
      | _ => return wrong_type
    | none => return int 0
  | _ => return .Error (wrong_number "hdel")

/-! ## Reading -/

/-- `match store.get(key)`, with a program where the hash is. -/
def with_hash_read (key : Bytes) (present : HashMap Bytes Bytes → StoreM F (Reply F))
    (absent : Reply F) : StoreM F (Reply F) := do
  match ← Store.get key with
  | some entry =>
    match entry.data with
    | .Hash h => present h
    | _ => return wrong_type
  | none => return absent

def read_hash (key : Bytes) (present : HashMap Bytes Bytes → Reply F) (absent : Reply F) :
    StoreM F (Reply F) :=
  with_hash_read key (fun h => return present h) absent

def hget (args : List Bytes) : StoreM F (Reply F) :=
  match args with
  | key :: field :: _ => read_hash key (fun h => .BulkString h[field]?) null_bulk
  | _ => return .Error (wrong_number "hget")

def hmget (args : List Bytes) : StoreM F (Reply F) :=
  match args with
  | key :: field :: rest =>
    read_hash key (fun h => .Array (some ((field :: rest).map fun f => .BulkString h[f]?)))
      (.Array (some ((field :: rest).map fun _ => null_bulk)))
  | _ => return .Error (wrong_number "hmget")

def pairs_reply (pairs : List (Bytes × Bytes)) : List (Reply F) :=
  pairs.flatMap fun (k, v) => [bull k, bull v]

/-- The commands of one word read the first argument and take no notice of the others. -/
def read_whole (args : List Bytes) (present : HashMap Bytes Bytes → Reply F) (absent : Reply F) :
    StoreM F (Reply F) :=
  match args with
  | key :: _ => read_hash key present absent
  | [] => return .Error "ERR wrong number of arguments"

def hgetall (args : List Bytes) : StoreM F (Reply F) :=
  read_whole args (fun h => .Array (some (pairs_reply h.toList))) (.Array (some []))

def hlen (args : List Bytes) : StoreM F (Reply F) :=
  read_whole args (fun h => int h.size) (int 0)

def hkeys (args : List Bytes) : StoreM F (Reply F) :=
  read_whole args (fun h => .Array (some (h.keys.map bull))) (.Array (some []))

def hvals (args : List Bytes) : StoreM F (Reply F) :=
  read_whole args (fun h => .Array (some (h.values.map bull))) (.Array (some []))

def hexists (args : List Bytes) : StoreM F (Reply F) :=
  match args with
  | key :: field :: _ => read_hash key (fun h => int (if h.contains field then 1 else 0)) (int 0)
  | _ => return .Error (wrong_number "hexists")

def hstrlen (args : List Bytes) : StoreM F (Reply F) :=
  match args with
  | [key, field] => read_hash key (fun h => int (((h[field]?).map List.length).getD 0)) (int 0)
  | _ => return .Error (wrong_number "hstrlen")

/-! ## HSCAN -/

structure ScanOptions where
  cursor : ℕ
  pattern : Option String
  count : ℕ
  deriving Repr, DecidableEq

/-- The option loop of HSCAN. A word that is no option is the cursor, at any place. -/
def scan_options : List Bytes → ScanOptions → Except (Reply F) ScanOptions
  | [], opts => .ok opts
  | [opt], opts =>
    if option_name opt = some "MATCH" ∨ option_name opt = some "COUNT" then .error syntax_error
    else match parse_u64 opt with
      | some n => .ok { opts with cursor := n }
      | none => .error syntax_error
  | opt :: value :: rest, opts =>
    if option_name opt = some "MATCH" then
      scan_options rest { opts with pattern := (from_utf8 value).toOption }
    else if option_name opt = some "COUNT" then
      match parse_u64 value with
      | some n => scan_options rest { opts with count := n }
      | none => .error not_integer
    else match parse_u64 opt with
      | some n => scan_options (value :: rest) { opts with cursor := n }
      | none => .error syntax_error

def scan_matches (pat text : List Char) : Bool :=
  if pat = ['*'] then true
  else if pat.head? = some '*' ∧ pat.getLast? = some '*' then
    text.tails.any (pat.tail.dropLast.isPrefixOf ·)
  else if pat.head? = some '*' then pat.tail.isSuffixOf text
  else if pat.getLast? = some '*' then pat.dropLast.isPrefixOf text
  else text = pat

def scan_filter (pattern : Option String) (pairs : List (Bytes × Bytes)) : List (Bytes × Bytes) :=
  match pattern with
  | some pat => pairs.filter fun (k, _) => scan_matches pat.toList (text k).toList
  | none => pairs

def scan_reply (next : ℕ) (pairs : List (Bytes × Bytes)) : Reply F :=
  .Array (some [bull (as_bytes (toString next)), .Array (some (pairs_reply pairs))])

/-- A page of the pairs. When the end of the page wraps around, it is no slice. -/
def scan_page (opts : ScanOptions) (filtered : List (Bytes × Bytes)) : StoreM F (Reply F) :=
  let start := min opts.cursor filtered.length
  let stop := min ((start + max opts.count 1) % 2 ^ 64) filtered.length
  let next := if stop ≥ filtered.length then 0 else stop
  if stop < start then .fail .Panic
  else return scan_reply next ((filtered.take stop).drop start)

def hscan (args : List Bytes) : StoreM F (Reply F) :=
  match args with
  | [] => return .Error (wrong_number "hscan")
  | key :: opts =>
    match scan_options opts ⟨0, none, 10⟩ with
    | .error reply => return reply
    | .ok opts =>
      with_hash_read key (fun h => scan_page opts (scan_filter opts.pattern h.toList))
        (scan_reply 0 [])

/-! ## HRANDFIELD -/

structure RandOptions where
  count : Int64
  with_values : Bool
  deriving Repr, DecidableEq

/-- The option loop of HRANDFIELD. -/
def rand_options : List Bytes → RandOptions → Except (Reply F) RandOptions
  | [], opts => .ok opts
  | opt :: rest, opts =>
    if option_name opt = some "WITHVALUES" then rand_options rest { opts with with_values := true }
    else match parse_i64 opt with
      | some n => rand_options rest { opts with count := n }
      | none => .error not_integer

/-- The first places of the shuffle, from place `i` on. -/
def shuffle_front (n : ℕ) : ℕ → ℕ → List (Bytes × Bytes) → StoreM F (List (Bytes × Bytes))
  | 0, _, pairs => return pairs
  | more + 1, i, pairs => do
    let j := i + (← Store.random) % (n - i)
    shuffle_front n more (i + 1) (swap pairs i j)

def draw_pairs (pairs : List (Bytes × Bytes)) :
    ℕ → List (Bytes × Bytes) → StoreM F (List (Bytes × Bytes))
  | 0, drawn => return drawn
  | more + 1, drawn => do
    let i := (← Store.random) % pairs.length
    draw_pairs pairs more (drawn ++ (pairs[i]?).toList)

def rand_reply (with_values : Bool) (pairs : List (Bytes × Bytes)) : Reply F :=
  if pairs.isEmpty then null_bulk
  else .Array (some (if with_values then pairs_reply pairs else pairs.map fun (k, _) => bull k))

/-- The fields HRANDFIELD draws. -/
def rand_pairs (opts : RandOptions) (pairs : List (Bytes × Bytes)) :
    StoreM F (List (Bytes × Bytes)) :=
  let abs_c := opts.count.toInt.natAbs
  if opts.count.toInt ≥ 0 then do
    let take := min abs_c pairs.length
    return (← shuffle_front pairs.length take 0 pairs).take take
  else draw_pairs pairs abs_c []

def hrandfield (args : List Bytes) : StoreM F (Reply F) :=
  match args with
  | [] => return .Error (wrong_number "hrandfield")
  | key :: opts =>
    match rand_options opts ⟨1, false⟩ with
    | .error reply => return reply
    | .ok opts =>
      with_hash_read key
        (fun h =>
          if h.isEmpty then return null_bulk
          else do return rand_reply opts.with_values (← rand_pairs opts h.toList))
        null_bulk

/-! ## The commands by name -/

def hash_commands : List String :=
  ["HSET", "HGET", "HMGET", "HMSET", "HGETALL", "HDEL", "HEXISTS", "HLEN", "HKEYS", "HVALS",
    "HINCRBY", "HINCRBYFLOAT", "HSCAN", "HRANDFIELD", "HSETNX", "HSTRLEN"]

def handle (name : String) (args : List Bytes) : StoreM F (Reply F) :=
  if args.isEmpty then return .Error "ERR wrong number of arguments"
  else match name with
    | "HSET" => hset args
    | "HGET" => hget args
    | "HMGET" => hmget args
    | "HMSET" => hmset args
    | "HGETALL" => hgetall args
    | "HDEL" => hdel args
    | "HEXISTS" => hexists args
    | "HLEN" => hlen args
    | "HKEYS" => hkeys args
    | "HVALS" => hvals args
    | "HINCRBY" => hincrby args
    | "HINCRBYFLOAT" => hincrbyfloat args
    | "HSCAN" => hscan args
    | "HRANDFIELD" => hrandfield args
    | "HSETNX" => hsetnx args
    | "HSTRLEN" => hstrlen args
    | _ => return .Error ("ERR unknown command '" ++ name ++ "'")

end ValkeyRs.Hashes
