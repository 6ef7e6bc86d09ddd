/-
The list commands, `crates/commands/src/list.rs`.

All of them but LPUSHX and RPUSHX reach the map directly and never look at an expiry time. Those
that change a list take the guard of `get_mut` and `as_list_mut`, which turns a listpack into a
plain list whatever happens next; `with_list` is that pattern. A pop that empties the list gives
the guard back first and removes the key in a second access.

The blocking commands try once, and when there is nothing to pop they register watchers and try
again and again. How often the loop comes round before the time is over is up to the scheduler:
`Timeout` has the number. What `str::parse::<f64>` and `Duration::from_secs_f64` make of the text
is left to a function of it, which the commands take as an argument.
-/
import ValkeyRs.Collections

set_option autoImplicit false

open ValkeyRs Text Storage Zset Strings

abbrev ValkeyRs.Storage.VecDeque (α : Type) := List α

namespace ValkeyRs.Storage.DataType

variable {F : Type} [LinearOrder F]

def is_list_type : DataType F → Bool
  | .List _ | .ListPack _ => true
  | _ => false

/-- The list `as_list_mut` gives out. -/
def as_list : DataType F → Option (VecDeque Bytes)
  | .List l => some l
  | .ListPack lp => some lp.to_vec
  | _ => none

theorem as_list_eq_some {d : DataType F} {l : VecDeque Bytes} :
    d.as_list = some l ↔ d.value = .list l := by
  cases d <;> simp [as_list, value]

def list_len : DataType F → Option ℕ
  | .List l => some l.length
  | .ListPack lp => some lp.len
  | _ => none

def list_get (self : DataType F) (index : ℤ) : Option Bytes := do
  let len : ℤ := ← self.list_len
  let i := if index < 0 then len + index else index
  if i < 0 ∨ i ≥ len then none
  else match self with
    | .List l => l[i.toNat]?
    | .ListPack lp => (lp.iter[i.toNat]?).map ListPackEntry.to_bytes
    | _ => none

/-- Where a range ends, as a `usize`: an end in front of the list becomes the last `usize`. -/
def range_stop (len stop : ℤ) : ℕ :=
  ((if stop < 0 then max (len + stop) (-1) else min stop (len - 1)) % 2 ^ 64).toNat

def list_range (self : DataType F) (start stop : ℤ) : Option (VecDeque Bytes) := do
  let len ← self.list_len
  let s := (if start < 0 then max (len + start) 0 else start).toNat
  let e := range_stop len stop
  if s > e ∨ s ≥ len then some []
  else match self with
    | .List l => some ((l.drop s).take ((e - s + 1) % 2 ^ 64))
    | .ListPack lp => some ((lp.to_vec.drop s).take ((e - s + 1) % 2 ^ 64))
    | _ => none

end ValkeyRs.Storage.DataType

open Collections

namespace ValkeyRs.Lists

variable {F : Type} [Score F]

/-! ## Working on a list in place -/

/-- The entry behind `as_list_mut`, with its list changed. -/
def edit_list (f : List Bytes → List Bytes) (entry : Entry F) : Entry F :=
  match entry.data.as_list with
  | some l => { entry with data := .List (f l) }
  | none => entry

/-- `match s.keyspace.get_mut(key)`: change the list under the guard, and go on with the list as
it was found. -/
def with_list (key : Bytes) (f : List Bytes → List Bytes)
    (found : List Bytes → StoreM F (Reply F)) (absent : Reply F) : StoreM F (Reply F) := do
  match ← Store.access key (·.map (edit_list f)) with
  | some entry =>
    match entry.data.as_list with
    | some l => found l
    | none => return wrong_type
  | none => return absent

/-- `s.keyspace.remove(key)`, where the list has become empty. -/
def remove_if (empty : Bool) (key : Bytes) : StoreM F Unit :=
  if empty then do
    let _ ← Store.access key fun _ => none
  else return ()

/-- The elements that come off an end, in the order in which they do. -/
def taken (front : Bool) (n : ℕ) (l : List Bytes) : List Bytes :=
  if front then l.take n else l.reverse.take n

def left (front : Bool) (n : ℕ) (l : List Bytes) : List Bytes :=
  if front then l.drop n else (l.reverse.drop n).reverse

/-- Push one value on the list under a key, which is made if there is none. Nothing happens to an
entry that is no list. -/
def push_to_dest (dest val : Bytes) (to_left : Bool) : StoreM F Bool := do
  let vacant ← Entry.new (.ListPack .new) none (← Store.now)
  let found ← Store.access dest fun e =>
    some (edit_list (push_one to_left · val) (e.getD vacant))
  match (found.getD vacant).data.as_list with
  | some _ => do
    Store.notify_watchers dest
    return true
  | none => return false

/-! ## Pushing and popping -/

/-- LPUSHX and RPUSHX. -/
def pushx (args : List Bytes) (left : Bool) : StoreM F (Reply F) :=
  match args with
  | key :: _ :: _ => do
    match ← Store.get key with
    | some entry =>
      if entry.data.is_list_type then if left then lp args else rp args
      else return wrong_type
    | none => return int 0
  | _ => return .Error (wrong_number (if left then "lpushx" else "rpushx"))

/-- The optional count of LPOP and RPOP. -/
def pop_count : List Bytes → Option ℕ
  | [] => some 1
  | count :: _ => parse_u64 count

/-- The reply to a pop: a single element is not put into an array. -/
def popped_reply : List Bytes → Reply F
  | [v] => bull v
  | vs => .Array (some (vs.map bull))

/-- LPOP and RPOP. -/
def pop_with (cmd : String) (front : Bool) (args : List Bytes) : StoreM F (Reply F) :=
  match args with
  | [] => return .Error (wrong_number cmd)
  | key :: rest =>
    match pop_count rest with
    | none => return not_integer
    | some c =>
      with_list key (left front c)
        (fun l =>
          if l.isEmpty then return null_bulk
          else do
            remove_if (left front c l).isEmpty key
            return popped_reply (taken front c l))
        (if c > 1 then .Array (some []) else null_bulk)

def lpo (args : List Bytes) : StoreM F (Reply F) := pop_with "lpop" true args

def rpo (args : List Bytes) : StoreM F (Reply F) := pop_with "rpop" false args

/-! ## Reading -/

/-- `match s.keyspace.get(key)`. -/
def read_list (key : Bytes) (present : DataType F → Option (Reply F)) (absent : Reply F) :
    StoreM F (Reply F) := do
  match ← Store.access key id with
  | some entry => return (present entry.data).getD wrong_type
  | none => return absent

def lr (args : List Bytes) : StoreM F (Reply F) :=
  match args with
  | key :: start :: stop :: _ =>
    match parse_i64 start, parse_i64 stop with
    | some st, some sp =>
      read_list key (fun data => (data.list_range st.toInt sp.toInt).map fun items =>
        .Array (some (items.map bull))) (.Array (some []))
    | _, _ => return not_integer
  | _ => return .Error (wrong_number "lrange")

def ll (args : List Bytes) : StoreM F (Reply F) :=
  match args with
  | key :: _ => read_list key (fun data => data.list_len.map int) (int 0)
  | [] => return .Error (wrong_number "llen")

def li (args : List Bytes) : StoreM F (Reply F) :=
  match args with
  | key :: index :: _ =>
    match parse_i64 index with
    | some idx =>
      read_list key (fun data => match data.list_get idx.toInt with
        | some v => some (bull v)
        | none => if data.is_list_type then some null_bulk else none) null_bulk
    | none => return not_integer
  | _ => return .Error (wrong_number "lindex")

structure PosOptions where
  rank : ℤ
  count : Option ℕ
  maxlen : Option ℕ
  deriving Repr, DecidableEq

/-- The option loop of `lpos`. -/
def pos_options : List Bytes → PosOptions → Except (Reply F) PosOptions
  | [], opts => .ok opts
  | opt :: rest, opts =>
    match option_name opt, rest with
    | some "RANK", number :: rest =>
      match parse_i64 number with
      | some n => pos_options rest { opts with rank := n.toInt }
      | none => .error not_integer
    | some "COUNT", number :: rest =>
      match parse_u64 number with
      | some n => pos_options rest { opts with count := some n }
      | none => .error not_integer
    | some "MAXLEN", number :: rest =>
      match parse_u64 number with
      | some n => pos_options rest { opts with maxlen := some n }
      | none => .error not_integer
    | _, _ => .error syntax_error

/-- The positions `lpos` looks at, in order. With a negative rank they are the last ones, but
turned round twice, so that they are still looked at from the front. -/
def pos_candidates (opts : PosOptions) (len : ℕ) : List ℕ :=
  let maxlen := opts.maxlen.getD len
  if opts.rank > 0 then (List.range len).take maxlen
  else ((List.range len).reverse.take maxlen).reverse

/-- The reply of LPOS to a list. The loop stops once `count` positions are found, which is looked
at after one is, so that a count of zero finds one. -/
def pos_reply (opts : PosOptions) (element : Bytes) (list : List Bytes) : Reply F :=
  let count := opts.count.getD 1
  let found := ((pos_candidates opts list.length).filter fun pos =>
    list[pos]? = some element).take (max count 1)
  if list.isEmpty then .Integer (-1)
  else match found with
    | [] => if count > 1 then .Array (some []) else .Integer (-1)
    | pos :: _ => if count = 1 then int pos else .Array (some (found.map int))

def lpos (args : List Bytes) : StoreM F (Reply F) :=
  match args with
  | key :: element :: opts =>
    match pos_options opts ⟨1, none, none⟩ with
    | .error reply => return reply
    | .ok opts =>
      read_list key (fun data => (data.list_range (-2 ^ 63) (2 ^ 63 - 1)).map
        (pos_reply opts element)) (.Integer (-1))
  | _ => return .Error (wrong_number "lpos")

/-! ## Changing a list -/

/-- `ni`: an index from the end is counted from the front, and is the front when it is too large. -/
def ni (i len : ℤ) : ℤ := if i < 0 then if len + i < 0 then 0 else len + i else i

def ls (args : List Bytes) : StoreM F (Reply F) :=
  match args with
  | key :: index :: value :: _ =>
    match parse_i64 index with
    | none => return not_integer
    | some idx =>
      with_list key (fun l => l.set (ni idx.toInt l.length).toNat value)
        (fun l =>
          if ni idx.toInt l.length ≥ l.length then return .Error "ERR index out of range"
          else return ok)
        (.Error "ERR no such key")
  | _ => return .Error (wrong_number "lset")

def either (yes no : String) (b : Bytes) : Option Bool :=
  if option_name b = some yes then some true
  else if option_name b = some no then some false
  else none

/-- `l.insert(ip, value)`, in front of the first element that is the pivot or behind it. -/
def insert_at (before : Bool) (pivot value : Bytes) (l : List Bytes) : List Bytes :=
  match l.idxOf? pivot with
  | some p =>
    let ip := if before then p else p + 1
    l.take ip ++ value :: l.drop ip
  | none => l

def lins (args : List Bytes) : StoreM F (Reply F) :=
  match args with
  | key :: place :: pivot :: value :: _ =>
    match either "BEFORE" "AFTER" place with
    | none => return syntax_error
    | some before =>
      with_list key (insert_at before pivot value)
        (fun l =>
          if l.contains pivot then return int (l.length + 1) else return .Integer (-1))
        (.Integer (-1))
  | _ => return .Error (wrong_number "linsert")

/-- The first `n` occurrences taken out. -/
def remove_first (x : Bytes) : ℕ → List Bytes → List Bytes
  | _, [] => []
  | 0, l => l
  | n + 1, v :: l => if v = x then remove_first x n l else v :: remove_first x (n + 1) l

/-- The loops of `lre`. The absolute value of the least `i64` is negative, and the loop then makes
no turn. -/
def remove_count (c : ℤ) (x : Bytes) (l : List Bytes) : List Bytes :=
  if c > 0 then remove_first x c.toNat l
  else if c = -2 ^ 63 then l
  else if c < 0 then (remove_first x (-c).toNat l.reverse).reverse
  else l.filter (· ≠ x)

def lre (args : List Bytes) : StoreM F (Reply F) :=
  match args with
  | key :: count :: element :: _ =>
    match parse_i64 count with
    | none => return not_integer
    | some c =>
      with_list key (remove_count c.toInt element)
        (fun l => do
          remove_if (remove_count c.toInt element l).isEmpty key
          return int (l.length - (remove_count c.toInt element l).length))
        (int 0)
  | _ => return .Error (wrong_number "lrem")

/-- What LTRIM leaves of a list. -/
def trimmed (st sp : ℤ) (l : List Bytes) : List Bytes :=
  let len : ℤ := l.length
  let si := ni st len
  let ei := ni sp len
  if si > ei ∨ si ≥ len then []
  else (l.drop si.toNat).take ((min ei (len - 1)).toNat + 1 - si.toNat)

def ltr (args : List Bytes) : StoreM F (Reply F) :=
  match args with
  | key :: start :: stop :: _ =>
    match parse_i64 start, parse_i64 stop with
    | some st, some sp => with_list key (trimmed st.toInt sp.toInt) (fun _ => return ok) ok
    | _, _ => return not_integer
  | _ => return .Error (wrong_number "ltrim")

/-! ## Moving an element -/

/-- Pop one element from an end of the source: the element, if there is one, or the error. -/
def pop_one (front : Bool) (key : Bytes) : StoreM F (Except (Reply F) (Option Bytes)) := do
  match ← Store.access key (·.map (edit_list (left front 1))) with
  | some entry =>
    match entry.data.as_list with
    | some l => do
      match taken front 1 l with
      | v :: _ => do
        remove_if (left front 1 l).isEmpty key
        return .ok (some v)
      | [] => return .ok none
    | none => return .error wrong_type
  | none => return .ok none

def lmo (args : List Bytes) : StoreM F (Reply F) :=
  match args with
  | source :: dest :: from_ :: to_ :: _ =>
    match either "LEFT" "RIGHT" from_, either "LEFT" "RIGHT" to_ with
    | some fl, some tl => do
      match ← pop_one fl source with
      | .error reply => return reply
      | .ok none => return null_bulk
      | .ok (some val) => do
        -- by now the element is no longer in the source
        if ← push_to_dest dest val tl then return bull val else return wrong_type
    | _, _ => return syntax_error
  | _ => return .Error (wrong_number "lmove")

def rpoplpush (args : List Bytes) : StoreM F (Reply F) :=
  match args with
  | [source, dest] => lmo [source, dest, as_bytes "RIGHT", as_bytes "LEFT"]
  | _ => return .Error (wrong_number "rpoplpush")

/-! ## Popping from one of several keys -/

/-- The loop over the keys: pop up to `count` elements from the first of them that holds a list
with elements. Entries of other types are passed over. -/
def pop_keys (front : Bool) (count : ℕ) : List Bytes → StoreM F (Option (Bytes × List Bytes))
  | [] => return none
  | key :: keys => do
    match (← Store.access key (·.map (edit_list (left front count)))).bind (·.data.as_list) with
    | some (v :: l) => do
      remove_if (left front count (v :: l)).isEmpty key
      return some (key, taken front count (v :: l))
    | _ => pop_keys front count keys

/-- The reply of LMPOP and BLMPOP. -/
def mpop_reply (popped : Bytes × List Bytes) : Reply F :=
  .Array (some [bull popped.1, .Array (some (popped.2.map bull))])

/-- The reply of BLPOP and BRPOP. -/
def bpop_reply (popped : Bytes × List Bytes) : Reply F :=
  .Array (some (bull popped.1 :: popped.2.map bull))

/-- The arguments of LMPOP, and of BLMPOP behind its timeout: the end, the count and the keys.
`before` is how many words stand in front of the keys, and when the number of keys added to it
wraps around, the range of the keys is no range: there is a panic instead. -/
def mpop_args (before : ℕ) (args : List Bytes) :
    Except (Reply F) (Option (Bool × ℕ × List Bytes)) :=
  match args with
  | numkeys :: side :: rest =>
    match parse_u64 numkeys with
    | none | some 0 => .error not_integer
    | some n =>
      let wraps := before + n ≥ 2 ^ 64
      if ¬ wraps ∧ rest.length < n then .error syntax_error
      else match either "LEFT" "RIGHT" side with
        | none => .error syntax_error
        | some direction =>
          if wraps then .ok none
          else match rest.drop n with
            | [] => .ok (some (direction, 1, rest.take n))
            | opt :: more =>
              if option_name opt = some "COUNT" then
                match more with
                | [] => .error syntax_error
                | count :: _ =>
                  match parse_u64 count with
                  | some c => .ok (some (direction, c, rest.take n))
                  | none => .error not_integer
              else .error syntax_error
  | _ => .error syntax_error

def lmpop (args : List Bytes) : StoreM F (Reply F) :=
  if args.length < 3 then return .Error (wrong_number "lmpop")
  else match mpop_args 2 args with
    | .error reply => return reply
    | .ok none => .fail .Panic
    | .ok (some (direction, count, keys)) => do
      return ((← pop_keys direction count keys).map mpop_reply).getD null_bulk

/-! ## Blocking -/

/-- What becomes of the time a blocking command is given: zero is forever, and `from_secs_f64`
panics on a time that is no duration. `turns` is how often the loop comes round until the time is
over or, for `forever`, until we stop watching it. -/
inductive Timeout where
  | forever (turns : ℕ)
  | after (turns : ℕ)
  | invalid
  deriving Repr, DecidableEq

def watch_all : List Bytes → StoreM F Unit
  | [] => return ()
  | key :: keys => do
    let _ ← Store.watch key
    watch_all keys

/-- The loop of the functions `.._block_forever`: what an attempt comes to, or nothing when the
turns are over. -/
def block_forever (attempt : StoreM F (Option (Reply F))) : ℕ → StoreM F (Option (Reply F))
  | 0 => return none
  | turns + 1 => do
    match ← attempt with
    | some reply => return some reply
    | none => block_forever attempt turns

/-- A blocking command: one attempt at once, then the loop. -/
def blocking (keys : List Bytes) (attempt : StoreM F (Option (Reply F))) (timeout : Timeout) :
    StoreM F (Reply F) := do
  match ← attempt with
  | some reply => return reply
  | none =>
    match timeout with
    | .invalid => .fail .Panic
    | .after turns => do
      watch_all keys
      return (← block_forever attempt turns).getD null_bulk
    | .forever turns => do
      watch_all keys
      match ← block_forever attempt turns with
      | some reply => return reply
      -- no reply: the command is still waiting
      | none => .fail .Deadlock

def not_timeout : Reply F := .Error "ERR timeout is not a float or out of range"

/-- BLPOP and BRPOP. -/
def bpop (cmd : String) (front : Bool) (pf : Bytes → Option Timeout) (args : List Bytes) :
    StoreM F (Reply F) :=
  if args.length < 2 then return .Error (wrong_number cmd)
  else match args.getLast?.bind pf with
    | none => return not_timeout
    | some timeout =>
      let attempt := do return (← pop_keys front 1 args.dropLast).map bpop_reply
      blocking args.dropLast attempt timeout

def bl (pf : Bytes → Option Timeout) (args : List Bytes) : StoreM F (Reply F) :=
  bpop "blpop" true pf args

def br (pf : Bytes → Option Timeout) (args : List Bytes) : StoreM F (Reply F) :=
  bpop "brpop" false pf args

def blmpop (pf : Bytes → Option Timeout) (args : List Bytes) : StoreM F (Reply F) :=
  match args with
  | timeout :: rest =>
    if rest.length < 3 then return .Error (wrong_number "blmpop")
    else match pf timeout with
      | none => return not_timeout
      | some timeout =>
        match mpop_args 3 rest with
        | .error reply => return reply
        | .ok none => .fail .Panic
        | .ok (some (direction, count, keys)) =>
          blocking keys (do return (← pop_keys direction count keys).map mpop_reply) timeout
  | [] => return .Error (wrong_number "blmpop")

/-- One attempt of BLMOVE. Unlike LMOVE it takes no notice of a destination that is no list. -/
def blmove_attempt (source dest : Bytes) (from_left to_left : Bool) :
    StoreM F (Option (Reply F)) := do
  match ← pop_one from_left source with
  | .error reply => return some reply
  | .ok none => return none
  | .ok (some val) => do
    let _ ← push_to_dest dest val to_left
    return some (bull val)

def blmove (pf : Bytes → Option Timeout) (args : List Bytes) : StoreM F (Reply F) :=
  match args with
  | source :: dest :: from_ :: to_ :: timeout :: _ =>
    match either "LEFT" "RIGHT" from_, either "LEFT" "RIGHT" to_ with
    | some from_left, some to_left =>
      match pf timeout with
      | none => return not_timeout
      | some timeout =>
        blocking [source] (blmove_attempt source dest from_left to_left) timeout
    | _, _ => return syntax_error
  | _ => return .Error (wrong_number "blmove")

def brpoplpush (pf : Bytes → Option Timeout) (args : List Bytes) : StoreM F (Reply F) :=
  match args with
  | [source, dest, timeout] =>
    blmove pf [source, dest, as_bytes "RIGHT", as_bytes "LEFT", timeout]
  | _ => return .Error (wrong_number "brpoplpush")

/-! ## The commands by name -/

def list_commands : List String :=
  ["LPUSH", "RPUSH", "LPUSHX", "RPUSHX", "RPOPLPUSH", "BRPOPLPUSH", "LPOP", "RPOP", "LRANGE",
    "LLEN", "LINDEX", "LSET", "LINSERT", "LREM", "LTRIM", "LMOVE", "BLPOP", "BRPOP", "LMPOP",
    "BLMPOP", "BLMOVE", "LPOS"]

def handle (pf : Bytes → Option Timeout) (name : String) (args : List Bytes) :
    StoreM F (Reply F) :=
  match name with
  | "LPUSH" => lp args
  | "RPUSH" => rp args
  | "LPUSHX" => pushx args true
  | "RPUSHX" => pushx args false
  | "RPOPLPUSH" => rpoplpush args
  | "BRPOPLPUSH" => brpoplpush pf args
  | "LPOP" => lpo args
  | "RPOP" => rpo args
  | "LRANGE" => lr args
  | "LLEN" => ll args
  | "LINDEX" => li args
  | "LSET" => ls args
  | "LINSERT" => lins args
  | "LREM" => lre args
  | "LTRIM" => ltr args
  | "LMOVE" => lmo args
  | "BLPOP" => bl pf args
  | "BRPOP" => br pf args
  | "LMPOP" => lmpop args
  | "BLMPOP" => blmpop pf args
  | "BLMOVE" => blmove pf args
  | "LPOS" => lpos args
  | _ => return .Error ("ERR unknown command `" ++ name ++ "`")

end ValkeyRs.Lists
