/-
Streams: `StreamData` of `crates/storage/src/lib.rs` and the commands of
`crates/commands/src/stream.rs` that add and remove entries.

The commands read a copy of the stream with `get_stream` and put it back with `save_stream`. The
two reach the map directly: an entry that has expired is a stream like any other, and an entry that
is there keeps everything but its data.
-/
import ValkeyRs.Strings

set_option autoImplicit false

open ValkeyRs Text Storage Zset Strings

namespace ValkeyRs.Storage.StreamData

def new : StreamData := ⟨∅, ∅, ⟨0, 0⟩, ∅⟩

/-- `last_id` is one behind the greatest ID. -/
def add (self : StreamData) (id : StreamId) (fields : List (Bytes × Bytes)) : StreamData :=
  { self with
    last_id :=
      if id.ms > self.last_id.ms ∨ (id.ms = self.last_id.ms ∧ id.seq ≥ self.last_id.seq) then
        ⟨id.ms, id.seq + 1⟩
      else self.last_id
    entries := self.entries.insert id fields }

def generate_id (self : StreamData) (now_ms : UInt64) (requested : Option StreamId) :
    Except Halt StreamId :=
  match requested with
  | some id =>
    if id.ms = 0 ∧ id.seq = 0 then err "ERR The ID specified in XADD must be greater than 0-0"
    else if id.ms < self.last_id.ms ∨ (id.ms = self.last_id.ms ∧ id.seq ≤ self.last_id.seq) then
      err ("ERR The ID specified in XADD is equal or smaller than the " ++
        "target stream top item")
    else .ok id
  | none => .ok ⟨now_ms, if now_ms = self.last_id.ms then self.last_id.seq else 0⟩

/-- `for id in ids { sd.entries.remove(&id) }`. -/
def remove_all (self : StreamData) (ids : List StreamId) : StreamData :=
  { self with entries := ids.foldl (fun entries id => entries.erase id) self.entries }

end ValkeyRs.Storage.StreamData

namespace ValkeyRs.Streams

variable {F : Type} [Score F]

/-! ## Arguments -/

def s (b : Bytes) : Except Halt String :=
  match from_utf8 b with
  | .ok s => .ok s
  | .error _ => err "ERR invalid utf-8"

def parse_part (part : List Char) : Except Halt UInt64 :=
  match parse_nat (some 64) (String.ofList part) with
  | .ok n => .ok (UInt64.ofNat n)
  | .error _ => err "ERR Invalid stream ID specified as stream command argument"

/-- `ms-seq`, or `ms` for `ms-0`. -/
def parse_id (st : String) : Except Halt StreamId :=
  match st.toList.span (· ≠ '-') with
  | (ms, []) => do return ⟨← parse_part ms, 0⟩
  | (ms, _ :: seq) => do return ⟨← parse_part ms, ← parse_part seq⟩

def parse_threshold (b : Bytes) : Except Halt ℕ := do
  match parse_nat (some 64) (← s b) with
  | .ok n => return n
  | .error _ => err not_an_integer

def id_bytes (id : StreamId) : Bytes := as_bytes (toString id.ms ++ "-" ++ toString id.seq)

/-! ## Reading and writing -/

def get_stream (key : Bytes) : StoreM F StreamData := do
  match ← Store.access key id with
  | some entry =>
    match entry.data with
    | .Stream sd => return sd
    | _ => .fail (.Err "WRONGTYPE Operation against a key holding the wrong kind of value")
  | none => return .new

def save_entry (sd : StreamData) (vacant : Entry F) (entry : Option (Entry F)) : Entry F :=
  match entry with
  | some entry => { entry with data := .Stream sd }
  | none => vacant

def save_stream (key : Bytes) (sd : StreamData) : StoreM F Unit := do
  let vacant ← Entry.new (.Stream sd) none (← Store.now)
  let _ ← Store.access key fun entry => some (save_entry sd vacant entry)

/-! ## XADD -/

structure XaddOptions where
  nomk : Bool
  maxlen : Option (Bool × ℕ)
  deriving Repr, DecidableEq

/-- What follows MAXLEN or MINID: an optional `~`, the threshold and an optional LIMIT, whose
number is skipped. -/
def trim_clause (args : List Bytes) : Except Halt (ℕ × List Bytes) := do
  match args with
  | [] => err "ERR syntax error"
  | a :: rest =>
    match (if (← s a) = "~" then rest else a :: rest) with
    | [] => err "ERR syntax error"
    | t :: more =>
      let n ← parse_threshold t
      match more with
      | [] => return (n, [])
      | l :: after =>
        if to_ascii_uppercase (← s l) = "LIMIT" then
          match after with
          | [] => err "ERR syntax error"
          | _ :: after => return (n, after)
        else return (n, l :: after)

/-- The option loop of `xadd`, with the arguments it leaves. A turn takes at least one argument, so
as many turns as there are arguments are enough. -/
def xadd_options : ℕ → List Bytes → XaddOptions → Except Halt (XaddOptions × List Bytes)
  | turns + 1, opt :: rest, opts => do
    let o := to_ascii_uppercase (← s opt)
    if o = "NOMKSTREAM" then xadd_options turns rest { opts with nomk := true }
    else if o = "MAXLEN" ∨ o = "MINID" then do
      let (n, rest) ← trim_clause rest
      xadd_options turns rest { opts with maxlen := some (o = "MAXLEN", n) }
    else return (opts, opt :: rest)
  | _, args, opts => return (opts, args)

/-- What `xadd` does to the entries at its end. MINID compares milliseconds only. -/
def trim (maxlen : Option (Bool × ℕ)) (sd : StreamData) : StreamData :=
  match maxlen with
  | none => sd
  | some (true, threshold) => sd.remove_all (sd.entries.keys.take (sd.entries.size - threshold))
  | some (false, threshold) =>
    sd.remove_all (sd.entries.keys.filter fun id => id.ms.toNat < threshold)

def field_pairs : List Bytes → List (Bytes × Bytes)
  | field :: value :: rest => (field, value) :: field_pairs rest
  | _ => []

/-- The arguments of XADD: the options, the ID that is asked for, and the fields. -/
def xadd_args (args : List Bytes) :
    Except Halt (XaddOptions × Option StreamId × List (Bytes × Bytes)) := do
  let (opts, rest) ← xadd_options args.length args ⟨false, none⟩
  match rest with
  | [] => err "ERR syntax error"
  | id :: fields =>
    let id_str ← s id
    let req ← if id_str = "*" then pure none else do pure (some (← parse_id id_str))
    if fields.isEmpty ∨ fields.length % 2 ≠ 0 then err (wrong_number "xadd")
    else return (opts, req, field_pairs fields)

/-- `SystemTime::now()` in milliseconds. -/
def now_ms : StoreM F UInt64 := do return UInt64.ofNat ((← Store.unix_time) / 10 ^ 6)

/-- XADD behind its arguments: read the stream, add the entry and put the stream back. -/
def xadd_with (key : Bytes) (maxlen : Option (Bool × ℕ)) (req : Option StreamId)
    (fields : List (Bytes × Bytes)) : StoreM F (Reply F) := do
  let sd ← get_stream key
  let id ← sd.generate_id (← now_ms) req
  save_stream key (trim maxlen (sd.add id fields))
  return bull (id_bytes id)

def xadd (args : List Bytes) : StoreM F (Reply F) :=
  match args with
  | key :: a :: b :: rest => do
    let (opts, req, fields) ← xadd_args (a :: b :: rest)
    if opts.nomk then
      if ← Store.exists_key key then xadd_with key opts.maxlen req fields else return null_bulk
    else xadd_with key opts.maxlen req fields
  | _ => .fail (.Err (wrong_number "xadd"))

/-! ## XTRIM and XDEL -/

/-- The stream without the entries XTRIM removes, and their number. -/
def xtrim_select (strat : String) (threshold : Bytes) (sd : StreamData) :
    Except Halt (List StreamId) := do
  if strat = "MAXLEN" then
    let th ← parse_threshold threshold
    return sd.entries.keys.take (sd.entries.size - th)
  else if strat = "MINID" then
    let min_id ← parse_id (← s threshold)
    return sd.entries.keys.filter fun id => decide (id < min_id)
  else err "ERR syntax error"

/-- XTRIM behind its arguments. -/
def xtrim_with (key : Bytes) (strat : String) (threshold : Bytes) : StoreM F (Reply F) := do
  let sd ← get_stream key
  let ids ← xtrim_select strat threshold sd
  save_stream key (sd.remove_all ids)
  return int ids.length

def xtrim (args : List Bytes) : StoreM F (Reply F) :=
  match args with
  | key :: strat :: a :: rest => do
    let strat := to_ascii_uppercase (← s strat)
    if (← s a) = "~" then
      match rest with
      | [] => .fail (.Err "ERR syntax error")
      | threshold :: _ => xtrim_with key strat threshold
    else xtrim_with key strat a
  | _ => .fail (.Err (wrong_number "xtrim"))

/-- The loop of `xdel`, with the number of entries that were there. -/
def xdel_ids : List Bytes → StreamData → ℕ → Except Halt (StreamData × ℕ)
  | [], sd, c => return (sd, c)
  | a :: rest, sd, c => do
    let id ← parse_id (← s a)
    xdel_ids rest { sd with entries := sd.entries.erase id }
      (if sd.entries.contains id then c + 1 else c)

def xdel (args : List Bytes) : StoreM F (Reply F) :=
  match args with
  | key :: a :: rest => do
    let sd ← get_stream key
    let (sd, c) ← xdel_ids (a :: rest) sd 0
    save_stream key sd
    return int c
  | _ => .fail (.Err (wrong_number "xdel"))

def xlen (args : List Bytes) : StoreM F (Reply F) :=
  match args with
  | [key] => do
    match (← Store.get key).map Entry.data with
    | some (.Stream sd) => return int sd.entries.size
    | some _ => .fail (.Err "WRONGTYPE Operation against a key holding the wrong kind of value")
    | none => return int 0
  | _ => .fail (.Err (wrong_number "xlen"))

end ValkeyRs.Streams
