/-
The cursor commands that go over a whole collection, SCAN of `crates/commands/src/keys.rs` and
ZSCAN of `crates/commands/src/zset.rs`, and a client that iterates.

SCAN lists the keys that have not expired, asks again for each of them whether it exists, sorts
what is left and takes a page. ZSCAN takes the page first and applies its pattern to the page.
SSCAN and HSCAN are with the sets and the hashes.

A client starts at cursor 0 and calls again with the cursor that came back, until that is 0.
Between two calls anything may happen to the data, so each call has a world of its own.
-/
import ValkeyRs.Hashes
import ValkeyRs.Keys
import ValkeyRs.Sets

set_option autoImplicit false
set_option linter.dupNamespace false

open ValkeyRs Text Storage Zset Strings

namespace ValkeyRs.Scan

variable {F : Type} [Score F]

/-! ## SCAN -/

/-- `pattern.split_once('*')`. -/
def split_star (pattern : String) : Option (List Char × List Char) :=
  match pattern.toList.span (· ≠ '*') with
  | (start, _ :: stop) => some (start, stop)
  | (_, []) => none

/-- `s.starts_with(prefix) && s.ends_with(suffix)`. -/
def between (start stop : List Char) (key : Bytes) : Bool :=
  start.isPrefixOf (text key).toList && stop.isSuffixOf (text key).toList

def unexpired : List (Bytes × Entry F) → StoreM F (List Bytes)
  | [] => return []
  | (key, entry) :: entries => do
    let expired ← Store.is_expired entry
    let keys ← unexpired entries
    return if expired then keys else key :: keys

/-- `Store::keys`. -/
def store_keys (pattern : String) : StoreM F (List Bytes) := do
  if pattern = "*" then unexpired (← Store.iter)
  else match split_star pattern with
    | some (start, stop) => return (← unexpired (← Store.iter)).filter (between start stop)
    | none =>
      if ← Store.exists_key (as_bytes pattern) then return [as_bytes pattern] else return []

/-- `Store::type_of`. -/
def type_of (key : Bytes) : StoreM F (Option String) := do
  return (← Store.get key).map fun entry => Keys.type_name entry.data

/-- `keys.retain(..)`, with a question to the store for each key. -/
def retain (keep : Bytes → StoreM F Bool) : List Bytes → StoreM F (List Bytes)
  | [] => return []
  | key :: keys => do
    let kept ← keep key
    let keys ← retain keep keys
    return if kept then key :: keys else keys

structure ScanOptions where
  pat : Option String
  count : ℕ
  type_filter : Option String
  deriving Repr, DecidableEq

/-- The option loop of `cmd_scan`. An option without its value, and a word that is no option, are
passed over. -/
def scan_options : List Bytes → ScanOptions → ScanOptions
  | [], opts | [_], opts => opts
  | opt :: value :: rest, opts =>
    match option_name opt with
    | some "MATCH" => scan_options rest { opts with pat := (from_utf8 value).toOption }
    | some "COUNT" => scan_options rest { opts with count := (parse_u64 value).getD 10 }
    | some "TYPE" => scan_options rest { opts with type_filter := (from_utf8 value).toOption }
    | _ => scan_options (value :: rest) opts

def key_le (a b : Bytes) : Bool := (compare a b).isLE

def matching (pat : Option String) (keys : List Bytes) : List Bytes :=
  match pat with
  | none => keys
  | some p =>
    if p = "*" then keys
    else match split_star p with
      | some (start, stop) => keys.filter (between start stop)
      | none => keys.filter (· == as_bytes p)

/-- The keys that SCAN takes its page from. -/
def scan_listing (opts : ScanOptions) : StoreM F (List Bytes) := do
  let keys ← store_keys "*"
  let keys := (← retain Store.exists_key keys).insertionSort (key_le · ·)
  let keys ← match opts.type_filter with
    | none => pure keys
    | some t => retain (fun k => return (← type_of k) == some t) keys
  return matching opts.pat keys

/-- A page of the keys. When the end of the page wraps around, it is no slice. -/
def scan_page (start count : ℕ) (keys : List Bytes) : StoreM F (Reply F) :=
  if start ≥ keys.length then return .Array (some [bull (as_bytes "0"), .Array none])
  else
    let stop := min ((start + count) % 2 ^ 64) keys.length
    let nc := if stop ≥ keys.length then 0 else stop
    if stop < start then .fail .Panic
    else return .Array (some [bull (as_bytes (toString nc)),
      Sets.members_reply ((keys.take stop).drop start)])

def cmd_scan (args : List Bytes) : StoreM F (Reply F) :=
  match args with
  | [] => return .Error (wrong_number "scan")
  | cursor :: rest => do
    let opts := scan_options rest ⟨none, 10, none⟩
    let keys ← scan_listing opts
    scan_page ((parse_u64 cursor).getD 0) opts.count keys

/-! ## ZSCAN -/

/-- The option loop of `zscan`, which reads the value of an option without asking whether there is
one. -/
def zscan_options : List Bytes → Option String × ℕ → Except Halt (Option String × ℕ)
  | [], opts => .ok opts
  | [opt], _ => do
    let name ← str_from_bytes opt
    if to_ascii_uppercase name = "MATCH" ∨ to_ascii_uppercase name = "COUNT" then .error .Panic
    else err "ERR syntax error"
  | opt :: value :: rest, (pat, count) => do
    let name ← str_from_bytes opt
    if to_ascii_uppercase name = "MATCH" then
      zscan_options rest (some (← str_from_bytes value), count)
    else if to_ascii_uppercase name = "COUNT" then
      zscan_options rest (pat, ← parse_usize value)
    else err "ERR syntax error"

/-- `glob_match`: before the first star it is the start of the text that counts, and behind it the
end. -/
def glob_match (s p : String) : Bool := p == "*" || Sets.scan_matches p s

/-- The entries of a page that match. One whose member is no text always does. -/
def zscan_filter (pat : Option String) (entries : List (Bytes × F)) : List (Bytes × F) :=
  match pat with
  | none => entries
  | some p => entries.filter fun (m, _) =>
      p == "*" || match from_utf8 m with
        | .ok s => glob_match s p
        | .error _ => true

def zscan_reply (next : ℕ) (entries : List (Bytes × F)) : Reply F :=
  .Array (some [bulk (as_bytes (toString next)), .Array (some (with_scores entries))])

def zscan_page (cursor count : ℕ) (pat : Option String) (all : List (Bytes × F)) :
    StoreM F (Reply F) :=
  if cursor ≥ all.length then return zscan_reply 0 []
  else
    let stop := min ((cursor + count) % 2 ^ 64) all.length
    let nc := if stop ≥ all.length then 0 else stop
    if stop < cursor then .fail .Panic
    else return zscan_reply nc (zscan_filter pat ((all.take stop).drop cursor))

/-- `str_from_bytes(b)?.parse().map_err(..)` of the cursor. -/
def parse_cursor (b : Bytes) : Except Halt ℕ := do
  match parse_nat (some 64) (← str_from_bytes b) with
  | .ok n => return n
  | .error _ => err "ERR invalid cursor"

def zscan (args : List Bytes) : StoreM F (Reply F) :=
  match args with
  | key :: cursor :: opts => do
    let key ← str_from_bytes key
    let cursor ← parse_cursor cursor
    let (pat, count) ← zscan_options opts (none, 10)
    match ← get_zset key with
    | some zset => zscan_page cursor count pat (zset_entries zset)
    | none => return zscan_reply 0 []
  | _ => .fail (.Err (wrong_number "zscan"))

/-! ## A client that iterates -/

/-- The cursor commands, with the key of the collection. -/
inductive ScanCmd where
  | Scan
  | Sscan (key : Bytes)
  | Hscan (key : Bytes)
  | Zscan (key : Bytes)
  deriving Repr, DecidableEq

/-- One call of an iteration: the world it meets, and the number that is given as COUNT, if any. -/
structure Turn (F : Type) [Score F] where
  world : World F
  count : Option Bytes

def count_args : Option Bytes → List Bytes
  | none => []
  | some number => [as_bytes "COUNT", number]

def ScanCmd.call (cmd : ScanCmd) (cursor : UInt64) (count : Option Bytes) : StoreM F (Reply F) :=
  let cursor := as_bytes (toString cursor.toNat)
  match cmd with
  | .Scan => cmd_scan (cursor :: count_args count)
  | .Sscan key => Sets.sscan (key :: cursor :: count_args count)
  | .Hscan key => Hashes.hscan (key :: cursor :: count_args count)
  | .Zscan key => zscan (key :: cursor :: count_args count)

def every_other {α : Type} : List α → List α
  | a :: _ :: rest => a :: every_other rest
  | l => l

/-- The elements on a page: the fields of HSCAN and the members of ZSCAN have something behind
each of them. -/
def ScanCmd.elements (cmd : ScanCmd) (items : List (Reply F)) : List Bytes :=
  let items := match cmd with
    | .Scan | .Sscan _ => items
    | .Hscan _ | .Zscan _ => every_other items
  items.filterMap fun item => match item with
    | .BulkString (some b) => some b
    | _ => none

/-- What a client reads out of a reply: the next cursor and the elements. -/
def ScanCmd.page (cmd : ScanCmd) : Reply F → Option (UInt64 × List Bytes)
  | .Array (some [.BulkString (some cursor), .Array items]) =>
    (parse_u64 cursor).map fun n => (UInt64.ofNat n, cmd.elements (items.getD []))
  | _ => none

/-- A client in the middle of an iteration: the cursor it will call with, whether the last one to
come back was zero, and the elements that have come back. -/
structure Client where
  cursor : UInt64
  finished : Bool
  returned : List Bytes
  deriving Repr, DecidableEq

def Client.start : Client := ⟨0, false, []⟩

/-- One call. A reply that is no page, or none at all, leaves the client where it is. -/
def Client.turn (cmd : ScanCmd) (client : Client) (turn : Turn F) : Client :=
  match ((cmd.call client.cursor turn.count).run World.step turn.world).1 with
  | .ok reply =>
    match cmd.page reply with
    | some (next, elements) => ⟨next, next == 0, client.returned ++ elements⟩
    | none => client
  | .error _ => client

end ValkeyRs.Scan
