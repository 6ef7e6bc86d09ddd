/-
Consumer groups and the reading of streams: the rest of `crates/commands/src/stream.rs` that changes
a stream, and XREAD.

A group remembers the last ID it has handed out and, for each entry that has not been acknowledged,
the consumer it went to. Consumers and pending entries are kept in two maps, and nothing ties one to
the other. All the commands on a group read a copy of the stream, change the group in it and put the
stream back; `with_group` is that pattern.

An instant in front of the origin of the clock is taken for the origin.
-/
import ValkeyRs.Streams

set_option autoImplicit false

open ValkeyRs Text Storage Zset Strings

namespace ValkeyRs.Storage

abbrev Fields := List (Bytes × Bytes)

def ConsumerGroup.new (name : String) (last_delivered_id : StreamId) (entries_read : Int64) :
    ConsumerGroup := ⟨name, last_delivered_id, ∅, ∅, entries_read⟩

/-- `PendingEntry::new`, at the time it reads. -/
def PendingEntry.new (consumer : String) (now : Instant) : PendingEntry := ⟨consumer, now, 1⟩

/-- `Consumer::new`, at the time it reads. -/
def Consumer.new (name : String) (now : Instant) : Consumer := ⟨name, now, ∅⟩

/-- `entries.range((Excluded(after), Unbounded))`. -/
def StreamData.after (self : StreamData) (id : StreamId) : List (StreamId × Fields) :=
  self.entries.toList.filter fun e => decide (id < e.1)

end ValkeyRs.Storage

namespace ValkeyRs.Streams

variable {F : Type} [Score F]

def wrong_type_message : String :=
  "WRONGTYPE Operation against a key holding the wrong kind of value"

def parse_i64_arg (b : Bytes) : Except Halt Int64 := do
  match parse_int (some 64) (← s b) with
  | .ok n => return Int64.ofInt n
  | .error _ => err not_an_integer

/-! ## Groups -/

def no_such_group : String := "ERR No such consumer group"

/-- Change one group of a stream. Where the change comes to an error the stream is not put back. -/
def with_group (key : Bytes) (gn : String)
    (f : StreamData → ConsumerGroup → StoreM F (ConsumerGroup × Reply F)) : StoreM F (Reply F) := do
  let sd ← get_stream key
  match sd.groups[gn]? with
  | none => .fail (.Err no_such_group)
  | some g => do
    let (g, reply) ← f sd g
    save_stream key { sd with groups := sd.groups.insert gn g }
    return reply

/-- The ENTRIESREAD clause of XGROUP CREATE and SETID. -/
def entries_read_clause (extra : List Bytes) : Except Halt Int64 := do
  match extra with
  | [] => return 0
  | word :: rest =>
    if to_ascii_uppercase (← s word) = "ENTRIESREAD" then
      match rest with
      | [] => err "ERR syntax error"
      | n :: _ => parse_i64_arg n
    else return 0

/-- XGROUP CREATE. -/
def xgc (key gn id : Bytes) (extra : List Bytes) : StoreM F (Reply F) := do
  let gns ← s gn
  let ids ← s id
  let er ← entries_read_clause extra
  let sd ← get_stream key
  let ldi ← if ids = "$" then pure sd.last_id
    else if ids = "0" then pure ⟨0, 0⟩
    else (liftM (parse_id ids) : StoreM F StreamId)
  if sd.groups.contains gns then
    .fail (.Err "BUSYGROUP Consumer Group name already exists") else do
  save_stream key { sd with groups := sd.groups.insert gns (.new gns ldi er) }
  return ok

/-- XGROUP SETID. -/
def xgsid (key gn id : Bytes) (extra : List Bytes) : StoreM F (Reply F) := do
  let gns ← s gn
  let ids ← s id
  let er ← entries_read_clause extra
  with_group key gns fun sd g => do
    let ldi ← if ids = "$" then pure sd.last_id else (liftM (parse_id ids) : StoreM F StreamId)
    return ({ g with last_delivered_id := ldi, entries_read := er }, ok)

/-- XGROUP DESTROY. -/
def xgd (key gn : Bytes) : StoreM F (Reply F) := do
  let gns ← s gn
  let sd ← get_stream key
  if sd.groups.contains gns then do
    save_stream key { sd with groups := sd.groups.erase gns }
    return int 1
  else return int 0

/-- `consumers.entry(cn).or_insert_with(|| Consumer::new(cn))`. -/
def ensure_consumer (cn : String) (g : ConsumerGroup) : StoreM F ConsumerGroup :=
  if g.consumers.contains cn then return g
  else do
    let now ← Store.now
    return { g with consumers := g.consumers.insert cn (.new cn now) }

/-- XGROUP CREATECONSUMER. -/
def xgcc (key gn cn : Bytes) : StoreM F (Reply F) := do
  let gns ← s gn
  let cns ← s cn
  with_group key gns fun _ g => do
    return (← ensure_consumer cns g, int 1)

/-- XGROUP DELCONSUMER. The pending entries of the consumer are not touched. -/
def xgdc (key gn cn : Bytes) : StoreM F (Reply F) := do
  let gns ← s gn
  let cns ← s cn
  with_group key gns fun _ g =>
    return ({ g with consumers := g.consumers.erase cns },
      int (if g.consumers.contains cns then 1 else 0))

def group_arguments : StoreM F (Reply F) := .fail (.Err "ERR wrong number of arguments")

def xgroup (args : List Bytes) : StoreM F (Reply F) :=
  match args with
  | sub :: key :: rest => do
    match to_ascii_uppercase (← s sub), rest with
    | "CREATE", gn :: id :: extra => xgc key gn id extra
    | "SETID", gn :: id :: extra => xgsid key gn id extra
    | "DESTROY", [gn] => xgd key gn
    | "CREATECONSUMER", [gn, cn] => xgcc key gn cn
    | "DELCONSUMER", [gn, cn] => xgdc key gn cn
    | "CREATE", _ | "SETID", _ | "DESTROY", _ | "CREATECONSUMER", _ | "DELCONSUMER", _ =>
      group_arguments
    | _, _ => .fail (.Err "ERR unknown subcommand")
  | _ => .fail (.Err (wrong_number "xgroup"))

/-! ## Reading -/

def fields_reply (fields : Fields) : List (Reply F) :=
  fields.flatMap fun (k, v) => [bull k, bull v]

def entry_reply (e : StreamId × Fields) : Reply F :=
  .Array (some [bull (id_bytes e.1), .Array (some (fields_reply e.2))])

/-- What a read replies for one key, and nothing where there are no entries. -/
def key_reply (key : Bytes) (entries : List (StreamId × Fields)) : List (Reply F) :=
  if entries.isEmpty then []
  else [.Array (some [bull key, .Array (some (entries.map entry_reply))])]

def read_reply (results : List (Reply F)) : Reply F :=
  if results.isEmpty then null_bulk else .Array (some results)

/-- `if entries.len() >= c { break; }`, which is looked at behind an entry. -/
def reached (count : Option ℕ) (len : ℕ) : Bool := count.any (· ≤ len)

/-- The first entries, up to the count. A count of zero lets one entry pass. -/
def up_to (count : Option ℕ) (entries : List (StreamId × Fields)) : List (StreamId × Fields) :=
  match count with
  | some c => entries.take (max c 1)
  | none => entries

/-- The loop of `xri` over the streams, with their IDs. -/
def xri (count : Option ℕ) : List (Bytes × Bytes) → List (Reply F) → StoreM F (Reply F)
  | [], res => return read_reply res
  | (key, id) :: rest, res => do
    let id_str ← s id
    -- `$` is what the stream has come to by now, at every turn of the waiting loop
    let after ← if id_str = "$" then do
        match (← Store.get key).map Entry.data with
        | some (.Stream sd) => pure (some sd.last_id)
        | some _ => (.fail (.Err wrong_type_message) : StoreM F (Option StreamId))
        | none => pure none
      else do pure (some (← (liftM (parse_id id_str) : StoreM F StreamId)))
    match after with
    | none => xri count rest res
    | some after => do
      match (← Store.get key).map Entry.data with
      | some (.Stream sd) =>
        xri count rest (res ++ key_reply key (up_to count (sd.after after)))
      | _ => xri count rest res

structure ReadOptions where
  count : Option ℕ
  block : Option ℕ
  noack : Bool
  deriving Repr, DecidableEq

/-- What follows STREAMS: as many IDs as keys. -/
def split_streams (args : List Bytes) : Except Halt (List (Bytes × Bytes)) :=
  if args.isEmpty ∨ args.length % 2 ≠ 0 then err "ERR syntax error"
  else .ok ((args.take (args.length / 2)).zip (args.drop (args.length / 2)))

/-- The option loop of `xread`, up to the word STREAMS. -/
def xread_options : List Bytes → ReadOptions → Except Halt (ReadOptions × List (Bytes × Bytes))
  | [], _ => err "ERR syntax error"
  | opt :: rest, opts => do
    match to_ascii_uppercase (← s opt), rest with
    | "COUNT", n :: rest => do xread_options rest { opts with count := some (← parse_threshold n) }
    | "BLOCK", n :: rest => do xread_options rest { opts with block := some (← parse_threshold n) }
    | "STREAMS", rest => do return (opts, ← split_streams rest)
    | _, _ => err "ERR syntax error"

/-- The waiting loop of `xread`: `polls` is how often it comes round before the time is over. -/
def xread_wait (count : Option ℕ) (streams : List (Bytes × Bytes)) : ℕ → StoreM F (Reply F)
  | 0 => return null_bulk
  | polls + 1 => do
    match ← xri count streams [] with
    | .BulkString none => xread_wait count streams polls
    | r => return r

/-- XREAD, with the number of polls that fit into a time in milliseconds; there is at least one. -/
def xread (polls : ℕ → ℕ) (args : List Bytes) : StoreM F (Reply F) := do
  let (opts, streams) ← xread_options args ⟨none, none, false⟩
  match opts.block with
  | none => xri opts.count streams []
  | some ms => xread_wait opts.count streams (polls ms + 1)

/-! ## XREADGROUP -/

/-- Behind `>`: hand out new entries, and note down whom they went to. The entries that have been
handed out come first, and the group as it is then. -/
def deliver (cn : String) (noack : Bool) (count : Option ℕ) :
    List (StreamId × Fields) → List (StreamId × Fields) → ConsumerGroup →
      StoreM F (List (StreamId × Fields) × ConsumerGroup)
  | [], entries, g => return (entries, g)
  | e :: rest, entries, g => do
    let g ← if noack then pure g else do
      let now ← Store.now
      pure { g with pending := g.pending.insert e.1 (.new cn now) }
    let g := { g with last_delivered_id := e.1 }
    if reached count (entries ++ [e]).length then return (entries ++ [e], g)
    else deliver cn noack count rest (entries ++ [e]) g

/-- With any other ID: the pending entries of the group once more, of all consumers and from the
first one on. -/
def redeliver (sd : StreamData) (count : Option ℕ) :
    List StreamId → List (StreamId × Fields) → ConsumerGroup →
      StoreM F (List (StreamId × Fields) × ConsumerGroup)
  | [], entries, g => return (entries, g)
  | sid :: rest, entries, g => do
    match sd.entries[sid]? with
    | some fields => do
      let g ← match g.pending[sid]? with
        | some pe => do
          let now ← Store.now
          let pe := { pe with delivery_count := pe.delivery_count + 1, delivered_at := now }
          pure { g with pending := g.pending.insert sid pe }
        | none => pure g
      if reached count (entries ++ [(sid, fields)]).length then return (entries ++ [(sid, fields)], g)
      else redeliver sd count rest (entries ++ [(sid, fields)]) g
    | none =>
      if reached count entries.length then return (entries, g)
      else redeliver sd count rest entries g

def read_group (sd : StreamData) (id_str cn : String) (opts : ReadOptions) (g : ConsumerGroup) :
    StoreM F (List (StreamId × Fields) × ConsumerGroup) := do
  let g ← ensure_consumer cn g
  if id_str = ">" then deliver cn opts.noack opts.count (sd.after g.last_delivered_id) [] g
  else redeliver sd opts.count g.pending.keys [] g

/-- `match get_stream(db, key) { Err(_) => continue, .. }`. -/
def find_stream (key : Bytes) : StoreM F (Option StreamData) := do
  match ← Store.access key id with
  | some entry =>
    match entry.data with
    | .Stream sd => return some sd
    | _ => return none
  | none => return some .new

/-- The loop of `xreadgroup` over the streams. Those without the group are passed over. -/
def xreadgroup_streams (gn cn : String) (opts : ReadOptions) :
    List (Bytes × Bytes) → List (Reply F) → StoreM F (Reply F)
  | [], results => return read_reply results
  | (key, id) :: rest, results => do
    let id_str ← s id
    match ← find_stream key with
    | none => xreadgroup_streams gn cn opts rest results
    | some sd =>
      match sd.groups[gn]? with
      | none => xreadgroup_streams gn cn opts rest results
      | some g => do
        let (entries, g) ← read_group sd id_str cn opts g
        save_stream key { sd with groups := sd.groups.insert gn g }
        xreadgroup_streams gn cn opts rest (results ++ key_reply key entries)

/-- The option loop of `xreadgroup`, up to the word STREAMS. -/
def xreadgroup_options : List Bytes → ReadOptions → Except Halt (ReadOptions × List (Bytes × Bytes))
  | [], _ => err "ERR syntax error"
  | opt :: rest, opts => do
    match to_ascii_uppercase (← s opt), rest with
    | "COUNT", n :: rest => do
      xreadgroup_options rest { opts with count := some (← parse_threshold n) }
    | "NOACK", rest => xreadgroup_options rest { opts with noack := true }
    | "STREAMS", rest => do return (opts, ← split_streams rest)
    | _, _ => err "ERR syntax error"

def xreadgroup (args : List Bytes) : StoreM F (Reply F) := do
  if args.length < 5 then .fail (.Err (wrong_number "xreadgroup")) else do
  match args with
  | word :: gn :: cn :: rest => do
    if to_ascii_uppercase (← s word) ≠ "GROUP" then .fail (.Err "ERR syntax error") else do
    let gn ← s gn
    let cn ← s cn
    let (opts, streams) ← xreadgroup_options rest ⟨none, none, false⟩
    xreadgroup_streams gn cn opts streams []
  | _ => .fail (.Err (wrong_number "xreadgroup"))

/-! ## XACK -/

/-- The loop of `xack`, with the number of entries that were pending. -/
def xack_ids : List Bytes → ConsumerGroup → ℕ → Except Halt (ConsumerGroup × ℕ)
  | [], g, c => return (g, c)
  | a :: rest, g, c => do
    let id ← parse_id (← s a)
    xack_ids rest { g with pending := g.pending.erase id }
      (if g.pending.contains id then c + 1 else c)

def xack (args : List Bytes) : StoreM F (Reply F) :=
  match args with
  | key :: gn :: a :: rest => do
    let gn ← s gn
    with_group key gn fun _ g => do
      let (g, c) ← xack_ids (a :: rest) g 0
      return (g, int c)
  | _ => .fail (.Err (wrong_number "xack"))

/-! ## XCLAIM and XAUTOCLAIM -/

def claim_options : List String := ["IDLE", "TIME", "RETRYCOUNT", "FORCE", "JUSTID"]

def claim_ids : List Bytes → List StreamId → Except Halt (List StreamId × List Bytes)
  | [], ids => return (ids, [])
  | a :: rest, ids => do
    let text ← s a
    if to_ascii_uppercase text ∈ claim_options then return (ids, a :: rest)
    else claim_ids rest (ids ++ [← parse_id text])

structure ClaimOptions where
  new_idle : Option ℕ
  just_id : Bool
  deriving Repr, DecidableEq

/-- The option loop of `xclaim`. RETRYCOUNT moves the index by one too many: the argument behind its
number is passed over. As many turns as there are arguments are enough. -/
def claim_option_loop : ℕ → List Bytes → ClaimOptions → Except Halt ClaimOptions
  | turns + 1, opt :: rest, opts => do
    match to_ascii_uppercase (← s opt) with
    | "IDLE" | "TIME" =>
      match rest with
      | [] => err "ERR syntax error"
      | n :: rest => do claim_option_loop turns rest { opts with new_idle := some (← parse_threshold n) }
    | "RETRYCOUNT" =>
      match rest with
      | [] => err "ERR syntax error"
      | _ :: rest => claim_option_loop turns (rest.drop 1) opts
    | "JUSTID" => claim_option_loop turns rest { opts with just_id := true }
    | _ => claim_option_loop turns rest opts
  | _, _, opts => return opts

/-- `pe.delivered_at.elapsed().as_millis() as u64 < mi`. -/
def too_young (pe : PendingEntry) (mi : ℕ) : StoreM F Bool := do
  let now ← Store.now
  return (now - pe.delivered_at) / 10 ^ 6 % 2 ^ 64 < mi

/-- One entry goes to another consumer, who gets it at a given distance from now. -/
def claim_one (cn : String) (new_idle : Option ℕ) (id : StreamId) (g : ConsumerGroup) :
    StoreM F ConsumerGroup := do
  let now ← Store.now
  match g.pending[id]? with
  | some pe =>
    let delivered_at := match new_idle with
      | some ni => now - ni * 10 ^ 6
      | none => now
    let pe : PendingEntry := ⟨cn, delivered_at, pe.delivery_count + 1⟩
    return { g with pending := g.pending.insert id pe }
  | none => return { g with pending := g.pending.insert id (.new cn now) }

def claimed_reply (just_id : Bool) (sd : StreamData) (id : StreamId) : List (Reply F) :=
  if just_id then [bull (id_bytes id)]
  else match sd.entries[id]? with
    | some fields => [entry_reply (id, fields)]
    | none => []

/-- Whether a pending entry has not been idle for long enough. -/
def is_too_young (mi : ℕ) (id : StreamId) (g : ConsumerGroup) : StoreM F Bool :=
  match g.pending[id]? with
  | some pe => too_young pe mi
  | none => return false

/-- The loop of `xclaim`. An entry of the stream that is not pending becomes so, whether it has ever
been handed out or not. -/
def xclaim_ids (cn : String) (mi : ℕ) (opts : ClaimOptions) (sd : StreamData) :
    List StreamId → List (Reply F) → ConsumerGroup → StoreM F (ConsumerGroup × List (Reply F))
  | [], claimed, g => return (g, claimed)
  | id :: rest, claimed, g => do
    if sd.entries.contains id = false then xclaim_ids cn mi opts sd rest claimed g
    else do
      if ← is_too_young mi id g then xclaim_ids cn mi opts sd rest claimed g
      else do
        let g ← claim_one cn opts.new_idle id g
        xclaim_ids cn mi opts sd rest (claimed ++ claimed_reply opts.just_id sd id) g

def xclaim (args : List Bytes) : StoreM F (Reply F) :=
  match args with
  | key :: gn :: cn :: mi :: a :: rest => do
    let gn ← s gn
    let cn ← s cn
    let mi ← parse_threshold mi
    let (ids, opts) ← claim_ids (a :: rest) []
    let opts ← claim_option_loop opts.length opts ⟨none, false⟩
    with_group key gn fun sd g => do
      let (g, claimed) ← xclaim_ids cn mi opts sd ids [] g
      return (g, .Array (some claimed))
  | _ => .fail (.Err (wrong_number "xclaim"))

structure AutoclaimOptions where
  count : ℕ
  just_id : Bool
  deriving Repr, DecidableEq

/-- The option loop of `xautoclaim`. -/
def autoclaim_options : List Bytes → AutoclaimOptions → Except Halt AutoclaimOptions
  | [], opts => return opts
  | opt :: rest, opts => do
    match to_ascii_uppercase (← s opt), rest with
    | "COUNT", n :: rest => do autoclaim_options rest { opts with count := ← parse_threshold n }
    | "COUNT", [] => err "ERR syntax error"
    | "JUSTID", rest => autoclaim_options rest { opts with just_id := true }
    | _, rest => autoclaim_options rest opts

/-- The loop of `xautoclaim` over the pending IDs, with the cursor. Every ID of the loop is pending,
so that none is made anew. -/
def xautoclaim_ids (cn : String) (mi : ℕ) (opts : AutoclaimOptions) (sd : StreamData) :
    List StreamId → List (Reply F) → StreamId → ConsumerGroup →
      StoreM F (ConsumerGroup × List (Reply F) × StreamId)
  | [], claimed, cursor, g => return (g, claimed, cursor)
  | id :: rest, claimed, cursor, g => do
    if claimed.length ≥ opts.count then return (g, claimed, cursor)
    else do
      if ← is_too_young mi id g then xautoclaim_ids cn mi opts sd rest claimed cursor g
      else do
        let g ← claim_one cn none id g
        xautoclaim_ids cn mi opts sd rest (claimed ++ claimed_reply opts.just_id sd id)
          ⟨id.ms, id.seq + 1⟩ g

def xautoclaim (args : List Bytes) : StoreM F (Reply F) :=
  match args with
  | key :: gn :: cn :: mi :: start :: rest => do
    let gn ← s gn
    let cn ← s cn
    let mi ← parse_threshold mi
    let start ← s start
    let opts ← autoclaim_options rest ⟨100, false⟩
    let sid ← if start = "0-0" then pure ⟨0, 0⟩ else (liftM (parse_id start) : StoreM F StreamId)
    with_group key gn fun sd g => do
      let pids := g.pending.keys.filter fun id => decide (sid ≤ id)
      let (g, claimed, cursor) ← xautoclaim_ids cn mi opts sd pids [] sid g
      let nc := if claimed.length ≥ opts.count then id_bytes cursor else as_bytes "0-0"
      return (g, .Array (some [bull nc, .Array (some claimed), .Array (some [])]))
  | _ => .fail (.Err (wrong_number "xautoclaim"))

/-! ## XSETID -/

/-- The option loop of `xsetid`, which has no effect. -/
def xsetid_options : List Bytes → Except Halt Unit
  | [] => return ()
  | opt :: rest => do
    let name := to_ascii_uppercase (← s opt)
    if name = "ENTRIESADDED" ∨ name = "MAXDELETEDID" then
      match rest with
      | [] => err "ERR syntax error"
      | _ :: rest => xsetid_options rest
    else err "ERR syntax error"

/-- XSETID behind its arguments. The ID is compared with the entries, not with the last ID. -/
def xsetid_with (key : Bytes) (id : StreamId) : StoreM F (Reply F) := do
  let sd ← get_stream key
  if sd.entries.keys.getLast?.any (id < ·) then
    .fail (.Err "ERR The ID specified in XSETID is smaller than the target stream top item") else do
  save_stream key { sd with last_id := id }
  return ok

def xsetid (args : List Bytes) : StoreM F (Reply F) :=
  match args with
  | key :: id :: opts => do
    let id ← parse_id (← s id)
    xsetid_options opts
    if ← Store.exists_key key then xsetid_with key id
    else .fail (.Err "ERR The XSETID command requires the key to exist.")
  | _ => .fail (.Err (wrong_number "xsetid"))

end ValkeyRs.Streams
