/-
The store, `crates/storage/src/lib.rs`: the value types, the entries and the accesses to the
shared maps.

The server keeps all data in one concurrent map and every command works on it through a few
calls, each of which locks one entry. A call is one operation here, and a command is a
`Prog` over these operations: `access k f` looks at the entry under `k` and replaces it by
`f` of it in one atomic step, which covers `get`, `get_mut`, `insert` and `remove`. A method
of the source that makes two calls, such as `Store::get` on an expired entry, is a program
with two operations, so what happens between them is not lost.

What the code asks of its surroundings, the clock, the random numbers and the order in which
a hash map is traversed, comes from an environment about which nothing is assumed. Hash maps
themselves are modelled by ordered maps.

Scores are elements of an arbitrary linear order: `OrderedFloat` orders all of `f64`, and a
value that is not a number is left out.
-/
import ValkeyRs.Intset
import ValkeyRs.Listpack
import ValkeyRs.Prog
import ValkeyRs.Resp

set_option autoImplicit false

open ValkeyRs.Text

namespace ValkeyRs.Storage

/-! ## Values -/

abbrev BTreeMap (κ α : Type) [Ord κ] := Std.ExtTreeMap κ α
abbrev BTreeSet (κ : Type) [Ord κ] := Std.ExtTreeSet κ
abbrev HashMap (κ α : Type) [Ord κ] := Std.ExtTreeMap κ α
abbrev HashSet (κ : Type) [Ord κ] := Std.ExtTreeSet κ

/-- A time, in nanoseconds. -/
abbrev Instant := ℕ

abbrev Duration := ℕ

/-- A sorted set: the members by score, and the score of each member. -/
structure ZSetData (F : Type) [LinearOrder F] where
  scores : BTreeMap F (BTreeSet Bytes)
  members : HashMap Bytes F

structure StreamId where
  ms : UInt64
  seq : UInt64
  deriving Repr, DecidableEq

/-- IDs are ordered by time, then by sequence number. -/
instance : LinearOrder StreamId :=
  LinearOrder.lift' (fun id => toLex (id.ms.toNat, id.seq.toNat)) fun a b h => by
    cases a
    cases b
    simpa [UInt64.toNat_inj] using h

instance : Std.LawfulEqOrd StreamId := ⟨compare_eq_iff_eq.mp⟩

instance transOrd_of_linearOrder {F : Type} [LinearOrder F] : Std.TransOrd F := inferInstance

structure PendingEntry where
  consumer : String
  delivered_at : Instant
  delivery_count : UInt64

structure Consumer where
  name : String
  seen_time : Instant
  pending : BTreeMap StreamId PendingEntry

structure ConsumerGroup where
  name : String
  last_delivered_id : StreamId
  pending : BTreeMap StreamId PendingEntry
  consumers : HashMap String Consumer
  entries_read : Int64

structure StreamData where
  entries : BTreeMap StreamId (List (Bytes × Bytes))
  groups : HashMap String ConsumerGroup
  last_id : StreamId
  deleted_ids : BTreeSet StreamId

inductive DataType (F : Type) [LinearOrder F] where
  | String (b : Bytes)
  | List (items : List Bytes)
  | Hash (fields : HashMap Bytes Bytes)
  | Set (members : HashSet Bytes)
  | ZSet (zset : ZSetData F)
  | Stream (stream : StreamData)
  | ListPack (lp : ListPack)
  | IntSet (is : IntSet)

structure Entry (F : Type) [LinearOrder F] where
  data : DataType F
  expires_at : Option Instant
  last_access : Instant
  access_count : ℕ
  lfu_counter : ℕ

/-- How a command can end without a reply of its own: `Err` with a message, a panic, or because
it waits for a lock that it holds itself. -/
inductive Halt where
  | Err (e : String)
  | Panic
  | Deadlock
  deriving Repr, DecidableEq

/-- The last `Instant` there is, with its seconds in an `i64`. -/
def instant_max : Instant := 2 ^ 63 * 10 ^ 9 - 1

variable {F : Type} [LinearOrder F]

/-- `Entry::new`, at the time it reads. The sum of an `Instant` and a `Duration` panics when it
cannot be represented. -/
def Entry.new (data : DataType F) (ttl : Option Duration) (now : Instant) :
    Except Halt (Entry F) :=
  match ttl with
  | none => .ok ⟨data, none, now, 1, 1⟩
  | some d => if now + d > instant_max then .error .Panic else .ok ⟨data, some (now + d), now, 1, 1⟩

/-- `size_of::<ZSetData>()` and `size_of::<StreamData>()` on a 64-bit target: the headers of
the collections in them. -/
def size_of_zset_data : ℕ := 72

def size_of_stream_data : ℕ := 112

def Entry.memory_usage (self : Entry F) (key_len : ℕ) : ℕ :=
  let data_size := match self.data with
    | .String s => s.length
    | .List v => (v.map List.length).sum
    | .Hash h => (h.toList.map fun (k, v) => k.length + v.length).sum
    | .Set s => (s.toList.map List.length).sum
    | .ZSet _ => size_of_zset_data
    | .Stream _ => size_of_stream_data
    | .ListPack lp => lp.data.length
    | .IntSet s => s.data.length
  key_len + data_size + 64

/-! ## Sorted sets -/

namespace ZSetData

/-- `ZSetData::new`. -/
def new : ZSetData F := ⟨∅, ∅⟩

/-- The bucket of the old score loses the member, and is dropped when it was the last one. -/
def remove_from (scores : BTreeMap F (BTreeSet Bytes)) (member : Bytes) (old_score : F) :
    BTreeMap F (BTreeSet Bytes) :=
  match scores[old_score]? with
  | some bucket =>
    if (bucket.erase member).isEmpty then scores.erase old_score
    else scores.insert old_score (bucket.erase member)
  | none => scores

def unlink (self : ZSetData F) (member : Bytes) : BTreeMap F (BTreeSet Bytes) :=
  match self.members[member]? with
  | some old_score => remove_from self.scores member old_score
  | none => self.scores

/-- `scores.entry(score).or_default().insert(member)`. -/
def link (scores : BTreeMap F (BTreeSet Bytes)) (member : Bytes) (score : F) :
    BTreeMap F (BTreeSet Bytes) :=
  scores.alter score fun bucket => some ((bucket.getD ∅).insert member)

def add (self : ZSetData F) (member : Bytes) (score : F) : ZSetData F :=
  ⟨link (self.unlink member) member score, self.members.insert member score⟩

def len (self : ZSetData F) : ℕ := self.members.size

def is_empty (self : ZSetData F) : Bool := self.members.isEmpty

end ZSetData

/-! ## The store -/

inductive EvictionPolicy where
  | Noeviction
  | AllKeysLru
  | AllKeysLfu
  | VolatileLru
  | VolatileLfu
  | VolatileTtl
  | AllKeysRandom
  | VolatileRandom
  deriving Repr, DecidableEq

def EvictionPolicy.is_volatile : EvictionPolicy → Bool
  | .VolatileLru | .VolatileLfu | .VolatileTtl | .VolatileRandom => true
  | _ => false

structure EvictionConfig where
  maxmemory : ℕ
  policy : EvictionPolicy
  maxmemory_samples : ℕ
  deriving Repr, DecidableEq

/-- `EvictionConfig::default`. -/
def EvictionConfig.default : EvictionConfig := ⟨0, .Noeviction, 5⟩

/-- `Store`. A watcher is the sending end of a channel, given by the channel's number. -/
structure Store (F : Type) [LinearOrder F] where
  keyspace : HashMap Bytes (Entry F)
  evicted_keys : ℕ
  evict_config : EvictionConfig
  watchers : HashMap Bytes (List ℕ)
  dirty_count : ℕ

/-- `Store::new`. -/
def Store.new : Store F := ⟨∅, 0, .default, ∅, 0⟩

/-- An order in which a hash map may be traversed. -/
structure Arrangement where
  order : List Bytes → List Bytes
  perm : ∀ keys, (order keys).Perm keys

def Arrangement.sorted : Arrangement := ⟨id, fun _ => .refl _⟩

/-- What the surroundings will answer: the readings of the two clocks, the random numbers and
the traversal orders, in the order in which they are asked for. `clock` is `Instant::now`, and
`wall` the time since the epoch by `SystemTime::now`, both in nanoseconds. -/
structure Env where
  clock : ℕ → Instant
  wall : ℕ → ℕ
  random : ℕ → ℕ
  arrange : ℕ → Arrangement

/-- Surroundings in which no time passes and nothing is left to chance. -/
def Env.still : Env := ⟨fun _ => 0, fun _ => 0, fun _ => 0, fun _ => .sorted⟩

/-- Everything a command acts on: the store, the surroundings, and the channels, which are
numbered as they are made and of which those that have been sent on are recorded. -/
structure World (F : Type) [LinearOrder F] where
  store : Store F
  env : Env
  channels : ℕ
  sent : List ℕ

def World.new (env : Env) : World F := ⟨.new, env, 0, []⟩

/-- The calls on the shared state. -/
inductive StoreOp (F : Type) [LinearOrder F] where
  | access (key : Bytes) (f : Option (Entry F) → Option (Entry F))
  | iter
  | clear
  | clear_watchers
  | notify (key : Bytes)
  | watch (key : Bytes)
  | now
  | unix_time
  | random
  | config
  | set_config (config : EvictionConfig)
  | count_dirty
  | count_evicted

/-- What each call returns: `access` the entry it found, `watch` the channel it made. -/
abbrev StoreOp.Res : StoreOp F → Type
  | .access _ _ => Option (Entry F)
  | .iter => List (Bytes × Entry F)
  | .watch _ => ℕ
  | .now => Instant
  | .unix_time => ℕ
  | .random => ℕ
  | .config => EvictionConfig
  | .clear | .clear_watchers | .notify _ | .set_config _ | .count_dirty | .count_evicted => Unit

def Env.tick (env : Env) : Env := { env with clock := fun n => env.clock (n + 1) }

def Env.tick_wall (env : Env) : Env := { env with wall := fun n => env.wall (n + 1) }

def Env.draw (env : Env) : Env := { env with random := fun n => env.random (n + 1) }

def Env.rearrange (env : Env) : Env := { env with arrange := fun n => env.arrange (n + 1) }

def arranged {α : Type} (a : Arrangement) (m : HashMap Bytes α) : List (Bytes × α) :=
  (a.order m.keys).filterMap fun k => m[k]?.map (k, ·)

/-- One call on the shared state. -/
def World.step : (o : StoreOp F) → World F → StoreOp.Res o × World F
  | .access key f, w =>
    (w.store.keyspace[key]?,
      { w with store := { w.store with keyspace := w.store.keyspace.alter key f } })
  | .iter, w => (arranged (w.env.arrange 0) w.store.keyspace, { w with env := w.env.rearrange })
  | .clear, w => ((), { w with store := { w.store with keyspace := ∅ } })
  | .clear_watchers, w => ((), { w with store := { w.store with watchers := ∅ } })
  | .notify key, w =>
    -- the registrations are taken out of the map, so each is used once
    ((), { w with
      store := { w.store with watchers := w.store.watchers.erase key }
      sent := (w.store.watchers[key]?).getD [] ++ w.sent })
  | .watch key, w =>
    (w.channels, { w with
      store := { w.store with
        watchers := w.store.watchers.alter key fun txs => some (txs.getD [] ++ [w.channels]) }
      channels := w.channels + 1 })
  | .now, w => (w.env.clock 0, { w with env := w.env.tick })
  | .unix_time, w => (w.env.wall 0, { w with env := w.env.tick_wall })
  | .random, w => (w.env.random 0, { w with env := w.env.draw })
  | .config, w => (w.store.evict_config, w)
  | .set_config config, w => ((), { w with store := { w.store with evict_config := config } })
  | .count_dirty, w =>
    ((), { w with store := { w.store with dirty_count := w.store.dirty_count + 1 } })
  | .count_evicted, w =>
    ((), { w with store := { w.store with evicted_keys := w.store.evicted_keys + 1 } })

/-- Programs on the store. -/
abbrev StoreM (F : Type) [LinearOrder F] := Prog (StoreOp F) StoreOp.Res Halt

def call (o : StoreOp F) : StoreM F (StoreOp.Res o) := Prog.perform o

namespace Store

def access (key : Bytes) (f : Option (Entry F) → Option (Entry F)) :
    StoreM F (Option (Entry F)) :=
  call (.access key f)

def iter : StoreM F (List (Bytes × Entry F)) := call .iter

def now : StoreM F Instant := call .now

def unix_time : StoreM F ℕ := call .unix_time

def random : StoreM F ℕ := call .random

def notify_watchers (key : Bytes) : StoreM F Unit := call (.notify key)

def watch (key : Bytes) : StoreM F ℕ := call (.watch key)

def eviction_config : StoreM F EvictionConfig := call .config

/-- `Entry::is_expired`. An entry without an expiry time does not read the clock. -/
def is_expired (entry : Entry F) : StoreM F Bool :=
  match entry.expires_at with
  | none => pure false
  | some t => do
    let now ← now
    return decide (t < now)

def get (key : Bytes) : StoreM F (Option (Entry F)) := do
  match ← access key id with
  | none => return none
  | some entry =>
    if ← is_expired entry then
      -- the guard is dropped before the removal: a second access to the same key
      let _ ← access key fun _ => none
      return none
    else return some entry

def exists_key (key : Bytes) : StoreM F Bool := do
  return (← get key).isSome

def set (key : Bytes) (data : DataType F) (ttl : Option Duration) : StoreM F Unit := do
  notify_watchers key
  let entry ← Entry.new data ttl (← now)
  let _ ← access key fun _ => some entry
  call .count_dirty

def del (key : Bytes) : StoreM F Bool := do
  notify_watchers key
  let result ← access key fun _ => none
  if result.isSome then
    call .count_dirty
  return result.isSome

def expire (key : Bytes) (at_ : Instant) : StoreM F Bool := do
  notify_watchers key
  let result ← access key (·.map ({ · with expires_at := some at_ }))
  if result.isSome then
    call .count_dirty
  return result.isSome

/-- The time that is left; nothing for a key that does not expire. -/
def ttl (key : Bytes) : StoreM F (Option Duration) := do
  match ← get key with
  | none => return none
  | some entry =>
    match entry.expires_at with
    | none => return none
    | some at_ => do
      let now ← now
      return if now ≤ at_ then some (at_ - now) else none

def flush : StoreM F Unit := do
  call .clear
  call .clear_watchers

/-! ### Eviction -/

def memory_usage_bytes : StoreM F ℕ := do
  let entries ← iter
  return (entries.map fun (key, entry) => entry.memory_usage key.length).sum

/-- `Vec::swap_remove`, with the element it takes out. -/
def swap_remove (keys : List Bytes) (idx : ℕ) : Option (Bytes × List Bytes) :=
  match keys[idx]?, keys.getLast? with
  | some key, some last => some (key, (keys.set idx last).dropLast)
  | _, _ => none

/-- `for _ in 0..samples`: draw keys without replacement. -/
def draw_candidates : ℕ → List Bytes → List Bytes → StoreM F (List Bytes)
  | 0, _, candidates => return candidates
  | samples + 1, rng_keys, candidates => do
    if rng_keys.isEmpty then return candidates
    let idx := (← random) % rng_keys.length
    match swap_remove rng_keys idx with
    | some (key, rest) => draw_candidates samples rest (candidates ++ [key])
    | none => return candidates

/-- `i64::MAX`. -/
def i64_max : ℤ := 2 ^ 63 - 1

def eviction_score (policy : EvictionPolicy) (entry : Entry F) : StoreM F ℤ :=
  match policy with
  | .AllKeysLru | .VolatileLru => do
    let now ← now
    return min ((now - entry.last_access : ℕ) : ℤ) i64_max
  | .AllKeysLfu | .VolatileLfu => return i64_max - min entry.lfu_counter 255
  | .VolatileTtl =>
    match entry.expires_at with
    | some at_ => do
      let now ← now
      return i64_max - min ((at_ - now : ℕ) : ℤ) i64_max
    | none => return -1
  | .AllKeysRandom | .VolatileRandom => do
    let r ← random
    return ((r % 2 ^ 64 : ℕ) : ℤ) - 2 ^ 63
  | .Noeviction => .fail .Panic

/-- The loop over the candidates: the first of those with the greatest score. -/
def choose_victim (policy : EvictionPolicy) :
    List Bytes → Option (Bytes × ℤ) → StoreM F (Option (Bytes × ℤ))
  | [], victim => return victim
  | key :: keys, victim => do
    match ← access key id with
    | none => choose_victim policy keys victim
    | some entry =>
      if policy.is_volatile && entry.expires_at.isNone then choose_victim policy keys victim
      else do
        let score ← eviction_score policy entry
        match victim with
        | none => choose_victim policy keys (some (key, score))
        | some (_, best) =>
          if score > best then choose_victim policy keys (some (key, score))
          else choose_victim policy keys victim

def maybe_evict : StoreM F Unit := do
  let config ← eviction_config
  if config.maxmemory = 0 then return ()
  let used ← memory_usage_bytes
  if used ≤ config.maxmemory then return ()
  if config.policy = .Noeviction then
    .fail (.Err "ERR OOM command not allowed when used memory > 'maxmemory'.")
  let samples := max config.maxmemory_samples 1
  let all_keys := (← iter).map Prod.fst
  if all_keys.isEmpty then return ()
  let candidates ← if all_keys.length ≤ samples then pure all_keys
    else draw_candidates samples all_keys []
  match ← choose_victim config.policy candidates none with
  | some (key, _) => do
    let _ ← access key fun _ => none
    call .count_evicted
  | none => return ()

end Store

end ValkeyRs.Storage
