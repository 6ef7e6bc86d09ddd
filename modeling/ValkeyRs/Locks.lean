/-
The locks behind the string commands.

The keyspace is split into shards, each with a lock that many readers or one writer can hold. An
entry that has been looked up holds the lock of its shard until the reference to it is dropped;
insertions and removals take the lock for themselves and let it go at once.

Here the commands of `crates/commands/src/string.rs` are written down with their references: `get`
and `get_mut` leave a guard behind, `drop_guard` is where the reference goes out of scope, and
whatever asks for a lock looks at the guards first. `Ends` compares such a command with the one that
has no guards. Which keys share a shard is not known.
-/
import ValkeyRs.StoreWp
import ValkeyRs.Strings

set_option autoImplicit false

open ValkeyRs Text Storage Zset Strings World

namespace ValkeyRs.Locks

/-- A lock that is held, for reading or alone. -/
structure Guard where
  shard : ℕ
  exclusive : Bool
  deriving Repr, DecidableEq

variable {F : Type} [Score F]

/-- Programs on the store with the guards that are alive. -/
abbrev Locked (F : Type) [LinearOrder F] := StateT (List Guard) (StoreM F)

section Store

variable (shard : Bytes → ℕ)

/-- Ask for a lock: for reading when nobody holds it alone, and alone when nobody holds it. -/
def request (n : ℕ) (exclusive : Bool) : Locked F Unit := do
  if (← MonadState.get).any fun g => g.shard = n && (g.exclusive || exclusive) then
    (Prog.fail .Deadlock : StoreM F Unit)

def hold (g : Guard) : Locked F Unit := modify (g :: ·)

def drop_guard : Locked F Unit := modify List.tail

/-- `keyspace.get(key)`, whose reference holds the lock for reading. -/
def find (key : Bytes) : Locked F (Option (Entry F)) := do
  request (shard key) false
  let entry ← (Store.access key id : StoreM F _)
  if entry.isSome then hold ⟨shard key, false⟩
  return entry

/-- `keyspace.get_mut(key)`, whose reference holds the lock alone, with what is done to the entry. -/
def find_mut (key : Bytes) (f : Entry F → Entry F) : Locked F (Option (Entry F)) := do
  request (shard key) true
  let entry ← (Store.access key (·.map f) : StoreM F _)
  if entry.isSome then hold ⟨shard key, true⟩
  return entry

/-- `keyspace.insert` and `keyspace.remove`. -/
def replace (key : Bytes) (new : Option (Entry F)) : Locked F (Option (Entry F)) := do
  request (shard key) true
  (Store.access key fun _ => new : StoreM F _)

/-- `keyspace.iter()`, which takes the lock of every shard for reading, one after the other. -/
def iter : Locked F (List (Bytes × Entry F)) := do
  if (← MonadState.get).any Guard.exclusive then (Prog.fail .Deadlock : StoreM F Unit)
  (Store.iter : StoreM F _)

/-! ## The methods of `Store` -/

def get (key : Bytes) : Locked F (Option (Entry F)) := do
  match ← find shard key with
  | none => return none
  | some entry =>
    if ← (Store.is_expired entry : StoreM F Bool) then
      drop_guard
      let _ ← replace shard key none
      return none
    else return some entry

def exists_key (key : Bytes) : Locked F Bool := do
  match ← get shard key with
  | none => return false
  | some _ => do
    drop_guard
    return true

def set (key : Bytes) (data : DataType F) (ttl : Option Duration) : Locked F Unit := do
  (Store.notify_watchers key : StoreM F Unit)
  let entry ← (do Entry.new data ttl (← Store.now) : StoreM F (Entry F))
  let _ ← replace shard key (some entry)
  (call .count_dirty : StoreM F Unit)

def del (key : Bytes) : Locked F Bool := do
  (Store.notify_watchers key : StoreM F Unit)
  let result ← replace shard key none
  if result.isSome then
    (call .count_dirty : StoreM F Unit)
  return result.isSome

/-- The loop over the candidates for eviction; the reference to an entry lives for one turn. -/
def choose_victim (policy : EvictionPolicy) :
    List Bytes → Option (Bytes × ℤ) → Locked F (Option (Bytes × ℤ))
  | [], victim => return victim
  | key :: keys, victim => do
    match ← find shard key with
    | none => choose_victim policy keys victim
    | some entry =>
      if policy.is_volatile && entry.expires_at.isNone then do
        drop_guard
        choose_victim policy keys victim
      else do
        let score ← (Store.eviction_score policy entry : StoreM F ℤ)
        drop_guard
        match victim with
        | none => choose_victim policy keys (some (key, score))
        | some (_, best) =>
          if score > best then choose_victim policy keys (some (key, score))
          else choose_victim policy keys victim

def maybe_evict : Locked F Unit := do
  let config ← (Store.eviction_config : StoreM F _)
  if config.maxmemory = 0 then return ()
  let used := ((← iter).map fun (key, entry) => entry.memory_usage key.length).sum
  if used ≤ config.maxmemory then return ()
  if config.policy = .Noeviction then
    (.fail (.Err "ERR OOM command not allowed when used memory > 'maxmemory'.") : StoreM F Unit)
  let samples := max config.maxmemory_samples 1
  let all_keys := (← iter).map Prod.fst
  if all_keys.isEmpty then return ()
  let candidates ← if all_keys.length ≤ samples then pure all_keys
    else (Store.draw_candidates samples all_keys [] : StoreM F _)
  match ← choose_victim shard config.policy candidates none with
  | some (key, _) => do
    let _ ← replace shard key none
    (call .count_evicted : StoreM F Unit)
  | none => return ()

/-! ## The commands -/

def read_string (key : Bytes) (present : Bytes → Reply F) (absent : Reply F) :
    Locked F (Reply F) := do
  match ← get shard key with
  | some entry => do
    drop_guard
    match entry.data with
    | .String s => return present s
    | _ => return wrong_type
  | none => return absent

def cmd_get (args : List Bytes) : Locked F (Reply F) :=
  match args with
  | [key] => read_string shard key bull null_bulk
  | _ => return .Error (wrong_number "get")

def cmd_strlen (args : List Bytes) : Locked F (Reply F) :=
  match args with
  | [key] => read_string shard key (fun s => int s.length) (int 0)
  | _ => return .Error (wrong_number "strlen")

def cmd_getrange (args : List Bytes) : Locked F (Reply F) :=
  match args with
  | [key, start, stop] =>
    match parse_i64 start, parse_i64 stop with
    | some start, some stop =>
      read_string shard key (fun s => bull (byte_range s start.toInt stop.toInt)) (bull [])
    | _, _ => return not_integer
  | _ => return .Error (wrong_number "getrange")

/-- `store.get(key)` with a reference that lives only as long as the entry is looked at. -/
def peek (key : Bytes) : Locked F (Option (Entry F)) := do
  let entry ← get shard key
  if entry.isSome then drop_guard
  return entry

def mget_values : List Bytes → Locked F (List (Reply F))
  | [] => return []
  | key :: keys => do
    let value := string_of (← peek shard key)
    return .BulkString value :: (← mget_values keys)

def cmd_mget (args : List Bytes) : Locked F (Reply F) := do
  if args.isEmpty then return .Error (wrong_number "mget")
  return .Array (some (← mget_values shard args))

def ttl_until (key : Bytes) (unit ts : ℕ) : Locked F (Option Duration) := do
  let now := (← (Store.unix_time : StoreM F ℕ)) / unit % 2 ^ 64
  if ts > now then return some ((ts - now) * unit)
  else do
    let _ ← del shard key
    return none

def set_options (key : Bytes) : List Bytes → SetOptions → Locked F (Except (Reply F) SetOptions)
  | [], opts => return .ok opts
  | opt :: rest, opts =>
    match option_name opt with
    | none => return .error syntax_error
    | some name =>
      match expiry_option name with
      | some (unit, absolute) =>
        match rest with
        | [] => return .error syntax_error
        | number :: rest =>
          match parse_u64 number with
          | none => return .error not_integer
          | some n =>
            if absolute then do
              match ← ttl_until shard key unit n with
              | some ttl => set_options key rest { opts with ttl := some ttl }
              | none => return .error null_bulk
            else set_options key rest { opts with ttl := some (n * unit) }
      | none =>
        if name = "KEEPTTL" then set_options key rest { opts with ttl := none }
        else if name = "NX" then set_options key rest { opts with nx := true }
        else if name = "XX" then set_options key rest { opts with xx := true }
        else if name = "GET" then set_options key rest { opts with get := true }
        else return .error syntax_error

def old_value (key : Bytes) (get : Bool) : Locked F (Option Bytes) :=
  if get then do return string_of (← peek shard key) else return none

def set_with (key value : Bytes) (opts : SetOptions) : Locked F (Reply F) := do
  let key_exists ← exists_key shard key
  if opts.nx && key_exists then
    if opts.get then read_string shard key bull null_bulk else return null_bulk
  else if opts.xx && !key_exists then return null_bulk
  else do
    let old ← old_value shard key opts.get
    maybe_evict shard
    set shard key (.String value) opts.ttl
    return if opts.get then .BulkString old else ok

def cmd_set (args : List Bytes) : Locked F (Reply F) :=
  match args with
  | key :: value :: opts => do
    match ← set_options shard key opts ⟨none, false, false, false⟩ with
    | .error reply => return reply
    | .ok opts => set_with shard key value opts
  | _ => return .Error (wrong_number "set")

def del_keys : List Bytes → ℕ → Locked F ℕ
  | [], count => return count
  | key :: keys, count => do
    let found ← del shard key
    del_keys keys (if found then count + 1 else count)

def cmd_del (args : List Bytes) : Locked F (Reply F) := do
  if args.isEmpty then return .Error (wrong_number "del")
  return int (← del_keys shard args 0)

/-- GETSET. With a value of another type `set` is called while the reference is alive. -/
def cmd_getset (args : List Bytes) : Locked F (Reply F) :=
  match args with
  | [key, value] => do
    match ← get shard key with
    | some entry =>
      match entry.data with
      | .String s => do
        drop_guard
        set shard key (.String value) none
        return bull s
      | _ => do
        set shard key (.String value) none
        drop_guard
        return wrong_type
    | none => do
      set shard key (.String value) none
      return null_bulk
  | _ => return .Error (wrong_number "getset")

def set_pairs : List Bytes → Locked F Unit
  | key :: value :: rest => do
    set shard key (.String value) none
    set_pairs rest
  | _ => return ()

def any_exists : List Bytes → Locked F Bool
  | key :: _ :: rest => do
    if ← exists_key shard key then return true
    any_exists rest
  | _ => return false

def cmd_mset (args : List Bytes) : Locked F (Reply F) := do
  if args.isEmpty ∨ args.length % 2 ≠ 0 then return .Error (wrong_number "mset")
  set_pairs shard args
  return ok

def cmd_msetnx (args : List Bytes) : Locked F (Reply F) := do
  if args.isEmpty ∨ args.length % 2 ≠ 0 then return .Error (wrong_number "msetnx")
  if ← any_exists shard args then return int 0
  set_pairs shard args
  return int 1

def cmd_setnx (args : List Bytes) : Locked F (Reply F) :=
  match args with
  | [key, value] => do
    if ← exists_key shard key then return int 0
    set shard key (.String value) none
    return int 1
  | _ => return .Error (wrong_number "setnx")

def setex (cmd : String) (unit : ℕ) (args : List Bytes) : Locked F (Reply F) :=
  match args with
  | [key, time, value] =>
    match parse_u64 time with
    | some n => do
      set shard key (.String value) (some (n * unit))
      return ok
    | none => return not_integer
  | _ => return .Error (wrong_number cmd)

def getex_option (key : Bytes) (opts : List Bytes) :
    Locked F (Except (Reply F) (Option Duration)) :=
  match opts with
  | [] => return .ok none
  | opt :: rest =>
    match option_name opt with
    | none => return .error syntax_error
    | some name =>
      match expiry_option name with
      | some (unit, absolute) =>
        match rest with
        | [] => return .error syntax_error
        | number :: _ =>
          let n := (parse_u64 number).getD 0
          if absolute then do
            match ← ttl_until shard key unit n with
            | some ttl => return .ok (some ttl)
            | none => return .error null_bulk
          else return .ok (some (n * unit))
      | none =>
        if name = "PERSIST" then do
          let entry ← find_mut shard key ({ · with expires_at := none })
          if entry.isSome then drop_guard
          return .ok none
        else if name = "KEEPTTL" then return .ok none
        else return .error syntax_error

def getex_value (key : Bytes) : Locked F (Reply F) := do
  match ← get shard key with
  | some entry => do
    drop_guard
    match entry.data with
    | .String s => return bull s
    | _ => (Prog.fail .Panic : StoreM F _)
  | none => return null_bulk

def cmd_getex (args : List Bytes) : Locked F (Reply F) :=
  match args with
  | key :: opts =>
    if opts.length > 2 then return .Error (wrong_number "getex") else do
    match (← peek shard key).map Entry.data with
    | some (.String _) => do
      match ← getex_option shard key opts with
      | .error reply => return reply
      | .ok none => getex_value shard key
      | .ok (some ttl) => do
        match string_of (← peek shard key) with
        | some value => do
          set shard key (.String value) (some ttl)
          getex_value shard key
        | none => return null_bulk
    | some _ => return wrong_type
    | none => return null_bulk
  | [] => return .Error (wrong_number "getex")

/-- GETDEL, which drops the reference itself. -/
def cmd_getdel (args : List Bytes) : Locked F (Reply F) :=
  match args with
  | [key] => do
    let entry ← get shard key
    if entry.isSome then drop_guard
    let _ ← del shard key
    match entry.map Entry.data with
    | some (.String s) => return bull s
    | some _ => return wrong_type
    | none => return null_bulk
  | _ => return .Error (wrong_number "getdel")

def insert_string (key value : Bytes) : Locked F Unit := do
  let entry ← (do Entry.new (.String value) none (← Store.now) : StoreM F (Entry F))
  let _ ← replace shard key (some entry)

/-- `match dm.get_mut(key)`, with a reference that lives to the end of the command. -/
def edit (key : Bytes) (f : Bytes → Option Bytes × Except Halt (Reply F))
    (absent : Locked F (Reply F)) : Locked F (Reply F) := do
  match ← find_mut shard key (edit_entry fun s => (f s).1) with
  | some entry =>
    match entry.data with
    | .String s => do
      let reply ← ((f s).2 : StoreM F (Reply F))
      drop_guard
      return reply
    | _ => do
      drop_guard
      return wrong_type
  | none => absent

def cmd_incrby_internal (key : Bytes) (increment : Int64) : Locked F (Reply F) :=
  edit shard key
    (fun s => match parse_i64 s with
      | some current =>
        (some (int_bytes (current + increment)), .ok (.Integer (current + increment)))
      | none => (none, .ok not_integer))
    (do
      insert_string shard key (int_bytes increment)
      return .Integer increment)

def incr (cmd : String) (by_ : Int64) (args : List Bytes) : Locked F (Reply F) :=
  match args with
  | [key] => cmd_incrby_internal shard key by_
  | _ => return .Error (wrong_number cmd)

def incrby (cmd : String) (sign : Int64 → Int64) (args : List Bytes) : Locked F (Reply F) :=
  match args with
  | [key, by_] =>
    match parse_i64 by_ with
    | some n => cmd_incrby_internal shard key (sign n)
    | none => return not_integer
  | _ => return .Error (wrong_number cmd)

def cmd_incrbyfloat (args : List Bytes) : Locked F (Reply F) :=
  match args with
  | [key, by_] =>
    match (parse_f64 by_ : Option F) with
    | none => return not_float
    | some increment =>
      let shown (d : F) : Bytes := as_bytes (Score.display d)
      edit shard key
        (fun s => match (parse_f64 s : Option F) with
          | some current =>
            let sum := shown (Score.add current increment)
            (some sum, .ok (bull sum))
          | none => (none, .ok not_float))
        (do
          insert_string shard key (shown increment)
          return bull (shown increment))
  | _ => return .Error (wrong_number "incrbyfloat")

def cmd_append (args : List Bytes) : Locked F (Reply F) :=
  match args with
  | [key, value] =>
    edit shard key (fun s => (some (s ++ value), .ok (int (s ++ value).length)))
      (do
        insert_string shard key value
        return int value.length)
  | _ => return .Error (wrong_number "append")

def cmd_setrange (args : List Bytes) : Locked F (Reply F) :=
  match args with
  | [key, offset, value] =>
    match parse_u64 offset with
    | none => return not_integer
    | some offset =>
      let stop := (offset + value.length) % 2 ^ 64
      if stop > 512 * 1024 * 1024 then
        return .Error "ERR string exceeds maximum allowed size"
      else if stop < offset then
        edit shard key (fun _ => (none, .error .Panic)) (Prog.fail .Panic : StoreM F _)
      else edit shard key
        (fun s => (some (splice s offset value), .ok (int (splice s offset value).length)))
        (do
          insert_string shard key (splice [] offset value)
          return int stop)
  | _ => return .Error (wrong_number "setrange")

def lcs_fetch (key : Bytes) : Locked F (Except (Reply F) Bytes) := do
  match (← peek shard key).map Entry.data with
  | some (.String s) => return .ok s
  | some _ => return .error wrong_type
  | none => return .ok []

def cmd_lcs (args : List Bytes) : Locked F (Reply F) :=
  match args with
  | key1 :: key2 :: opts =>
    match lcs_options opts ⟨false, false, false, 0⟩ with
    | .error reply => return reply
    | .ok opts =>
      if opts.want_len && opts.want_idx then
        return .Error "ERR If you want both the length and indexes, please just use IDX."
      else do
        match ← lcs_fetch shard key1 with
        | .error reply => return reply
        | .ok a =>
          match ← lcs_fetch shard key2 with
          | .error reply => return reply
          | .ok b => return lcs_reply opts a b
  | _ => return .Error (wrong_number "lcs")

def handle (name : String) (args : List Bytes) : Locked F (Reply F) :=
  match name with
  | "GET" => cmd_get shard args
  | "SET" => cmd_set shard args
  | "DEL" => cmd_del shard args
  | "GETSET" => cmd_getset shard args
  | "MGET" => cmd_mget shard args
  | "MSET" => cmd_mset shard args
  | "MSETNX" => cmd_msetnx shard args
  | "INCR" => incr shard "incr" 1 args
  | "DECR" => incr shard "decr" (-1) args
  | "INCRBY" => incrby shard "incrby" id args
  | "DECRBY" => incrby shard "decrby" (- ·) args
  | "INCRBYFLOAT" => cmd_incrbyfloat shard args
  | "APPEND" => cmd_append shard args
  | "STRLEN" => cmd_strlen shard args
  | "GETRANGE" => cmd_getrange shard args
  | "SETRANGE" => cmd_setrange shard args
  | "SETNX" => cmd_setnx shard args
  | "SETEX" => setex shard "setex" (10 ^ 9) args
  | "PSETEX" => setex shard "psetex" (10 ^ 6) args
  | "GETEX" => cmd_getex shard args
  | "GETDEL" => cmd_getdel shard args
  | "LCS" => cmd_lcs shard args
  | _ => return .Error ("ERR unknown command `" ++ name ++ "`")

end Store

/-! ## Programs without guards -/

/-- The program never waits for itself, whatever it is told. -/
def Sane {α : Type} : StoreM F α → Prop
  | .pure _ => True
  | .fail e => e ≠ .Deadlock
  | .op _ next => ∀ r, Sane (next r)

section Rules

variable {α β : Type} {shard : Bytes → ℕ}

variable {p : StoreM F α} {held : List Guard}

theorem Sane.bind {f : α → StoreM F β} (hp : Sane p) (hf : ∀ a, Sane (f a)) : Sane (p >>= f) := by
  induction p with
  | pure a => exact hf a
  | fail e => exact hp
  | op o next ih => exact fun r => ih r (hp r)

theorem Sane.run (hp : Sane p) (w : World F) : (p.run step w).1 ≠ .error .Deadlock := by
  induction p generalizing w with
  | pure a => exact fun h => (nomatch h)
  | fail e =>
    intro h
    cases h
    exact hp rfl
  | op o next ih => exact ih _ (hp _) _

/-- From these guards on, the command does what the program without guards does, never waits for
itself, and leaves no guards behind. -/
structure Ends (held : List Guard) (x : Locked F α) (p : StoreM F α) : Prop where
  run : x.run held = p >>= fun a => pure (a, [])
  sane : Sane p

theorem Ends.pure (a : α) : Ends [] (Pure.pure a : Locked F α) (Pure.pure a) := ⟨rfl, trivial⟩

theorem Ends.bind {x : Locked F α} {f : α → Locked F β}
    {g : α → StoreM F β} (hx : Ends held x p) (hf : ∀ a, Ends [] (f a) (g a)) :
    Ends held (x >>= f) (p >>= g) := by
  refine ⟨?_, hx.sane.bind fun a => (hf a).sane⟩
  rw [StateT.run_bind, hx.run, Prog.bind_assoc, Prog.bind_assoc]
  exact congrArg (p >>= ·) (funext fun a => (hf a).run)

theorem Ends.free {q : StoreM F α} (hq : Sane q) {f : α → Locked F β}
    {g : α → StoreM F β} (hf : ∀ a, Ends held (f a) (g a)) :
    Ends held ((liftM q : Locked F α) >>= f) (q >>= g) := by
  refine ⟨?_, hq.bind fun a => (hf a).sane⟩
  rw [StateT.run_bind, Prog.bind_assoc]
  show (q >>= fun a => Pure.pure (a, held)) >>= _ = _
  rw [Prog.bind_assoc]
  exact congrArg (q >>= ·) (funext fun a => (hf a).run)

theorem Ends.drop {g : Guard} {x : Unit → Locked F α} (hx : Ends [] (x ()) p) :
    Ends [g] (drop_guard >>= x) p := ⟨hx.run, hx.sane⟩

theorem Ends.ite {c : Prop} [Decidable c] {x y : Locked F α} {q : StoreM F α}
    (hx : c → Ends held x p) (hy : ¬ c → Ends held y q) :
    Ends held (if c then x else y) (if c then p else q) := by
  by_cases hc : c
  · rw [if_pos hc, if_pos hc]
    exact hx hc
  · rw [if_neg hc, if_neg hc]
    exact hy hc

/-! ## The methods -/

variable (key : Bytes)

theorem sane_access (f : Option (Entry F) → Option (Entry F)) :
    Sane (Store.access key f : StoreM F _) := fun _ => trivial

theorem Ends.guarded {g₀ : Guard} {x : Locked F (Option (Entry F))} {p : StoreM F (Option (Entry F))}
    (hp : Sane p) (hx : x.run [] = p >>= fun e => Pure.pure (e, if e.isSome then [g₀] else []))
    {f : Option (Entry F) → Locked F α} {g : Option (Entry F) → StoreM F α}
    (hnone : Ends [] (f none) (g none)) (hsome : ∀ e, Ends [g₀] (f (some e)) (g (some e))) :
    Ends [] (x >>= f) (p >>= g) := by
  refine ⟨?_, hp.bind fun e => ?_⟩
  · rw [StateT.run_bind, hx, Prog.bind_assoc, Prog.bind_assoc]
    refine congrArg (p >>= ·) (funext fun e => ?_)
    cases e with
    | none => exact hnone.run
    | some e => exact (hsome e).run
  · cases e with
    | none => exact hnone.sane
    | some e => exact (hsome e).sane

theorem find_run :
    (find shard key : Locked F _).run [] = Store.access key id >>= fun e =>
      Pure.pure (e, if e.isSome then [⟨shard key, false⟩] else []) := by
  refine congrArg (Prog.op (StoreOp.access key id)) (funext fun e => ?_)
  cases e <;> rfl

theorem find_mut_run (h : Entry F → Entry F) :
    (find_mut shard key h).run [] = Store.access key (·.map h) >>= fun e =>
      Pure.pure (e, if e.isSome then [⟨shard key, true⟩] else []) := by
  refine congrArg (Prog.op (StoreOp.access key (·.map h))) (funext fun e => ?_)
  cases e <;> rfl

theorem replace_ends (new : Option (Entry F)) :
    Ends [] (replace shard key new) (Store.access key fun _ => new) :=
  ⟨rfl, sane_access key _⟩

theorem sane_is_expired (e : Entry F) : Sane (Store.is_expired e : StoreM F Bool) := by
  unfold Store.is_expired
  cases e.expires_at with
  | none => trivial
  | some t => exact fun _ => trivial

theorem sane_get : Sane (Store.get key : StoreM F _) := by
  refine (sane_access key id).bind fun e => ?_
  cases e with
  | none => trivial
  | some e =>
    refine (sane_is_expired e).bind fun expired => ?_
    cases expired with
    | true => exact fun _ => trivial
    | false => trivial

/-- What `get` found is guarded. -/
theorem get_run :
    (Locks.get shard key : Locked F _).run [] = Store.get key >>= fun e =>
      Pure.pure (e, if e.isSome then [⟨shard key, false⟩] else []) := by
  unfold Locks.get Store.get
  rw [StateT.run_bind, find_run, Prog.bind_assoc, Prog.bind_assoc]
  refine congrArg (Prog.op (StoreOp.access key id)) (funext fun e => ?_)
  cases e with
  | none => rfl
  | some e =>
    show (Store.is_expired e >>= fun expired => Pure.pure (expired, [_])) >>= _ =
      (Store.is_expired e >>= _) >>= _
    simp only [Prog.bind_assoc]
    refine congrArg (Store.is_expired e >>= ·) (funext fun expired => ?_)
    cases expired <;> rfl

theorem Ends.get {key : Bytes} {f : Option (Entry F) → Locked F α}
    {g : Option (Entry F) → StoreM F α} (hnone : Ends [] (f none) (g none))
    (hsome : ∀ e, Ends [⟨shard key, false⟩] (f (some e)) (g (some e))) :
    Ends [] (Locks.get shard key >>= f) (Store.get key >>= g) :=
  .guarded (sane_get key) (get_run key) hnone hsome

theorem exists_key_ends :
    Ends (F := F) [] (exists_key shard key) (Store.exists_key key) :=
  .get (.pure _) fun _ => .drop (.pure _)

theorem peek_ends : Ends (F := F) [] (peek shard key) (Store.get key) := by
  have hget : (Store.get key : StoreM F _) = Store.get key >>= Pure.pure :=
    (bind_pure _).symm
  rw [hget]
  exact .get (.pure none) fun e => .drop (.pure (some e))

theorem sane_new (data : DataType F) (ttl : Option Duration) :
    Sane (do Entry.new data ttl (← Store.now) : StoreM F (Entry F)) := by
  intro now
  show Sane (Prog.ofExcept (Entry.new data ttl now))
  unfold Entry.new
  cases ttl with
  | none => trivial
  | some d =>
    dsimp only
    by_cases hmax : now + d > instant_max
    · rw [if_pos hmax]
      exact nofun
    · rw [if_neg hmax]
      trivial

theorem set_ends (data : DataType F) (ttl : Option Duration) :
    Ends [] (set shard key data ttl) (Store.set key data ttl) := by
  have hset : (Store.set key data ttl : StoreM F Unit) = (do
      Store.notify_watchers key
      let entry ← (do Entry.new data ttl (← Store.now))
      let _ ← Store.access key fun _ => some entry
      call .count_dirty) := by
    unfold Store.set
    simp only [Prog.bind_assoc]
  have hcount : Sane (call .count_dirty : StoreM F Unit) := fun _ => trivial
  rw [hset]
  refine .free (q := Store.notify_watchers key) (fun _ => trivial) fun _ => ?_
  refine .free (sane_new data ttl) fun entry => ?_
  exact .bind (replace_ends key (some entry)) fun _ => ⟨rfl, hcount⟩

theorem del_ends : Ends (F := F) [] (del shard key) (Store.del key) := by
  refine .free (q := Store.notify_watchers key) (fun _ => trivial) fun _ => ?_
  refine .bind (replace_ends key none) fun result => ?_
  cases result with
  | none => exact .pure _
  | some e => exact .free (q := call .count_dirty) (fun _ => trivial) fun _ => .pure _

/-! ## Eviction -/

theorem sane_eviction_score (policy : EvictionPolicy) (e : Entry F) :
    Sane (Store.eviction_score policy e : StoreM F ℤ) := by
  unfold Store.eviction_score
  cases policy with
  | VolatileTtl =>
    cases e.expires_at with
    | none => trivial
    | some t => exact fun _ => trivial
  | AllKeysLfu => trivial
  | VolatileLfu => trivial
  | Noeviction => exact nofun
  | _ => exact fun _ => trivial

theorem sane_draw_candidates (samples : ℕ) (keys candidates : List Bytes) :
    Sane (Store.draw_candidates samples keys candidates : StoreM F _) := by
  induction samples generalizing keys candidates with
  | zero => trivial
  | succ samples ih =>
    unfold Store.draw_candidates
    by_cases hempty : keys.isEmpty
    · rw [if_pos hempty]
      trivial
    · rw [if_neg hempty]
      intro r
      dsimp only [Prog.bind]
      split
      · exact ih _ _
      · trivial

theorem choose_victim_ends (policy : EvictionPolicy) (keys : List Bytes)
    (victim : Option (Bytes × ℤ)) :
    Ends (F := F) [] (choose_victim shard policy keys victim)
      (Store.choose_victim policy keys victim) := by
  induction keys generalizing victim with
  | nil => exact .pure victim
  | cons key keys ih =>
    refine .guarded (sane_access key id) (find_run key) (ih victim) fun e => ?_
    refine .ite (fun _ => .drop (ih victim)) fun _ => ?_
    refine .free (sane_eviction_score policy e) fun score => .drop ?_
    cases victim with
    | none => exact ih _
    | some best => exact .ite (fun _ => ih _) fun _ => ih _

theorem iter_ends : Ends (F := F) [] (iter) Store.iter := ⟨rfl, fun _ => trivial⟩

theorem maybe_evict_ends : Ends (F := F) [] (maybe_evict shard) Store.maybe_evict := by
  refine .free (q := Store.eviction_config) (fun _ => trivial) fun config => ?_
  refine .ite (fun _ => .pure ()) fun _ => ?_
  unfold Store.memory_usage_bytes
  rw [Prog.bind_assoc]
  refine .bind iter_ends fun entries => ?_
  refine .ite (fun _ => .pure ()) fun _ => ?_
  by_cases hpolicy : config.policy = .Noeviction
  · rw [if_pos hpolicy, if_pos hpolicy]
    exact ⟨rfl, fun h => (nomatch h)⟩
  · rw [if_neg hpolicy, if_neg hpolicy]
    refine .bind iter_ends fun entries => ?_
    refine .ite (fun _ => .pure ()) fun _ => ?_
    have hremove : ∀ victim : Option (Bytes × ℤ), Ends [] (match victim with
        | some (key, _) => do
          let _ ← replace shard key none
          (call .count_evicted : StoreM F Unit)
        | none => return () : Locked F Unit) (match victim with
        | some (key, _) => do
          let _ ← Store.access key fun _ => none
          call .count_evicted
        | none => return ()) := by
      rintro (_ | ⟨key, score⟩)
      · exact .pure ()
      · exact .bind (replace_ends key none) fun _ => ⟨rfl, fun _ => trivial⟩
    by_cases hfew : (entries.map Prod.fst).length ≤ max config.maxmemory_samples 1
    · rw [if_pos hfew, if_pos hfew]
      refine .bind (.pure _) fun candidates => ?_
      exact .bind (choose_victim_ends _ _ _) hremove
    · rw [if_neg hfew, if_neg hfew]
      refine .free (sane_draw_candidates _ _ _) fun candidates => ?_
      exact .bind (choose_victim_ends _ _ _) hremove

/-! ## The commands -/

theorem read_string_ends (present : Bytes → Reply F) (absent : Reply F) :
    Ends [] (read_string shard key present absent) (Strings.read_string key present absent) := by
  refine .get (.pure _) fun e => .drop ?_
  dsimp only
  cases e.data <;> exact .pure _

theorem mget_values_ends (keys : List Bytes) :
    Ends (F := F) [] (mget_values shard keys) (Strings.mget_values keys) := by
  induction keys with
  | nil => exact .pure _
  | cons key keys ih => exact .bind (peek_ends key) fun e => .bind ih fun _ => .pure _

theorem ttl_until_ends (unit ts : ℕ) :
    Ends (F := F) [] (ttl_until shard key unit ts) (Strings.ttl_until key unit ts) := by
  refine .free (q := Store.unix_time) (fun _ => trivial) fun now => ?_
  refine .ite (fun _ => .pure _) fun _ => ?_
  exact .bind (del_ends key) fun _ => .pure _

theorem set_options_ends (key : Bytes) : (args : List Bytes) → (opts : SetOptions) →
    Ends (F := F) [] (set_options shard key args opts) (Strings.set_options key args opts)
  | [], opts => .pure _
  | opt :: rest, opts => by
    unfold set_options Strings.set_options
    cases option_name opt with
    | none => exact .pure _
    | some name =>
      dsimp only
      cases expiry_option name with
      | some unit =>
        match rest with
        | [] => exact .pure _
        | number :: rest =>
          dsimp only
          cases parse_u64 number with
          | none => exact .pure _
          | some n =>
            refine .ite (fun _ => ?_) fun _ => set_options_ends key rest _
            refine .bind (ttl_until_ends key unit.1 n) fun ttl => ?_
            cases ttl with
            | none => exact .pure _
            | some ttl => exact set_options_ends key rest _
      | none =>
        refine .ite (fun _ => set_options_ends key rest _) fun _ => ?_
        refine .ite (fun _ => set_options_ends key rest _) fun _ => ?_
        refine .ite (fun _ => set_options_ends key rest _) fun _ => ?_
        exact .ite (fun _ => set_options_ends key rest _) fun _ => .pure _

theorem old_value_ends (get : Bool) :
    Ends (F := F) [] (old_value shard key get) (Strings.old_value key get) :=
  .ite (fun _ => .bind (peek_ends key) fun _ => .pure _) fun _ => .pure _

theorem set_with_ends (key value : Bytes) (opts : SetOptions) :
    Ends (F := F) [] (set_with shard key value opts) (Strings.set_with key value opts) := by
  refine .bind (exists_key_ends key) fun key_exists => ?_
  refine .ite (fun _ => ?_) fun _ => .ite (fun _ => .pure _) fun _ => ?_
  · exact .ite (fun _ => read_string_ends key _ _) fun _ => .pure _
  · refine .bind (old_value_ends key opts.get) fun old => ?_
    refine .bind maybe_evict_ends fun _ => ?_
    exact .bind (set_ends key _ opts.ttl) fun _ => .pure _

theorem del_keys_ends (keys : List Bytes) (count : ℕ) :
    Ends (F := F) [] (del_keys shard keys count) (Strings.del_keys keys count) := by
  induction keys generalizing count with
  | nil => exact .pure _
  | cons key keys ih => exact .bind (del_ends key) fun _ => ih _

theorem set_pairs_ends : (args : List Bytes) →
    Ends (F := F) [] (set_pairs shard args) (Strings.set_pairs args)
  | key :: value :: rest =>
    .bind (set_ends key (.String value) none) fun _ => set_pairs_ends rest
  | [] | [_] => .pure ()

theorem any_exists_ends : (args : List Bytes) →
    Ends (F := F) [] (any_exists shard args) (Strings.any_exists args)
  | key :: _ :: rest => .bind (exists_key_ends key) fun _ =>
    .ite (fun _ => .pure _) fun _ => any_exists_ends rest
  | [] | [_] => .pure _

theorem getex_option_ends (opts : List Bytes) :
    Ends (F := F) [] (getex_option shard key opts) (Strings.getex_option key opts) := by
  unfold getex_option Strings.getex_option
  cases opts with
  | nil => exact .pure _
  | cons opt rest =>
    dsimp only
    cases option_name opt with
    | none => exact .pure _
    | some name =>
      dsimp only
      cases expiry_option name with
      | some unit =>
        cases rest with
        | nil => exact .pure _
        | cons number rest =>
          refine .ite (fun _ => ?_) fun _ => .pure _
          refine .bind (ttl_until_ends key _ _) fun ttl => ?_
          cases ttl <;> exact .pure _
      | none =>
        refine .ite (fun _ => ?_) fun _ => .ite (fun _ => .pure _) fun _ => .pure _
        exact .guarded (sane_access key _) (find_mut_run key _) (.pure _) fun _ =>
          .drop (.pure _)

theorem getex_value_ends : Ends (F := F) [] (getex_value shard key) (Strings.getex_value key) := by
  refine .get (.pure _) fun e => .drop ?_
  dsimp only
  cases e.data with
  | String s => exact .pure _
  | _ => exact ⟨rfl, fun h => (nomatch h)⟩

theorem insert_string_ends (key value : Bytes) :
    Ends (F := F) [] (insert_string shard key value) (Strings.insert_string key value) := by
  have hinsert : (Strings.insert_string key value : StoreM F Unit) = (do
      let entry ← (do Entry.new (.String value) none (← Store.now))
      let _ ← Store.access key fun _ => some entry) := by
    unfold Strings.insert_string
    simp only [Prog.bind_assoc]
  rw [hinsert]
  refine .free (sane_new _ none) fun entry => ?_
  exact .bind (replace_ends key (some entry)) fun _ => .pure ()

theorem edit_ends {key : Bytes} {f : Bytes → Option Bytes × Except Halt (Reply F)}
    (hf : ∀ s, (f s).2 ≠ .error .Deadlock) {x : Locked F (Reply F)} {p : StoreM F (Reply F)}
    (hx : Ends [] x p) : Ends [] (edit shard key f x) (Strings.edit key f p) := by
  refine .guarded (sane_access key _) (find_mut_run key _) hx fun e => ?_
  dsimp only
  cases e.data with
  | String s =>
    dsimp only
    cases hs : (f s).2 with
    | ok reply => exact ⟨rfl, trivial⟩
    | error e => exact ⟨rfl, fun h => hf s (h ▸ hs)⟩
  | _ => exact .drop (.pure _)

theorem incrby_internal_ends (increment : Int64) :
    Ends (F := F) [] (cmd_incrby_internal shard key increment)
      (Strings.cmd_incrby_internal key increment) := by
  refine edit_ends (fun s => ?_) (.bind (insert_string_ends key _) fun _ => .pure _)
  cases parse_i64 s <;> exact fun h => (nomatch h)

theorem lcs_fetch_ends : Ends (F := F) [] (lcs_fetch shard key) (Strings.lcs_fetch key) := by
  refine .bind (peek_ends key) fun e => ?_
  cases e with
  | none => exact .pure _
  | some e =>
    dsimp only [Option.map_some]
    cases e.data <;> exact .pure _

variable (args : List Bytes)

theorem cmd_get_ends : Ends (F := F) [] (cmd_get shard args) (Strings.cmd_get args) :=
  match args with
  | [key] => read_string_ends key _ _
  | [] | _ :: _ :: _ => .pure _

theorem cmd_strlen_ends :
    Ends (F := F) [] (cmd_strlen shard args) (Strings.cmd_strlen args) :=
  match args with
  | [key] => read_string_ends key _ _
  | [] | _ :: _ :: _ => .pure _

theorem cmd_getrange_ends :
    Ends (F := F) [] (cmd_getrange shard args) (Strings.cmd_getrange args) := by
  match args with
  | [key, start, stop] =>
    unfold cmd_getrange Strings.cmd_getrange
    dsimp only
    cases parse_i64 start with
    | none => exact .pure _
    | some start =>
      cases parse_i64 stop with
      | none => exact .pure _
      | some stop => exact read_string_ends key _ _
  | [] | [_] | [_, _] | _ :: _ :: _ :: _ :: _ => exact .pure _

theorem cmd_set_ends : Ends (F := F) [] (cmd_set shard args) (Strings.cmd_set args) := by
  match args with
  | key :: value :: opts =>
    refine .bind (set_options_ends key opts _) fun opts => ?_
    cases opts with
    | error reply => exact .pure _
    | ok opts => exact set_with_ends key value opts
  | [] | [_] => exact .pure _

theorem cmd_setnx_ends : Ends (F := F) [] (cmd_setnx shard args) (Strings.cmd_setnx args) := by
  match args with
  | [key, value] =>
    refine .bind (exists_key_ends key) fun found => .ite (fun _ => .pure _) fun _ => ?_
    exact .bind (set_ends key _ none) fun _ => .pure _
  | [] | [_] | _ :: _ :: _ :: _ => exact .pure _

theorem incr_ends (cmd : String) (by_ : Int64) (args : List Bytes) :
    Ends (F := F) [] (incr shard cmd by_ args) (Strings.incr cmd by_ args) :=
  match args with
  | [key] => incrby_internal_ends key by_
  | [] | _ :: _ :: _ => .pure _

theorem incrby_ends (cmd : String) (sign : Int64 → Int64) (args : List Bytes) :
    Ends (F := F) [] (incrby shard cmd sign args) (Strings.incrby cmd sign args) := by
  match args with
  | [key, by_] =>
    unfold incrby Strings.incrby
    dsimp only
    cases parse_i64 by_ with
    | none => exact .pure _
    | some n => exact incrby_internal_ends key (sign n)
  | [] | [_] | _ :: _ :: _ :: _ => exact .pure _

theorem cmd_incrbyfloat_ends :
    Ends (F := F) [] (cmd_incrbyfloat shard args) (Strings.cmd_incrbyfloat args) := by
  match args with
  | [key, by_] =>
    unfold cmd_incrbyfloat Strings.cmd_incrbyfloat
    dsimp only
    cases (parse_f64 by_ : Option F) with
    | none => exact .pure _
    | some increment =>
      refine edit_ends (fun s => ?_) (.bind (insert_string_ends key _) fun _ => .pure _)
      cases (parse_f64 s : Option F) <;> simp
  | [] | [_] | _ :: _ :: _ :: _ => exact .pure _

theorem cmd_append_ends : Ends (F := F) [] (cmd_append shard args) (Strings.cmd_append args) := by
  match args with
  | [key, value] =>
    refine edit_ends (fun _ => ?_) (.bind (insert_string_ends key value) fun _ => .pure _)
    simp
  | [] | [_] | _ :: _ :: _ :: _ => exact .pure _

theorem cmd_setrange_ends :
    Ends (F := F) [] (cmd_setrange shard args) (Strings.cmd_setrange args) := by
  match args with
  | [key, offset, value] =>
    unfold cmd_setrange Strings.cmd_setrange
    dsimp only
    cases parse_u64 offset with
    | none => exact .pure _
    | some offset =>
      refine .ite (fun _ => .pure _) fun _ => .ite (fun _ => ?_) fun _ => ?_
      · refine edit_ends (fun _ => ?_) ⟨rfl, fun h => (nomatch h)⟩
        simp
      · refine edit_ends (fun _ => ?_) (.bind (insert_string_ends key _) fun _ => .pure _)
        simp
  | [] | [_] | [_, _] | _ :: _ :: _ :: _ :: _ => exact .pure _

theorem setex_ends (cmd : String) (unit : ℕ) (args : List Bytes) :
    Ends (F := F) [] (setex shard cmd unit args) (Strings.setex cmd unit args) := by
  match args with
  | [key, time, value] =>
    unfold setex Strings.setex
    dsimp only
    cases parse_u64 time with
    | none => exact .pure _
    | some n => exact .bind (set_ends key _ _) fun _ => .pure _
  | [] | [_] | [_, _] | _ :: _ :: _ :: _ :: _ => exact .pure _

theorem cmd_getex_ends : Ends (F := F) [] (cmd_getex shard args) (Strings.cmd_getex args) := by
  match args with
  | key :: opts =>
    refine .ite (fun _ => .pure _) fun _ => .bind (peek_ends key) fun e => ?_
    match e.map Entry.data with
    | none => exact .pure _
    | some (.String _) =>
      refine .bind (getex_option_ends key opts) fun r => ?_
      match r with
      | .error _ => exact .pure _
      | .ok none => exact getex_value_ends key
      | .ok (some ttl) =>
        refine .bind (peek_ends key) fun e => ?_
        cases string_of e with
        | none => exact .pure _
        | some value => exact .bind (set_ends key _ _) fun _ => getex_value_ends key
    | some (.List _) | some (.Set _) | some (.ZSet _) | some (.Hash _) | some (.ListPack _)
    | some (.IntSet _) | some (.Stream _) => exact .pure _
  | [] => exact .pure _

theorem cmd_getdel_ends : Ends (F := F) [] (cmd_getdel shard args) (Strings.cmd_getdel args) := by
  match args with
  | [key] =>
    refine .get ?_ fun e => .drop ?_
    · exact .bind (del_ends key) fun _ => .pure _
    · refine .bind (del_ends key) fun _ => ?_
      dsimp only [Option.map_some]
      cases e.data <;> exact .pure _
  | [] | _ :: _ :: _ => exact .pure _

theorem cmd_lcs_ends : Ends (F := F) [] (cmd_lcs shard args) (Strings.cmd_lcs args) := by
  match args with
  | key1 :: key2 :: opts =>
    unfold cmd_lcs Strings.cmd_lcs
    dsimp only
    cases lcs_options opts ⟨false, false, false, 0⟩ with
    | error reply => exact .pure _
    | ok opts =>
      refine .ite (fun _ => .pure _) fun _ => .bind (lcs_fetch_ends key1) fun a => ?_
      cases a with
      | error reply => exact .pure _
      | ok a =>
        refine .bind (lcs_fetch_ends key2) fun b => ?_
        cases b <;> exact .pure _
  | [] | [_] => exact .pure _

theorem cmd_del_ends : Ends (F := F) [] (cmd_del shard args) (Strings.cmd_del args) :=
  .ite (fun _ => .pure _) fun _ => .bind (del_keys_ends _ _) fun _ => .pure _

theorem cmd_mget_ends :
    Ends (F := F) [] (cmd_mget shard args) (Strings.cmd_mget args) :=
  .ite (fun _ => .pure _) fun _ => .bind (mget_values_ends _) fun _ => .pure _

theorem cmd_mset_ends :
    Ends (F := F) [] (cmd_mset shard args) (Strings.cmd_mset args) :=
  .ite (fun _ => .pure _) fun _ => .bind (set_pairs_ends _) fun _ => .pure _

theorem cmd_msetnx_ends : Ends (F := F) [] (cmd_msetnx shard args) (Strings.cmd_msetnx args) := by
  refine .ite (fun _ => .pure _) fun _ => .bind (any_exists_ends _) fun found => ?_
  exact .ite (fun _ => .pure _) fun _ => .bind (set_pairs_ends _) fun _ => .pure _

/-- Every command but GETSET ends, and leaves no guards behind. -/
theorem handle_ends {name : String} (hname : name ≠ "GETSET") (args : List Bytes) :
    Ends (F := F) [] (handle shard name args) (Strings.handle name args) := by
  unfold handle
  split
  · exact cmd_get_ends args
  · exact cmd_set_ends args
  · exact cmd_del_ends args
  · exact absurd rfl hname
  · exact cmd_mget_ends args
  · exact cmd_mset_ends args
  · exact cmd_msetnx_ends args
  · exact incr_ends _ _ args
  · exact incr_ends _ _ args
  · exact incrby_ends _ _ args
  · exact incrby_ends _ _ args
  · exact cmd_incrbyfloat_ends args
  · exact cmd_append_ends args
  · exact cmd_strlen_ends args
  · exact cmd_getrange_ends args
  · exact cmd_setrange_ends args
  · exact cmd_setnx_ends args
  · exact setex_ends _ _ args
  · exact setex_ends _ _ args
  · exact cmd_getex_ends args
  · exact cmd_getdel_ends args
  · exact cmd_lcs_ends args
  · unfold Strings.handle
    split <;> first | contradiction | exact .pure _

theorem Ends.ends {held : List Guard} {x : Locked F α} {p : StoreM F α} (h : Ends held x p)
    (w : World F) : ((x.run held).run step w).1 ≠ .error .Deadlock := by
  have hsane : Sane (p >>= fun a => Pure.pure (a, ([] : List Guard))) :=
    h.sane.bind fun _ => trivial
  rw [h.run]
  exact hsane.run w

theorem is_expired_stale (e : Entry F) (f : Bool → StoreM F α) (w : World F) :
    ∃ w', (Store.is_expired e >>= f).run step w =
      (f (e.stale (w.env.clock 0))).run step w' := by
  unfold Store.is_expired Entry.stale
  cases e.expires_at with
  | none => exact ⟨w, rfl⟩
  | some t => exact ⟨_, rfl⟩

theorem get_seen (key : Bytes) (f : Option (Entry F) → StoreM F α) (w : World F) :
    ∃ w', (Store.get key >>= f).run step w =
      (f (seen (w.env.clock 0) w.store.keyspace key)).run step w' := by
  have hread (g : Option (Entry F) → StoreM F α) :
      (Store.access key id >>= g).run step w =
        (g w.store.keyspace[key]?).run step (step (.access key id) w).2 := rfl
  unfold Store.get
  rw [Prog.bind_assoc, hread]
  cases he : w.store.keyspace[key]? with
  | none =>
    rw [seen_of_none he]
    exact ⟨_, rfl⟩
  | some e =>
    rw [Prog.bind_assoc]
    obtain ⟨w', hw'⟩ := is_expired_stale e (fun expired => (if expired then (do
      let _ ← Store.access key fun _ => none
      return none) else return some e) >>= f) (step (.access key id) w).2
    rw [hw']
    have hclock : (step (.access key id) w).2.env.clock 0 = w.env.clock 0 := rfl
    rw [hclock]
    cases hstale : e.stale (w.env.clock 0) with
    | true =>
      rw [seen_of_stale he hstale]
      exact ⟨_, rfl⟩
    | false =>
      rw [seen_of_some he hstale]
      exact ⟨w', rfl⟩

/-! ## GETSET -/

/-- GETSET of a key that holds a value of another type than a string. -/
def Clash (w : World F) (name : String) (args : List Bytes) : Prop :=
  name = "GETSET" ∧ ∃ key value e, args = [key, value] ∧
    seen (w.env.clock 0) w.store.keyspace key = some e ∧ ∀ s, e.data ≠ .String s

theorem set_waits (key : Bytes) (data : DataType F) (f : Unit → Locked F α) (w : World F) :
    (((set shard key data none >>= f).run [⟨shard key, false⟩]).run step w).1 =
      .error .Deadlock := by
  have hrequest (g : Unit → Locked F α) :
      (request (shard key) true >>= g).run [⟨shard key, false⟩] = .fail .Deadlock := by
    have hasked : ([⟨shard key, false⟩] : List Guard).any
        (fun g => g.shard = shard key && (g.exclusive || true)) = true := by simp
    show ((if _ then _ else _ : Locked F Unit) >>= g) [⟨shard key, false⟩] = _
    rw [if_pos hasked]
    rfl
  have hset : ∃ g : Entry F → Unit → Locked F α, set shard key data none >>= f = (do
      (Store.notify_watchers key : StoreM F Unit)
      let entry ← (do Entry.new data none (← Store.now) : StoreM F (Entry F))
      request (shard key) true >>= g entry) := by
    unfold set replace
    simp only [bind_assoc]
    exact ⟨_, rfl⟩
  obtain ⟨g, hset⟩ := hset
  rw [hset]
  show (Prog.run step ((request (shard key) true >>= g _).run _) _).1 = _
  rw [hrequest]
  rfl

theorem cmd_getset_waits_iff (w : World F) :
    (((cmd_getset shard args).run []).run step w).1 = .error .Deadlock ↔
      Clash w "GETSET" args := by
  match args with
  | [key, value] =>
    unfold cmd_getset
    rw [StateT.run_bind, get_run, Prog.bind_assoc]
    simp only [Prog.pure'_bind]
    obtain ⟨w', hw'⟩ := get_seen key _ w
    rw [hw']
    cases hseen : seen (w.env.clock 0) w.store.keyspace key with
    | none =>
      refine iff_of_false ?_ ?_
      · exact (Ends.bind (set_ends key _ none) fun _ => Ends.pure null_bulk).ends w'
      · rintro ⟨-, key', value', e, hargs, hfound, -⟩
        cases hargs
        cases hseen.symm.trans hfound
    | some e =>
      have hclash : Clash w "GETSET" [key, value] ↔ ∀ s, e.data ≠ .String s := by
        constructor
        · rintro ⟨-, key', value', e', hargs, hfound, hdata⟩
          cases hargs
          cases hseen.symm.trans hfound
          exact hdata
        · exact fun hdata => ⟨rfl, key, value, e, rfl, hseen, hdata⟩
      rw [hclash]
      dsimp only [Option.isSome_some, if_true]
      cases hdata : e.data with
      | String s =>
        refine iff_of_false ?_ fun h => h s rfl
        exact (Ends.drop (Ends.bind (set_ends key _ none) fun _ => Ends.pure (bull s))).ends w'
      | _ => exact iff_of_true (set_waits key _ _ w') (fun s h => (nomatch h))
  | [] | [_] | _ :: _ :: _ :: _ =>
    refine iff_of_false (fun h => (nomatch h)) ?_
    rintro ⟨-, key, value, e, hargs, -⟩
    cases hargs

/-- **No waiting for oneself.** A string command on its own waits for a lock that it holds itself
exactly when it is a GETSET whose key holds a value of another type; in all other cases it ends. -/
theorem string_command_ends_iff (shard : Bytes → ℕ) (name : String) (args : List Bytes)
    (w : World F) :
    (((handle shard name args : Locked F (Reply F)).run []).run step w).1 ≠ .error .Deadlock ↔
      ¬ Clash w name args := by
  by_cases hname : name = "GETSET"
  · subst hname
    exact not_congr (cmd_getset_waits_iff args w)
  · exact iff_of_true ((handle_ends hname args).ends w) fun h => hname h.1

end Rules

/-- A store with a list under the key `k`. -/
def list_world : World Resp.Infinity :=
  let w : World Resp.Infinity := .new .still
  { w with store := { w.store with
    keyspace := (∅ : HashMap Bytes _).insert (as_bytes "k") ⟨.List [as_bytes "a"], none, 0, 1, 1⟩ } }

/-- GETSET of a list waits for itself: the reply would be WRONGTYPE, and it never comes. -/
theorem getset_list_waits :
    (((handle (fun _ => 0) "GETSET" [as_bytes "k", as_bytes "v"] :
      Locked Resp.Infinity (Reply Resp.Infinity)).run []).run step list_world).1 =
        .error .Deadlock := rfl

end ValkeyRs.Locks
