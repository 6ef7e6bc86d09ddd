/-
The state of one connection, `ClientCtx` in `crates/commands/src/server.rs`, and the commands
that only touch it.

A connection carries its name, its flags and its transaction. While a transaction is open
the server queues every command except those that deal with transactions themselves, so the
queue never holds one of these five; that is a field of the state here, and it is what makes
running a queue a plain loop rather than a recursion.

Client-side caching (`tracking`) is left out: nothing but its own subcommands looks at it.
-/
import ValkeyRs.Storage

set_option autoImplicit false

open ValkeyRs Text Storage Resp

namespace ValkeyRs.Server

/-- A command as it comes from the connection: the name and the arguments. -/
abbrev Cmd := List Bytes

def cmd_of (words : List String) : Cmd := words.map as_bytes

/-- The name `dispatch_ctx` goes by, if the first word is text. -/
def name_of (cmd : Cmd) : Option String :=
  match cmd with
  | [] => none
  | first :: _ => (from_utf8 first).toOption.map to_ascii_uppercase

/-- `is_transaction_cmd`. -/
def is_transaction (name : String) : Bool :=
  name = "MULTI" || name = "EXEC" || name = "DISCARD" || name = "WATCH" || name = "UNWATCH"

/-- A command that can be queued: it has a name, and is not about transactions. -/
def queueable (cmd : Cmd) : Bool :=
  match name_of cmd with
  | some name => !is_transaction name
  | none => false

structure ClientFlags where
  no_evict : Bool
  no_touch : Bool
  deriving Repr, DecidableEq

/-- `ClientFlags::default`. -/
def ClientFlags.default : ClientFlags := ⟨false, false⟩

structure ClientCtx where
  id : ℤ
  name : Option String
  db_index : ℕ
  authenticated : Bool
  flags : ClientFlags
  multi : Bool
  queue : List {cmd : Cmd // queueable cmd = true}
  watched : List Bytes
  dirty : Bool

/-- `ClientCtx::new`, with the number it draws. -/
def ClientCtx.new (id : ℤ) : ClientCtx where
  id := id
  name := none
  db_index := 0
  authenticated := false
  flags := .default
  multi := false
  queue := []
  watched := []
  dirty := false

variable {F : Type}

/-- RESET: every field but the number gets its first value again. -/
def cmd_reset (ctx : ClientCtx) : RespValue F × ClientCtx := (.SimpleString "OK", .new ctx.id)

def cmd_select (ctx : ClientCtx) (args : List Bytes) : RespValue F × ClientCtx :=
  match args with
  | [index] =>
    match (from_utf8 index).toOption.map (parse_nat (some 64)) with
    | some (.ok index) => (.SimpleString "OK", { ctx with db_index := index })
    | _ => (.Error "ERR invalid DB index", ctx)
  | _ => (.Error "ERR wrong number of arguments for 'select' command", ctx)

/-! ## CLIENT -/

def cmd_client_getname (ctx : ClientCtx) : RespValue F := .BulkString (ctx.name.map as_bytes)

def cmd_client_setname (ctx : ClientCtx) (args : List Bytes) : RespValue F × ClientCtx :=
  match args with
  | [name] =>
    match from_utf8 name with
    | .ok name => (.SimpleString "OK", { ctx with name := some name })
    | .error _ => (.Error "ERR invalid client name", ctx)
  | _ => (.Error "ERR wrong number of arguments for 'client|setname' command", ctx)

/-- CLIENT NO-EVICT and CLIENT NO-TOUCH: `set` puts the flag in its place. -/
def client_flag (sub : String) (set : Bool → ClientFlags) (ctx : ClientCtx) (args : List Bytes) :
    RespValue F × ClientCtx :=
  match args with
  | [val] =>
    match from_utf8 val with
    | .ok val =>
      (.SimpleString "OK", { ctx with flags := set (to_ascii_lowercase val = "on") })
    | .error _ => (.Error "ERR invalid value", ctx)
  | _ => (.Error ("ERR wrong number of arguments for 'client|" ++ sub ++ "' command"), ctx)

def cmd_client_no_evict (ctx : ClientCtx) : List Bytes → RespValue F × ClientCtx :=
  client_flag "no-evict" (fun on => { ctx.flags with no_evict := on }) ctx

def cmd_client_no_touch (ctx : ClientCtx) : List Bytes → RespValue F × ClientCtx :=
  client_flag "no-touch" (fun on => { ctx.flags with no_touch := on }) ctx

/-- `cmd_client`. The subcommands about tracking and those that reply with a fixed text have
no effect on the state kept here, and what they reply is left to `other`. -/
def cmd_client (other : String → List Bytes → RespValue F) (ctx : ClientCtx) (args : List Bytes) :
    RespValue F × ClientCtx :=
  match args with
  | [] => (.Error "ERR wrong number of arguments for 'client' command", ctx)
  | sub :: rest =>
    match from_utf8 sub with
    | .error _ => (.Error "ERR invalid subcommand", ctx)
    | .ok sub =>
      match to_ascii_uppercase sub with
      | "GETNAME" => (cmd_client_getname ctx, ctx)
      | "SETNAME" => cmd_client_setname ctx rest
      | "ID" => (.Integer (Int64.ofInt ctx.id), ctx)
      | "NO-EVICT" => cmd_client_no_evict ctx rest
      | "NO-TOUCH" => cmd_client_no_touch ctx rest
      | name => (other name rest, ctx)

end ValkeyRs.Server
