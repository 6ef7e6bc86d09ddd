/-
The command loop: `dispatch_ctx` in `crates/commands/src/lib.rs`, the transaction commands of
`transaction.rs`, HELLO of `server.rs`, and any number of connections running them.

A connection sends a command and waits for the reply. The connections run on several threads, and
what they share they reach through calls that lock one entry of a map each, so the step of the
server is one such call: a command on the store is a program (`Pending`), of which an event performs
the next call, and calls of other connections may fall in between. An EXEC takes its queue in one
step and then runs the queued commands one after the other in the same way. The thread that WATCH
starts for each key is a step of its own: it sets the connection's dirty flag, some time after the
notification was sent.

The commands that work on the store are programs given by `Host.handler`, as are the replies of
those that only print.
-/
import ValkeyRs.Acl
import ValkeyRs.Runs
import ValkeyRs.Zset

set_option autoImplicit false
set_option linter.dupNamespace false

open ValkeyRs Text Storage Resp Zset Acl

namespace ValkeyRs.Server

/-- What the connections do not decide themselves: the commands on the store by name, the
replies of the commands that only print, and the hash of the passwords. -/
structure Host (F : Type) [Score F] where
  handler : String → List Bytes → StoreM F (RespValue F)
  client_other : String → List Bytes → RespValue F
  acl_other : AclManager → String → List Bytes → RespValue F
  hasher : String → UInt64

def Host.program {F : Type} [Score F] (H : Host F) (cmd : Cmd) : StoreM F (RespValue F) :=
  H.handler ((name_of cmd).getD "") cmd.tail

/-- What a command of one connection works on, apart from the store. -/
structure Session where
  acl : AclManager
  ctx : ClientCtx

/-- What a command comes to once it has been dispatched: a reply, or a program on the store. -/
inductive Outcome (F : Type) [Score F] where
  | reply (r : RespValue F)
  | work (p : StoreM F (RespValue F))

variable {F : Type} [Score F]

/-! ## HELLO -/

def hello_syntax : RespValue F := .Error "ERR syntax error in HELLO"

/-- The option loop of `cmd_hello`: the error it stops at, if any. The connection keeps what the
options before that did to it. -/
def hello_options (hasher : String → UInt64) (timestamp : ℕ) :
    List Bytes → AclManager → ClientCtx → Option (RespValue F) × AclManager × ClientCtx
  | [], acl, ctx => (none, acl, ctx)
  | opt :: rest, acl, ctx =>
    if option_name opt = some "AUTH" then
      match rest with
      | username :: password :: rest =>
        match cmd_auth (F := F) hasher timestamp acl ctx [username, password] with
        | (.Error e, acl, ctx) => (some (.Error e), acl, ctx)
        | (_, acl, ctx) => hello_options hasher timestamp rest acl ctx
      | _ => (some hello_syntax, acl, ctx)
    else if option_name opt = some "SETNAME" then
      match rest with
      | name :: rest =>
        match from_utf8 name with
        | .ok name => hello_options hasher timestamp rest acl { ctx with name := some name }
        | .error _ => (some hello_syntax, acl, ctx)
      | [] => (some hello_syntax, acl, ctx)
    else (some hello_syntax, acl, ctx)

/-- `env!("CARGO_PKG_VERSION")` of the commands crate. -/
def version : String := "0.1.0"

def hello_reply (proto : ℤ) (ctx : ClientCtx) : RespValue F :=
  let text (s : String) : RespValue F := .BulkString (some (as_bytes s))
  .Array (some [text "server", text "valkey", text "version", text version, text "proto",
    .Integer (Int64.ofInt proto), text "id", .Integer (Int64.ofInt ctx.id), text "mode",
    text "standalone", text "role", text "master", text "modules", .Array (some [])])

/-- The protocol version asked for, if the first argument is one. -/
def hello_proto (arg : Bytes) : Option ℤ :=
  match parse_int (some 64) ((from_utf8 arg).toOption.getD "") with
  | .ok v => if v = 2 ∨ v = 3 then some v else none
  | .error _ => none

def hello_finish (proto : ℤ) :
    Option (RespValue F) × AclManager × ClientCtx → RespValue F × AclManager × ClientCtx
  | (some e, acl, ctx) => (e, acl, ctx)
  | (none, acl, ctx) => (hello_reply proto ctx, acl, ctx)

def cmd_hello (hasher : String → UInt64) (timestamp : ℕ) (acl : AclManager) (ctx : ClientCtx) :
    List Bytes → RespValue F × AclManager × ClientCtx
  | [] => (hello_reply 2 ctx, acl, ctx)
  | first :: rest =>
    match hello_proto first with
    | none => (.Error "NOPROTO unsupported protocol version", acl, ctx)
    | some proto => hello_finish proto (hello_options hasher timestamp rest acl ctx)

/-! ## One command -/

/-- The second the clock shows, for the ACL log. -/
def World.seconds (w : World F) : ℕ := w.env.wall 0 / 10 ^ 9

/-- The `match` on the command name, for a command that passed the check at second `t`. -/
def execute (H : Host F) (t : ℕ) (name : String) (args : List Bytes) (s : Session) :
    Outcome F × Session :=
  match name with
  | "RESET" =>
    let (r, ctx) := cmd_reset s.ctx
    (.reply r, { s with ctx := ctx })
  | "SELECT" =>
    let (r, ctx) := cmd_select s.ctx args
    (.reply r, { s with ctx := ctx })
  | "CLIENT" =>
    let (r, ctx) := cmd_client H.client_other s.ctx args
    (.reply r, { s with ctx := ctx })
  | "HELLO" =>
    let (r, acl, ctx) := cmd_hello H.hasher t s.acl s.ctx args
    (.reply r, ⟨acl, ctx⟩)
  | "AUTH" =>
    let (r, acl, ctx) := cmd_auth H.hasher t s.acl s.ctx args
    (.reply r, ⟨acl, ctx⟩)
  | "ACL" =>
    let (r, acl) := Acl.handle H.hasher H.acl_other s.acl s.ctx args
    (.reply r, { s with acl := acl })
  | _ => (.work (H.handler name args), s)

/-- The part of `dispatch_ctx` behind the transaction commands: queue the command if a
transaction is open, else check and run it. Every argument is checked as if it were a key. -/
def dispatch_plain (H : Host F) (t : ℕ) (cmd : {cmd : Cmd // queueable cmd = true})
    (s : Session) : Outcome F × Session :=
  let name := (name_of cmd.1).getD ""
  let args := cmd.1.tail
  if s.ctx.multi then
    (.reply (.SimpleString "QUEUED"),
      { s with ctx := { s.ctx with queue := s.ctx.queue ++ [cmd] } })
  else if name = "ACL" ∨ name = "AUTH" then execute H t name args s
  else match check_permission t s.acl s.ctx name args with
    | (.error reason, acl) => (.reply (.Error reason), { s with acl := acl })
    | (.ok (), acl) => execute H t name args { s with acl := acl }

/-! ## Transactions -/

def cmd_multi (ctx : ClientCtx) : RespValue F × ClientCtx :=
  if ctx.multi then (.Error "ERR MULTI calls can not be nested", ctx)
  else (.SimpleString "OK", { ctx with multi := true, queue := [], dirty := false })

/-- What DISCARD, and EXEC before it runs anything, leave of the transaction. -/
def end_multi (ctx : ClientCtx) : ClientCtx :=
  { ctx with multi := false, queue := [], watched := [], dirty := false }

def cmd_discard (ctx : ClientCtx) : RespValue F × ClientCtx :=
  if ctx.multi then (.SimpleString "OK", end_multi ctx)
  else (.Error "ERR DISCARD without MULTI", ctx)

def cmd_unwatch (ctx : ClientCtx) : RespValue F × ClientCtx :=
  (.SimpleString "OK", { ctx with watched := [], dirty := false })

/-- The registrations of `cmd_watch`, with the channels its threads will wait on. -/
def register : List Bytes → World F → List ℕ × World F
  | [], w => ([], w)
  | key :: keys, w =>
    let (rx, w) := World.step (.watch key) w
    let (rest, w) := register keys w
    (rx :: rest, w)

/-- An EXEC that has not replied yet: the command, what is left of the queue, and the replies
so far. -/
structure Exec (F : Type) where
  cmd : Cmd
  rest : List {cmd : Cmd // queueable cmd = true}
  results : List (RespValue F)

/-- `results.push(response)`. -/
def Exec.push (x : Exec F) (r : RespValue F) : Exec F := { x with results := x.results ++ [r] }

/-- A command that is being run, and what is left of it. -/
structure Pending (F : Type) [Score F] where
  cmd : Cmd
  prog : StoreM F (RespValue F)

/-- A command that was run, and the reply. -/
structure Executed (F : Type) where
  cmd : Cmd
  reply : Option (RespValue F)

/-- A connection: its state, the EXEC and the command it is in, the channels its watcher threads
wait on, and whether its task is at an end. `history` records the commands it has run. -/
structure Conn (F : Type) [Score F] where
  ctx : ClientCtx
  running : Option (Exec F)
  pending : Option (Pending F)
  waiting : List ℕ
  closed : Bool
  history : List (Executed F)

def Conn.new (id : ℤ) : Conn F := ⟨.new id, none, none, [], false, []⟩

def Conn.idle (c : Conn F) : Bool := !c.closed && c.running.isNone && c.pending.isNone

/-! ## The task of a connection -/

/-- What the task of a connection can reach: the store, the users, and the connection. -/
structure Task (F : Type) [Score F] where
  world : World F
  acl : AclManager
  conn : Conn F

namespace Task

def session (t : Task F) : Session := ⟨t.acl, t.conn.ctx⟩

def put (t : Task F) (v : Session) : Task F :=
  { t with acl := v.acl, conn := { t.conn with ctx := v.ctx } }

/-- Record a command and its reply. Without a reply the connection has ended. -/
def note (t : Task F) (cmd : Cmd) (reply : Option (RespValue F)) : Task F :=
  { t with conn := { t.conn with
      closed := t.conn.closed || reply.isNone
      history := t.conn.history ++ [⟨cmd, reply⟩] } }

/-- A command that only touches the connection's own state. -/
def own (t : Task F) (cmd : Cmd) (result : RespValue F × ClientCtx) : Task F :=
  { t with conn := { t.conn with ctx := result.2 } }.note cmd (some result.1)

def cmd_watch (t : Task F) (cmd : Cmd) : Task F :=
  let args := cmd.tail
  if args.isEmpty then
    t.note cmd (some (.Error "ERR wrong number of arguments for 'watch' command"))
  else if t.conn.ctx.multi then
    t.note cmd (some (.Error "ERR WATCH inside MULTI is not allowed"))
  else
    let (rxs, world) := register args t.world
    let conn : Conn F := { t.conn with
      ctx := { t.conn.ctx with watched := args, dirty := false }
      waiting := t.conn.waiting ++ rxs }
    { t with world := world, conn := conn }.note cmd (some (.SimpleString "OK"))

/-- A command has come to its end: the reply goes to the client, or to the EXEC the command was
queued for. A panic takes the task of the connection with it, and a task that waits for itself
never goes on; there is no reply. -/
def answer (t : Task F) (cmd : Cmd) (reply : Option (RespValue F)) : Task F :=
  let conn : Conn F := { t.conn with
    pending := none
    running := reply.bind fun r => t.conn.running.map (·.push r) }
  { t with conn := conn }.note cmd reply

/-- One command that is not about transactions, up to the first call on the store. -/
def run_plain (H : Host F) (t : Task F) (cmd : {cmd : Cmd // queueable cmd = true}) : Task F :=
  match dispatch_plain H (World.seconds t.world) cmd t.session with
  | (.reply r, v) => (t.put v).answer cmd.1 (some r)
  | (.work p, v) =>
    { t.put v with conn := { (t.put v).conn with pending := some ⟨cmd.1, p⟩ } }

/-- The next call of a command on the store. `Err` becomes an error reply. -/
def advance (t : Task F) (x : Pending F) : Task F :=
  match x.prog with
  | .pure r => t.answer x.cmd (some r)
  | .fail (.Err e) => t.answer x.cmd (some (.Error e))
  | .fail .Panic | .fail .Deadlock => t.answer x.cmd none
  | .op o next =>
    let (r, world) := World.step o t.world
    { t with world := world, conn := { t.conn with pending := some ⟨x.cmd, next r⟩ } }

def set_running (t : Task F) (x : Option (Exec F)) : Task F :=
  { t with conn := { t.conn with running := x } }

/-- One turn of the loop in `cmd_exec`, or its end. A queued command goes through `dispatch_ctx`
again; it is none of the transaction commands. -/
def exec_next (H : Host F) (t : Task F) : Task F :=
  match t.conn.running with
  | none => t
  | some ⟨cmd, [], results⟩ => (t.set_running none).note cmd (some (.Array (some results)))
  | some ⟨cmd, queued :: rest, results⟩ =>
    (t.set_running (some ⟨cmd, rest, results⟩)).run_plain H queued

def cmd_exec (t : Task F) (cmd : Cmd) : Task F :=
  let ctx := t.conn.ctx
  if !ctx.multi then t.note cmd (some (.Error "ERR EXEC without MULTI"))
  else if ctx.dirty then t.own cmd (.Array none, end_multi ctx)
  else { t with conn := { t.conn with
    ctx := end_multi ctx
    running := some ⟨cmd, ctx.queue, []⟩ } }

/-- `transaction::handle`. -/
def transaction (t : Task F) (cmd : Cmd) (name : String) : Task F :=
  match name with
  | "MULTI" => t.own cmd (cmd_multi t.conn.ctx)
  | "DISCARD" => t.own cmd (cmd_discard t.conn.ctx)
  | "EXEC" => t.cmd_exec cmd
  | "WATCH" => t.cmd_watch cmd
  | "UNWATCH" => t.own cmd (cmd_unwatch t.conn.ctx)
  | _ => t.note cmd (some (.Error "ERR internal error"))

def dispatch_ctx (H : Host F) (t : Task F) (cmd : Cmd) : Task F :=
  match name_of cmd with
  | none =>
    let e := if cmd.isEmpty then "ERR empty command" else "ERR invalid command name"
    t.note cmd (some (.Error e))
  | some name =>
    if h : queueable cmd = true then t.run_plain H ⟨cmd, h⟩ else t.transaction cmd name

end Task

/-- What can happen to a connection: it sends a command, its command or its EXEC goes on, or one
of its watcher threads wakes up. -/
inductive Action where
  | send (cmd : Cmd)
  | resume
  | deliver (rx : ℕ)

/-- One action. Nothing happens if it cannot: the connection is busy or gone, there is nothing to
go on with, or nothing to receive. -/
def Task.step (H : Host F) (t : Task F) : Action → Task F
  | .send cmd => if t.conn.idle then t.dispatch_ctx H cmd else t
  | .resume =>
    if t.conn.closed then t
    else match t.conn.pending with
      | some x => t.advance x
      | none => t.exec_next H
  | .deliver rx =>
    if rx ∈ t.conn.waiting ∧ rx ∈ t.world.sent then
      { t with conn := { t.conn with
          ctx := { t.conn.ctx with dirty := true }
          waiting := t.conn.waiting.erase rx } }
    else t

/-! ## Many connections -/

structure Event where
  conn : ℕ
  action : Action

/-- The server with its connections. -/
structure Server (F : Type) [Score F] where
  world : World F
  acl : AclManager
  conns : ℕ → Conn F

namespace Server

def start (world : World F) (acl : AclManager) : Server F := ⟨world, acl, fun i => .new (i + 1)⟩

def task (s : Server F) (i : ℕ) : Task F := ⟨s.world, s.acl, s.conns i⟩

def step (H : Host F) (s : Server F) (e : Event) : Server F :=
  let t := (s.task e.conn).step H e.action
  ⟨t.world, t.acl, Function.update s.conns e.conn t.conn⟩

/-- The server after a list of events. -/
abbrev run (H : Host F) : Server F → List Event → Server F := Runs.run (step H)

end Server

end ValkeyRs.Server
