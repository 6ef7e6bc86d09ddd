/-
Scripts, `crates/scripting/src/lib.rs`.

A script is run by a Lua interpreter that the repository takes from elsewhere. What the repository
gives to it are functions, `redis.call` and `redis.pcall`, that run commands of their own on the
store: `dispatch_redis_command` is a second implementation of sixteen commands. The functions are
made anew for every evaluation and remember whether that evaluation was read-only.

All evaluations share one Lua state, and a function of one can be kept in a global variable and
called by a later one. So the interpreter is a parameter here, `Lua`, about which one thing is
assumed: a script can only call functions that it is given or that it can reach from the globals. A
script is a program (`Prog`) whose operations are the calls it makes.

The functions that only print, and the conversion of a reply to a Lua value and back, are left out.
-/
import ValkeyRs.Keys

set_option autoImplicit false

open ValkeyRs Text Storage Zset Strings

namespace ValkeyRs.Scripting

variable {F : Type} [Score F]

/-! ## The commands of a script -/

def put (key value : Bytes) (reply : Reply F) : StoreM F (Reply F) := do
  Store.set key (.String value) none
  return reply

/-- INCR and its relatives. What is not a number counts as zero. -/
def add_to (key : Bytes) (change : Int64 → Int64) : StoreM F (Reply F) := do
  match (← Store.get key).map Entry.data with
  | some (.String s) =>
    let new_val := change ((parse_i64 s).getD 0)
    put key (int_bytes new_val) (.Integer new_val)
  | some _ => return wrong_type
  | none => put key (int_bytes (change 0)) (.Integer (change 0))

/-- INCRBY and DECRBY read their number before the key. -/
def add_number (key number : Bytes) (change : Int64 → Int64 → Int64) : StoreM F (Reply F) :=
  match parse_i64 number with
  | some n => add_to key (change · n)
  | none => return not_integer

def expire_key (key number : Bytes) : StoreM F (Reply F) :=
  match parse_i64 number with
  | some seconds => do
    let at_ ← Keys.deadline (seconds.toInt.toNat * 10 ^ 9)
    return int (if ← Store.expire key at_ then 1 else 0)
  | none => return not_integer

/-- TTL does not look at the clock. -/
def time_to_live (key : Bytes) : StoreM F (Reply F) := do
  match ← Store.get key with
  | some entry =>
    match entry.expires_at with
    | some _ => return .Integer 20
    | none => return .Integer (-1)
  | none => return .Integer (-2)

def append_to (key value : Bytes) : StoreM F (Reply F) := do
  match (← Store.get key).map Entry.data with
  | some (.String s) => put key (s ++ value) (int (s ++ value).length)
  | some _ => return wrong_type
  | none => put key value (int value.length)

def type_of (key : Bytes) : StoreM F (Reply F) := do
  match ← Store.get key with
  | some entry => return .SimpleString (Keys.type_name entry.data)
  | none => return .SimpleString "none"

/-- A command with at least one argument, of which only the first is looked at. -/
def with_key (cmd : String) (f : Bytes → StoreM F (Reply F)) (args : List Bytes) :
    StoreM F (Reply F) :=
  match args with
  | key :: _ => f key
  | [] => return .Error (wrong_number cmd)

/-- A command with at least two arguments, of which only those are looked at. -/
def with_value (cmd : String) (f : Bytes → Bytes → StoreM F (Reply F)) (args : List Bytes) :
    StoreM F (Reply F) :=
  match args with
  | key :: value :: _ => f key value
  | _ => return .Error (wrong_number cmd)

/-- The commands that `redis.call` knows. -/
inductive ScriptCommand where
  | GET
  | SET
  | DEL
  | EXISTS
  | INCR
  | DECR
  | INCRBY
  | DECRBY
  | EXPIRE
  | TTL
  | APPEND
  | GETEX
  | STRLEN
  | PING
  | ECHO
  | TYPE
  deriving Repr, DecidableEq

namespace ScriptCommand

def all : List ScriptCommand :=
  [.GET, .SET, .DEL, .EXISTS, .INCR, .DECR, .INCRBY, .DECRBY, .EXPIRE, .TTL, .APPEND, .GETEX,
    .STRLEN, .PING, .ECHO, .TYPE]

def name : ScriptCommand → String
  | .GET => "GET"
  | .SET => "SET"
  | .DEL => "DEL"
  | .EXISTS => "EXISTS"
  | .INCR => "INCR"
  | .DECR => "DECR"
  | .INCRBY => "INCRBY"
  | .DECRBY => "DECRBY"
  | .EXPIRE => "EXPIRE"
  | .TTL => "TTL"
  | .APPEND => "APPEND"
  | .GETEX => "GETEX"
  | .STRLEN => "STRLEN"
  | .PING => "PING"
  | .ECHO => "ECHO"
  | .TYPE => "TYPE"

/-- The arms of `dispatch_redis_command`. -/
def handler : ScriptCommand → List Bytes → StoreM F (Reply F)
  | .GET => with_key "get" (read_string · bull null_bulk)
  | .SET => with_value "set" (put · · ok)
  | .DEL => cmd_del
  | .EXISTS => Keys.cmd_exists
  | .INCR => with_key "incr" (add_to · (· + 1))
  | .DECR => with_key "decr" (add_to · (· - 1))
  | .INCRBY => with_value "incrby" (add_number · · (· + ·))
  | .DECRBY => with_value "decrby" (add_number · · (· - ·))
  | .EXPIRE => with_value "expire" expire_key
  | .TTL => with_key "ttl" time_to_live
  | .APPEND => with_value "append" append_to
  | .GETEX => with_key "getex" (read_string · bull null_bulk)
  | .STRLEN => with_key "strlen" (read_string · (fun s => int s.length) (int 0))
  | .PING => fun _ => return .SimpleString "PONG"
  | .ECHO => with_key "echo" (fun value => return bull value)
  | .TYPE => with_key "type" type_of

def named (cmd : String) : Option ScriptCommand := all.find? fun c => c.name = cmd

theorem name_of_named {cmd : String} {c : ScriptCommand} (h : named cmd = some c) : c.name = cmd := by
  simpa using List.find?_some h

theorem named_name (c : ScriptCommand) : named c.name = some c := by
  cases c <;> decide

end ScriptCommand

def dispatch_redis_command (cmd : String) (args : List Bytes) : StoreM F (Reply F) :=
  match ScriptCommand.named cmd with
  | some c => c.handler args
  | none => return .Error ("ERR unknown Redis command '" ++ cmd ++ "'")

def is_write_command (cmd : String) : Bool :=
  ["SET", "DEL", "INCR", "DECR", "INCRBY", "DECRBY", "APPEND", "EXPIRE", "SETEX", "PSETEX", "SETNX",
    "MSET", "MSETNX", "GETSET", "GETDEL", "RENAME", "RENAMENX", "LPUSH", "RPUSH", "LPOP", "RPOP",
    "LINSERT", "LREM", "LTRIM", "LSET", "SADD", "SREM", "SPOP", "SMOVE", "ZADD", "ZREM", "ZINCRBY",
    "ZPOPMIN", "ZPOPMAX", "HSET", "HDEL", "HINCRBY", "HINCRBYFLOAT", "HMSET", "XADD", "XDEL",
    "FLUSHDB", "FLUSHALL", "UNLINK", "COPY", "RESTORE", "SORT"].contains cmd

/-! ## Calls from Lua -/

/-- A Lua value, as far as an argument of `redis.call` is concerned. -/
inductive LuaValue (F : Type) where
  | String (s : Bytes)
  | Integer (n : Int64)
  | Number (n : F)
  | Boolean (b : Bool)
  | Other

/-- An argument as text. `lossy` is `to_string_lossy`. -/
def arg_text (lossy : Bytes → String) : LuaValue F → String
  | .String s => lossy s
  | .Integer n => toString n.toInt
  | .Number n => Score.display n
  | .Boolean b => if b then "true" else "false"
  | .Other => ""

/-- The function `redis.call` or `redis.pcall`, by its name, of an evaluation that is read-only or
not. -/
def redis_call (lossy : Bytes → String) (read_only : Bool) (name : String)
    (args : List (LuaValue F)) : StoreM F (Reply F) :=
  match args.map (arg_text lossy) with
  | [] => return .Error (wrong_number name)
  | cmd :: cmd_args =>
    let cmd := to_ascii_uppercase cmd
    if read_only && is_write_command cmd then
      return .Error "ERR Write commands are not allowed in read-only mode"
    else dispatch_redis_command cmd (cmd_args.map as_bytes)

/-- A call that a script makes: on which evaluation's functions, on which of the two, and with which
arguments. -/
structure HostCall (F : Type) where
  owner : ℕ
  name : String
  args : List (LuaValue F)

/-- A script at work. -/
abbrev Script (F α : Type) := Prog (HostCall F) (fun _ => Reply F) Empty α

/-- What a script may call, and what it leaves behind for the next one. -/
def within (owners : ℕ → Prop) : Prog.Contract (HostCall F) (fun _ => Reply F) where
  asks call := owners call.owner
  gets _ _ := True

/-- A Lua interpreter. `reach` tells the evaluations of which a function can be reached from the
globals, other than the three that every evaluation sets. -/
structure Lua (F : Type) where
  State : Type
  new : State
  reach : State → ℕ → Prop
  lossy : Bytes → String
  eval : State → ℕ → String → List Bytes → List Bytes → Script F (Reply F × State)
  reach_new : ∀ i, ¬ reach new i
  /-- A script calls what it is given or can reach, and leaves no more than that. -/
  confined : ∀ s g script keys args, (eval s g script keys args).Meets
    (within fun i => reach s i ∨ i = g) fun r => ∀ i, reach r.2 i → reach s i ∨ i = g

/-! ## Functions in text -/

/-- Whether a line is the directive `#!lua`. -/
def is_directive (line : String) : Bool := "#!lua".toList.isPrefixOf (trim line).toList

/-- The rest of a word behind `name=`. -/
def name_of_word (word : String) : Option String :=
  if "name=".toList.isPrefixOf word.toList then some (String.ofList (word.toList.drop 5)) else none

def extract_function_name (code : String) : Option String :=
  (((lines code).filter is_directive).flatMap fun l => split_whitespace (trim l)).findSome?
    name_of_word

def strip_function_directive (code : String) : String :=
  let result := "\n".intercalate ((lines code).eraseP is_directive)
  if code.toList.getLast? = some '\n' ∧ result ≠ "" then result ++ "\n" else result

/-! ## The engine -/

structure FunctionEntry where
  body : String
  sha : String
  deriving Repr, DecidableEq

/-- `ScriptEngine`, with the read-only flag of every evaluation so far. A panic during an evaluation
leaves the lock around the interpreter poisoned. -/
structure ScriptEngine (L : Lua F) where
  lua : L.State
  scripts : HashMap String String
  functions : HashMap String FunctionEntry
  flags : List Bool
  poisoned : Bool

/-- `ScriptEngine::new`. -/
def ScriptEngine.new (L : Lua F) : ScriptEngine L := ⟨L.new, ∅, ∅, [], false⟩

def run_script {α : Type} (lossy : Bytes → String) (flags : List Bool) :
    Script F α → StoreM F α
  | .pure a => return a
  | .fail e => nomatch e
  | .op call next => do
    let reply ← redis_call lossy (flags.getD call.owner false) call.name call.args
    run_script lossy flags (next reply)

/-- What is asked of the engine. -/
inductive ScriptCall where
  | eval (read_only : Bool) (script : String) (keys args : List Bytes)
  | evalsha (read_only : Bool) (sha : String) (keys args : List Bytes)
  | fcall (read_only : Bool) (name : String) (keys args : List Bytes)
  | script_load (script : String)
  | script_flush
  | function_load (args : List Bytes)
  | function_delete (name : String)
  | function_flush

namespace ScriptEngine

variable {L : Lua F}

def eval_impl (self : ScriptEngine L) (script : String) (keys args : List Bytes)
    (read_only : Bool) : StoreM F (Reply F × ScriptEngine L) :=
  if self.poisoned then .fail .Panic else do
  let flags := self.flags ++ [read_only]
  let (reply, lua) ← run_script L.lossy flags (L.eval self.lua self.flags.length script keys args)
  return (reply, { self with lua := lua, flags := flags })

def evalsha_impl (self : ScriptEngine L) (sha : String) (keys args : List Bytes)
    (read_only : Bool) : StoreM F (Reply F × ScriptEngine L) :=
  match self.scripts[sha]? with
  | some script => self.eval_impl script keys args read_only
  | none => return (.Error "NOSCRIPT No matching script. Please use EVAL.", self)

def fcall_impl (self : ScriptEngine L) (name : String) (keys args : List Bytes)
    (read_only : Bool) : StoreM F (Reply F × ScriptEngine L) :=
  match self.functions[name]? with
  | some entry => self.eval_impl entry.body keys args read_only
  | none => return (.Error ("ERR Function " ++ name ++ " not found"), self)

def script_load (sha1hex : String → String) (self : ScriptEngine L) (script : String) :
    Reply F × ScriptEngine L :=
  let sha := sha1hex script
  (bull (as_bytes sha), { self with scripts := self.scripts.insert sha script })

/-- The code of FUNCTION LOAD, and whether it may replace another. -/
def load_args : List Bytes → Option (Bool × Bytes)
  | [] => none
  | [code] => some (false, code)
  | flag :: code :: _ =>
    if option_name flag = some "REPLACE" then some (true, code) else some (false, flag)

def function_load (sha1hex : String → String) (self : ScriptEngine L) (args : List Bytes) :
    Reply F × ScriptEngine L :=
  match load_args args with
  | none => (.Error (wrong_number "function load"), self)
  | some (replace, code) =>
    match from_utf8 code with
    | .error _ => (.Error "ERR function code must be a string", self)
    | .ok code =>
      let name := (extract_function_name code).getD (sha1hex code)
      if !replace && self.functions.contains name then (.Error "ERR Function already exists", self)
      else
        let sha := sha1hex code
        let body := strip_function_directive code
        (bull (as_bytes name), { self with
          functions := self.functions.insert name ⟨body, sha⟩
          scripts := self.scripts.insert sha body })

def function_delete (self : ScriptEngine L) (name : String) : Reply F × ScriptEngine L :=
  if self.functions.contains name then
    (ok, { self with functions := self.functions.erase name })
  else (.Error ("ERR Function " ++ name ++ " not found"), self)

def call (sha1hex : String → String) (self : ScriptEngine L) :
    ScriptCall → StoreM F (Reply F × ScriptEngine L)
  | .eval read_only script keys args => self.eval_impl script keys args read_only
  | .evalsha read_only sha keys args => self.evalsha_impl sha keys args read_only
  | .fcall read_only name keys args => self.fcall_impl name keys args read_only
  | .script_load script => return self.script_load sha1hex script
  | .script_flush => return (ok, { self with scripts := ∅ })
  | .function_load args => return self.function_load sha1hex args
  | .function_delete name => return self.function_delete name
  | .function_flush => return (ok, { self with functions := ∅ })

/-- A call on a store: the reply, the engine and the store after it. -/
def step (sha1hex : String → String) (self : ScriptEngine L) (c : ScriptCall) (w : World F) :
    Except Halt (Reply F) × ScriptEngine L × World F :=
  match (self.call sha1hex c).run World.step w with
  | (.ok (reply, self'), w') => (.ok reply, self', w')
  | (.error e, w') => (.error e, { self with poisoned := true }, w')

def answer (sha1hex : String → String) (self : ScriptEngine L)
    (read : Except Halt (Reply F ⊕ ScriptCall)) (w : World F) :
    Except Halt (Reply F) × ScriptEngine L × World F :=
  match read with
  | .error e => (.error e, self, w)
  | .ok (.inl reply) => (.ok reply, self, w)
  | .ok (.inr c) => self.step sha1hex c w

/-- The engine after calls on a store that others have changed in between. -/
def after (sha1hex : String → String) (L : Lua F) (history : List (ScriptCall × World F)) :
    ScriptEngine L :=
  history.foldl (fun self (c, w) => (self.step sha1hex c w).2.1) (.new L)

end ScriptEngine

/-! ## The commands -/

/-- The script, its keys and its arguments. The sum of the number of keys and two wraps around, and
the range it ends is then no range. -/
def script_args (cmd bad_text : String) (args : List Bytes) :
    Except Halt (Reply F ⊕ (String × List Bytes × List Bytes)) :=
  match args with
  | text :: numkeys :: rest =>
    match from_utf8 text with
    | .error _ => .ok (.inl (.Error bad_text))
    | .ok text =>
      match parse_nat (some 64) ((from_utf8 numkeys).toOption.getD "0") with
      | .error _ => .ok (.inl not_integer)
      | .ok n =>
        if args.length < (2 + n) % 2 ^ 64 then
          .ok (.inl (.Error "ERR Number of keys can't be greater than number of args"))
        else if (2 + n) % 2 ^ 64 < 2 then .error .Panic
        else .ok (.inr (text, rest.take n, rest.drop n))
  | _ => .ok (.inl (.Error (wrong_number cmd)))

/-- A command that evaluates a script: the call it makes, or its reply. -/
def read_eval (cmd bad_text : String) (make : String → List Bytes → List Bytes → ScriptCall)
    (args : List Bytes) : Except Halt (Reply F ⊕ ScriptCall) :=
  (script_args cmd bad_text args).map
    (Sum.map id fun (text, keys, rest) => make text keys rest)

def handle_eval (args : List Bytes) : Except Halt (Reply F ⊕ ScriptCall) :=
  read_eval "eval" "ERR script must be a string" (.eval false) args

def handle_eval_ro (args : List Bytes) : Except Halt (Reply F ⊕ ScriptCall) :=
  read_eval "eval" "ERR script must be a string" (.eval true) args

def handle_evalsha (args : List Bytes) : Except Halt (Reply F ⊕ ScriptCall) :=
  read_eval "evalsha" "ERR sha must be a string" (.evalsha false) args

def handle_evalsha_ro (args : List Bytes) : Except Halt (Reply F ⊕ ScriptCall) :=
  read_eval "evalsha" "ERR sha must be a string" (.evalsha true) args

def handle_fcall (args : List Bytes) : Except Halt (Reply F ⊕ ScriptCall) :=
  read_eval "fcall" "ERR function name must be a string" (.fcall false) args

def handle_fcall_ro (args : List Bytes) : Except Halt (Reply F ⊕ ScriptCall) :=
  read_eval "fcall" "ERR function name must be a string" (.fcall true) args

end ValkeyRs.Scripting
