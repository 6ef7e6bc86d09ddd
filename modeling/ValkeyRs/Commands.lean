/-
The commands on the store by name, as `dispatch_ctx` finds them: the string commands, the
sorted-set commands that write, the two that empty the store, and behind them those on keys and
collections. All others are left open, and what is proved about a server with these commands holds
whatever the others do.
-/
import ValkeyRs.Collections
import ValkeyRs.Dispatch
import ValkeyRs.Keys

set_option autoImplicit false

open ValkeyRs Text Storage Resp Zset

namespace ValkeyRs.Server

variable {F : Type} [Score F]

def string_commands : List String :=
  ["GET", "SET", "DEL", "GETSET", "MGET", "MSET", "MSETNX", "INCR", "DECR", "INCRBY", "DECRBY",
    "INCRBYFLOAT", "APPEND", "STRLEN", "GETRANGE", "SETRANGE", "SETNX", "SETEX", "PSETEX", "GETEX",
    "GETDEL", "LCS"]

def zset_command (name : String) : Option ZWrite :=
  match name with
  | "ZADD" => some .ZADD
  | "ZINCRBY" => some .ZINCRBY
  | "ZREM" => some .ZREM
  | "ZREMRANGEBYRANK" => some .ZREMRANGEBYRANK
  | "ZREMRANGEBYSCORE" => some .ZREMRANGEBYSCORE
  | "ZREMRANGEBYLEX" => some .ZREMRANGEBYLEX
  | "ZPOPMIN" => some .ZPOPMIN
  | "ZPOPMAX" => some .ZPOPMAX
  | "ZMPOP" => some .ZMPOP
  | "ZUNIONSTORE" => some .ZUNIONSTORE
  | "ZINTERSTORE" => some .ZINTERSTORE
  | "ZDIFFSTORE" => some .ZDIFFSTORE
  | "ZRANGESTORE" => some .ZRANGESTORE
  | _ => none

/-- `cmd_flushall`, and `cmd_flushdb` just the same. Their argument is read and not used. -/
def cmd_flushall : StoreM F (Reply F) := do
  Store.flush
  return .SimpleString "OK"

/-- The `match` on the name in `dispatch_ctx`, for the commands on the store. -/
def command (other : String → List Bytes → StoreM F (Reply F)) (name : String)
    (args : List Bytes) : StoreM F (Reply F) :=
  if name ∈ string_commands then Strings.handle name args
  else if name = "FLUSHALL" ∨ name = "FLUSHDB" then cmd_flushall
  else match zset_command name with
    | some c => c.handler args
    | none => other name args

/-- The commands on keys and collections, as far as they are modelled. -/
def keyspace_command (other : String → List Bytes → StoreM F (Reply F)) (name : String)
    (args : List Bytes) : StoreM F (Reply F) :=
  if name ∈ Keys.key_commands then Keys.handle name args
  else if name ∈ Collections.collection_commands then Collections.handle name args
  else other name args

/-- A server with the first of these, on which all others reply OK. -/
def Host.plain : Host Infinity where
  handler := command fun _ _ => return .SimpleString "OK"
  client_other _ _ := .SimpleString "OK"
  acl_other _ _ _ := .SimpleString "OK"
  hasher _ := 0

end ValkeyRs.Server
