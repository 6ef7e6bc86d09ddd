/-
Access control, `crates/commands/src/acl.rs`: users, the rules of ACL SETUSER and the check that
stands before every command.

A user's permissions are two sets of names, one allowed and one denied, or one of two whole-set
modes; a name is a command or, after an `@`, a category. The rules of ACL SETUSER are texts.

Passwords are stored under a hash that the source calls SHA-256 and that is the standard library's
`DefaultHasher`. It is a parameter here: an arbitrary function from strings to 64-bit numbers.
-/
import ValkeyRs.Client

set_option autoImplicit false

open ValkeyRs Text Storage Resp Server

namespace ValkeyRs.Acl

/-! ## Categories -/

/-- The calls of `add!`, in their order. -/
def named_categories : List (String × List String) :=
  [("string",
    ["GET", "SET", "DEL", "GETSET", "MGET", "MSET", "MSETNX", "INCR", "DECR", "INCRBY", "DECRBY",
      "INCRBYFLOAT", "APPEND", "STRLEN", "GETRANGE", "SETRANGE", "SETNX", "SETEX", "PSETEX",
      "GETEX", "GETDEL"]),
   ("list",
    ["LPUSH", "RPUSH", "LPOP", "RPOP", "LRANGE", "LLEN", "LINDEX", "LSET", "LINSERT", "LREM",
      "LTRIM", "LMOVE", "BLPOP", "BRPOP", "LMPOP", "BLMPOP", "BLMOVE", "LPOS"]),
   ("hash",
    ["HSET", "HGET", "HMGET", "HMSET", "HGETALL", "HDEL", "HEXISTS", "HLEN", "HKEYS", "HVALS",
      "HINCRBY", "HINCRBYFLOAT", "HSCAN", "HRANDFIELD"]),
   ("set",
    ["SADD", "SMEMBERS", "SISMEMBER", "SMISMEMBER", "SCARD", "SREM", "SPOP", "SRANDMEMBER",
      "SMOVE", "SUNION", "SINTER", "SDIFF", "SUNIONSTORE", "SINTERSTORE", "SDIFFSTORE", "SSCAN"]),
   ("sortedset",
    ["ZADD", "ZSCORE", "ZMSCORE", "ZRANK", "ZREVRANK", "ZRANGE", "ZREVRANGE", "ZRANGEBYSCORE",
      "ZREVRANGEBYSCORE", "ZRANGEBYLEX", "ZCOUNT", "ZLEXCOUNT", "ZREM", "ZREMRANGEBYRANK",
      "ZREMRANGEBYSCORE", "ZREMRANGEBYLEX", "ZCARD", "ZINCRBY", "ZPOPMIN", "ZPOPMAX",
      "ZUNIONSTORE", "ZINTERSTORE", "ZDIFFSTORE", "ZSCAN", "ZRANDMEMBER", "ZRANGESTORE"]),
   ("pubsub",
    ["SUBSCRIBE", "UNSUBSCRIBE", "PSUBSCRIBE", "PUNSUBSCRIBE", "PUBLISH", "PUBSUB", "SSUBSCRIBE",
      "SUNSUBSCRIBE"]),
   ("transactions",
    ["MULTI", "EXEC", "DISCARD", "WATCH", "UNWATCH"]),
   ("scripting",
    ["EVAL", "EVALSHA", "SCRIPT"]),
   ("server",
    ["PING", "ECHO", "SELECT", "DBSIZE", "FLUSHDB", "FLUSHALL", "INFO", "COMMAND", "CONFIG",
      "SAVE", "BGSAVE", "BGREWRITEAOF", "LASTSAVE", "TIME", "LATENCY", "SLOWLOG", "MEMORY",
      "CLIENT", "DEBUG", "OBJECT", "RESET", "SHUTDOWN"]),
   ("connection",
    ["AUTH", "QUIT", "CLIENT", "SELECT"]),
   ("stream",
    ["XADD", "XREAD", "XRANGE", "XREVRANGE", "XLEN", "XTRIM", "XDEL", "XINFO", "XGROUP",
      "XREADGROUP", "XACK", "XCLAIM", "XPENDING", "XAUTOCLAIM"]),
   ("dangerous",
    ["FLUSHALL", "FLUSHDB", "SHUTDOWN", "DEBUG", "CONFIG", "SCRIPT", "CLUSTER", "REPLICAOF",
      "SLAVEOF", "KEYS", "SCAN"]),
   ("keyspace",
    ["DEL", "EXISTS", "TYPE", "RENAME", "RENAMENX", "EXPIRE", "PEXPIRE", "EXPIREAT", "PEXPIREAT",
      "TTL", "PTTL", "PERSIST", "KEYS", "SCAN", "RANDOMKEY", "MOVE", "COPY", "DUMP", "RESTORE",
      "WAIT", "SORT", "UNLINK"]),
   ("read",
    ["GET", "MGET", "GETSET", "STRLEN", "GETRANGE", "LINDEX", "LLEN", "LRANGE", "HGET", "HMGET",
      "HGETALL", "HEXISTS", "HLEN", "HKEYS", "HVALS", "HSCAN", "HRANDFIELD", "SISMEMBER",
      "SMEMBERS", "SMISMEMBER", "SCARD", "SRANDMEMBER", "SUNION", "SINTER", "SDIFF", "SSCAN",
      "ZRANK", "ZREVRANK", "ZSCORE", "ZMSCORE", "ZRANGE", "ZREVRANGE", "ZRANGEBYSCORE",
      "ZREVRANGEBYSCORE", "ZRANGEBYLEX", "ZCOUNT", "ZLEXCOUNT", "ZCARD", "ZRANDMEMBER", "ZSCAN",
      "XLEN", "XRANGE", "XREVRANGE", "XINFO", "XPENDING", "DUMP", "TYPE", "EXISTS", "TTL",
      "PTTL", "OBJECT", "RANDOMKEY", "KEYS", "SCAN", "PUBSUB"]),
   ("write",
    ["SET", "DEL", "GETSET", "MSET", "MSETNX", "INCR", "DECR", "INCRBY", "DECRBY", "INCRBYFLOAT",
      "APPEND", "SETRANGE", "SETNX", "SETEX", "PSETEX", "GETEX", "GETDEL", "LPUSH", "RPUSH",
      "LPOP", "RPOP", "LSET", "LINSERT", "LREM", "LTRIM", "LMOVE", "BLPOP", "BRPOP", "LMPOP",
      "BLMPOP", "BLMOVE", "LPOS", "HSET", "HMSET", "HDEL", "HINCRBY", "HINCRBYFLOAT", "SADD",
      "SREM", "SPOP", "SMOVE", "SUNIONSTORE", "SINTERSTORE", "SDIFFSTORE", "ZADD", "ZREM",
      "ZINCRBY", "ZPOPMIN", "ZPOPMAX", "ZUNIONSTORE", "ZINTERSTORE", "ZDIFFSTORE",
      "ZREMRANGEBYRANK", "ZREMRANGEBYSCORE", "ZREMRANGEBYLEX", "ZRANGESTORE", "XADD", "XDEL",
      "XTRIM", "XGROUP", "XACK", "XCLAIM", "XAUTOCLAIM", "RENAME", "RENAMENX", "EXPIRE",
      "PEXPIRE", "EXPIREAT", "PEXPIREAT", "PERSIST", "MOVE", "COPY", "RESTORE", "FLUSHDB",
      "FLUSHALL", "PUBLISH", "SUBSCRIBE", "UNSUBSCRIBE", "PSUBSCRIBE", "PUNSUBSCRIBE",
      "SSUBSCRIBE", "SUNSUBSCRIBE", "MULTI", "EXEC", "DISCARD", "WATCH", "UNWATCH"]),
   ("fast",
    ["PING", "ECHO", "SET", "GET", "DEL", "EXISTS", "TYPE", "RENAME", "RENAMENX", "INCR", "DECR",
      "INCRBY", "DECRBY", "APPEND", "STRLEN", "GETRANGE", "SETRANGE", "SETNX", "LPUSH", "RPUSH",
      "LPOP", "RPOP", "LLEN", "LINDEX", "LSET", "LINSERT", "LREM", "LTRIM", "HSET", "HGET",
      "HDEL", "HEXISTS", "HLEN", "HKEYS", "HVALS", "HINCRBY", "SADD", "SISMEMBER", "SREM",
      "SCARD", "SPOP", "SMEMBERS", "ZADD", "ZSCORE", "ZRANK", "ZREVRANK", "ZRANGE", "ZREVRANGE",
      "ZCOUNT", "ZCARD", "ZREM", "ZINCRBY", "SELECT", "DBSIZE", "FLUSHDB", "FLUSHALL", "SAVE",
      "BGSAVE", "LASTSAVE", "TIME", "QUIT", "AUTH", "INFO", "COMMAND", "CONFIG", "OBJECT",
      "RESET"]),
   ("slow",
    ["KEYS", "SCAN", "SORT", "BLPOP", "BRPOP", "LMPOP", "BLMPOP", "BLMOVE", "LPOS", "SUNION",
      "SINTER", "SDIFF", "SUNIONSTORE", "SINTERSTORE", "SDIFFSTORE", "ZUNIONSTORE",
      "ZINTERSTORE", "ZDIFFSTORE", "ZRANGEBYSCORE", "ZREVRANGEBYSCORE", "ZRANGEBYLEX",
      "ZLEXCOUNT", "ZREMRANGEBYRANK", "ZREMRANGEBYSCORE", "ZREMRANGEBYLEX", "ZSCAN",
      "ZRANDMEMBER", "ZRANGESTORE", "HSCAN", "HRANDFIELD", "SSCAN", "XREAD", "XREADGROUP",
      "XADD", "XTRIM", "XDEL", "XINFO", "XGROUP", "XACK", "XCLAIM", "XPENDING", "XAUTOCLAIM",
      "PUBSUB", "PUBLISH", "SUBSCRIBE", "UNSUBSCRIBE", "PSUBSCRIBE", "PUNSUBSCRIBE",
      "SSUBSCRIBE", "SUNSUBSCRIBE", "MULTI", "EXEC", "DISCARD", "WATCH", "UNWATCH", "FLUSHALL",
      "SHUTDOWN", "DEBUG", "SCRIPT", "EVAL", "EVALSHA", "CLUSTER", "REPLICAOF", "SLAVEOF",
      "MIGRATE", "WAIT", "DUMP", "RESTORE", "COPY", "MOVE", "RANDOMKEY", "GETSET", "MGET",
      "MSET", "MSETNX", "INCRBYFLOAT", "HINCRBYFLOAT", "HGETALL", "HMGET", "HMSET", "HVALS",
      "ZMSCORE", "ZRANGEBYLEX", "ZREVRANGEBYLEX", "ZPOPMIN", "ZPOPMAX", "GETEX", "GETDEL",
      "PSETEX", "PEXPIRE", "PEXPIREAT", "EXPIREAT", "PERSIST", "TTL", "PTTL", "EXPIRE", "CLIENT",
      "LATENCY", "SLOWLOG", "MEMORY", "BGREWRITEAOF"])]

/-- `build_categories`: the named ones, and `all` with what is in any of them. -/
def categories : List (String × List String) :=
  named_categories ++ [("all", named_categories.flatMap Prod.snd)]

/-- Whether a name of a permission set is a category with the command in it. -/
def category_has (cat cmd : String) : Bool :=
  match cat.toList with
  | '@' :: cat_name =>
    match categories.lookup (to_lowercase (String.ofList cat_name)) with
    | some cat_cmds => cat_cmds.contains cmd
    | none => false
  | _ => false

/-! ## Users -/

inductive CommandPermissions where
  | AllowAll
  | DenyAll
  | Set (allowed denied : HashSet String)
  deriving DecidableEq

structure AclUser where
  name : String
  enabled : Bool
  passwords : List String
  nopass : Bool
  commands : CommandPermissions
  keys : List String
  channels : List String
  reset_keys : Bool

/-- `AclUser::default`. -/
def AclUser.default : AclUser where
  name := "default"
  enabled := true
  passwords := []
  nopass := true
  commands := .Set {"@all"} ∅
  keys := ["*"]
  channels := ["*"]
  reset_keys := false

/-- `AclUser { name, ..Default::default() }`. -/
def AclUser.fresh (name : String) : AclUser := { AclUser.default with name := name }

/-! ## The check -/

/-- The loop of `glob_match_impl`, on what is left of the pattern and of the text. `star` holds
what follows the last star in the pattern and the text read since `match_idx`. -/
def glob_loop (pat txt : List Char) (star : Option (List Char × List Char)) : Bool :=
  match txt, pat with
  | [], _ => (pat.dropWhile (· = '*')).isEmpty
  | t :: ts, p :: ps =>
    -- the comparison comes before the star, so a star in the text uses up one in the pattern
    if p = t ∨ p = '?' then
      glob_loop ps ts (star.map fun (rest, since) => (rest, since ++ [t]))
    else if p = '*' then glob_loop ps (t :: ts) (some (ps, []))
    else match star with
      | some (rest, since) => glob_loop rest ((since ++ t :: ts).drop 1) (some (rest, []))
      | none => false
  | t :: ts, [] =>
    match star with
    | some (rest, since) => glob_loop rest ((since ++ t :: ts).drop 1) (some (rest, []))
    | none => false
termination_by
  (match star with | none => txt.length + 1 | some (_, since) => since.length + txt.length,
    pat.length)
decreasing_by
  · rw [Prod.lex_def]
    cases star with
    | none => simp
    | some s => exact .inr ⟨by simp; omega, by simp⟩
  · rw [Prod.lex_def]
    cases star with
    | none => simp
    | some s =>
      -- the star is met after `since`: a shorter text to come back to, or a shorter pattern
      by_cases h : s.2.length = 0
      · exact .inr ⟨by simp [h], by simp⟩
      · exact .inl (by simp; omega)
  · rw [Prod.lex_def]
    exact .inl (by simp)
  · rw [Prod.lex_def]
    exact .inl (by simp)

def glob_match (pattern text : String) : Bool := glob_loop pattern.toList text.toList none

namespace CommandPermissions

/-- Whether the command is in the allowed set, by name or by category. -/
def allows (allowed : HashSet String) (cmd : String) : Bool :=
  allowed.contains cmd || allowed.toList.any (category_has · cmd) || allowed.contains "@all"

def denies (denied : HashSet String) (cmd : String) : Bool :=
  denied.contains cmd || denied.contains ("@" ++ cmd)

/-- The decision of `check_command_inner` on the command. The denied set is looked at first. -/
def permits : CommandPermissions → String → Bool
  | .AllowAll, _ => true
  | .DenyAll, _ => false
  | .Set allowed denied, cmd => !denies denied cmd && allows allowed cmd

end CommandPermissions

/-- The loop over the keys. A key that is not UTF-8 is passed over. -/
def check_each_key (patterns : List String) : List Bytes → Except String Unit
  | [] => .ok ()
  | key :: keys =>
    match from_utf8 key with
    | .error _ => check_each_key patterns keys
    | .ok key_str =>
      if patterns.any (glob_match · key_str) then check_each_key patterns keys
      else .error ("ERR NOPERM this user has no permissions to access the key '" ++ key_str ++ "'")

def check_keys (patterns : List String) (keys : List Bytes) : Except String Unit :=
  if patterns.isEmpty then
    if keys.isEmpty then .ok ()
    else .error ("ERR NOPERM this user has no permissions to access any of the keys used as " ++
      "arguments")
  else if patterns.contains "*" then .ok ()
  else check_each_key patterns keys

def check_command_inner (user : AclUser) (cmd : String) (keys : List Bytes) :
    Except String Unit :=
  let cmd_upper := to_ascii_uppercase cmd
  if !user.enabled then .error ("ERR User '" ++ user.name ++ "' is disabled")
  else if !user.commands.permits cmd_upper then
    .error ("ERR NOPERM this user has no permissions to run the '" ++ cmd_upper ++ "' command")
  else check_keys user.keys keys

theorem check_command_inner_eq_ok {user : AclUser} {cmd : String} {keys : List Bytes} :
    check_command_inner user cmd keys = .ok () ↔
      user.enabled = true ∧ user.commands.permits (to_ascii_uppercase cmd) = true ∧
        check_keys user.keys keys = .ok () := by
  unfold check_command_inner
  by_cases he : user.enabled = true
  · by_cases hp : user.commands.permits (to_ascii_uppercase cmd) = true
    · simp [he, hp]
    · simp [he, hp]
  · simp [he]

/-! ## Rules -/

/-- `DefaultHasher` on strings, and `sha256_hex` over it. -/
def sha256_hex (hasher : String → UInt64) (input : String) : String :=
  String.ofList ((Nat.toDigits 16 (hasher input).toNat).leftpad 16 '0')

/-- What one rule text asks for. -/
inductive AclRule where
  | skip
  | on
  | off
  | nopass
  | reset
  | allkeys
  | resetkeys
  | allchannels
  | resetchannels
  | allcommands
  | nocommands
  | allow (cmd : String)
  | deny (cmd : String)
  | add_password (hash : String)
  | remove_password (hash : String)
  | key_pattern (pattern : String)
  | channel_pattern (pattern : String)
  deriving Repr, DecidableEq

/-- The arms of the `match` on the verb that compare it as a whole. -/
def keyword_rule : String → Option AclRule
  | "on" => some .on
  | "off" => some .off
  | "nopass" => some .nopass
  | "reset" => some .reset
  | "allkeys" => some .allkeys
  | "resetkeys" => some .resetkeys
  | "allchannels" => some .allchannels
  | "resetchannels" => some .resetchannels
  | "allcommands" => some .allcommands
  | "nocommands" => some .nocommands
  | _ => none

/-- The last arm, which goes by the first character of the verb. A password that stands in the
verb is taken for a hash; only one behind a space is hashed. -/
def sigil_rule (hasher : String → UInt64) (verb : List Char) (arg : String) : Option AclRule :=
  let hash (pw : List Char) := if pw.isEmpty then sha256_hex hasher arg else String.ofList pw
  let pattern (pat : List Char) := if pat.isEmpty then arg else String.ofList pat
  match verb with
  | '+' :: cmd => some (.allow (to_ascii_uppercase (String.ofList cmd)))
  | '-' :: cmd => some (.deny (to_ascii_uppercase (String.ofList cmd)))
  | '>' :: pw => some (.add_password (hash pw))
  | '<' :: pw => some (.remove_password (hash pw))
  | '~' :: pat => some (.key_pattern (pattern pat))
  | '&' :: pat => some (.channel_pattern (pattern pat))
  | _ => none

/-- The body of the loop of `apply_rules`, up to what it does to the user. The whole verb is in
lower case here, the name, password or pattern behind its first character included. -/
def parse_rule (hasher : String → UInt64) (rule : String) : Except String AclRule :=
  let rule := trim rule
  let verb := to_ascii_lowercase (before_space rule)
  if rule = "" then .ok .skip
  else match (keyword_rule verb).or (sigil_rule hasher verb.toList (after_space rule)) with
    | some r => .ok r
    | none => .error ("ERR Unrecognized ACL rule: " ++ verb)

namespace CommandPermissions

/-- `+name`. On a whole-set mode it starts from two empty sets. -/
def allow (name : String) : CommandPermissions → CommandPermissions
  | .Set allowed denied => .Set (allowed.insert name) denied
  | _ => .Set {name} ∅

/-- `-name`. -/
def deny (name : String) : CommandPermissions → CommandPermissions
  | .Set allowed denied => .Set allowed (denied.insert name)
  | _ => .Set ∅ {name}

end CommandPermissions

/-- What a rule does to the user. -/
def AclUser.apply (user : AclUser) : AclRule → AclUser
  | .skip => user
  | .on => { user with enabled := true }
  | .off => { user with enabled := false }
  | .nopass => { user with nopass := true, passwords := [] }
  | .reset => .fresh user.name
  | .allkeys => { user with keys := ["*"], reset_keys := false }
  | .resetkeys => { user with keys := [], reset_keys := true }
  | .allchannels => { user with channels := ["*"] }
  | .resetchannels => { user with channels := [] }
  | .allcommands => { user with commands := .AllowAll }
  | .nocommands => { user with commands := .DenyAll }
  | .allow name => { user with commands := user.commands.allow name }
  | .deny name => { user with commands := user.commands.deny name }
  | .add_password hash => { user with passwords := user.passwords ++ [hash], nopass := false }
  | .remove_password hash => { user with passwords := user.passwords.filter (· ≠ hash) }
  | .key_pattern pattern => { user with keys := user.keys ++ [pattern], reset_keys := false }
  | .channel_pattern pattern => { user with channels := user.channels ++ [pattern] }

def apply_rules (hasher : String → UInt64) (user : AclUser) :
    List String → Except String AclUser
  | [] => .ok user
  | rule :: rules =>
    match parse_rule hasher rule with
    | .ok r => apply_rules hasher (user.apply r) rules
    | .error e => .error e

theorem apply_name (user : AclUser) (r : AclRule) : (user.apply r).name = user.name := by
  cases r <;> rfl

/-! ## The manager -/

structure AclLogEntry where
  timestamp : ℕ
  reason : String
  username : String
  command : String
  deriving Repr, DecidableEq

def acl_log_max : ℕ := 128

/-- `AclManager`. Every user is stored under its own name. -/
structure AclManager where
  users : HashMap String AclUser
  log : List AclLogEntry
  named : ∀ (name : String) (user : AclUser), users[name]? = some user → user.name = name

namespace AclManager

/-- `set_user`. -/
def set_user (self : AclManager) (user : AclUser) : AclManager where
  users := self.users.insert user.name user
  log := self.log
  named := by
    intro name u h
    rw [Std.ExtTreeMap.getElem?_insert] at h
    split at h
    · rename_i heq
      cases h
      exact Std.LawfulEqCmp.compare_eq_iff_eq.mp heq
    · exact self.named name u h

/-- `AclManager::new`. -/
def new : AclManager :=
  set_user ⟨∅, [], fun name user h => by simp at h⟩ .default

def get_user (self : AclManager) (name : String) : Option AclUser := self.users[name]?

def default_user (self : AclManager) : AclUser := self.users["default"]?.getD .default

/-- `users.remove(name)`. -/
def remove (self : AclManager) (name : String) : AclManager where
  users := self.users.erase name
  log := self.log
  named := by
    intro n u h
    rw [Std.ExtTreeMap.getElem?_erase] at h
    split at h
    · cases h
    · exact self.named n u h

/-- The second loop of `del_user`. -/
def remove_all : List String → AclManager → ℕ → ℕ × AclManager
  | [], self, count => (count, self)
  | name :: names, self, count =>
    remove_all names (self.remove name)
      (if (self.get_user name).isSome then count + 1 else count)

def del_user (self : AclManager) (names : List String) : Except String (ℕ × AclManager) :=
  if names.contains "default" then .error "ERR Cannot delete the 'default' user"
  else .ok (remove_all names self 0)

def list_users (self : AclManager) : List String := self.users.keys

def log_denial (self : AclManager) (timestamp : ℕ) (username command reason : String) :
    AclManager :=
  let kept := if self.log.length ≥ acl_log_max then self.log.drop 1 else self.log
  { self with log := kept ++ [⟨timestamp, reason, username, command⟩] }

def get_log (self : AclManager) (count : Option ℕ) : List AclLogEntry :=
  self.log.reverse.take (count.getD acl_log_max)

def reset_log (self : AclManager) : AclManager := { self with log := [] }

def check_command (self : AclManager) (timestamp : ℕ) (user : AclUser) (cmd : String)
    (keys : List Bytes) : Except String Unit × AclManager :=
  match check_command_inner user cmd keys with
  | .ok () => (.ok (), self)
  | .error reason => (.error reason, self.log_denial timestamp user.name cmd reason)

def authenticate (hasher : String → UInt64) (self : AclManager) (username password : String) :
    Bool :=
  match self.users[username]? with
  | some user =>
    if !user.enabled then false
    else if user.nopass then true
    else user.passwords.contains (sha256_hex hasher password)
  | none => false

/-- `user_rules`: the rules ACL LIST prints for a user. -/
def user_rules (user : AclUser) : List String :=
  ["user " ++ user.name, if user.enabled then "on" else "off"] ++
  (if user.nopass then ["nopass"] else []) ++
  user.passwords.map (">" ++ ·) ++
  (match user.commands with
    | .AllowAll => ["allcommands"]
    | .DenyAll => ["nocommands"]
    | .Set allowed denied =>
      allowed.toList.map ("+" ++ ·) ++ denied.toList.map ("-" ++ ·)) ++
  (if user.keys.isEmpty then ["resetkeys"]
    else if user.keys = ["*"] then ["allkeys"]
    else user.keys.map ("~" ++ ·)) ++
  (if user.channels.isEmpty then ["resetchannels"]
    else if user.channels = ["*"] then ["allchannels"]
    else user.channels.map ("&" ++ ·))

end AclManager

/-! ## Commands -/

variable {F : Type}

/-- The arguments that are text; the others are passed over. -/
def texts (args : List Bytes) : List String := args.filterMap fun b => (from_utf8 b).toOption

def cmd_acl_setuser (hasher : String → UInt64) (acl : AclManager) (args : List Bytes) :
    RespValue F × AclManager :=
  match args with
  | [] => (.Error "ERR wrong number of arguments for 'acl setuser' command", acl)
  | name :: rest =>
    match from_utf8 name with
    | .error _ => (.Error "ERR invalid username", acl)
    | .ok username =>
      match apply_rules hasher ((acl.get_user username).getD (.fresh username)) (texts rest) with
      | .error e => (.Error e, acl)
      | .ok user => (.SimpleString "OK", acl.set_user user)

def cmd_acl_deluser (acl : AclManager) (args : List Bytes) : RespValue F × AclManager :=
  if args.isEmpty then
    (.Error "ERR wrong number of arguments for 'acl deluser' command", acl)
  else match acl.del_user (texts args) with
    | .ok (n, acl') => (.Integer (Int64.ofNat n), acl')
    | .error e => (.Error e, acl)

/-- The user name and password of an AUTH. -/
def auth_args : List Bytes → Except String (String × String)
  | [pw] =>
    match from_utf8 pw with
    | .ok password => .ok ("default", password)
    | .error _ => .error "ERR invalid password"
  | [user, pw] =>
    match from_utf8 user, from_utf8 pw with
    | .error _, _ => .error "ERR invalid username"
    | .ok _, .error _ => .error "ERR invalid password"
    | .ok username, .ok password => .ok (username, password)
  | _ => .error "ERR wrong number of arguments for 'auth' command"

def cmd_auth (hasher : String → UInt64) (timestamp : ℕ) (acl : AclManager) (ctx : ClientCtx)
    (args : List Bytes) : RespValue F × AclManager × ClientCtx :=
  match auth_args args with
  | .error e => (.Error e, acl, ctx)
  | .ok (username, password) =>
    if acl.authenticate hasher username password then
      (.SimpleString "OK", acl, { ctx with authenticated := true, name := some username })
    else
      (.Error "ERR invalid password",
        acl.log_denial timestamp username "AUTH" "authentication failed", ctx)

def cmd_acl_whoami (ctx : ClientCtx) : RespValue F :=
  .BulkString (some (as_bytes (ctx.name.getD "default")))

/-- The user whose permissions `check_permission` applies: the one the connection is named
after, or the default user when there is no such user. -/
def effective_user (acl : AclManager) (ctx : ClientCtx) : AclUser :=
  (acl.get_user (ctx.name.getD "default")).getD acl.default_user

def check_permission (timestamp : ℕ) (acl : AclManager) (ctx : ClientCtx) (cmd : String)
    (keys : List Bytes) : Except String Unit × AclManager :=
  acl.check_command timestamp (effective_user acl ctx) cmd keys

def cmd_acl_list (acl : AclManager) : RespValue F :=
  .Array (some (acl.list_users.filterMap fun name => (acl.get_user name).map fun user =>
    .BulkString (some (as_bytes (" ".intercalate (AclManager.user_rules user))))))

def cmd_acl_users (acl : AclManager) : RespValue F :=
  .Array (some (acl.list_users.map fun u => .BulkString (some (as_bytes u))))

def acl_log_entries (entries : List AclLogEntry) : RespValue F :=
  .Array (some (entries.map fun e => .Array (some [.Integer (Int64.ofNat e.timestamp),
    .BulkString (some (as_bytes e.reason)), .BulkString (some (as_bytes e.username)),
    .BulkString (some (as_bytes e.command))])))

def cmd_acl_log (acl : AclManager) (args : List Bytes) : RespValue F × AclManager :=
  match args with
  | [] => (acl_log_entries (acl.get_log none), acl)
  | first :: _ =>
    match from_utf8 first with
    | .error _ => (.Error "ERR invalid argument", acl)
    | .ok first =>
      if to_ascii_uppercase first = "RESET" then (.SimpleString "OK", acl.reset_log)
      else match parse_nat (some 64) (to_ascii_uppercase first) with
        | .ok n => (acl_log_entries (acl.get_log (some n)), acl)
        | .error _ => (.Error "ERR argument must be a positive integer or RESET", acl)

/-- `acl::handle`. GETUSER, CAT and HELP only print, and what they print is left to `other`. -/
def handle (hasher : String → UInt64) (other : AclManager → String → List Bytes → RespValue F)
    (acl : AclManager) (ctx : ClientCtx) (args : List Bytes) : RespValue F × AclManager :=
  match args with
  | [] => (.Error "ERR wrong number of arguments for 'acl' command", acl)
  | sub :: subargs =>
    match from_utf8 sub with
    | .error _ => (.Error "ERR invalid subcommand", acl)
    | .ok sub =>
      match to_ascii_uppercase sub with
      | "WHOAMI" => (cmd_acl_whoami ctx, acl)
      | "LIST" => (cmd_acl_list acl, acl)
      | "USERS" => (cmd_acl_users acl, acl)
      | "SETUSER" => cmd_acl_setuser hasher acl subargs
      | "DELUSER" => cmd_acl_deluser acl subargs
      | "LOG" => cmd_acl_log acl subargs
      | name => (other acl name subargs, acl)

end ValkeyRs.Acl
