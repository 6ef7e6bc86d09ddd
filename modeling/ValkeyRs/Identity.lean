/-
Whose permissions apply to a connection.

A connection should act as the user of its last successful AUTH, or as the default user
(`identity`, computed from the commands it ran and their replies). The server remembers that
user in the field that also holds the client name, so the commands that name a client change
the user as well, and a HELLO that fails behind its AUTH clause has authenticated all the same.
For a connection that sends none of these commands (`naming`) the field and the history agree
in every state any run can reach (`effective_user_of_run`).
-/
import ValkeyRs.Connections

set_option autoImplicit false
set_option linter.dupNamespace false

open ValkeyRs Text Storage Resp Zset Acl Option

namespace ValkeyRs.Server

variable {F : Type} [Score F]

/-! ## The user by the history -/

/-- The users of the AUTH clauses of a HELLO, from the options on. -/
def hello_users : List Bytes → List String
  | [] => []
  | opt :: rest =>
    if option_name opt = some "AUTH" then
      match rest with
      | username :: _ :: rest => (from_utf8 username).toOption.toList ++ hello_users rest
      | _ => []
    else if option_name opt = some "SETNAME" then
      match rest with
      | _ :: rest => hello_users rest
      | [] => []
    else []

/-- The user a connection acts as after a command, by the command and its reply alone: a
successful AUTH or HELLO AUTH names it, and RESET goes back to the default user. -/
def identity_step (who : String) (x : Executed F) : String :=
  match name_of x.cmd, x.reply with
  | some "AUTH", some (.SimpleString "OK") =>
    ((auth_args x.cmd.tail).toOption.map Prod.fst).getD who
  | some "HELLO", some (.Array _) => (hello_users x.cmd.tail.tail).getLast?.getD who
  | some "RESET", some (.SimpleString "OK") => "default"
  | _, _ => who

def identity (history : List (Executed F)) : String := history.foldl identity_step "default"

/-! ## The commands that disturb it -/

/-- Options of a HELLO that do no more than authenticate: the first is not a SETNAME, and nothing
comes after an AUTH. -/
def options_plain : List Bytes → Bool
  | [] => true
  | opt :: rest =>
    if option_name opt = some "AUTH" then rest.length ≤ 2
    else if option_name opt = some "SETNAME" then
      rest.head?.all fun name => (from_utf8 name).toOption.isNone
    else true

/-- A HELLO that does no more than authenticate, or does not get to its options. -/
def hello_plain (args : List Bytes) : Bool :=
  match args with
  | [] => true
  | ver :: opts => (hello_proto ver).isNone || options_plain opts

/-- CLIENT SETNAME with a name, and a HELLO that is not plain. -/
def naming (cmd : Cmd) : Bool :=
  match name_of cmd, cmd.tail with
  | some "CLIENT", [sub, name] =>
    option_name sub = some "SETNAME" && (from_utf8 name).toOption.isSome
  | some "HELLO", args => !hello_plain args
  | _, _ => false

/-- Connection `i` does not send a naming command. -/
def Unnamed (i : ℕ) (_ : Server F) (e : Event) : Prop :=
  e.conn = i → ∀ cmd, e.action = .send cmd → naming cmd = false

/-! ## One command -/

variable (hasher : String → UInt64)

/-- AUTH refuses and changes nothing, or accepts and takes the user's name. -/
theorem cmd_auth_cases (t : ℕ) (acl : AclManager) (ctx : ClientCtx)
    (args : List Bytes) :
    (∃ e, (cmd_auth (F := F) hasher t acl ctx args).1 = .Error e ∧
        (cmd_auth (F := F) hasher t acl ctx args).2.2 = ctx) ∨
      ∃ user, (auth_args args).toOption.map Prod.fst = some user ∧
        cmd_auth (F := F) hasher t acl ctx args =
          (.SimpleString "OK", acl, { ctx with authenticated := true, name := some user }) := by
  unfold cmd_auth
  cases auth_args args with
  | error e => exact .inl ⟨e, rfl, rfl⟩
  | ok up =>
    obtain ⟨user, password⟩ := up
    dsimp only
    by_cases h : acl.authenticate hasher user password = true
    · rw [if_pos h]
      exact .inr ⟨user, rfl, rfl⟩
    · rw [if_neg h]
      exact .inl ⟨_, rfl, rfl⟩

theorem auth_args_user {username password : Bytes} {user : String}
    (h : (auth_args [username, password]).toOption.map Prod.fst = some user) :
    from_utf8 username = .ok user := by
  rw [auth_args] at h
  cases hu : from_utf8 username with
  | error e => simp [hu, Except.toOption] at h
  | ok u =>
    cases hp : from_utf8 password with
    | error e => simp [hu, hp, Except.toOption] at h
    | ok p => simpa [hu, hp, Except.toOption] using h

def ClientCtx.user (ctx : ClientCtx) : String := ctx.name.getD "default"

/-- Plain options stop at an error and leave the connection alone, or come to their end and have
authenticated the user of the AUTH clause, if there is one. -/
theorem hello_options_plain (t : ℕ) (acl : AclManager)
    (ctx : ClientCtx) {opts : List Bytes} (h : options_plain opts = true) :
    (∃ e, (hello_options (F := F) hasher t opts acl ctx).1 = some (.Error e) ∧
        (hello_options (F := F) hasher t opts acl ctx).2.2 = ctx) ∨
      (hello_options (F := F) hasher t opts acl ctx).1 = none ∧
        (hello_options (F := F) hasher t opts acl ctx).2.2.user =
          (hello_users opts).getLast?.getD ctx.user := by
  cases opts with
  | nil => exact .inr ⟨rfl, rfl⟩
  | cons opt rest =>
    rw [options_plain] at h
    rw [hello_options.eq_def, hello_users.eq_def]
    dsimp only
    by_cases hauth : option_name opt = some "AUTH"
    · rw [if_pos hauth] at h
      rw [if_pos hauth, if_pos hauth]
      obtain _ | ⟨username, _ | ⟨password, _ | ⟨_, _⟩⟩⟩ := rest
      · exact .inl ⟨_, rfl, rfl⟩
      · exact .inl ⟨_, rfl, rfl⟩
      · rcases cmd_auth_cases (F := F) hasher t acl ctx [username, password] with
          ⟨e, he, hctx⟩ | ⟨user, huser, hok⟩
        · refine .inl ⟨e, ?_⟩
          dsimp only
          generalize cmd_auth (F := F) hasher t acl ctx [username, password] = result at he hctx ⊢
          obtain ⟨r, acl', ctx'⟩ := result
          subst he hctx
          exact ⟨rfl, rfl⟩
        · refine .inr ?_
          dsimp only
          rw [hok, auth_args_user huser]
          exact ⟨rfl, rfl⟩
      · simp at h
    · rw [if_neg hauth] at h
      rw [if_neg hauth, if_neg hauth]
      by_cases hset : option_name opt = some "SETNAME"
      · rw [if_pos hset] at h
        rw [if_pos hset]
        cases rest with
        | nil => exact .inl ⟨_, rfl, rfl⟩
        | cons name =>
          dsimp only
          cases hn : from_utf8 name with
          | error _ => exact .inl ⟨_, rfl, rfl⟩
          | ok _ => simp [hn, Except.toOption] at h
      · rw [if_neg hset]
        exact .inl ⟨_, rfl, rfl⟩

theorem cmd_hello_plain (t : ℕ) (acl : AclManager) (ctx : ClientCtx)
    {args : List Bytes} (h : hello_plain args = true) :
    (∃ e, (cmd_hello (F := F) hasher t acl ctx args).1 = .Error e ∧
        (cmd_hello (F := F) hasher t acl ctx args).2.2 = ctx) ∨
      ∃ items, (cmd_hello (F := F) hasher t acl ctx args).1 = .Array items ∧
        (cmd_hello (F := F) hasher t acl ctx args).2.2.user =
          (hello_users args.tail).getLast?.getD ctx.user := by
  match args with
  | [] => exact .inr ⟨_, rfl, rfl⟩
  | ver :: opts =>
    rw [cmd_hello]
    cases hv : hello_proto ver with
    | none => exact .inl ⟨_, rfl, rfl⟩
    | some proto =>
      have hopts : options_plain opts = true := by simpa [hello_plain, hv] using h
      have hcases := hello_options_plain (F := F) hasher t acl ctx hopts
      generalize hello_options (F := F) hasher t opts acl ctx = result at hcases ⊢
      obtain ⟨e, acl', ctx'⟩ := result
      rcases hcases with ⟨e, he, hctx⟩ | ⟨hnone, huser⟩
      · subst he hctx
        exact .inl ⟨e, rfl, rfl⟩
      · subst hnone
        exact .inr ⟨_, rfl, huser⟩

/-- CLIENT keeps the name unless it sets one. -/
theorem cmd_client_name {other : String → List Bytes → RespValue F} {ctx : ClientCtx}
    {args : List Bytes}
    (h : ∀ sub name, args = [sub, name] → option_name sub = some "SETNAME" →
      (from_utf8 name).toOption = none) :
    (cmd_client other ctx args).2.name = ctx.name := by
  match args with
  | [] => rfl
  | sub :: rest =>
    rw [cmd_client]
    cases hs : from_utf8 sub with
    | error _ => rfl
    | ok s =>
      dsimp only
      split
      · rfl
      · rename_i hset
        match rest with
        | [] => rfl
        | [name] =>
          rw [cmd_client_setname]
          cases hn : from_utf8 name with
          | error _ => rfl
          | ok n =>
            have hbad := h sub name rfl (by simp [option_name, hs, Except.toOption, hset])
            simp [hn, Except.toOption] at hbad
        | _ :: _ :: _ => rfl
      · rfl
      · unfold cmd_client_no_evict client_flag
        split
        · split <;> rfl
        · rfl
      · unfold cmd_client_no_touch client_flag
        split
        · split <;> rfl
        · rfl
      · rfl

theorem cmd_select_name (ctx : ClientCtx) (args : List Bytes) :
    (cmd_select (F := F) ctx args).2.name = ctx.name := by
  unfold cmd_select
  split
  · split <;> rfl
  · rfl

variable {cmd : Cmd} {reply : Option (RespValue F)} {name : String} {t : Task F} {H : Host F}

/-- Only AUTH, HELLO and RESET change who a connection acts as. -/
theorem identity_step_of_name (hauth : name_of cmd ≠ some "AUTH")
    (hhello : name_of cmd ≠ some "HELLO") (hreset : name_of cmd ≠ some "RESET") (who : String)
    (reply : Option (RespValue F)) : identity_step who ⟨cmd, reply⟩ = who := by
  unfold identity_step
  dsimp only
  split
  · rename_i h
    exact absurd h hauth
  · rename_i h
    exact absurd h hhello
  · rename_i h
    exact absurd h hreset
  · rfl

theorem identity_step_of_reply {who : String}
    (hok : reply ≠ some (.SimpleString "OK")) (harr : ∀ items, reply ≠ some (.Array items)) :
    identity_step who ⟨cmd, reply⟩ = who := by
  unfold identity_step
  dsimp only
  split
  · exact absurd rfl hok
  · exact absurd rfl (harr _)
  · exact absurd rfl hok
  · rfl

/-- What dispatching a command did to the connection's name is what its reply says; and a command
that is left as a program is none that can name a user, whatever the reply will be. -/
def Accounted (cmd : Cmd) (before : Session) : Outcome F × Session → Prop
  | (.reply r, after) => after.ctx.user = identity_step before.ctx.user ⟨cmd, some r⟩
  | (.work _, after) =>
    after.ctx = before.ctx ∧
      ∀ (who : String) (reply : Option (RespValue F)), identity_step who ⟨cmd, reply⟩ = who

theorem execute_accounted (H : Host F) (t : ℕ)
    (hname : name_of cmd = some name) (hn : naming cmd = false) (s : Session) :
    Accounted cmd s (execute H t name cmd.tail s) := by
  have hother : ∀ reply : RespValue F, name ≠ "AUTH" → name ≠ "HELLO" → name ≠ "RESET" →
      s.ctx.user = identity_step s.ctx.user ⟨cmd, some reply⟩ := by
    intro reply hauth hhello hreset
    refine (identity_step_of_name ?_ ?_ ?_ _ _).symm
    all_goals
      rw [hname]
      simpa
  unfold execute
  dsimp only
  split
  · -- RESET
    show _ = identity_step _ _
    unfold identity_step
    rw [hname]
    rfl
  · -- SELECT
    show _ = identity_step _ _
    rw [ClientCtx.user, cmd_select_name]
    exact hother _ (by decide) (by decide) (by decide)
  · -- CLIENT
    show _ = identity_step _ _
    rw [ClientCtx.user, cmd_client_name]
    · exact hother _ (by decide) (by decide) (by decide)
    · intro sub name hargs hsub
      unfold naming at hn
      rw [hname, hargs] at hn
      simpa [hsub] using hn
  · -- HELLO
    have hplain : hello_plain cmd.tail = true := by
      unfold naming at hn
      rw [hname] at hn
      simpa using hn
    have hcases := cmd_hello_plain (F := F) H.hasher t s.acl s.ctx hplain
    generalize cmd_hello (F := F) H.hasher t s.acl s.ctx cmd.tail = result at hcases ⊢
    obtain ⟨r, acl, ctx⟩ := result
    show _ = identity_step _ _
    rcases hcases with ⟨e, he, hctx⟩ | ⟨items, hi, huser⟩
    · subst he hctx
      rw [identity_step_of_reply (by simp) (by simp)]
    · subst hi
      unfold identity_step
      rw [hname]
      exact huser
  · -- AUTH
    have hcases := cmd_auth_cases (F := F) H.hasher t s.acl s.ctx cmd.tail
    generalize cmd_auth (F := F) H.hasher t s.acl s.ctx cmd.tail = result at hcases ⊢
    obtain ⟨r, acl, ctx⟩ := result
    show _ = identity_step _ _
    rcases hcases with ⟨e, he, hctx⟩ | ⟨user, huser, hok⟩
    · subst he hctx
      rw [identity_step_of_reply (by simp) (by simp)]
    · cases hok
      unfold identity_step
      rw [hname]
      dsimp only
      rw [huser]
      rfl
  · -- ACL
    exact hother _ (by decide) (by decide) (by decide)
  · -- the commands on the store leave the connection alone
    rename_i hreset _ _ hhello hauth _
    refine ⟨rfl, identity_step_of_name ?_ ?_ ?_⟩
    all_goals
      rw [hname]
      simpa

theorem dispatch_plain_accounted (H : Host F) (t : ℕ) {cmd : {cmd : Cmd // queueable cmd = true}}
    (hn : naming cmd.1 = false) (s : Session) : Accounted cmd.1 s (dispatch_plain H t cmd s) := by
  obtain ⟨name, hname⟩ := exists_name_of cmd.2
  unfold dispatch_plain
  rw [hname, getD_some]
  by_cases hm : s.ctx.multi = true
  · rw [if_pos hm]
    show _ = identity_step _ _
    rw [identity_step_of_reply (by simp) (by simp)]
    rfl
  · rw [if_neg hm]
    by_cases hacl : name = "ACL" ∨ name = "AUTH"
    · rw [if_pos hacl]
      exact execute_accounted H t hname hn s
    · rw [if_neg hacl]
      obtain ⟨verdict, acl⟩ := check_permission t s.acl s.ctx name cmd.1.tail
      cases verdict with
      | error reason =>
        show _ = identity_step _ _
        rw [identity_step_of_reply (by simp) (by simp)]
      | ok _ => exact execute_accounted H t hname hn { s with acl := acl }

/-! ## Every run -/

theorem identity_append (history : List (Executed F)) (x : Executed F) :
    identity (history ++ [x]) = identity_step (identity history) x := by
  unfold identity
  rw [List.foldl_append]
  rfl

theorem identity_step_transaction (hname : name_of cmd = some name)
    (ht : is_transaction name = true) (who : String) (reply : Option (RespValue F)) :
    identity_step who ⟨cmd, reply⟩ = who := by
  have hne : ∀ other, is_transaction other = false → name_of cmd ≠ some other := by
    intro other hother h
    rw [hname] at h
    cases Option.some.inj h
    rw [ht] at hother
    cases hother
  exact identity_step_of_name (hne _ (by decide)) (hne _ (by decide)) (hne _ (by decide)) who reply

/-- The connection's name is the user its history gives; the command it is in will name no user,
and what it calls EXEC is one. -/
structure Known (c : Conn F) : Prop where
  user : c.ctx.user = identity c.history
  exec : ∀ x, c.running = some x → name_of x.cmd = some "EXEC"
  pending : ∀ x, c.pending = some x → ∀ (who : String) (reply : Option (RespValue F)),
    identity_step who ⟨x.cmd, reply⟩ = who

theorem Known.note (huser : t.conn.ctx.user = identity_step (identity t.conn.history) ⟨cmd, reply⟩)
    (hexec : ∀ x, t.conn.running = some x → name_of x.cmd = some "EXEC")
    (hpending : ∀ x, t.conn.pending = some x → ∀ (who : String) (reply : Option (RespValue F)),
      identity_step who ⟨x.cmd, reply⟩ = who) : Known (t.note cmd reply).conn := by
  refine ⟨?_, hexec, hpending⟩
  show t.conn.ctx.user = identity (t.conn.history ++ [⟨cmd, reply⟩])
  rw [identity_append]
  exact huser

theorem Known.answer
    (huser : t.conn.ctx.user = identity_step (identity t.conn.history) ⟨cmd, reply⟩)
    (hexec : ∀ x, t.conn.running = some x → name_of x.cmd = some "EXEC") :
    Known (t.answer cmd reply).conn := by
  refine .note huser (fun x hx => ?_) (fun x hx => by cases hx)
  obtain ⟨r, -, hr⟩ := bind_eq_some_iff.mp hx
  obtain ⟨y, hy, rfl⟩ := map_eq_some_iff.mp hr
  exact hexec y hy

theorem Known.run_plain (h : Known t.conn)
    {cmd : {cmd : Cmd // queueable cmd = true}} (hn : naming cmd.1 = false) :
    Known (t.run_plain H cmd).conn := by
  have hacc := dispatch_plain_accounted H (World.seconds t.world) hn t.session
  rcases Task.run_plain_cases H t cmd with ⟨r, v, hd, hr⟩ | ⟨p, v, hd, hr⟩
  · rw [hd] at hacc
    rw [hr]
    refine .answer ?_ h.exec
    show v.ctx.user = identity_step (identity t.conn.history) _
    rw [← h.user]
    exact hacc
  · rw [hd] at hacc
    rw [hr]
    refine ⟨?_, h.exec, ?_⟩
    · show v.ctx.user = identity t.conn.history
      rw [hacc.1]
      exact h.user
    · intro x hx
      cases hx
      exact hacc.2

theorem Known.own (h : Known t.conn)
    (hname : name_of cmd = some name) (ht : is_transaction name = true)
    {result : RespValue F × ClientCtx} (huser : result.2.user = t.conn.ctx.user) :
    Known (t.own cmd result).conn :=
  .note ((huser.trans h.user).trans (identity_step_transaction hname ht _ _).symm) h.exec
    h.pending

theorem cmd_multi_user (ctx : ClientCtx) : (cmd_multi (F := F) ctx).2.user = ctx.user := by
  unfold cmd_multi
  split <;> rfl

theorem cmd_discard_user (ctx : ClientCtx) : (cmd_discard (F := F) ctx).2.user = ctx.user := by
  unfold cmd_discard
  split <;> rfl

/-- The step: an action keeps what is known about a connection that sends no naming command and
has none in store. -/
theorem Known.step (h : Known t.conn)
    (hs : InStore (fun cmd => naming cmd = false) t.conn) {a : Action}
    (ha : ∀ cmd, a = .send cmd → naming cmd = false) : Known (t.step H a).conn := by
  have hmoves := t.step_moves H a
  generalize t.step H a = t' at hmoves ⊢
  cases hmoves with
  | none _ => exact h
  | refuse _ =>
    exact .note (h.user.trans (identity_step_of_reply (by simp) (by simp)).symm) h.exec h.pending
  | multi _ hname => exact h.own hname (by decide) (cmd_multi_user _)
  | discard _ hname => exact h.own hname (by decide) (cmd_discard_user _)
  | unwatch _ hname => exact h.own hname (by decide) rfl
  | watch _ hname _ =>
    have hid := identity_step_transaction (F := F) hname (by decide) (identity t.conn.history)
    exact .note (h.user.trans (hid _).symm) h.exec h.pending
  | abort _ hname _ _ => exact h.own hname (by decide) rfl
  | exec _ hname _ _ =>
    refine ⟨h.user, fun x hx => ?_, h.pending⟩
    cases hx
    exact hname
  | plain cmd _ => exact h.run_plain (ha cmd.1 rfl)
  | @next cmd queued rest results _ hr =>
    have hnext : Known (t.set_running (some ⟨cmd, rest, results⟩)).conn := by
      have hcmd : name_of cmd = some "EXEC" := h.exec _ hr
      refine ⟨h.user, fun x hx => ?_, h.pending⟩
      cases hx
      exact hcmd
    exact hnext.run_plain (hs.rest _ hr _ List.mem_cons_self)
  | finish _ hr =>
    have hid := identity_step_transaction (F := F) (h.exec _ hr) (by decide)
      (identity t.conn.history)
    exact .note (h.user.trans (hid _).symm) (fun x hx => by cases hx) h.pending
  | call hx =>
    have hid := h.pending _ hx
    refine ⟨h.user, h.exec, fun y hy => ?_⟩
    cases hy
    exact hid
  | answer hx => exact .answer (h.user.trans (h.pending _ hx _ _).symm) h.exec
  | deliver _ _ => exact ⟨h.user, h.exec, h.pending⟩

/-- What holds of connection `i` in every run in which it sends no naming command. -/
theorem known_of_run {world : World F} {acl : AclManager} {i : ℕ} {es : List Event}
    (h : Runs.Along (Server.step H) (Unnamed i) (.start world acl) es) :
    Known ((Server.run H (.start world acl) es).conns i) := by
  let I (c : Conn F) : Prop := Known c ∧ InStore (fun cmd => naming cmd = false) c
  have hnew : I (Conn.new (i + 1)) :=
    ⟨⟨rfl, by simp [Conn.new], by simp [Conn.new]⟩,
      ⟨by simp [Conn.new, ClientCtx.new], by simp [Conn.new]⟩⟩
  have hstep : ∀ s e, Unnamed i s e → I (s.conns i) → I ((s.step H e).conns i) := by
    intro s e he hs
    refine Server.step_of_conn (P := I) H hs fun hi => ⟨?_, ?_⟩
    · exact .step (t := s.task i) hs.1 hs.2 (he hi)
    · exact .step (t := s.task i) hs.2 (he hi)
  exact (h.invariant (I := fun s => I (s.conns i)) hstep hnew).1

/-- In every run in which connection `i` sends no naming command, and in every state it reaches:
as long as the user of the connection's last successful AUTH exists, that user's permissions
apply to its next command; and the default user, for a connection without one, does exist. -/
theorem effective_user_of_run (H : Host F) (world : World F) (i : ℕ) (es : List Event)
    (h : Runs.Along (Server.step H) (Unnamed i) (.start world .new) es) :
    let s := Server.run H (.start world .new) es
    let who := identity (s.conns i).history
    (∀ user, s.acl.get_user who = some user →
      ∀ t name args, check_permission t s.acl (s.conns i).ctx name args =
        s.acl.check_command t user name args) ∧
    (who = "default" → ∃ user, s.acl.get_user who = some user) := by
  intro s who
  have hknown : Known (s.conns i) := known_of_run h
  have hnew : HasDefault AclManager.new := by
    rfl
  have hdefault : HasDefault s.acl :=
    h.invariant (I := fun s => HasDefault s.acl)
      (fun s e _ hs => Task.step_default H (t := s.task e.conn) e.action hs) hnew
  constructor
  · intro user huser t name args
    have hname : (s.conns i).ctx.name.getD "default" = who := hknown.user
    rw [check_permission, effective_user, hname, huser, getD_some]
  · intro hid
    rw [hid]
    exact isSome_iff_exists.mp hdefault

/-- A server whose commands on the store all reply OK, to run the commands on connections. -/
def Host.bare : Host Infinity where
  handler _ _ := return .SimpleString "OK"
  client_other _ _ := .SimpleString "OK"
  acl_other _ _ _ := .SimpleString "OK"
  hasher _ := 0

/-- After `AUTH alice pw` the permissions are alice's. -/
theorem effective_user_alice :
    let s := Server.run .bare (.start (.new .still) .new)
      [⟨0, .send (cmd_of ["ACL", "SETUSER", "alice"])⟩,
        ⟨1, .send (cmd_of ["AUTH", "alice", "pw"])⟩]
    let who := identity (s.conns 1).history
    who = "alice" ∧ ∀ user, s.acl.get_user who = some user →
      ∀ t name args, check_permission t s.acl (s.conns 1).ctx name args =
        s.acl.check_command t user name args :=
  ⟨by decide, (effective_user_of_run .bare (.new .still) 1
    [⟨0, .send (cmd_of ["ACL", "SETUSER", "alice"])⟩,
      ⟨1, .send (cmd_of ["AUTH", "alice", "pw"])⟩]
    ⟨fun h => absurd h (by decide), fun _ cmd hcmd => by cases hcmd; decide, trivial⟩).1⟩

/-- After `CLIENT SETNAME alice` the permissions are alice's as well, without any AUTH. -/
theorem client_setname_takes_user :
    ¬ ∀ (H : Host Infinity) (world : World Infinity) (i : ℕ) (es : List Event),
      let s := Server.run H (.start world .new) es
      (effective_user s.acl (s.conns i).ctx).name = identity (s.conns i).history := by
  intro h
  have hrun := h .bare (.new .still) 1
    [⟨0, .send (cmd_of ["ACL", "SETUSER", "alice"])⟩,
      ⟨1, .send (cmd_of ["CLIENT", "SETNAME", "alice"])⟩]
  exact absurd hrun (by decide)

end ValkeyRs.Server
