/-
What an event can do, said once.

`Moves` lists the cases of an action, with what they do. A command that is not about transactions
changes the transaction of its connection in one of three ways: it is queued, it leaves it as it is,
or it was a RESET (`dispatch_plain_cases`). It is answered at once or becomes a program on the store
(`run_plain_cases`). And no action removes the default user (`step_default`).
-/
import ValkeyRs.Dispatch

set_option autoImplicit false
set_option linter.dupNamespace false

open ValkeyRs Text Storage Resp Zset Acl

namespace ValkeyRs.Server

variable {F : Type} [Score F]

/-! ## The transaction of a connection -/

theorem exists_name_of {cmd : Cmd} (h : queueable cmd = true) : ∃ name, name_of cmd = some name := by
  unfold queueable at h
  cases hn : name_of cmd with
  | none => simp [hn] at h
  | some name => exact ⟨name, rfl⟩

/-- The two states are in the same transaction, with the same queue. -/
structure SameTransaction (c c' : ClientCtx) : Prop where
  multi : c'.multi = c.multi
  queue : c'.queue = c.queue
  watched : c'.watched = c.watched
  dirty : c'.dirty = c.dirty

theorem SameTransaction.refl (c : ClientCtx) : SameTransaction c c := ⟨rfl, rfl, rfl, rfl⟩

theorem SameTransaction.trans {c c' c'' : ClientCtx} (h : SameTransaction c c')
    (h' : SameTransaction c' c'') : SameTransaction c c'' :=
  ⟨h'.multi.trans h.multi, h'.queue.trans h.queue, h'.watched.trans h.watched,
    h'.dirty.trans h.dirty⟩

variable (hasher : String → UInt64)

theorem cmd_auth_keeps (t : ℕ) (acl : AclManager) (ctx : ClientCtx)
    (args : List Bytes) :
    SameTransaction ctx (cmd_auth (F := F) hasher t acl ctx args).2.2 ∧
      (cmd_auth (F := F) hasher t acl ctx args).2.1.users = acl.users := by
  unfold cmd_auth
  split
  · exact ⟨.refl ctx, rfl⟩
  · split
    · exact ⟨⟨rfl, rfl, rfl, rfl⟩, rfl⟩
    · exact ⟨.refl ctx, rfl⟩

theorem hello_options_keeps (t : ℕ) (opts : List Bytes)
    (acl : AclManager) (ctx : ClientCtx) :
    SameTransaction ctx (hello_options (F := F) hasher t opts acl ctx).2.2 ∧
      (hello_options (F := F) hasher t opts acl ctx).2.1.users = acl.users := by
  fun_induction hello_options hasher t opts acl ctx with
  | case2 _ acl ctx _ username password _ _ _ _ hauth =>
    have h := cmd_auth_keeps (F := F) hasher t acl ctx [username, password]
    rw [hauth] at h
    exact h
  | case3 _ acl ctx _ username password _ _ _ _ _ hauth ih =>
    have h := cmd_auth_keeps (F := F) hasher t acl ctx [username, password]
    rw [hauth] at h
    exact ⟨h.1.trans ih.1, ih.2.trans h.2⟩
  | case5 _ _ ctx _ _ _ _ _ _ ih => exact ⟨⟨ih.1.1, ih.1.2, ih.1.3, ih.1.4⟩, ih.2⟩
  | _ => exact ⟨.refl _, rfl⟩

theorem cmd_hello_keeps (t : ℕ) (acl : AclManager) (ctx : ClientCtx)
    (args : List Bytes) :
    SameTransaction ctx (cmd_hello (F := F) hasher t acl ctx args).2.2 ∧
      (cmd_hello (F := F) hasher t acl ctx args).2.1.users = acl.users := by
  match args with
  | [] => exact ⟨.refl ctx, rfl⟩
  | ver :: opts =>
    rw [cmd_hello]
    cases hello_proto ver with
    | none => exact ⟨.refl ctx, rfl⟩
    | some proto =>
      have h := hello_options_keeps (F := F) hasher t opts acl ctx
      generalize hello_options (F := F) hasher t opts acl ctx = result at h ⊢
      obtain ⟨e, acl', ctx'⟩ := result
      cases e <;> exact h

theorem cmd_select_transaction (ctx : ClientCtx) (args : List Bytes) :
    SameTransaction ctx (cmd_select (F := F) ctx args).2 := by
  unfold cmd_select
  split
  · split <;> exact ⟨rfl, rfl, rfl, rfl⟩
  · exact .refl ctx

theorem client_flag_transaction (sub : String) (set : Bool → ClientFlags) (ctx : ClientCtx)
    (args : List Bytes) : SameTransaction ctx (client_flag (F := F) sub set ctx args).2 := by
  unfold client_flag
  split
  · split <;> exact ⟨rfl, rfl, rfl, rfl⟩
  · exact .refl ctx

theorem cmd_client_transaction (other : String → List Bytes → RespValue F) (ctx : ClientCtx)
    (args : List Bytes) : SameTransaction ctx (cmd_client other ctx args).2 := by
  unfold cmd_client
  split
  · exact .refl ctx
  · split
    · exact .refl ctx
    · split
      · exact .refl ctx
      · unfold cmd_client_setname
        split
        · split <;> exact ⟨rfl, rfl, rfl, rfl⟩
        · exact .refl ctx
      · exact .refl ctx
      · exact client_flag_transaction ..
      · exact client_flag_transaction ..
      · exact .refl ctx

/-- A command that passed the check leaves the transaction alone, unless it is a RESET. -/
theorem execute_transaction (H : Host F) (t : ℕ) (name : String) (args : List Bytes)
    (s : Session) :
    SameTransaction s.ctx (execute H t name args s).2.ctx ∨
      name = "RESET" ∧ (execute H t name args s).2.ctx = .new s.ctx.id := by
  unfold execute
  split
  · exact .inr ⟨rfl, rfl⟩
  · exact .inl (cmd_select_transaction ..)
  · exact .inl (cmd_client_transaction ..)
  · exact .inl (cmd_hello_keeps ..).1
  · exact .inl (cmd_auth_keeps ..).1
  · exact .inl (.refl _)
  · exact .inl (.refl _)

/-- Outside of a transaction a command is run, or refused, and the transaction stays as it is
unless the command is a RESET. Inside it is queued. -/
theorem dispatch_plain_cases (H : Host F) (t : ℕ) (cmd : {cmd : Cmd // queueable cmd = true})
    (s : Session) :
    (s.ctx.multi = true ∧ dispatch_plain H t cmd s = (.reply (.SimpleString "QUEUED"),
        { s with ctx := { s.ctx with queue := s.ctx.queue ++ [cmd] } })) ∨
      (s.ctx.multi = false ∧ (SameTransaction s.ctx (dispatch_plain H t cmd s).2.ctx ∨
        name_of cmd.1 = some "RESET" ∧ (dispatch_plain H t cmd s).2.ctx = .new s.ctx.id)) := by
  unfold dispatch_plain
  by_cases hm : s.ctx.multi = true
  · exact .inl ⟨hm, if_pos hm⟩
  · refine .inr ⟨by simpa using hm, ?_⟩
    rw [if_neg hm]
    have hname : (name_of cmd.1).getD "" = "RESET" → name_of cmd.1 = some "RESET" := by
      obtain ⟨name, hn⟩ := exists_name_of cmd.2
      rw [hn, Option.getD_some]
      exact congrArg some
    by_cases hacl : (name_of cmd.1).getD "" = "ACL" ∨ (name_of cmd.1).getD "" = "AUTH"
    · rw [if_pos hacl]
      rcases execute_transaction H t ((name_of cmd.1).getD "") cmd.1.tail s with h | ⟨h, h'⟩
      · exact .inl h
      · exact .inr ⟨hname h, h'⟩
    · rw [if_neg hacl]
      obtain ⟨verdict, acl⟩ := check_permission t s.acl s.ctx ((name_of cmd.1).getD "") cmd.1.tail
      cases verdict with
      | error reason => exact .inl (.refl _)
      | ok _ =>
        rcases execute_transaction H t ((name_of cmd.1).getD "") cmd.1.tail { s with acl := acl }
          with h | ⟨h, h'⟩
        · exact .inl h
        · exact .inr ⟨hname h, h'⟩

theorem execute_work {H : Host F} {t : ℕ} {name : String} {args : List Bytes} {s v : Session}
    {p : StoreM F (RespValue F)} (h : execute H t name args s = (.work p, v)) :
    p = H.handler name args ∧ v = s := by
  unfold execute at h
  split at h
  iterate 6 cases h
  cases h
  exact ⟨rfl, rfl⟩

theorem dispatch_plain_work {H : Host F} {t : ℕ} {cmd : {cmd : Cmd // queueable cmd = true}}
    {s v : Session} {p : StoreM F (RespValue F)} (h : dispatch_plain H t cmd s = (.work p, v)) :
    p = H.program cmd.1 ∧ s.ctx.multi = false ∧ v.ctx = s.ctx := by
  unfold dispatch_plain at h
  by_cases hm : s.ctx.multi = true
  · rw [if_pos hm] at h
    cases h
  · rw [if_neg hm] at h
    have hm' : s.ctx.multi = false := by simpa using hm
    split at h
    · obtain ⟨hp, rfl⟩ := execute_work h
      exact ⟨hp, hm', rfl⟩
    · split at h
      · cases h
      · obtain ⟨hp, rfl⟩ := execute_work h
        exact ⟨hp, hm', rfl⟩

/-! ## The default user -/

/-- The user `default` exists. -/
def HasDefault (acl : AclManager) : Prop := (acl.users["default"]?).isSome = true

variable {acl : AclManager}

theorem HasDefault.set_user (h : HasDefault acl) (user : AclUser) :
    HasDefault (acl.set_user user) := by
  unfold HasDefault AclManager.set_user at *
  rw [Std.ExtTreeMap.getElem?_insert]
  split
  · rfl
  · exact h

theorem HasDefault.remove_all (h : HasDefault acl) {names : List String}
    (hn : "default" ∉ names) (count : ℕ) :
    HasDefault (AclManager.remove_all names acl count).2 := by
  induction names generalizing acl count with
  | nil => exact h
  | cons name names ih =>
    rw [List.mem_cons, not_or] at hn
    refine ih ?_ hn.2 _
    unfold HasDefault AclManager.remove
    rw [Std.ExtTreeMap.getElem?_erase, if_neg]
    · exact h
    · rw [Std.LawfulEqCmp.compare_eq_iff_eq]
      exact fun heq => hn.1 heq.symm

theorem HasDefault.cmd_acl_setuser (h : HasDefault acl)
    (hasher : String → UInt64) (args : List Bytes) :
    HasDefault (Acl.cmd_acl_setuser (F := F) hasher acl args).2 := by
  unfold Acl.cmd_acl_setuser
  split
  · exact h
  · split
    · exact h
    · split
      · exact h
      · exact h.set_user _

/-- DELUSER refuses to delete the default user. -/
theorem HasDefault.cmd_acl_deluser (h : HasDefault acl) (args : List Bytes) :
    HasDefault (Acl.cmd_acl_deluser (F := F) acl args).2 := by
  unfold Acl.cmd_acl_deluser AclManager.del_user
  split
  · exact h
  · by_cases hn : (texts args).contains "default" = true
    · rw [if_pos hn]
      exact h
    · rw [if_neg hn]
      exact h.remove_all (by simpa using hn) 0

theorem HasDefault.cmd_acl_log (h : HasDefault acl) (args : List Bytes) :
    HasDefault (Acl.cmd_acl_log (F := F) acl args).2 := by
  unfold Acl.cmd_acl_log
  split
  · exact h
  · split
    · exact h
    · split
      · exact h
      · split <;> exact h

theorem HasDefault.handle (h : HasDefault acl) (hasher : String → UInt64)
    (other : AclManager → String → List Bytes → RespValue F) (ctx : ClientCtx)
    (args : List Bytes) : HasDefault (Acl.handle hasher other acl ctx args).2 := by
  unfold Acl.handle
  split
  · exact h
  · split
    · exact h
    · split
      · exact h
      · exact h
      · exact h
      · exact h.cmd_acl_setuser ..
      · exact h.cmd_acl_deluser ..
      · exact h.cmd_acl_log ..
      · exact h

theorem execute_default (H : Host F) (t : ℕ) (name : String) (args : List Bytes) {s : Session}
    (h : HasDefault s.acl) : HasDefault (execute H t name args s).2.acl := by
  unfold execute
  split
  · exact h
  · exact h
  · exact h
  · unfold HasDefault
    rw [(cmd_hello_keeps ..).2]
    exact h
  · unfold HasDefault
    rw [(cmd_auth_keeps ..).2]
    exact h
  · exact h.handle ..
  · exact h

theorem check_permission_users (t : ℕ) (acl : AclManager) (ctx : ClientCtx) (name : String)
    (keys : List Bytes) : (check_permission t acl ctx name keys).2.users = acl.users := by
  unfold check_permission AclManager.check_command
  split <;> rfl

theorem dispatch_plain_default (H : Host F) (t : ℕ) (cmd : {cmd : Cmd // queueable cmd = true})
    {s : Session} (h : HasDefault s.acl) : HasDefault (dispatch_plain H t cmd s).2.acl := by
  unfold dispatch_plain
  dsimp only
  split
  · exact h
  · split
    · exact execute_default H t _ _ h
    · have hu := check_permission_users t s.acl s.ctx ((name_of cmd.1).getD "") cmd.1.tail
      generalize check_permission t s.acl s.ctx ((name_of cmd.1).getD "") cmd.1.tail = checked
        at hu ⊢
      obtain ⟨verdict, acl⟩ := checked
      have h' : HasDefault acl := by
        unfold HasDefault at h ⊢
        rw [hu]
        exact h
      cases verdict with
      | error reason => exact h'
      | ok _ => exact execute_default H t _ _ h'

/-! ## Actions -/

/-- What an action of a connection can come to. -/
inductive Moves (H : Host F) (t : Task F) : Action → Task F → Prop
  /-- It cannot happen now. -/
  | none (a : Action) : Moves H t a t
  /-- A command that `dispatch_ctx` or `transaction::handle` answers with an error. -/
  | refuse {cmd : Cmd} {e : String} : t.conn.idle = true →
      Moves H t (.send cmd) (t.note cmd (some (.Error e)))
  | multi {cmd : Cmd} : t.conn.idle = true → name_of cmd = some "MULTI" →
      Moves H t (.send cmd) (t.own cmd (cmd_multi t.conn.ctx))
  | discard {cmd : Cmd} : t.conn.idle = true → name_of cmd = some "DISCARD" →
      Moves H t (.send cmd) (t.own cmd (cmd_discard t.conn.ctx))
  | unwatch {cmd : Cmd} : t.conn.idle = true → name_of cmd = some "UNWATCH" →
      Moves H t (.send cmd) (t.own cmd (cmd_unwatch t.conn.ctx))
  | watch {cmd : Cmd} : t.conn.idle = true → name_of cmd = some "WATCH" →
      t.conn.ctx.multi = false → Moves H t (.send cmd) ({ t with
        world := (register cmd.tail t.world).2
        conn := { t.conn with
          ctx := { t.conn.ctx with watched := cmd.tail, dirty := false }
          waiting := t.conn.waiting ++ (register cmd.tail t.world).1 } }.note cmd
            (some (.SimpleString "OK")))
  | abort {cmd : Cmd} : t.conn.idle = true → name_of cmd = some "EXEC" →
      t.conn.ctx.multi = true → t.conn.ctx.dirty = true →
      Moves H t (.send cmd) (t.own cmd (.Array none, end_multi t.conn.ctx))
  | exec {cmd : Cmd} : t.conn.idle = true → name_of cmd = some "EXEC" →
      t.conn.ctx.multi = true → t.conn.ctx.dirty = false →
      Moves H t (.send cmd) { t with conn := { t.conn with
        ctx := end_multi t.conn.ctx
        running := some ⟨cmd, t.conn.ctx.queue, []⟩ } }
  | plain (cmd : {cmd : Cmd // queueable cmd = true}) : t.conn.idle = true →
      Moves H t (.send cmd.1) (t.run_plain H cmd)
  /-- EXEC goes on to the next command of its queue. -/
  | next {cmd : Cmd} {queued : {cmd : Cmd // queueable cmd = true}}
      {rest : List {cmd : Cmd // queueable cmd = true}} {results : List (RespValue F)} :
      t.conn.pending = none → t.conn.running = some ⟨cmd, queued :: rest, results⟩ →
      Moves H t .resume ((t.set_running (some ⟨cmd, rest, results⟩)).run_plain H queued)
  | finish {cmd : Cmd} {results : List (RespValue F)} :
      t.conn.pending = none → t.conn.running = some ⟨cmd, [], results⟩ →
      Moves H t .resume ((t.set_running none).note cmd (some (.Array (some results))))
  /-- A command makes a call on the store. -/
  | call {cmd : Cmd} {o : StoreOp F} {next : StoreOp.Res o → StoreM F (RespValue F)} :
      t.conn.pending = some ⟨cmd, .op o next⟩ →
      Moves H t .resume { t with
        world := (World.step o t.world).2
        conn := { t.conn with pending := some ⟨cmd, next (World.step o t.world).1⟩ } }
  /-- A command is at its end. -/
  | answer {x : Pending F} {reply : Option (RespValue F)} : t.conn.pending = some x →
      Moves H t .resume (t.answer x.cmd reply)
  | deliver {rx : ℕ} : rx ∈ t.conn.waiting → rx ∈ t.world.sent →
      Moves H t (.deliver rx) { t with conn := { t.conn with
        ctx := { t.conn.ctx with dirty := true }
        waiting := t.conn.waiting.erase rx } }

namespace Task

variable (H : Host F)

theorem run_plain_cases (t : Task F) (cmd : {cmd : Cmd // queueable cmd = true}) :
    (∃ r v, dispatch_plain H (World.seconds t.world) cmd t.session = (.reply r, v) ∧
        t.run_plain H cmd = (t.put v).answer cmd.1 (some r)) ∨
      ∃ p v, dispatch_plain H (World.seconds t.world) cmd t.session = (.work p, v) ∧
        t.run_plain H cmd =
          { t.put v with conn := { (t.put v).conn with pending := some ⟨cmd.1, p⟩ } } := by
  unfold run_plain
  generalize dispatch_plain H (World.seconds t.world) cmd t.session = result
  obtain ⟨r | p, v⟩ := result
  · exact .inl ⟨r, v, rfl, rfl⟩
  · exact .inr ⟨p, v, rfl, rfl⟩

variable {cmd : Cmd} {t : Task F}

theorem transaction_moves (t : Task F) {name : String}
    (hidle : t.conn.idle = true) (hname : name_of cmd = some name) :
    Moves H t (.send cmd) (t.transaction cmd name) := by
  unfold transaction
  split
  · exact .multi hidle hname
  · exact .discard hidle hname
  · unfold cmd_exec
    by_cases hm : t.conn.ctx.multi = true
    · rw [if_neg (by simp [hm])]
      by_cases hd : t.conn.ctx.dirty = true
      · rw [if_pos hd]
        exact .abort hidle hname hm hd
      · rw [if_neg hd]
        exact .exec hidle hname hm (by simpa using hd)
    · rw [if_pos (by simpa using hm)]
      exact .refuse hidle
  · unfold cmd_watch
    dsimp only
    split
    · exact .refuse hidle
    · by_cases hm : t.conn.ctx.multi = true
      · rw [if_pos hm]
        exact .refuse hidle
      · rw [if_neg hm]
        exact .watch hidle hname (by simpa using hm)
  · exact .unwatch hidle hname
  · exact .refuse hidle

theorem step_transaction {name : String}
    (hidle : t.conn.idle = true) (hname : name_of cmd = some name)
    (ht : is_transaction name = true) : t.step H (.send cmd) = t.transaction cmd name := by
  have hq : ¬ queueable cmd = true := by
    unfold queueable
    rw [hname]
    simp [ht]
  rw [step, if_pos hidle, dispatch_ctx, hname]
  dsimp only
  rw [dif_neg hq]

/-- EXEC of a transaction that has been marked. -/
theorem step_exec_dirty (hidle : t.conn.idle = true)
    (hname : name_of cmd = some "EXEC") (hm : t.conn.ctx.multi = true)
    (hd : t.conn.ctx.dirty = true) :
    t.step H (.send cmd) = t.own cmd (.Array none, end_multi t.conn.ctx) := by
  rw [step_transaction H hidle hname (by decide)]
  show t.cmd_exec cmd = _
  unfold cmd_exec
  rw [if_neg (by simp [hm]), if_pos hd]

/-- The inversion of `Task.step`: the proofs about runs go through these cases. -/
theorem step_moves (t : Task F) (a : Action) : Moves H t a (t.step H a) := by
  cases a with
  | send cmd =>
    rw [step]
    by_cases hidle : t.conn.idle = true
    · rw [if_pos hidle]
      unfold dispatch_ctx
      split
      · exact .refuse hidle
      · rename_i name hname
        split
        · exact .plain ⟨cmd, _⟩ hidle
        · exact transaction_moves H t hidle hname
    · rw [if_neg hidle]
      exact .none _
  | resume =>
    rw [step]
    split
    · exact .none _
    · split
      · rename_i x hx
        unfold advance
        split
        · exact .answer hx
        · exact .answer hx
        · exact .answer hx
        · exact .answer hx
        · rename_i o next hprog
          have hx' : t.conn.pending = some ⟨x.cmd, .op o next⟩ := by
            rw [hx, ← hprog]
          exact .call hx'
      · rename_i hp
        unfold exec_next
        split
        · exact .none _
        · rename_i hr
          exact .finish hp hr
        · rename_i hr
          exact .next hp hr
  | deliver rx =>
    rw [step]
    by_cases h : rx ∈ t.conn.waiting ∧ rx ∈ t.world.sent
    · rw [if_pos h]
      exact .deliver h.1 h.2
    · rw [if_neg h]
      exact .none _

theorem run_plain_default (h : HasDefault t.acl)
    (cmd : {cmd : Cmd // queueable cmd = true}) : HasDefault (t.run_plain H cmd).acl := by
  have hd := dispatch_plain_default H (World.seconds t.world) cmd (s := t.session) h
  rcases run_plain_cases H t cmd with ⟨r, v, heq, hr⟩ | ⟨p, v, heq, hr⟩
  · rw [heq] at hd
    rw [hr]
    exact hd
  · rw [heq] at hd
    rw [hr]
    exact hd

theorem step_default (a : Action) (h : HasDefault t.acl) : HasDefault (t.step H a).acl := by
  have hmoves := t.step_moves H a
  generalize t.step H a = t' at hmoves ⊢
  cases hmoves with
  | plain cmd _ => exact run_plain_default H h cmd
  | @next cmd queued rest results _ _ =>
    exact run_plain_default H (t := t.set_running (some ⟨cmd, rest, results⟩)) h queued
  | _ => exact h

end Task

/-! ## The store -/

namespace Task

theorem run_plain_world (H : Host F) (t : Task F) (cmd : {cmd : Cmd // queueable cmd = true}) :
    (t.run_plain H cmd).world = t.world := by
  rcases run_plain_cases H t cmd with ⟨r, v, -, hr⟩ | ⟨p, v, -, hr⟩
  · rw [hr]
    rfl
  · rw [hr]
    rfl

/-- An action leaves the store alone, or makes one call of the command in progress, or registers
watchers. -/
theorem step_world (H : Host F) (t : Task F) (a : Action) :
    (t.step H a).world = t.world ∨
      (∃ cmd o next, a = .resume ∧ t.conn.pending = some ⟨cmd, .op o next⟩ ∧
        (t.step H a).world = (World.step o t.world).2) ∨
      ∃ cmd, a = .send cmd ∧ (t.step H a).world = (register cmd.tail t.world).2 := by
  have hmoves := t.step_moves H a
  generalize t.step H a = t' at hmoves ⊢
  cases hmoves with
  | plain cmd _ => exact .inl (run_plain_world H t cmd)
  | next _ _ => exact .inl (run_plain_world H _ _)
  | call hx => exact .inr (.inl ⟨_, _, _, rfl, hx, rfl⟩)
  | watch _ _ _ => exact .inr (.inr ⟨_, rfl, rfl⟩)
  | _ => exact .inl rfl

end Task

/-! ## Commands in store -/

/-- The commands a connection has in store satisfy `P`: those in its queue, and those its EXEC
has not come to. -/
structure InStore (P : Cmd → Prop) (c : Conn F) : Prop where
  queue : ∀ q ∈ c.ctx.queue, P q.1
  rest : ∀ x, c.running = some x → ∀ q ∈ x.rest, P q.1

section InStore

variable {P : Cmd → Prop}

theorem dispatch_plain_queue (H : Host F) (t : ℕ) {cmd : {cmd : Cmd // queueable cmd = true}}
    (hc : P cmd.1) {s : Session} (hs : ∀ q ∈ s.ctx.queue, P q.1) :
    ∀ q ∈ (dispatch_plain H t cmd s).2.ctx.queue, P q.1 := by
  rcases dispatch_plain_cases H t cmd s with ⟨-, hq⟩ | ⟨-, hq | ⟨-, hq⟩⟩
  · rw [hq]
    intro q hmem
    rcases List.mem_append.mp hmem with hmem | hmem
    · exact hs q hmem
    · rw [List.mem_singleton.mp hmem]
      exact hc
  · rw [hq.queue]
    exact hs
  · rw [hq]
    intro q hmem
    cases hmem

variable {t : Task F}

theorem InStore.answer (h : InStore P t.conn) (cmd : Cmd)
    (reply : Option (RespValue F)) : InStore P (t.answer cmd reply).conn := by
  refine ⟨h.queue, fun x hx => ?_⟩
  obtain ⟨r, -, hr⟩ := Option.bind_eq_some_iff.mp hx
  obtain ⟨y, hy, rfl⟩ := Option.map_eq_some_iff.mp hr
  exact h.rest y hy

theorem InStore.run_plain {H : Host F} (h : InStore P t.conn)
    {cmd : {cmd : Cmd // queueable cmd = true}} (hc : P cmd.1) :
    InStore P (t.run_plain H cmd).conn := by
  have hq := dispatch_plain_queue H (World.seconds t.world) hc (s := t.session) h.queue
  rcases Task.run_plain_cases H t cmd with ⟨r, v, hd, hr⟩ | ⟨p, v, hd, hr⟩
  · rw [hd] at hq
    rw [hr]
    exact InStore.answer (t := t.put v) ⟨hq, h.rest⟩ _ _
  · rw [hd] at hq
    rw [hr]
    exact ⟨hq, h.rest⟩

/-- A connection that only sends commands with `P` only has commands with `P` in store. -/
theorem InStore.step {H : Host F} (h : InStore P t.conn) {a : Action}
    (ha : ∀ cmd, a = .send cmd → P cmd) : InStore P (t.step H a).conn := by
  have hnil : ∀ q ∈ ([] : List {cmd : Cmd // queueable cmd = true}), P q.1 := by simp
  have hmoves := t.step_moves H a
  generalize t.step H a = t' at hmoves ⊢
  cases hmoves with
  | multi _ _ =>
    refine ⟨?_, h.rest⟩
    unfold cmd_multi
    split
    · exact h.queue
    · exact hnil
  | discard _ _ =>
    refine ⟨?_, h.rest⟩
    unfold cmd_discard
    split
    · exact hnil
    · exact h.queue
  | abort _ _ _ _ => exact ⟨hnil, h.rest⟩
  | exec _ _ _ _ =>
    refine ⟨hnil, fun x hx => ?_⟩
    cases hx
    exact h.queue
  | plain cmd _ => exact h.run_plain (ha cmd.1 rfl)
  | @next cmd queued rest results _ hr =>
    have hq := h.rest _ hr
    have hnext : InStore P (t.set_running (some ⟨cmd, rest, results⟩)).conn := by
      refine ⟨h.queue, fun x hx => ?_⟩
      cases hx
      exact fun q hmem => hq q (List.mem_cons_of_mem _ hmem)
    exact hnext.run_plain (hq _ List.mem_cons_self)
  | finish _ _ =>
    refine ⟨h.queue, fun x hx => ?_⟩
    cases hx
  | answer _ => exact h.answer _ _
  | _ => exact ⟨h.queue, h.rest⟩

end InStore

/-- The program a connection is in: it was there before, or it belongs to a command that was sent
or was in store, or it is the rest of one after a call. -/
theorem Task.step_pending {H : Host F} {t : Task F} {a : Action}
    {P : StoreM F (RespValue F) → Prop}
    (hs : InStore (fun cmd => queueable cmd = true → P (H.program cmd)) t.conn)
    (hp : ∀ x, t.conn.pending = some x → P x.prog)
    (ha : ∀ cmd, a = .send cmd → queueable cmd = true → P (H.program cmd))
    (hcall : ∀ cmd o next, a = .resume → t.conn.pending = some ⟨cmd, .op o next⟩ →
      P (next (World.step o t.world).1)) :
    ∀ x, (t.step H a).conn.pending = some x → P x.prog := by
  have hplain : ∀ (t : Task F) (cmd : {cmd : Cmd // queueable cmd = true}), P (H.program cmd.1) →
      ∀ x, (t.run_plain H cmd).conn.pending = some x → P x.prog := by
    intro t cmd hcmd x hx
    rcases Task.run_plain_cases H t cmd with ⟨r, v, -, hr⟩ | ⟨p, v, hd, hr⟩
    · rw [hr] at hx
      cases hx
    · rw [hr] at hx
      cases hx
      rw [(dispatch_plain_work hd).1]
      exact hcmd
  have hmoves := t.step_moves H a
  generalize t.step H a = t' at hmoves ⊢
  cases hmoves with
  | plain cmd _ => exact hplain t cmd (ha cmd.1 rfl cmd.2)
  | @next cmd queued rest results _ hr =>
    exact hplain _ queued (hs.rest _ hr queued List.mem_cons_self queued.2)
  | call hx =>
    intro x hx'
    cases hx'
    exact hcall _ _ _ rfl hx
  | answer _ =>
    intro x hx
    cases hx
  | _ => exact hp

/-! ## Events -/

namespace Server

variable {e : Event}

theorem step_conns_of_ne (H : Host F) (s : Server F) {j : ℕ} (hj : j ≠ e.conn) :
    (step H s e).conns j = s.conns j :=
  Function.update_of_ne hj _ _

theorem step_task (H : Host F) (s : Server F) (e : Event) :
    (step H s e).task e.conn = (s.task e.conn).step H e.action := by
  simp [task, step]

theorem step_conn (H : Host F) (s : Server F) (e : Event) :
    (step H s e).conns e.conn = ((s.task e.conn).step H e.action).conn :=
  congrArg Task.conn (s.step_task H e)

theorem step_of_task_eq {H : Host F} {s : Server F}
    (h : (s.task e.conn).step H e.action = s.task e.conn) : step H s e = s := by
  unfold step
  rw [h]
  simp [task]

theorem step_of_conn (H : Host F) {s : Server F} {i : ℕ} {P : Conn F → Prop}
    (hi : P (s.conns i)) (hstep : e.conn = i → P ((s.task i).step H e.action).conn) :
    P ((step H s e).conns i) := by
  by_cases h : i = e.conn
  · subst h
    rw [step_conn]
    exact hstep rfl
  · rw [step_conns_of_ne H s h]
    exact hi

end Server

end ValkeyRs.Server
