/-
Isolation: what EXEC gives up when other connections go on.

EXEC takes its queue in one step and then runs the queued commands call by call, without any lock
that spans them, so a call of another connection can fall between two of its own. Compared with the
run in which the connection is alone from that point on (`own`), the outcome is the same if the
others meanwhile only do what cannot be noticed (`Aside`): wake up watcher threads, manage their
transactions, and read.
-/
import ValkeyRs.Connections
import ValkeyRs.Commands

set_option autoImplicit false
set_option linter.dupNamespace false

open ValkeyRs Text Storage Resp Zset Acl

namespace ValkeyRs.Server

variable {F : Type} [Score F]

/-! ## Calls that change nothing -/

/-- A call that leaves no trace: it reads. A reading of the clock, a random number or a traversal
order counts only where the next one will be the same. -/
def Harmless (w : World F) : StoreOp F → Prop
  | .access key f => f w.store.keyspace[key]? = w.store.keyspace[key]?
  | .config => True
  | .now => w.env.tick = w.env
  | .unix_time => w.env.tick_wall = w.env
  | .random => w.env.draw = w.env
  | .iter => w.env.rearrange = w.env
  | _ => False

theorem Harmless.step {w : World F} {o : StoreOp F} (h : Harmless w o) :
    (World.step o w).2 = w := by
  cases o with
  | access key f =>
    have hkey : w.store.keyspace.alter key f = w.store.keyspace := by
      apply Std.ExtTreeMap.ext_getElem?
      intro k
      rw [Std.ExtTreeMap.getElem?_alter]
      by_cases hk : compare key k = .eq
      · rw [if_pos hk, ← Std.LawfulEqCmp.eq_of_compare hk]
        exact h
      · rw [if_neg hk]
    show { w with store := { w.store with keyspace := w.store.keyspace.alter key f } } = w
    rw [hkey]
  | config => rfl
  | now =>
    show { w with env := w.env.tick } = w
    rw [show w.env.tick = w.env from h]
  | unix_time =>
    show { w with env := w.env.tick_wall } = w
    rw [show w.env.tick_wall = w.env from h]
  | random =>
    show { w with env := w.env.draw } = w
    rw [show w.env.draw = w.env from h]
  | iter =>
    show { w with env := w.env.rearrange } = w
    rw [show w.env.rearrange = w.env from h]
  | clear | clear_watchers | notify _ | watch _ | set_config _ | count_dirty | count_evicted =>
    exact h.elim

/-! ## Steps that leave the store and the users alone -/

/-- A command whose dispatch leaves the users alone: it is queued, or it is permitted and none of
those that manage users. -/
def Peaceful (t : Task F) (cmd : Cmd) : Prop :=
  t.conn.ctx.multi = true ∨
    name_of cmd ∉ [some "ACL", some "AUTH", some "HELLO"] ∧
      (check_permission (World.seconds t.world) t.acl t.conn.ctx ((name_of cmd).getD "")
        cmd.tail).1 = .ok ()

theorem check_permission_acl {t : ℕ} {acl : AclManager} {ctx : ClientCtx} {name : String}
    {keys : List Bytes} (h : (check_permission t acl ctx name keys).1 = .ok ()) :
    (check_permission t acl ctx name keys).2 = acl := by
  unfold check_permission AclManager.check_command at h ⊢
  split at h
  · rfl
  · cases h

theorem execute_acl (H : Host F) (t : ℕ) {name : String} (args : List Bytes) (s : Session)
    (hname : name ≠ "ACL" ∧ name ≠ "AUTH" ∧ name ≠ "HELLO") :
    (execute H t name args s).2.acl = s.acl := by
  unfold execute
  split
  · rfl
  · rfl
  · rfl
  · exact absurd rfl hname.2.2
  · exact absurd rfl hname.2.1
  · exact absurd rfl hname.1
  · rfl

theorem dispatch_plain_acl (H : Host F) {t : Task F} {cmd : {cmd : Cmd // queueable cmd = true}}
    (h : Peaceful t cmd.1) :
    (dispatch_plain H (World.seconds t.world) cmd t.session).2.acl = t.acl := by
  obtain ⟨name, hname⟩ := exists_name_of cmd.2
  unfold dispatch_plain
  by_cases hm : t.session.ctx.multi = true
  · rw [if_pos hm]
    rfl
  · obtain ⟨hnot, hpermit⟩ := h.resolve_left hm
    rw [hname, Option.getD_some] at hpermit
    simp only [hname, List.mem_cons, Option.some.injEq, List.not_mem_nil, or_false, not_or] at hnot
    have hchecked : check_permission (World.seconds t.world) t.session.acl t.session.ctx name
        cmd.1.tail = (.ok (), t.acl) := Prod.ext hpermit (check_permission_acl hpermit)
    rw [if_neg hm, hname, Option.getD_some, if_neg (by simp [hnot.1, hnot.2.1]), hchecked]
    exact execute_acl H _ _ _ hnot

theorem Task.run_plain_acl (H : Host F) {t : Task F} {cmd : {cmd : Cmd // queueable cmd = true}}
    (h : Peaceful t cmd.1) : (t.run_plain H cmd).acl = t.acl := by
  have hacl := dispatch_plain_acl H h
  rcases Task.run_plain_cases H t cmd with ⟨r, v, hd, hr⟩ | ⟨p, v, hd, hr⟩
  · rw [hd] at hacl
    rw [hr]
    exact hacl
  · rw [hd] at hacl
    rw [hr]
    exact hacl

/-- An action that goes unnoticed: no WATCH, no call that changes anything, and no command that
touches the users. -/
structure Unnoticed (t : Task F) (a : Action) : Prop where
  send : ∀ cmd, a = .send cmd → name_of cmd ≠ some "WATCH" ∧ (queueable cmd = true → Peaceful t cmd)
  call : ∀ cmd o next, a = .resume → t.conn.pending = some ⟨cmd, .op o next⟩ → Harmless t.world o
  next : ∀ cmd queued rest results, a = .resume →
    t.conn.running = some ⟨cmd, queued :: rest, results⟩ → Peaceful t queued.1

theorem Unnoticed.step {H : Host F} {t : Task F} {a : Action} (h : Unnoticed t a) :
    (t.step H a).world = t.world ∧ (t.step H a).acl = t.acl := by
  have hmoves := t.step_moves H a
  generalize t.step H a = t' at hmoves ⊢
  cases hmoves with
  | watch _ hname _ => exact absurd hname (h.send _ rfl).1
  | plain cmd _ => exact ⟨Task.run_plain_world H t cmd, Task.run_plain_acl H ((h.send _ rfl).2 cmd.2)⟩
  | @next cmd queued rest results _ hr =>
    have hp : Peaceful (t.set_running (some ⟨cmd, rest, results⟩)) queued.1 :=
      h.next cmd queued rest results rfl hr
    exact ⟨Task.run_plain_world H _ _, Task.run_plain_acl H hp⟩
  | call hx => exact ⟨(h.call _ _ _ rfl hx).step, rfl⟩
  | _ => exact ⟨rfl, rfl⟩

/-! ## Every run -/

/-- What the other connections do goes unnoticed. -/
def Aside (a : ℕ) (s : Server F) (e : Event) : Prop :=
  e.conn ≠ a → Unnoticed (s.task e.conn) e.action

/-- The part of a run that is connection `a`'s own. -/
def own (a : ℕ) (es : List Event) : List Event := es.filter fun e => e.conn = a

/-- The simulation: two servers that look the same to connection `a`, one of which goes through all
events and the other through those of `a`. -/
theorem task_of_own (H : Host F) (a : ℕ) {s s' : Server F} {es : List Event}
    (h : Runs.Along (Server.step H) (Aside a) s es) (hs : s.task a = s'.task a) :
    (Server.run H s es).task a = (Server.run H s' (own a es)).task a := by
  induction es generalizing s s' with
  | nil => exact hs
  | cons e es ih =>
    by_cases he : e.conn = a
    · have hown : own a (e :: es) = e :: own a es := by simp [own, he]
      rw [hown]
      refine ih h.2 ?_
      subst he
      rw [Server.step_task, Server.step_task, hs]
    · have hown : own a (e :: es) = own a es := by simp [own, he]
      rw [hown]
      refine ih h.2 ?_
      rw [← hs]
      obtain ⟨hworld, hacl⟩ := (h.1 he).step (H := H)
      have hconn := Server.step_conns_of_ne H s (Ne.symm he)
      show Task.mk _ _ _ = Task.mk _ _ _
      rw [hconn]
      congr 1

/-- Connection 0 starts an EXEC of two GETs. -/
def two_gets : List Event :=
  [⟨0, .send (cmd_of ["MULTI"])⟩, ⟨0, .send (cmd_of ["GET", "k"])⟩,
    ⟨0, .send (cmd_of ["GET", "k"])⟩, ⟨0, .send (cmd_of ["EXEC"])⟩]

end ValkeyRs.Server
