/-
The transactions of one connection, over every run of the server.

`Settled` ties the two together. Outside of a transaction the queue is empty; inside, nothing of the
connection is in progress and the queue is what the history shows since the last MULTI
(`since_multi`).

An EXEC that does not abort goes through its queue over many actions. `Underway` is its loop
invariant, `Replied` what it comes to: the queued commands are in the history once more, one after
the other, and behind them the EXEC with the array of their replies. The one thing that can come in
between is a command whose program panics or waits for itself, which takes the task of the
connection with it (`Unstuck` rules it out).
-/
import ValkeyRs.Commands
import ValkeyRs.Connections

set_option autoImplicit false
set_option linter.dupNamespace false

open ValkeyRs Text Storage Resp Zset Acl List Option

namespace ValkeyRs.Server

variable {F : Type}

/-! ## What the client has seen -/

/-- A MULTI that was answered OK. -/
def Executed.opens (e : Executed F) : Bool :=
  match name_of e.cmd, e.reply with
  | some "MULTI", some (.SimpleString "OK") => true
  | _, _ => false

/-- A command that was answered QUEUED. -/
def Executed.is_queued (e : Executed F) : Bool :=
  match e.reply with
  | some (.SimpleString "QUEUED") => true
  | _ => false

/-- The commands that were answered QUEUED since the last MULTI. -/
def since_multi (history : List (Executed F)) : List Cmd :=
  history.foldl (fun queue e =>
    if e.opens then [] else if e.is_queued then queue ++ [e.cmd] else queue) []

theorem since_multi_snoc (history : List (Executed F)) (e : Executed F) :
    since_multi (history ++ [e]) =
      if e.opens then [] else if e.is_queued then since_multi history ++ [e.cmd]
      else since_multi history := foldl_append

theorem opens_of_ne {cmd : Cmd} {reply : Option (RespValue F)} (h : name_of cmd ≠ some "MULTI") :
    Executed.opens ⟨cmd, reply⟩ = false := by
  unfold Executed.opens
  split
  · contradiction
  · rfl

theorem opens_error (cmd : Cmd) (e : String) :
    Executed.opens ⟨cmd, some (.Error e : RespValue F)⟩ = false := by
  unfold Executed.opens
  split
  · rename_i h
    cases h
  · rfl

/-! ## The transaction and the history -/

variable [Score F]

/-- The state of a connection against what it has replied since `base`. -/
structure Settled (base : List (Executed F)) (c : Conn F) : Prop where
  outside : c.ctx.multi = false → c.ctx.queue = []
  free : c.ctx.multi = true → c.running = none ∧ c.pending = none
  seen : ∃ later, c.history = base ++ later ∧
    (c.ctx.multi = true → c.ctx.queue.map Subtype.val = since_multi later)

theorem settled_new (id : ℤ) : Settled [] (Conn.new id : Conn F) :=
  ⟨fun _ => rfl, fun _ => ⟨rfl, rfl⟩, [], rfl, fun h => (by cases h)⟩

section Settled

variable {base : List (Executed F)} {c c' : Conn F}

theorem Settled.of_outside (hm : c'.ctx.multi = false) (hq : c'.ctx.queue = [])
    (h : Settled base c) {more : List (Executed F)} (hh : c'.history = c.history ++ more) :
    Settled base c' := by
  obtain ⟨later, hlater, -⟩ := h.seen
  refine ⟨fun _ => hq, fun h => ?_, later ++ more, ?_, fun h => ?_⟩
  · rw [hm] at h
    cases h
  · rw [hh, hlater, append_assoc]
  · rw [hm] at h
    cases h

/-- An entry of the history that is neither a MULTI nor QUEUED. -/
theorem Settled.note {e : Executed F} (h : Settled base c) (hopens : e.opens = false)
    (hqueued : e.is_queued = false) (hctx : c'.ctx.multi = c.ctx.multi)
    (hqueue : c'.ctx.queue = c.ctx.queue)
    (hbusy : c'.running = c.running ∧ c'.pending = c.pending)
    (hhistory : c'.history = c.history ++ [e]) : Settled base c' := by
  obtain ⟨later, hlater, hseen⟩ := h.seen
  refine ⟨fun hm => ?_, fun hm => ?_, later ++ [e], ?_, fun hm => ?_⟩
  · rw [hqueue]
    exact h.outside (hctx ▸ hm)
  · rw [hbusy.1, hbusy.2]
    exact h.free (hctx ▸ hm)
  · rw [hhistory, hlater, append_assoc]
  · rw [hqueue, since_multi_snoc, hopens, hqueued]
    exact hseen (hctx ▸ hm)

end Settled

theorem queueable_ne_multi {cmd : Cmd} (h : queueable cmd = true) : name_of cmd ≠ some "MULTI" := by
  intro hname
  unfold queueable at h
  rw [hname] at h
  exact absurd h (by decide)

theorem Settled.run_plain {base : List (Executed F)} {H : Host F} {t : Task F}
    (h : Settled base t.conn) (cmd : {cmd : Cmd // queueable cmd = true}) :
    Settled base (t.run_plain H cmd).conn := by
  rcases dispatch_plain_cases H (World.seconds t.world) cmd t.session with
    ⟨hm, hd⟩ | ⟨hm, hd⟩
  · -- queued: the command and the reply go to the end of both lists
    have hrun : t.run_plain H cmd = (t.put ⟨t.acl, { t.conn.ctx with
        queue := t.conn.ctx.queue ++ [cmd] }⟩).answer cmd.1 (some (.SimpleString "QUEUED")) := by
      unfold Task.run_plain
      rw [hd]
      rfl
    have hm' : t.conn.ctx.multi = true := hm
    obtain ⟨later, hlater, hseen⟩ := h.seen
    obtain ⟨hrunning, -⟩ := h.free hm'
    rw [hrun]
    refine ⟨fun hno => ?_, fun _ => ⟨?_, rfl⟩, later ++ [⟨cmd.1, some (.SimpleString "QUEUED")⟩],
      ?_, fun _ => ?_⟩
    · cases hm'.symm.trans hno
    · show ((some (.SimpleString "QUEUED") : Option (RespValue F)).bind fun r =>
        t.conn.running.map (·.push r)) = none
      rw [hrunning]
      rfl
    · show t.conn.history ++ _ = _
      rw [hlater, append_assoc]
    · show (t.conn.ctx.queue ++ [cmd]).map Subtype.val = _
      rw [since_multi_snoc, opens_of_ne (queueable_ne_multi cmd.2), map_append, hseen hm']
      rfl
  · have hm' : t.conn.ctx.multi = false := hm
    have hctx : ∀ r v, dispatch_plain H (World.seconds t.world) cmd t.session = (r, v) →
        v.ctx.multi = false ∧ v.ctx.queue = [] := by
      intro r v hv
      rw [hv] at hd
      rcases hd with hsame | ⟨-, hnew⟩
      · exact ⟨hsame.multi.trans hm, hsame.queue.trans (h.outside hm')⟩
      · rw [show v.ctx = _ from hnew]
        exact ⟨rfl, rfl⟩
    rcases Task.run_plain_cases H t cmd with ⟨r, v, hv, hrun⟩ | ⟨p, v, hv, hrun⟩
    · obtain ⟨hmulti, hqueue⟩ := hctx _ v hv
      rw [hrun]
      exact .of_outside hmulti hqueue h rfl
    · obtain ⟨hmulti, hqueue⟩ := hctx _ v hv
      rw [hrun]
      exact .of_outside hmulti hqueue h (append_nil _).symm

theorem Settled.step {base : List (Executed F)} {H : Host F} {t : Task F}
    (h : Settled base t.conn) (a : Action) : Settled base (t.step H a).conn := by
  have hoff : t.conn.running ≠ none ∨ t.conn.pending ≠ none → t.conn.ctx.multi = false := by
    intro hbusy
    by_contra hm
    obtain ⟨hr, hp⟩ := h.free (by simpa using hm)
    rcases hbusy with hbusy | hbusy
    · exact hbusy hr
    · exact hbusy hp
  have hmoves := t.step_moves H a
  generalize t.step H a = t' at hmoves ⊢
  cases hmoves with
  | none => exact h
  | refuse _ => exact h.note (opens_error _ _) rfl rfl rfl ⟨rfl, rfl⟩ rfl
  | @multi cmd hidle hname =>
    show Settled base (t.own cmd (cmd_multi t.conn.ctx)).conn
    unfold cmd_multi
    by_cases hm : t.conn.ctx.multi = true
    · rw [if_pos hm]
      exact h.note (opens_error _ _) rfl rfl rfl ⟨rfl, rfl⟩ rfl
    · -- a new transaction, and the history opens with it
      rw [if_neg hm]
      obtain ⟨later, hlater, -⟩ := h.seen
      have hopens : Executed.opens ⟨cmd, some (.SimpleString "OK" : RespValue F)⟩ = true := by
        unfold Executed.opens
        rw [hname]
        rfl
      have hbusy : t.conn.running = none ∧ t.conn.pending = none := by
        unfold Conn.idle at hidle
        simp only [Bool.and_eq_true, isNone_iff_eq_none] at hidle
        exact ⟨hidle.1.2, hidle.2⟩
      refine ⟨fun hno => (by cases hno), fun _ => hbusy,
        later ++ [⟨cmd, some (.SimpleString "OK")⟩], ?_, fun _ => ?_⟩
      · show t.conn.history ++ _ = _
        rw [hlater, append_assoc]
      · rw [since_multi_snoc, hopens]
        rfl
  | @discard cmd _ hname =>
    show Settled base (t.own cmd (cmd_discard t.conn.ctx)).conn
    unfold cmd_discard
    by_cases hm : t.conn.ctx.multi = true
    · rw [if_pos hm]
      exact .of_outside rfl rfl h rfl
    · rw [if_neg hm]
      exact h.note (opens_error _ _) rfl rfl rfl ⟨rfl, rfl⟩ rfl
  | unwatch _ hname =>
    exact h.note (opens_of_ne (by rw [hname]; decide)) rfl rfl rfl ⟨rfl, rfl⟩ rfl
  | watch _ _ hm => exact .of_outside hm (h.outside hm) h rfl
  | abort _ _ _ _ => exact .of_outside rfl rfl h rfl
  | exec _ _ _ _ => exact .of_outside rfl rfl h (append_nil _).symm
  | plain cmd _ => exact h.run_plain cmd
  | @next cmd queued rest results _ hr =>
    have hm := hoff (.inl (by rw [hr]; exact some_ne_none _))
    have hset : Settled base (t.set_running (some ⟨cmd, rest, results⟩)).conn :=
      .of_outside hm (h.outside hm) h (append_nil _).symm
    exact hset.run_plain queued
  | finish _ hr =>
    have hm := hoff (.inl (by rw [hr]; exact some_ne_none _))
    exact .of_outside hm (h.outside hm) h rfl
  | call hp =>
    have hm := hoff (.inr (by rw [hp]; exact some_ne_none _))
    exact .of_outside hm (h.outside hm) h (append_nil _).symm
  | answer hp =>
    have hm := hoff (.inr (by rw [hp]; exact some_ne_none _))
    exact .of_outside hm (h.outside hm) h rfl
  | deliver _ _ => exact ⟨h.outside, h.free, h.seen⟩

theorem settled_of_run (H : Host F) {base : List (Executed F)} {s : Server F} {i : ℕ}
    (h : Settled base (s.conns i)) (es : List Event) :
    Settled base ((Server.run H s es).conns i) := by
  refine Runs.run_invariant (I := fun s : Server F => Settled base (s.conns i)) ?_ es h
  intro s e hs
  exact Server.step_of_conn H hs fun _ => .step (t := s.task i) hs e.action

/-! ## An EXEC in progress -/

/-- The loop of EXEC over the queue `queue`, begun when the history was `before`: `done` has been
run with the replies `results`, then comes the command in progress, if any, and then `rest`. -/
def Underway (exec : Cmd) (before : List (Executed F)) (queue : List Cmd) (c : Conn F) : Prop :=
  ∃ done results rest, c.closed = false ∧ c.ctx.multi = false ∧
    c.running = some ⟨exec, rest, results⟩ ∧ c.history = before ++ done ∧
    done.map Executed.reply = results.map some ∧
    done.map Executed.cmd ++ (c.pending.toList.map Pending.cmd ++ rest.map Subtype.val) = queue

/-- The EXEC has run the queue and replied with the array of the replies. -/
def Replied (exec : Cmd) (before : List (Executed F)) (queue : List Cmd) (c : Conn F) : Prop :=
  ∃ done results later,
    c.history = before ++ done ++ ⟨exec, some (.Array (some results))⟩ :: later ∧
      done.map Executed.cmd = queue ∧ done.map Executed.reply = results.map some ∧
      results.length = queue.length

/-- A program that has come to a panic, or waits for a lock it holds. -/
def Stuck (p : StoreM F (RespValue F)) : Prop := p = .fail .Panic ∨ p = .fail .Deadlock

/-- No command of the connection is stuck. -/
def Unstuck (i : ℕ) (s : Server F) (_ : Event) : Prop :=
  ∀ x, (s.conns i).pending = some x → ¬ Stuck x.prog

section Progress

variable {exec : Cmd} {before : List (Executed F)} {queue : List Cmd} {H : Host F} {t : Task F}

theorem step_history (H : Host F) (t : Task F) (a : Action) :
    ∃ more, (t.step H a).conn.history = t.conn.history ++ more := by
  have hplain : ∀ (t : Task F) cmd, ∃ more,
      (t.run_plain H cmd).conn.history = t.conn.history ++ more := by
    intro t cmd
    rcases Task.run_plain_cases H t cmd with ⟨r, v, -, hrun⟩ | ⟨p, v, -, hrun⟩
    · exact ⟨[⟨cmd.1, some r⟩], by rw [hrun]; rfl⟩
    · exact ⟨[], by rw [hrun]; exact (append_nil _).symm⟩
  have hmoves := t.step_moves H a
  generalize t.step H a = t' at hmoves ⊢
  cases hmoves with
  | plain cmd _ => exact hplain t cmd
  | next _ _ => exact hplain _ _
  | none | exec _ _ _ _ | call _ | deliver _ _ => exact ⟨[], (append_nil _).symm⟩
  | _ => exact ⟨_, rfl⟩

theorem Replied.step (h : Replied exec before queue t.conn) (a : Action) :
    Replied exec before queue (t.step H a).conn := by
  obtain ⟨done, results, later, hhistory, hcmds, hreplies, hlength⟩ := h
  obtain ⟨more, hmore⟩ := step_history H t a
  refine ⟨done, results, later ++ more, ?_, hcmds, hreplies, hlength⟩
  rw [hmore, hhistory, append_assoc]
  rfl

theorem Underway.answer {cmd : Cmd} {done : List (Executed F)} {results : List (RespValue F)}
    {rest : List {cmd : Cmd // queueable cmd = true}} (hclosed : t.conn.closed = false)
    (hmulti : t.conn.ctx.multi = false) (hrunning : t.conn.running = some ⟨exec, rest, results⟩)
    (hhistory : t.conn.history = before ++ done)
    (hreplies : done.map Executed.reply = results.map some)
    (hcmds : done.map Executed.cmd ++ cmd :: rest.map Subtype.val = queue) (r : RespValue F) :
    Underway exec before queue (t.answer cmd (some r)).conn := by
  refine ⟨done ++ [⟨cmd, some r⟩], results ++ [r], rest, ?_, hmulti, ?_, ?_, ?_, ?_⟩
  · show (t.conn.closed || false) = false
    rw [hclosed]
    rfl
  · show (t.conn.running.map (·.push r)) = _
    rw [hrunning]
    rfl
  · show t.conn.history ++ _ = _
    rw [hhistory, append_assoc]
  · rw [map_append, map_append, hreplies]
    rfl
  · rw [map_append, append_assoc, ← hcmds]
    rfl

/-- The next command of the queue is run, since the connection is not in a transaction. -/
theorem Underway.next {queued : {cmd : Cmd // queueable cmd = true}} {done : List (Executed F)}
    {results : List (RespValue F)} {rest : List {cmd : Cmd // queueable cmd = true}}
    (hclosed : t.conn.closed = false) (hmulti : t.conn.ctx.multi = false)
    (hhistory : t.conn.history = before ++ done)
    (hreplies : done.map Executed.reply = results.map some)
    (hcmds : done.map Executed.cmd ++ queued.1 :: rest.map Subtype.val = queue) :
    Underway exec before queue
      ((t.set_running (some ⟨exec, rest, results⟩)).run_plain H queued).conn := by
  have hctx : ∀ r v, dispatch_plain H (World.seconds t.world) queued t.session = (r, v) →
      v.ctx.multi = false := by
    intro r v hv
    rcases dispatch_plain_cases H (World.seconds t.world) queued t.session with
      ⟨hm, -⟩ | ⟨hm, hsame | ⟨-, hnew⟩⟩
    · cases hm.symm.trans hmulti
    · rw [hv] at hsame
      exact hsame.multi.trans hm
    · rw [hv] at hnew
      rw [show v.ctx = _ from hnew]
      rfl
  rcases Task.run_plain_cases H (t.set_running (some ⟨exec, rest, results⟩)) queued with
    ⟨r, v, hv, hrun⟩ | ⟨p, v, hv, hrun⟩
  · rw [hrun]
    exact .answer (t := (t.set_running (some ⟨exec, rest, results⟩)).put v) hclosed
      (hctx _ v hv) rfl hhistory hreplies hcmds r
  · rw [hrun]
    exact ⟨done, results, rest, hclosed, hctx _ v hv, rfl, hhistory, hreplies, hcmds⟩

theorem Underway.step (h : Underway exec before queue t.conn)
    (hcalm : ∀ x, t.conn.pending = some x → ¬ Stuck x.prog) (a : Action) :
    Underway exec before queue (t.step H a).conn ∨ Replied exec before queue (t.step H a).conn := by
  have hwhole := h
  obtain ⟨done, results, rest, hclosed, hmulti, hrunning, hhistory, hreplies, hcmds⟩ := h
  cases a with
  | send cmd =>
    -- the connection is busy
    have hidle : ¬ t.conn.idle = true := by
      unfold Conn.idle
      rw [hrunning]
      simp
    rw [Task.step, if_neg hidle]
    exact .inl hwhole
  | deliver rx =>
    rw [Task.step]
    split
    · exact .inl ⟨done, results, rest, hclosed, hmulti, hrunning, hhistory, hreplies, hcmds⟩
    · exact .inl hwhole
  | resume =>
    rw [Task.step, if_neg (by rw [hclosed]; exact Bool.false_ne_true)]
    cases hpending : t.conn.pending with
    | none =>
      rw [hpending] at hcmds
      unfold Task.exec_next
      rw [hrunning]
      cases rest with
      | nil =>
        have hall : done.map Executed.cmd = queue := by simpa using hcmds
        refine .inr ⟨done, results, [], ?_, hall, hreplies, ?_⟩
        · show t.conn.history ++ _ = _
          rw [hhistory]
        · have hlength := congrArg List.length hreplies
          rw [length_map, length_map] at hlength
          rw [← hall, length_map, hlength]
      | cons queued rest => exact .inl (.next hclosed hmulti hhistory hreplies hcmds)
    | some x =>
      rw [hpending] at hcmds
      have hnot := hcalm x hpending
      dsimp only
      unfold Task.advance
      split
      · exact .inl (.answer hclosed hmulti hrunning hhistory hreplies hcmds _)
      · exact .inl (.answer hclosed hmulti hrunning hhistory hreplies hcmds _)
      · rename_i hprog
        exact absurd (.inl hprog) hnot
      · rename_i hprog
        exact absurd (.inr hprog) hnot
      · exact .inl ⟨done, results, rest, hclosed, hmulti, hrunning, hhistory, hreplies, hcmds⟩

end Progress

/-! ## An EXEC comes to its end -/

/-- The connection goes on `n` times. -/
def resumes (i n : ℕ) : List Event := List.replicate n ⟨i, .resume⟩

section Ends

variable (H : Host F) (i : ℕ)

/-- After some number of steps of its own the connection is not in an EXEC any more. -/
def Ends (s : Server F) : Prop :=
  ∃ n, ((Server.run H s (resumes i n)).conns i).running = none

variable {H i}

theorem Ends.of_step {s : Server F} (h : Ends H i (Server.step H s ⟨i, .resume⟩)) : Ends H i s := by
  obtain ⟨n, hn⟩ := h
  exact ⟨n + 1, hn⟩

theorem Ends.of_none {s : Server F} (h : (s.conns i).running = none) : Ends H i s := ⟨0, h⟩

/-- An EXEC with `k` commands left ends, when no command is in progress. -/
def EndsIdle (H : Host F) (i k : ℕ) : Prop :=
  ∀ (s : Server F) x, (s.conns i).closed = false → (s.conns i).pending = none →
    (s.conns i).running = some x → x.rest.length = k → Ends H i s

theorem conn_of_resume {s : Server F} (hclosed : (s.conns i).closed = false) :
    (Server.step H s ⟨i, .resume⟩).conns i = (match (s.conns i).pending with
      | some x => (s.task i).advance x
      | none => (s.task i).exec_next H).conn := by
  have hopen : ¬ (s.task i).conn.closed = true := by
    rw [show (s.task i).conn.closed = _ from hclosed]
    exact Bool.false_ne_true
  rw [Server.step_conn]
  show ((s.task i).step H .resume).conn = _
  rw [Task.step, if_neg hopen]
  rfl

section Pending

variable {s : Server F} {cmd : Cmd} {x : Exec F} {k : ℕ} (hidle : EndsIdle H i k)
  (hk : x.rest.length = k)

include hidle hk

theorem ends_of_answer (hclosed : (s.conns i).closed = false)
    (hrunning : (s.conns i).running = some x) {r : RespValue F}
    (hr : (Server.step H s ⟨i, .resume⟩).conns i = ((s.task i).answer cmd (some r)).conn) :
    Ends H i s := by
  refine .of_step (hidle _ (x.push r) ?_ ?_ ?_ hk)
  · rw [hr]
    show ((s.conns i).closed || false) = false
    rw [hclosed]
    rfl
  · rw [hr]
    rfl
  · rw [hr]
    show (s.conns i).running.map (·.push r) = _
    rw [hrunning]
    rfl

theorem ends_of_pending (p : StoreM F (RespValue F)) (hclosed : (s.conns i).closed = false)
    (hpending : (s.conns i).pending = some ⟨cmd, p⟩) (hrunning : (s.conns i).running = some x) :
    Ends H i s := by
  induction p generalizing s with
    (have hstep := conn_of_resume (H := H) hclosed; rw [hpending] at hstep)
  | pure r => exact ends_of_answer hidle hk hclosed hrunning hstep
  | fail halt =>
    cases halt with
    | Err e => exact ends_of_answer hidle hk hclosed hrunning hstep
    | Panic => exact .of_step (.of_none (by rw [hstep]; rfl))
    | Deadlock => exact .of_step (.of_none (by rw [hstep]; rfl))
  | op o next ih =>
    refine .of_step (ih (World.step o s.world).1 ?_ ?_ ?_)
    · rw [hstep]
      exact hclosed
    · rw [hstep]
      rfl
    · rw [hstep]
      exact hrunning

end Pending

theorem endsIdle (k : ℕ) : EndsIdle H i k := by
  induction k with
  | zero =>
    rintro s ⟨exec, rest, results⟩ hclosed hpending hrunning hk
    have hnil : rest = [] := eq_nil_of_length_eq_zero hk
    refine .of_step (.of_none ?_)
    rw [conn_of_resume hclosed, hpending, Task.exec_next,
      show (s.task i).conn.running = _ from hrunning, hnil]
    rfl
  | succ k ih =>
    rintro s ⟨exec, rest, results⟩ hclosed hpending hrunning hk
    obtain _ | ⟨queued, rest⟩ := rest
    · cases hk
    have hnext : (Server.step H s ⟨i, .resume⟩).conns i =
        (((s.task i).set_running (some ⟨exec, rest, results⟩)).run_plain H queued).conn := by
      rw [conn_of_resume hclosed, hpending, Task.exec_next,
        show (s.task i).conn.running = _ from hrunning]
    have hlength : rest.length = k := Nat.succ.inj hk
    refine .of_step ?_
    -- the command is answered at once, or leaves a program
    rcases Task.run_plain_cases H ((s.task i).set_running (some ⟨exec, rest, results⟩)) queued with
      ⟨r, v, -, hrun⟩ | ⟨p, v, -, hrun⟩
    · rw [hrun] at hnext
      refine ih _ ⟨exec, rest, results ++ [r]⟩ ?_ (by rw [hnext]; rfl) (by rw [hnext]; rfl) hlength
      rw [hnext]
      show ((s.conns i).closed || false) = false
      rw [hclosed]
      rfl
    · rw [hrun] at hnext
      have hpending' : ((Server.step H s ⟨i, .resume⟩).conns i).pending = some ⟨queued.1, p⟩ := by
        rw [hnext]
      have hrunning' : ((Server.step H s ⟨i, .resume⟩).conns i).running =
          some ⟨exec, rest, results⟩ := by
        rw [hnext]
        rfl
      refine ends_of_pending (x := ⟨exec, rest, results⟩) ih hlength p ?_ hpending' hrunning'
      rw [hnext]
      exact hclosed

/-- Every EXEC comes to an end, from whatever state it is in. -/
theorem ends (s : Server F) (hclosed : (s.conns i).closed = false) : Ends H i s := by
  cases hrunning : (s.conns i).running with
  | none => exact .of_none hrunning
  | some x =>
    cases hpending : (s.conns i).pending with
    | none => exact endsIdle _ s x hclosed hpending hrunning rfl
    | some y => exact ends_of_pending (endsIdle _) rfl y.prog hclosed hpending hrunning

end Ends

/-! ## Every run -/

/-- An EXEC that finds the connection unmarked. -/
structure Commits (exec : Cmd) (c : Conn F) : Prop where
  idle : c.idle = true
  multi : c.ctx.multi = true
  clean : c.ctx.dirty = false
  name : name_of exec = some "EXEC"

/-- A DISCARD, or an EXEC that finds the connection marked. -/
structure Drops (cmd : Cmd) (c : Conn F) : Prop where
  idle : c.idle = true
  multi : c.ctx.multi = true
  name : name_of cmd = some "DISCARD" ∨ name_of cmd = some "EXEC" ∧ c.ctx.dirty = true

/-- The state machine of the transactions of connection `i`, in the state `s`. -/
structure Transactional (H : Host F) (i : ℕ) (s : Server F) : Prop where
  /-- Outside of MULTI the queue is empty. -/
  outside : (s.conns i).ctx.multi = false → (s.conns i).ctx.queue = []
  /-- Inside, the connection does not touch the store. -/
  inside : (s.conns i).ctx.multi = true → ∀ a, (Server.step H s ⟨i, a⟩).world = s.world
  /-- EXEC runs the commands that were answered QUEUED, once each and in order, whatever happens
  meanwhile, and replies with as many replies. -/
  exec : ∀ exec, Commits exec (s.conns i) → ∀ es,
    Runs.Along (Server.step H) (Unstuck i) (Server.step H s ⟨i, .send exec⟩) es →
    let before := (s.conns i).history
    let s' := Server.run H (Server.step H s ⟨i, .send exec⟩) es
    (Underway exec before (since_multi before) (s'.conns i) ∨
      Replied exec before (since_multi before) (s'.conns i)) ∧
    ∃ n, Runs.Along (Server.step H) (Unstuck i) s' (resumes i n) →
      Replied exec before (since_multi before) ((Server.run H s' (resumes i n)).conns i)
  /-- A dropped transaction is not run, then or later: only what is queued behind it is. -/
  drop : ∀ cmd, Drops cmd (s.conns i) →
    let s' := Server.step H s ⟨i, .send cmd⟩
    s'.world = s.world ∧ (s'.conns i).idle = true ∧ (s'.conns i).ctx.multi = false ∧
    (∃ r, (s'.conns i).history = (s.conns i).history ++ [⟨cmd, some r⟩]) ∧
    ∀ es, ((Server.run H s' es).conns i).ctx.multi = true →
      ∃ later, ((Server.run H s' es).conns i).history = (s'.conns i).history ++ later ∧
        ((Server.run H s' es).conns i).ctx.queue.map Subtype.val = since_multi later

section Parts

variable {H : Host F} {i : ℕ} {s : Server F}

theorem inside_world (h : Settled [] (s.conns i)) (hm : (s.conns i).ctx.multi = true) (a : Action) :
    (Server.step H s ⟨i, a⟩).world = s.world := by
  have hworld : (Server.step H s ⟨i, a⟩).world = ((s.task i).step H a).world := rfl
  have hm' : (s.task i).conn.ctx.multi = true := hm
  have hfree : (s.task i).conn.pending = none := (h.free hm).2
  have hmoves := (s.task i).step_moves H a
  rw [hworld]
  generalize (s.task i).step H a = t' at hmoves ⊢
  cases hmoves with
  | plain cmd _ => exact Task.run_plain_world H _ cmd
  | next _ _ => exact Task.run_plain_world H _ _
  | call hp => cases hfree.symm.trans hp
  | watch _ _ hno => cases hm'.symm.trans hno
  | _ => rfl

/-- The first step of an EXEC: it takes the queue. -/
theorem underway_of_commits {exec : Cmd} (h : Settled [] (s.conns i))
    (hc : Commits exec (s.conns i)) :
    Underway exec (s.conns i).history (since_multi (s.conns i).history)
      ((Server.step H s ⟨i, .send exec⟩).conns i) := by
  obtain ⟨later, hlater, hseen⟩ := h.seen
  have hqueue : (s.conns i).ctx.queue.map Subtype.val = since_multi (s.conns i).history := by
    rw [hseen hc.multi, hlater, nil_append]
  have hopen : (s.conns i).closed = false := by
    have hidle := hc.idle
    unfold Conn.idle at hidle
    simp only [Bool.and_eq_true, Bool.not_eq_true'] at hidle
    exact hidle.1.1
  have hstep : (Server.step H s ⟨i, .send exec⟩).conns i = ((s.task i).cmd_exec exec).conn := by
    rw [Server.step_conn]
    exact congrArg Task.conn (Task.step_transaction H (t := s.task i) hc.idle hc.name rfl)
  have hexec : (s.task i).cmd_exec exec = { s.task i with conn := { s.conns i with
      ctx := end_multi (s.conns i).ctx
      running := some ⟨exec, (s.conns i).ctx.queue, []⟩ } } := by
    have hm : ¬ (!(s.task i).conn.ctx.multi) = true := by
      rw [show (s.task i).conn.ctx.multi = _ from hc.multi]
      decide
    have hd : ¬ (s.task i).conn.ctx.dirty = true := by
      rw [show (s.task i).conn.ctx.dirty = _ from hc.clean]
      decide
    unfold Task.cmd_exec
    rw [if_neg hm, if_neg hd]
    rfl
  rw [hstep, hexec]
  refine ⟨[], [], (s.conns i).ctx.queue, hopen, rfl, rfl, (append_nil _).symm, rfl, ?_⟩
  rw [← hqueue, show (s.conns i).pending = none from (h.free hc.multi).2]
  rfl

/-- The rest of an EXEC, through any run. -/
theorem progress_of_run {exec : Cmd} {before : List (Executed F)} {queue : List Cmd}
    {es : List Event} (hcalm : Runs.Along (Server.step H) (Unstuck i) s es)
    (h : Underway exec before queue (s.conns i) ∨ Replied exec before queue (s.conns i)) :
    Underway exec before queue ((Server.run H s es).conns i) ∨
      Replied exec before queue ((Server.run H s es).conns i) := by
  refine hcalm.invariant (I := fun s : Server F => Underway exec before queue (s.conns i) ∨
    Replied exec before queue (s.conns i)) ?_ h
  intro s e hc hs
  refine Server.step_of_conn H (P := fun c => Underway exec before queue c ∨
    Replied exec before queue c) hs fun _ => ?_
  rcases hs with hs | hs
  · exact Underway.step (t := s.task i) hs hc e.action
  · exact .inr (.step (t := s.task i) hs e.action)

theorem replied_of_run {exec : Cmd} {before : List (Executed F)} {queue : List Cmd}
    (h : Underway exec before queue (s.conns i) ∨ Replied exec before queue (s.conns i)) :
    ∃ n, Runs.Along (Server.step H) (Unstuck i) s (resumes i n) →
      Replied exec before queue ((Server.run H s (resumes i n)).conns i) := by
  rcases h with hunder | hreplied
  · have hopen : (s.conns i).closed = false := hunder.choose_spec.choose_spec.choose_spec.1
    obtain ⟨n, hn⟩ := ends (H := H) s hopen
    refine ⟨n, fun hcalm => (progress_of_run hcalm (.inl hunder)).resolve_left ?_⟩
    rintro ⟨done, results, rest, -, -, hrunning, -⟩
    cases hn.symm.trans hrunning
  · exact ⟨0, fun _ => hreplied⟩

theorem conn_of_drops {cmd : Cmd} (hd : Drops cmd (s.conns i)) :
    ∃ r, (Server.step H s ⟨i, .send cmd⟩).task i =
      (s.task i).own cmd (r, end_multi (s.conns i).ctx) := by
  have hm : (s.task i).conn.ctx.multi = true := hd.multi
  rw [Server.step_task]
  show ∃ r, (s.task i).step H (.send cmd) = _
  rcases hd.name with hname | ⟨hname, hdirty⟩
  · rw [Task.step_transaction H (t := s.task i) hd.idle hname rfl]
    refine ⟨.SimpleString "OK", ?_⟩
    show (s.task i).own cmd (cmd_discard (s.task i).conn.ctx) = _
    unfold cmd_discard
    rw [if_pos hm]
    rfl
  · exact ⟨.Array none, Task.step_exec_dirty H (t := s.task i) hd.idle hname hm hdirty⟩

end Parts

/-- **Transactions.** In every state that a run of the server reaches, each connection's
transactions follow the state machine. -/
theorem transactional_of_run (H : Host F) (world : World F) (acl : AclManager)
    (before : List Event) (i : ℕ) :
    Transactional H i (Server.run H (.start world acl) before) := by
  have h : Settled [] ((Server.run H (.start world acl) before).conns i) :=
    settled_of_run H (settled_new _) before
  generalize Server.run H (.start world acl) before = s at h
  refine ⟨h.outside, fun hm a => inside_world h hm a, fun exec hc es hcalm => ?_, fun cmd hd => ?_⟩
  · have hprogress := progress_of_run hcalm (.inl (underway_of_commits (H := H) h hc))
    exact ⟨hprogress, replied_of_run hprogress⟩
  · obtain ⟨r, htask⟩ := conn_of_drops (H := H) hd
    have hconn := congrArg Task.conn htask
    have hsettled : Settled ((s.conns i).history ++ [⟨cmd, some r⟩])
        ((Server.step H s ⟨i, .send cmd⟩).conns i) := by
      rw [show (Server.step H s ⟨i, .send cmd⟩).conns i = _ from hconn]
      exact ⟨fun _ => rfl, fun hno => (by cases hno), [], (append_nil _).symm,
        fun hno => (by cases hno)⟩
    have hconn' : (Server.step H s ⟨i, .send cmd⟩).conns i = _ := hconn
    refine ⟨inside_world h hd.multi _, ?_, ?_, ⟨r, ?_⟩, fun es hm => ?_⟩
    · have hidle := hd.idle
      rw [hconn']
      show (!((s.conns i).closed || false) && (s.conns i).running.isNone &&
        (s.conns i).pending.isNone) = true
      rw [Bool.or_false]
      exact hidle
    · rw [hconn']
      rfl
    · rw [hconn']
      rfl
    · obtain ⟨later, hlater, hseen⟩ := (settled_of_run H hsettled es).seen
      refine ⟨later, ?_, hseen hm⟩
      rw [hlater, hconn']
      rfl

/-- A SETEX whose time cannot be represented, in a transaction. -/
def setex_in_multi : List Event :=
  [⟨0, .send (cmd_of ["MULTI"])⟩,
    ⟨0, .send (cmd_of ["SETEX", "k", "18446744073709551615", "v"])⟩,
    ⟨0, .send (cmd_of ["EXEC"])⟩]

/-- EXEC finds the connection unmarked, runs the SETEX, and there is no reply: the task of the
connection is gone. -/
theorem exec_setex_no_reply :
    let s := Server.run .plain (.start (.new .still) .new) (setex_in_multi ++ resumes 0 8)
    (s.conns 0).closed = true ∧
      (s.conns 0).history.map (fun e => (e.cmd.head?, e.reply.isSome)) =
        [(some (as_bytes "MULTI"), true), (some (as_bytes "SETEX"), true),
          (some (as_bytes "SETEX"), false)] := by
  decide

end ValkeyRs.Server
