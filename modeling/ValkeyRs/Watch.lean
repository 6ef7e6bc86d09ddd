/-
Optimistic locking: WATCH, and what it takes for EXEC to notice a change.

A watched key has a channel registered with the store. The channel is used at most once, by the
first `notify_watchers` of the key, and the connection's dirty flag it sets is cleared again by
MULTI and by the next WATCH.

`Announces k` says of a program that it notifies the watchers of `k` before it changes what is
stored under `k`. The methods `Store::set` and `Store::del` do so, and with them most string
commands and all sorted-set commands (`announces_handle`, `announces_zset`), as long as nothing
expires or is evicted on the way; the commands that edit an entry in place do not. For a run in
which every command announces what it does to `k`, and `k` is not notified before MULTI, the theorem
`exec_aborts` holds in every interleaving.
-/
import ValkeyRs.Connections
import ValkeyRs.Commands
import ValkeyRs.StringsRules
import ValkeyRs.ZsetRules

set_option autoImplicit false
set_option linter.dupNamespace false

open ValkeyRs Text Storage Resp Zset Acl List

namespace ValkeyRs.Server

variable {F : Type} [Score F]

/-! ## Announcing a change -/

/-- What a client sees of an entry: the value and the expiry time. -/
def seen (e : Option (Entry F)) : Option (DataType F × Option Instant) :=
  e.map fun x => (x.data, x.expires_at)

/-- A program that leaves `k` alone until it has notified the watchers of `k`. It may rely on the
clock not passing `T`, on `k` not expiring before that, and on there being no memory limit. -/
def quiet (k : Bytes) (T : Instant) : Prog.Contract (StoreOp F) StoreOp.Res where
  asks
    | .access key f => key = k → ∀ e, seen (f e) = seen e
    | .clear | .clear_watchers => False
    | .set_config config => config.maxmemory = 0
    | _ => True
  gets
    | .access key _, e => key = k → ∀ x, e = some x → ∀ t, x.expires_at = some t → T ≤ t
    | .now, now => now ≤ T
    | .config, config => config.maxmemory = 0
    | _, _ => True
  stops
    | .notify key => key = k
    | _ => False

def Announces (k : Bytes) (T : Instant) (p : StoreM F (RespValue F)) : Prop :=
  p.Meets (quiet k T) fun _ => True

section Announces

variable {k : Bytes} {T : Instant}

theorem get_quiet (key : Bytes) : (Store.get key).Meets (quiet (F := F) k T) fun _ => True := by
  refine (get_meets (C := quiet k T) (fun _ e => rfl) trivial ?_).mono fun _ _ => trivial
  intro entry t now hentry ht hnow hlt hkey
  -- the entry has not expired: `T ≤ t` and the clock has not passed `T`
  have hT : T ≤ t := hentry hkey entry rfl t ht
  have hnow' : now ≤ T := hnow
  exact absurd hlt (not_lt.mpr (hnow'.trans hT))

theorem set_quiet (key : Bytes) (data : DataType F) (ttl : Option Duration) :
    (Store.set key data ttl).Meets (quiet k T) fun _ => True := by
  by_cases hkey : key = k
  · exact .perform_bind hkey
  · exact set_meets trivial trivial (fun _ _ _ h => absurd h hkey) trivial

theorem del_quiet (key : Bytes) : (Store.del key).Meets (quiet (F := F) k T) fun _ => True := by
  by_cases hkey : key = k
  · exact .perform_bind hkey
  · exact del_meets trivial (fun h => absurd h hkey) trivial

/-- The methods of `Store` announce what they do to any key. -/
theorem quiet_grants (K : Bytes → Prop) : Strings.Grants (quiet (F := F) k T) K where
  get key _ := get_quiet key
  set key data ttl _ := set_quiet key data ttl
  del key _ := del_quiet key
  notify _ _ := Prog.Meets.perform trivial fun _ _ => trivial
  evict := maybe_evict_meets trivial fun _ h => h
  now := trivial
  unix_time := trivial

/-- The string commands announce their changes, except for those that edit `k` in place. -/
theorem announces_handle {name : String} {args : List Bytes}
    (h : name ∈ Strings.editing → k ∉ Strings.keys_of name args) :
    Announces k T (Strings.handle name args : StoreM F (RespValue F)) := by
  by_cases hname : name ∈ Strings.editing
  · have hedits : Strings.Edits (quiet (F := F) k T) (· ≠ k) := fun _ _ hne heq => absurd heq hne
    refine Strings.handle_meets (quiet_grants _) (fun _ => hedits) fun b hb hbk => ?_
    exact h hname (hbk ▸ hb)
  · exact Strings.handle_meets (quiet_grants fun _ => True) (fun hn => absurd hn hname)
      fun _ _ => trivial

theorem announces_zset (c : ZWrite) (args : List Bytes) :
    Announces k T (c.handler args : StoreM F (RespValue F)) := by
  have hgrants : Zset.Grants (quiet (F := F) k T) (fun _ => True) (KeyOf args) :=
    ⟨fun key _ => get_zset_meets (P := fun _ => True)
        ((get_quiet _).mono fun _ _ _ _ => trivial) fun _ _ _ _ => trivial,
      fun key z _ _ => set_quiet _ _ _⟩
  exact handler_meets hgrants ⟨trivial, fun _ _ _ _ => trivial, fun _ => trivial⟩ c

/-- The commands of the server: those that edit `k` in place and those that empty the store do not
announce what they do, and the open ones may or may not. -/
theorem announces_command {other : String → List Bytes → StoreM F (RespValue F)} {name : String}
    {args : List Bytes} (hedit : name ∈ Strings.editing → k ∉ Strings.keys_of name args)
    (hflush : name ≠ "FLUSHALL" ∧ name ≠ "FLUSHDB") (hother : Announces k T (other name args)) :
    Announces k T (command other name args) := by
  unfold command
  by_cases hs : name ∈ string_commands
  · rw [if_pos hs]
    exact announces_handle hedit
  · rw [if_neg hs, if_neg (by simp [hflush.1, hflush.2])]
    cases zset_command name with
    | some c => exact announces_zset c args
    | none => exact hother

end Announces

/-! ## The store while nobody has announced a change -/

/-- What a program that meets `quiet k T` may rely on. -/
structure Calm (k : Bytes) (T : Instant) (w : World F) : Prop where
  clock : ∀ n, w.env.clock n ≤ T
  lives : ∀ x, w.store.keyspace[k]? = some x → ∀ t, x.expires_at = some t → T ≤ t
  unlimited : w.store.evict_config.maxmemory = 0

/-- The channel is registered for `k`, and for nothing else, and has not been used. -/
structure Registered (k : Bytes) (ch : ℕ) (w : World F) : Prop where
  mem : ch ∈ (w.store.watchers[k]?).getD []
  only : ∀ k', k' ≠ k → ch ∉ (w.store.watchers[k']?).getD []
  unsent : ch ∉ w.sent
  lt : ch < w.channels

/-- Channels are numbered as they are made. -/
structure Fresh (w : World F) : Prop where
  watchers : ∀ (k : Bytes), ∀ ch ∈ (w.store.watchers[k]?).getD [], ch < w.channels
  sent : ∀ ch ∈ w.sent, ch < w.channels

/-- The entry under `k` as a client sees it. -/
def World.seen_at (w : World F) (k : Bytes) : Option (DataType F × Option Instant) :=
  seen w.store.keyspace[k]?

section World

variable {k : Bytes} {T : Instant} {ch : ℕ} {w : World F}

/-- Whether `k` lives until `T` can be seen. -/
theorem Calm.of_seen {w' : World F} (h : Calm k T w) (hclock : ∀ n, w'.env.clock n ≤ T)
    (hseen : World.seen_at w' k = World.seen_at w k)
    (hlimit : w'.store.evict_config.maxmemory = 0) : Calm k T w' := by
  refine ⟨hclock, fun x hx t ht => ?_, hlimit⟩
  unfold World.seen_at seen at hseen
  rw [hx, Option.map_some, eq_comm, Option.map_eq_some_iff] at hseen
  obtain ⟨y, hy, heq⟩ := hseen
  refine h.lives y hy t ?_
  rw [← ht]
  exact congrArg Prod.snd heq

/-- A call that the contract allows shows what the contract promises, and changes nothing about
`k` that could be seen. -/
theorem quiet_call {o : StoreOp F} (ho : (quiet k T).asks o) (hw : Calm k T w) :
    (quiet k T).gets o (World.step o w).1 ∧ Calm k T (World.step o w).2 ∧
      World.seen_at (World.step o w).2 k = World.seen_at w k := by
  cases o with
  | access key f =>
    have hseen : World.seen_at (World.step (.access key f) w).2 k = World.seen_at w k := by
      unfold World.seen_at
      simp only [World.step, Std.ExtTreeMap.getElem?_alter, Std.LawfulEqCmp.compare_eq_iff_eq]
      by_cases hkey : key = k
      · rw [if_pos hkey, hkey]
        exact ho hkey _
      · rw [if_neg hkey]
    refine ⟨fun hkey x hx t ht => ?_, hw.of_seen hw.clock hseen hw.unlimited, hseen⟩
    subst hkey
    exact hw.lives x hx t ht
  | clear | clear_watchers => exact ho.elim
  | set_config config => exact ⟨trivial, ⟨hw.clock, hw.lives, ho⟩, rfl⟩
  | now => exact ⟨hw.clock 0, ⟨fun n => hw.clock (n + 1), hw.lives, hw.unlimited⟩, rfl⟩
  | config => exact ⟨hw.unlimited, hw, rfl⟩
  | iter | notify _ | watch _ | unix_time | random | count_dirty | count_evicted =>
    exact ⟨trivial, ⟨hw.clock, hw.lives, hw.unlimited⟩, rfl⟩

theorem mem_watchers_erase {key k' : Bytes} {w : World F} :
    ch ∈ ((w.store.watchers.erase key)[k']?).getD [] ↔
      key ≠ k' ∧ ch ∈ (w.store.watchers[k']?).getD [] := by
  rw [Std.ExtTreeMap.getElem?_erase]
  by_cases hkey : key = k'
  · simp [hkey]
  · simp [hkey, Std.LawfulEqCmp.compare_eq_iff_eq]

theorem mem_watchers_watch {key k' : Bytes} {w : World F} :
    ch ∈ (((World.step (.watch key) w).2.store.watchers)[k']?).getD [] ↔
      ch ∈ (w.store.watchers[k']?).getD [] ∨ key = k' ∧ ch = w.channels := by
  simp only [World.step, Std.ExtTreeMap.getElem?_alter, Std.LawfulEqCmp.compare_eq_iff_eq]
  by_cases hkey : key = k'
  · subst hkey
    simp
  · simp [hkey]

theorem Registered.watch (h : Registered k ch w) (key : Bytes) :
    Registered k ch (World.step (.watch key) w).2 := by
  have hne : ch ≠ w.channels := Nat.ne_of_lt h.lt
  refine ⟨?_, fun k' hk' => ?_, h.unsent, Nat.lt_succ_of_lt h.lt⟩
  · rw [mem_watchers_watch]
    exact .inl h.mem
  · rw [mem_watchers_watch]
    rintro (hmem | ⟨-, heq⟩)
    · exact h.only k' hk' hmem
    · exact hne heq

/-- The channel stays registered until `k` is notified. -/
theorem Registered.call (h : Registered k ch w) {o : StoreOp F} (ho : (quiet k T).asks o)
    (hstop : ¬ (quiet k T).stops o) : Registered k ch (World.step o w).2 := by
  cases o with
  | notify key =>
    have hkey : key ≠ k := hstop
    refine ⟨mem_watchers_erase.mpr ⟨hkey, h.mem⟩, fun k' hk' hmem => ?_, ?_, h.lt⟩
    · exact h.only k' hk' (mem_watchers_erase.mp hmem).2
    · show ch ∉ (w.store.watchers[key]?).getD [] ++ w.sent
      rw [mem_append, not_or]
      exact ⟨h.only key hkey, h.unsent⟩
  | watch key => exact h.watch key
  | clear | clear_watchers => exact ho.elim
  | access _ _ | iter | now | unix_time | random | config | set_config _ | count_dirty
  | count_evicted => exact ⟨h.mem, h.only, h.unsent, h.lt⟩

theorem Registered.notify (h : Registered k ch w) : ch ∈ (World.step (.notify k) w).2.sent :=
  mem_append_left _ h.mem

theorem Fresh.new (env : Env) : Fresh (World.new env : World F) := by
  refine ⟨fun k ch hmem => ?_, fun ch hmem => by cases hmem⟩
  have hnone : ((World.new env : World F).store.watchers)[k]? = none := Std.ExtTreeMap.getElem?_empty
  cases hmem

theorem Fresh.call (h : Fresh w) (o : StoreOp F) : Fresh (World.step o w).2 := by
  cases o with
  | notify key =>
    refine ⟨fun k' ch hmem => h.watchers k' ch (mem_watchers_erase.mp hmem).2, fun ch hmem => ?_⟩
    rcases mem_append.mp hmem with hmem | hmem
    · exact h.watchers key ch hmem
    · exact h.sent ch hmem
  | watch key =>
    refine ⟨fun k' ch hmem => ?_, fun ch hmem => Nat.lt_succ_of_lt (h.sent ch hmem)⟩
    rcases mem_watchers_watch.mp hmem with hmem | ⟨-, heq⟩
    · exact Nat.lt_succ_of_lt (h.watchers k' ch hmem)
    · rw [heq]
      exact Nat.lt_succ_self _
  | clear_watchers =>
    refine ⟨fun k' ch hmem => ?_, h.sent⟩
    have hnone : ((World.step .clear_watchers w).2.store.watchers)[k']? = none :=
      Std.ExtTreeMap.getElem?_empty
    rw [hnone] at hmem
    cases hmem
  | access _ _ | iter | clear | now | unix_time | random | config | set_config _ | count_dirty
  | count_evicted => exact ⟨h.watchers, h.sent⟩

/-- What each registration of a WATCH keeps. -/
theorem register_invariant {I : World F → Prop}
    (hI : ∀ key w, I w → I (World.step (.watch key) w).2) (keys : List Bytes) {w : World F}
    (hw : I w) : I (register keys w).2 := by
  induction keys generalizing w with
  | nil => exact hw
  | cons key keys ih => exact ih (hI key w hw)

theorem register_seen (keys : List Bytes) (w : World F) :
    World.seen_at (register keys w).2 k = World.seen_at w k :=
  register_invariant (I := fun w' => World.seen_at w' k = World.seen_at w k) (fun _ _ h => h) keys rfl

theorem register_sent (keys : List Bytes) (w : World F) : (register keys w).2.sent = w.sent :=
  register_invariant (I := fun w' => w'.sent = w.sent) (fun _ _ h => h) keys rfl

/-- WATCH gets a channel of its own for every key. -/
theorem register_mem {keys : List Bytes} (hw : Fresh w) (hk : k ∈ keys) :
    ∃ ch ∈ (register keys w).1, Registered k ch (register keys w).2 := by
  induction keys generalizing w with
  | nil => cases hk
  | cons key keys ih =>
    by_cases hkey : key = k
    · subst hkey
      have hnew : Registered key w.channels (World.step (.watch key) w).2 := by
        refine ⟨mem_watchers_watch.mpr (.inr ⟨rfl, rfl⟩), fun k' hk' hmem => ?_, fun hmem => ?_,
          Nat.lt_succ_self _⟩
        · rcases mem_watchers_watch.mp hmem with hmem | ⟨heq, -⟩
          · exact absurd (hw.watchers k' _ hmem) (lt_irrefl _)
          · exact hk' heq.symm
        · exact absurd (hw.sent _ hmem) (lt_irrefl _)
      exact ⟨w.channels, mem_cons_self,
        register_invariant (fun key' _ h => h.watch key') keys hnew⟩
    · have hk' : k ∈ keys := by
        rcases mem_cons.mp hk with heq | hk'
        · exact absurd heq.symm hkey
        · exact hk'
      obtain ⟨ch, hmem, hreg⟩ := ih (hw.call (.watch key)) hk'
      exact ⟨ch, mem_cons_of_mem _ hmem, hreg⟩

theorem sent_call (o : StoreOp F) {ch : ℕ} (h : ch ∈ w.sent) : ch ∈ (World.step o w).2.sent := by
  cases o with
  | notify key => exact mem_append_right _ h
  | _ => exact h

end World

/-! ## The connections meanwhile -/

section Connections

variable {H : Host F} {k : Bytes} {T : Instant} {ch : ℕ}

/-- The commands with which a connection gives up what it watches. -/
def gives_up (cmd : Cmd) : Bool :=
  name_of cmd = some "UNWATCH" || name_of cmd = some "DISCARD" || name_of cmd = some "RESET" ||
    name_of cmd = some "EXEC"

theorem names_of_gives_up {cmd : Cmd} (h : gives_up cmd = false) :
    name_of cmd ≠ some "UNWATCH" ∧ name_of cmd ≠ some "DISCARD" ∧ name_of cmd ≠ some "EXEC" := by
  simp only [gives_up, Bool.or_eq_false_iff, decide_eq_false_iff_not] at h
  exact ⟨h.1.1.1, h.1.1.2, h.2⟩

/-- Whatever the connection is about to do announces its changes of `k`. -/
structure Loud (H : Host F) (k : Bytes) (T : Instant) (c : Conn F) : Prop where
  store : InStore (fun cmd => queueable cmd = true → Announces k T (H.program cmd)) c
  pending : ∀ x, c.pending = some x → Announces k T x.prog

/-- The connection waits for the channel, and in a transaction for nothing else. -/
structure Waits (ch : ℕ) (c : Conn F) : Prop where
  mem : ch ∈ c.waiting
  running : c.running = none
  multi : c.ctx.multi = true → c.pending = none ∧ c.closed = false

/-- The connection is in a transaction that will be aborted: it is marked already, or will be when
the watcher thread wakes up. -/
structure Doomed (w : World F) (c : Conn F) : Prop where
  multi : c.ctx.multi = true
  running : c.running = none
  pending : c.pending = none
  closed : c.closed = false
  marked : c.ctx.dirty = true ∨ ∃ ch ∈ c.waiting, ch ∈ w.sent

variable {t : Task F}

theorem Loud.step (h : Loud H k T t.conn) (hw : Calm k T t.world) {a : Action}
    (ha : ∀ cmd, a = .send cmd → queueable cmd = true → Announces k T (H.program cmd))
    (hnotify : ∀ cmd o next, a = .resume → t.conn.pending = some ⟨cmd, .op o next⟩ →
      ¬ (quiet k T).stops o) : Loud H k T (t.step H a).conn := by
  refine ⟨h.store.step ha, Task.step_pending h.store h.pending ha ?_⟩
  intro cmd o next hresume hx
  -- the rest of the program is held to the contract by the answer the store gives
  obtain ⟨ho, hnext⟩ := (h.pending _ hx).resolve_left (hnotify cmd o next hresume hx)
  exact hnext _ (quiet_call ho hw).1

theorem Waits.run_plain (h : Waits ch t.conn)
    {cmd : {cmd : Cmd // queueable cmd = true}} (hidle : t.conn.idle = true) :
    Waits ch (t.run_plain H cmd).conn := by
  have hopen : t.conn.closed = false := by
    simp only [Conn.idle, Bool.and_eq_true, Bool.not_eq_true'] at hidle
    exact hidle.1.1
  rcases Task.run_plain_cases H t cmd with ⟨r, v, hd, hr⟩ | ⟨p, v, hd, hr⟩
  · rw [hr]
    have hrun : t.conn.running.map (·.push r) = none := by rw [h.running]; rfl
    exact ⟨h.mem, hrun, fun _ => ⟨rfl, (Bool.or_false _).trans hopen⟩⟩
  · rw [hr]
    obtain ⟨-, hmulti, hctx⟩ := dispatch_plain_work hd
    refine ⟨h.mem, h.running, fun hm => ?_⟩
    -- a program means that no transaction is open
    have hm' : v.ctx.multi = true := hm
    have hmulti' : t.session.ctx.multi = false := hmulti
    rw [hctx, hmulti'] at hm'
    cases hm'

theorem Waits.step (h : Waits ch t.conn) (hch : ch ∉ t.world.sent) {a : Action}
    (ha : ∀ cmd, a = .send cmd → gives_up cmd = false) : Waits ch (t.step H a).conn := by
  have hname := fun cmd hcmd => names_of_gives_up (ha cmd hcmd)
  have hmoves := t.step_moves H a
  generalize t.step H a = t' at hmoves ⊢
  cases hmoves with
  | none _ => exact h
  | refuse _ =>
    exact ⟨h.mem, h.running, fun hm => ⟨(h.multi hm).1, (Bool.or_false _).trans (h.multi hm).2⟩⟩
  | multi hidle _ =>
    simp only [Conn.idle, Bool.and_eq_true, Bool.not_eq_true', Option.isNone_iff_eq_none] at hidle
    exact ⟨h.mem, h.running, fun _ => ⟨hidle.2, (Bool.or_false _).trans hidle.1.1⟩⟩
  | discard _ hd => exact absurd hd (hname _ rfl).2.1
  | unwatch _ hu => exact absurd hu (hname _ rfl).1
  | abort _ he | exec _ he => exact absurd he (hname _ rfl).2.2
  | watch _ _ hm =>
    exact ⟨mem_append_left _ h.mem, h.running, fun hm' => nomatch hm.symm.trans hm'⟩
  | plain cmd hidle => exact h.run_plain hidle
  | next _ hr | finish _ hr => cases h.running.symm.trans hr
  | call hx =>
    exact ⟨h.mem, h.running, fun hm => nomatch (h.multi hm).1.symm.trans hx⟩
  | @answer x reply hx =>
    have hrun : (reply.bind fun r => t.conn.running.map (·.push r)) = none := by
      rw [h.running]
      cases reply <;> rfl
    exact ⟨h.mem, hrun, fun hm => nomatch (h.multi hm).1.symm.trans hx⟩
  | deliver _ hsent =>
    refine ⟨?_, h.running, h.multi⟩
    refine (mem_erase_of_ne ?_).mpr h.mem
    intro heq
    exact hch (heq ▸ hsent)

theorem Doomed.run_plain (h : Doomed t.world t.conn)
    (cmd : {cmd : Cmd // queueable cmd = true}) : Doomed t.world (t.run_plain H cmd).conn := by
  rcases dispatch_plain_cases H (World.seconds t.world) cmd t.session with
    ⟨-, hq⟩ | ⟨hm, -⟩
  · have hr : t.run_plain H cmd = (t.put { t.session with
        ctx := { t.conn.ctx with queue := t.conn.ctx.queue ++ [cmd] } }).answer cmd.1
          (some (.SimpleString "QUEUED")) := by
      unfold Task.run_plain
      rw [hq]
      rfl
    rw [hr]
    refine ⟨h.multi, ?_, rfl, (Bool.or_false _).trans h.closed, h.marked⟩
    show t.conn.running.map _ = none
    rw [h.running]
    rfl
  · have hm' : t.conn.ctx.multi = false := hm
    rw [h.multi] at hm'
    cases hm'

theorem Doomed.step (h : Doomed t.world t.conn) {a : Action}
    (ha : ∀ cmd, a = .send cmd → gives_up cmd = false) :
    Doomed (t.step H a).world (t.step H a).conn := by
  have hname := fun cmd hcmd => names_of_gives_up (ha cmd hcmd)
  have hclosed : (t.conn.closed || false) = false := (Bool.or_false _).trans h.closed
  have hmoves := t.step_moves H a
  generalize t.step H a = t' at hmoves ⊢
  cases hmoves with
  | none _ => exact h
  | refuse _ => exact ⟨h.multi, h.running, h.pending, hclosed, h.marked⟩
  | multi _ _ =>
    -- a nested MULTI is refused and does not clear the flag
    have hctx : (cmd_multi (F := F) t.conn.ctx).2 = t.conn.ctx := by
      unfold cmd_multi
      rw [if_pos h.multi]
    refine ⟨?_, h.running, h.pending, hclosed, ?_⟩
    · show (cmd_multi t.conn.ctx).2.multi = true
      rw [hctx]
      exact h.multi
    · show (cmd_multi t.conn.ctx).2.dirty = true ∨ _
      rw [hctx]
      exact h.marked
  | discard _ hd => exact absurd hd (hname _ rfl).2.1
  | unwatch _ hu => exact absurd hu (hname _ rfl).1
  | abort _ he | exec _ he => exact absurd he (hname _ rfl).2.2
  | watch _ _ hm =>
    rw [h.multi] at hm
    cases hm
  | plain cmd _ =>
    rw [Task.run_plain_world]
    exact h.run_plain cmd
  | next _ hr | finish _ hr => cases h.running.symm.trans hr
  | call hx | answer hx => cases h.pending.symm.trans hx
  | deliver _ _ => exact ⟨h.multi, h.running, h.pending, h.closed, .inl rfl⟩

theorem Doomed.world {c : Conn F} (h : Doomed t.world c) (a : Action) :
    Doomed (t.step H a).world c := by
  refine ⟨h.multi, h.running, h.pending, h.closed, h.marked.imp_right ?_⟩
  rintro ⟨ch, hmem, hsent⟩
  refine ⟨ch, hmem, ?_⟩
  rcases t.step_world H a with hw | ⟨cmd, o, next, -, -, hw⟩ | ⟨cmd, -, hw⟩
  · rw [hw]
    exact hsent
  · rw [hw]
    exact sent_call o hsent
  · rw [hw, register_sent]
    exact hsent

end Connections

/-! ## Every run -/

section Runs

variable {H : Host F} {a : ℕ} {k : Bytes} {T : Instant} {ch : ℕ} {s : Server F} {e : Event}

/-- Connection `a` does not give up what it watches. -/
def Keeps (a : ℕ) (_ : Server F) (e : Event) : Prop :=
  e.conn = a → ∀ cmd, e.action = .send cmd → gives_up cmd = false

/-- Another connection changes what can be seen of `k`. -/
def Changes (H : Host F) (a : ℕ) (k : Bytes) (s : Server F) (e : Event) : Prop :=
  e.conn ≠ a ∧ World.seen_at (Server.step H s e).world k ≠ World.seen_at s.world k

/-- Every command that is sent announces its changes of `k`, and a command that gets to its
announcement finds `a` in a transaction. -/
structure Meanwhile (H : Host F) (a : ℕ) (k : Bytes) (T : Instant) (s : Server F) (e : Event) :
    Prop where
  announces : ∀ cmd, e.action = .send cmd → queueable cmd = true → Announces k T (H.program cmd)
  opened : ∀ cmd next, e.action = .resume →
    (s.conns e.conn).pending = some ⟨cmd, .op (.notify k) next⟩ → (s.conns a).ctx.multi = true

/-- Nobody has announced a change of `k` since `a` registered the channel. -/
structure Watching (H : Host F) (a : ℕ) (k : Bytes) (T : Instant) (ch : ℕ) (s : Server F) :
    Prop where
  waits : Waits ch (s.conns a)
  registered : Registered k ch s.world
  calm : Calm k T s.world
  loud : ∀ b, Loud H k T (s.conns b)

theorem Watching.seen (h : Watching H a k T ch s) (e : Event) :
    World.seen_at (Server.step H s e).world k = World.seen_at s.world k := by
  show World.seen_at ((s.task e.conn).step H e.action).world k = World.seen_at (s.task e.conn).world k
  rcases (s.task e.conn).step_world H e.action with hw | ⟨cmd, o, next, -, hx, hw⟩ | ⟨cmd, -, hw⟩
  · rw [hw]
  · rw [hw]
    rcases (h.loud e.conn).pending _ hx with hstop | ⟨hask, -⟩
    · cases o with
      | notify key => rfl
      | _ => exact hstop.elim
    · exact (quiet_call hask h.calm).2.2
  · rw [hw]
    exact register_seen _ _

/-- A step that announces no change of `k`. -/
theorem Watching.step (h : Watching H a k T ch s) (hk : Keeps a s e) (hm : Meanwhile H a k T s e)
    (hquiet : ∀ cmd o next, e.action = .resume →
      (s.conns e.conn).pending = some ⟨cmd, .op o next⟩ → ¬ (quiet k T).stops o) :
    Watching H a k T ch (Server.step H s e) := by
  have hworld : Registered k ch (Server.step H s e).world ∧ Calm k T (Server.step H s e).world := by
    show Registered k ch ((s.task e.conn).step H e.action).world ∧
      Calm k T ((s.task e.conn).step H e.action).world
    rcases (s.task e.conn).step_world H e.action with hw | ⟨cmd, o, next, hr, hx, hw⟩ | ⟨cmd, -, hw⟩
    · rw [hw]
      exact ⟨h.registered, h.calm⟩
    · rw [hw]
      have hstop := hquiet cmd o next hr hx
      have hask := (((h.loud e.conn).pending _ hx).resolve_left hstop).1
      exact ⟨h.registered.call hask hstop, (quiet_call hask h.calm).2.1⟩
    · rw [hw]
      exact register_invariant (I := fun w => Registered k ch w ∧ Calm k T w)
        (fun key _ hw => ⟨hw.1.watch key, ⟨hw.2.clock, hw.2.lives, hw.2.unlimited⟩⟩) _
        ⟨h.registered, h.calm⟩
  refine ⟨?_, hworld.1, hworld.2, fun b => ?_⟩
  · refine Server.step_of_conn (P := Waits ch) H h.waits fun ha => ?_
    exact .step (t := s.task a) h.waits h.registered.unsent (hk ha)
  · refine Server.step_of_conn (P := Loud H k T) H (h.loud b) fun hb => ?_
    subst hb
    exact .step (t := s.task e.conn) (h.loud e.conn) h.calm hm.announces hquiet

/-- The step of `Watching`: the first announcement dooms the transaction. -/
theorem Watching.step_or_doomed (h : Watching H a k T ch s) (hk : Keeps a s e)
    (hm : Meanwhile H a k T s e) :
    Watching H a k T ch (Server.step H s e) ∨
      Doomed (Server.step H s e).world ((Server.step H s e).conns a) := by
  by_cases hnotify : ∃ cmd next, e.action = .resume ∧
      (s.conns e.conn).pending = some ⟨cmd, .op (.notify k) next⟩
  · obtain ⟨cmd, next, hr, hx⟩ := hnotify
    have hmulti := hm.opened cmd next hr hx
    obtain ⟨hpending, hclosed⟩ := h.waits.multi hmulti
    -- it is another connection that makes the call: `a` has nothing to do in its transaction
    have hne : a ≠ e.conn := by
      rintro rfl
      rw [hpending] at hx
      cases hx
    have htask : (s.task e.conn).conn.pending = some ⟨cmd, .op (.notify k) next⟩ := hx
    by_cases hc : (s.task e.conn).conn.closed = true
    · left
      have hstep : (s.task e.conn).step H e.action = s.task e.conn := by
        rw [hr, Task.step, if_pos hc]
      rw [Server.step_of_task_eq hstep]
      exact h
    · right
      have hworld : (Server.step H s e).world = (World.step (.notify k) s.world).2 := by
        show ((s.task e.conn).step H e.action).world = _
        rw [hr, Task.step, if_neg hc, htask]
        rfl
      rw [Server.step_conns_of_ne H s hne, hworld]
      exact ⟨hmulti, h.waits.running, hpending, hclosed,
        .inr ⟨ch, h.waits.mem, h.registered.notify⟩⟩
  · left
    refine h.step hk hm fun cmd o next hr hx hstop => hnotify ?_
    cases o with
    | notify key =>
      have hkey : key = k := hstop
      subst hkey
      exact ⟨cmd, next, hr, hx⟩
    | _ => exact hstop.elim

theorem doomed_step (h : Doomed s.world (s.conns a)) (hk : Keeps a s e) :
    Doomed (Server.step H s e).world ((Server.step H s e).conns a) := by
  by_cases ha : a = e.conn
  · subst ha
    rw [Server.step_conn]
    exact .step (t := s.task e.conn) h (hk rfl)
  · rw [Server.step_conns_of_ne H s ha]
    exact .world (t := s.task e.conn) h e.action

theorem fresh_of_run (H : Host F) (env : Env) (acl : AclManager) (es : List Event) :
    Fresh (Server.run H (.start (.new env) acl) es).world := by
  refine Runs.run_invariant (I := fun s : Server F => Fresh s.world) (fun s e hs => ?_) es
    (Fresh.new env)
  show Fresh ((s.task e.conn).step H e.action).world
  rcases (s.task e.conn).step_world H e.action with hw | ⟨cmd, o, next, -, -, hw⟩ | ⟨cmd, -, hw⟩
  · rw [hw]
    exact hs
  · rw [hw]
    exact hs.call o
  · rw [hw]
    exact register_invariant (fun key _ hw => hw.call (.watch key)) _ hs

/-- From state `s₀`, `a` watches `k`, some other connection changes it in the events that follow, `a`
does not give up watching, opens a transaction and is ready for the next command, and its watcher
threads have received what was sent to them. -/
structure Attempt (H : Host F) (s₀ : Server F) (a : ℕ) (k : Bytes) (watch : Cmd)
    (es : List Event) : Prop where
  idle : (s₀.conns a).idle = true
  outside : (s₀.conns a).ctx.multi = false
  command : name_of watch = some "WATCH"
  key : k ∈ watch.tail
  keeps : Runs.Along (Server.step H) (Keeps a) (Server.step H s₀ ⟨a, .send watch⟩) es
  changes : Runs.Occurs (Server.step H) (Changes H a k) (Server.step H s₀ ⟨a, .send watch⟩) es
  multi : ((Server.run H s₀ (⟨a, .send watch⟩ :: es)).conns a).ctx.multi = true
  ready : ((Server.run H s₀ (⟨a, .send watch⟩ :: es)).conns a).idle = true
  delivered : ∀ ch ∈ ((Server.run H s₀ (⟨a, .send watch⟩ :: es)).conns a).waiting,
    ch ∉ (Server.run H s₀ (⟨a, .send watch⟩ :: es)).world.sent

/-- EXEC returns nil and runs nothing. -/
def Aborts (H : Host F) (s : Server F) (a : ℕ) (exec : Cmd) : Prop :=
  let s' := Server.step H s ⟨a, .send exec⟩
  s'.world = s.world ∧ (s'.conns a).running = none ∧ (s'.conns a).pending = none ∧
    (s'.conns a).history = (s.conns a).history ++ [⟨exec, some (.Array none)⟩]

theorem Doomed.aborts (h : Doomed s.world (s.conns a))
    (hdelivered : ∀ ch ∈ (s.conns a).waiting, ch ∉ s.world.sent) {exec : Cmd}
    (hexec : name_of exec = some "EXEC") : Aborts H s a exec := by
  have hdirty : (s.conns a).ctx.dirty = true := by
    rcases h.marked with hd | ⟨ch, hmem, hsent⟩
    · exact hd
    · exact absurd hsent (hdelivered ch hmem)
  have hidle : (s.conns a).idle = true := by
    simp [Conn.idle, h.closed, h.running, h.pending]
  have htask := Server.step_task H s ⟨a, .send exec⟩
  rw [Task.step_exec_dirty H (t := s.task a) hidle hexec h.multi hdirty] at htask
  have hconn := congrArg Task.conn htask
  refine ⟨congrArg Task.world htask, ?_, ?_, ?_⟩
  · exact (congrArg Conn.running hconn).trans h.running
  · exact (congrArg Conn.pending hconn).trans h.pending
  · exact congrArg Conn.history hconn

/-- The state after WATCH. -/
theorem watching_of_watch {s₀ : Server F} {watch : Cmd} (hfresh : Fresh s₀.world)
    (hcalm : Calm k T s₀.world) (hloud : ∀ b, Loud H k T (s₀.conns b))
    (hidle : (s₀.conns a).idle = true) (hout : (s₀.conns a).ctx.multi = false)
    (hwatch : name_of watch = some "WATCH") (hk : k ∈ watch.tail) :
    ∃ ch, Watching H a k T ch (Server.step H s₀ ⟨a, .send watch⟩) := by
  obtain ⟨ch, hch, hreg⟩ := register_mem hfresh hk
  have hstep : (s₀.task a).step H (.send watch) = (s₀.task a).cmd_watch watch :=
    Task.step_transaction H hidle hwatch (by decide)
  have hargs : ¬ watch.tail.isEmpty = true := by
    rw [List.isEmpty_iff]
    exact ne_nil_of_mem hk
  have hnot : ¬ (s₀.task a).conn.ctx.multi = true := by
    rw [Bool.not_eq_true]
    exact hout
  unfold Task.cmd_watch at hstep
  rw [if_neg hargs, if_neg hnot] at hstep
  have hconn := Server.step_conn H s₀ ⟨a, .send watch⟩
  rw [hstep] at hconn
  have hworld : (Server.step H s₀ ⟨a, .send watch⟩).world = (register watch.tail s₀.world).2 :=
    congrArg Task.world hstep
  simp only [Conn.idle, Bool.and_eq_true, Option.isNone_iff_eq_none] at hidle
  refine ⟨ch, ?_, ?_, ?_, fun b => ?_⟩
  · rw [hconn]
    refine ⟨mem_append_right _ hch, hidle.1.2, fun hm => ?_⟩
    exact absurd hm hnot
  · rw [hworld]
    exact hreg
  · rw [hworld]
    exact register_invariant (I := Calm k T)
      (fun _ _ hw => ⟨hw.clock, hw.lives, hw.unlimited⟩) _ hcalm
  · refine Server.step_of_conn (P := Loud H k T) H (hloud b) fun hb => ?_
    subst hb
    refine .step (t := s₀.task a) (hloud a) hcalm ?_ ?_
    · intro cmd hcmd hq
      cases hcmd
      unfold queueable at hq
      rw [hwatch] at hq
      cases hq
    · intro cmd o next hr
      cases hr

/-- **Optimistic locking.** In every run from the start of a server in which every command that is
run or queued while `a` watches `k` announces its changes of `k`, no announcement comes before
`a`'s MULTI, and `k` does not expire nor is evicted: once another connection has changed `k`, the
EXEC of `a` returns nil and runs nothing. -/
theorem exec_aborts (H : Host F) (env : Env) (acl : AclManager) (before : List Event) (a : ℕ)
    (k : Bytes) (T : Instant) (watch exec : Cmd) (es : List Event)
    (h : Attempt H (Server.run H (.start (.new env) acl) before) a k watch es)
    (hcalm : Calm k T (Server.run H (.start (.new env) acl) before).world)
    (hloud : ∀ b, Loud H k T ((Server.run H (.start (.new env) acl) before).conns b))
    (hmeanwhile : Runs.Along (Server.step H) (Meanwhile H a k T)
      (Server.step H (Server.run H (.start (.new env) acl) before) ⟨a, .send watch⟩) es)
    (hexec : name_of exec = some "EXEC") :
    Aborts H (Server.run H (Server.run H (.start (.new env) acl) before)
      (⟨a, .send watch⟩ :: es)) a exec := by
  have hstart := watching_of_watch (fresh_of_run H env acl before) hcalm hloud h.idle h.outside
    h.command h.key
  have hdoomed := (h.keeps.and hmeanwhile).after (I := fun s => ∃ ch, Watching H a k T ch s)
    (J := fun s => Doomed s.world (s.conns a)) (D := Changes H a k) ?_ ?_ ?_ hstart h.changes
  · exact hdoomed.aborts h.delivered hexec
  · rintro s e ⟨hk, hm⟩ ⟨ch, hs⟩
    rcases hs.step_or_doomed hk hm with hs' | hs'
    · exact .inl ⟨ch, hs'⟩
    · exact .inr hs'
  · rintro s e - ⟨ch, hs⟩ ⟨-, hchange⟩
    exact absurd (hs.seen e) hchange
  · rintro s e ⟨hk, -⟩ hs
    exact doomed_step hs hk

end Runs

/-- Connection 1 sets `k` while connection 0 is in a transaction. -/
def set_in_multi : List Event :=
  [⟨0, .send (cmd_of ["MULTI"])⟩, ⟨1, .send (cmd_of ["SET", "k", "v"])⟩, ⟨1, .resume⟩, ⟨1, .resume⟩,
    ⟨1, .resume⟩, ⟨1, .resume⟩, ⟨1, .resume⟩, ⟨1, .resume⟩, ⟨1, .resume⟩, ⟨0, .deliver 0⟩]

/-- The SET of connection 1 aborts the transaction of connection 0, opened before. -/
theorem exec_aborts_set :
    Aborts .plain (Server.run .plain (.start (.new .still) .new)
      (⟨0, .send (cmd_of ["WATCH", "k"])⟩ :: set_in_multi)) 0 (cmd_of ["EXEC"]) := by
  have hloud : ∀ b, Loud .plain (as_bytes "k") 0
      ((Server.start (.new .still) .new : Server Infinity).conns b) := by
    intro b
    refine ⟨⟨?_, ?_⟩, ?_⟩
    · intro q hq
      cases hq
    · intro x hx
      cases hx
    · intro x hx
      cases hx
  have hcalm : Calm (as_bytes "k") 0 (World.new .still : World Infinity) := by
    refine ⟨fun _ => le_rfl, fun x hx => ?_, rfl⟩
    have hnone : (World.new .still : World Infinity).store.keyspace[as_bytes "k"]? = none :=
      Std.ExtTreeMap.getElem?_empty
    cases hx
  have hset : Announces (as_bytes "k") 0 (command (F := Infinity)
      (fun _ _ => return .SimpleString "OK") "SET" [as_bytes "k", as_bytes "v"]) :=
    announces_command (by decide) (by decide) (.pure trivial)
  refine exec_aborts .plain .still .new [] 0 (as_bytes "k") 0 _ _ _
    ⟨by decide, by decide, by decide, by decide, ?_, ?_, by decide, by decide, by decide⟩
    hcalm hloud ?_ (by decide)
  · have hother : ∀ (s : Server Infinity) (action : Action), Keeps 0 s ⟨1, action⟩ :=
      fun _ _ h => absurd h one_ne_zero
    refine ⟨fun _ cmd hcmd => ?_, hother _ _, hother _ _, hother _ _, hother _ _, hother _ _,
      hother _ _, hother _ _, hother _ _, fun _ cmd hcmd => ?_, trivial⟩
    · cases hcmd
      decide
    · cases hcmd
  · -- the fifth call of SET writes the entry
    iterate 6 refine .inr ?_
    refine .inl ⟨by decide, fun h => ?_⟩
    exact absurd (congrArg Option.isSome h) (by decide)
  · have hresume : ∀ s : Server Infinity, (s.conns 0).ctx.multi = true →
        Meanwhile .plain 0 (as_bytes "k") 0 s ⟨1, .resume⟩ :=
      fun s hs => ⟨fun _ h => (by cases h), fun _ _ _ _ => hs⟩
    have hquiet : ∀ (s : Server Infinity) (rx : ℕ),
        Meanwhile .plain 0 (as_bytes "k") 0 s ⟨0, .deliver rx⟩ :=
      fun s rx => ⟨fun _ h => (by cases h), fun _ _ h => (by cases h)⟩
    refine ⟨⟨fun cmd hcmd hq => ?_, fun _ _ h => (by cases h)⟩,
      ⟨fun cmd hcmd _ => ?_, fun _ _ h => (by cases h)⟩, hresume _ (by decide), hresume _ (by decide),
      hresume _ (by decide), hresume _ (by decide), hresume _ (by decide), hresume _ (by decide),
      hresume _ (by decide), hquiet _ _, trivial⟩
    · cases hcmd
      exact absurd hq (by decide)
    · cases hcmd
      exact hset

/-- Connection 1 sets `k` before connection 0 opens its transaction. -/
def set_before_multi : List Event :=
  [⟨1, .send (cmd_of ["SET", "k", "v"])⟩, ⟨1, .resume⟩, ⟨1, .resume⟩, ⟨1, .resume⟩, ⟨1, .resume⟩,
    ⟨1, .resume⟩, ⟨1, .resume⟩, ⟨1, .resume⟩, ⟨0, .deliver 0⟩, ⟨0, .send (cmd_of ["MULTI"])⟩]

/-- MULTI clears the flag that the SET has raised, and EXEC runs. -/
theorem multi_forgets_change :
    ¬ ∀ (before es : List Event) (a : ℕ) (k : Bytes) (watch exec : Cmd),
      Attempt .plain (Server.run .plain (.start (.new .still) .new) before) a k watch es →
      name_of exec = some "EXEC" →
      Aborts .plain (Server.run .plain (Server.run .plain (.start (.new .still) .new) before)
        (⟨a, .send watch⟩ :: es)) a exec := by
  intro h
  have hrun := h [] set_before_multi 0 (as_bytes "k") (cmd_of ["WATCH", "k"]) (cmd_of ["EXEC"])
    ⟨by decide, by decide, by decide, by decide, ?_, ?_, by decide, by decide, by decide⟩ (by decide)
  · exact absurd (congrArg Option.isNone hrun.2.1) (by decide)
  · have hother : ∀ (s : Server Infinity) (action : Action), Keeps 0 s ⟨1, action⟩ :=
      fun _ _ h => absurd h one_ne_zero
    refine ⟨hother _ _, hother _ _, hother _ _, hother _ _, hother _ _, hother _ _, hother _ _,
      hother _ _, fun _ cmd hcmd => ?_, fun _ cmd hcmd => ?_, trivial⟩
    · cases hcmd
    · cases hcmd
      decide
  · iterate 5 refine .inr ?_
    refine .inl ⟨by decide, fun h => ?_⟩
    exact absurd (congrArg Option.isSome h) (by decide)

end ValkeyRs.Server
