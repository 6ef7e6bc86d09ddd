/-
Reading a key that has expired, while it is written.

`Store::get` looks at an entry, lets go of it, and removes the key in a second access when the time
of the entry is over. What it removes is what is under the key by then. A value that is put in
between the two accesses is lost; one that is put in while no reader is between them stays until its
own time is over.
-/
import ValkeyRs.NxRace

set_option autoImplicit false

open ValkeyRs Text Storage Zset Strings Maps Runs World Config

namespace ValkeyRs.LazyExpiry

variable {F : Type} [Score F]

/-! ## Readers -/

/-- A command that reads the key by `get` or `exists` and replies by what it has found. -/
def reader (key : Bytes) (f : Option (Entry F) → Reply F) : StoreM F (Reply F) := do
  return f (← Store.get key)

/-- EXISTS is such a command, and so is GET. -/
theorem exists_reader (key : Bytes) (f : Bool → Reply F) :
    (Store.exists_key key >>= fun found => return f found) =
      reader key fun e => f e.isSome := by
  unfold Store.exists_key reader
  rw [Prog.bind_assoc]
  rfl

/-- The reader has read this entry, and is about to ask for the time. -/
def checking (key : Bytes) (f : Option (Entry F) → Reply F) (e : Entry F) : StoreM F (Reply F) := do
  if ← Store.is_expired e then
    let _ ← Store.access key fun _ => none
    return f none
  else return f (some e)

theorem checking_plain {e : Entry F} (hexp : e.expires_at = none) (key : Bytes)
    (f : Option (Entry F) → Reply F) : checking key f e = .pure (f (some e)) := by
  unfold checking Store.is_expired
  rw [hexp]
  rfl

theorem advance_checking {e : Entry F} {t : Instant} (hexp : e.expires_at = some t) (key : Bytes)
    (f : Option (Entry F) → Reply F) (w : World F) :
    (checking key f e).advance step w = (if t < w.env.clock 0 then (do
        let _ ← Store.access key fun _ => none
        return f none) else .pure (f (some e)), { w with env := w.env.tick }) := by
  unfold checking Store.is_expired
  rw [hexp, Prog.bind_assoc]
  refine (Prog.advance_perform _ w).trans ?_
  refine congrArg (·, ({ w with env := w.env.tick } : World F)) ?_
  show (if decide (t < w.env.clock 0) = true then _ else _ : StoreM F (Reply F)) = _
  by_cases hlt : t < w.env.clock 0
  · rw [if_pos hlt, if_pos (decide_eq_true hlt)]
  · rw [if_neg hlt, if_neg (by rw [decide_eq_false hlt]; exact Bool.false_ne_true)]
    rfl

/-- The program does not write the key, whatever it is told. -/
def quiet (key : Bytes) : Prog.Contract (StoreOp F) StoreOp.Res where
  asks o := o ≠ .clear ∧ ∀ f, o = .access key f → f = id
  gets _ _ := True

def Quiet (key : Bytes) (p : StoreM F (Reply F)) : Prop := p.Meets (quiet key) fun _ => True

theorem advance_reader (key : Bytes) (f : Option (Entry F) → Reply F) (w : World F) :
    (reader key f).advance step w = (match w.store.keyspace[key]? with
      | none => .pure (f none)
      | some e => checking key f e, w) := by
  have hself : w.store.keyspace.alter key id = w.store.keyspace := alter_eq_self rfl
  have hworld : (step (.access key id) w).2 = w := by
    show ({ w with store := { w.store with keyspace := w.store.keyspace.alter key id } } : World F) = w
    rw [hself]
  unfold reader Store.get
  rw [Prog.bind_assoc]
  refine (Prog.advance_perform _ w).trans ?_
  rw [hworld]
  refine congrArg (·, w) ?_
  generalize hr : (step (.access key id) w).1 = r
  have hfound : w.store.keyspace[key]? = r := hr
  rw [hfound]
  cases r with
  | none => rfl
  | some e =>
    rw [Prog.bind_assoc]
    refine congrArg (Store.is_expired e >>= ·) (funext fun expired => ?_)
    cases expired <;> rfl

/-! ## The clock -/

/-- Surroundings some time later. -/
def Later (env env' : Env) : Prop := ∃ n, ∀ k, env'.clock k = env.clock (n + k)

theorem later_step {env : Env} {w : World F} (h : Later env w.env) (o : StoreOp F) :
    Later env (step o w).2.env := by
  obtain ⟨n, hn⟩ := h
  cases o with
  | now =>
    refine ⟨n + 1, fun k => ?_⟩
    show w.env.clock (k + 1) = _
    rw [hn]
    congr 1
    omega
  | _ => exact ⟨n, hn⟩

theorem later_advance {env : Env} {w : World F} (h : Later env w.env) (p : StoreM F (Reply F)) :
    Later env (p.advance step w).2.env := by
  cases p with
  | op o next => exact later_step h o
  | _ => exact h

/-! ## A value that is put in -/

/-- The last part of `Store::set`, from the access that puts the entry in. -/
def put (key : Bytes) (e : Entry F) (reply : Reply F) : StoreM F (Reply F) := do
  let _ ← Store.access key fun _ => some e
  call .count_dirty
  return reply

/-- `Store::set` comes to this, with a new entry for the value. -/
theorem set_eq_put (key : Bytes) (data : DataType F) (ttl : Option Duration) (reply : Reply F) :
    (do Store.set key data ttl; return reply : StoreM F (Reply F)) = (do
      Store.notify_watchers key
      let e ← Entry.new data ttl (← Store.now)
      put key e reply) := by
  unfold Store.set put
  simp only [Prog.bind_assoc]

theorem quiet_advance {key : Bytes} {p : StoreM F (Reply F)} (h : Quiet key p) (w : World F) :
    Quiet key (p.advance step w).1 ∧
      (p.advance step w).2.store.keyspace[key]? = w.store.keyspace[key]? := by
  cases p with
  | pure a => exact ⟨h, rfl⟩
  | fail e => exact ⟨h, rfl⟩
  | op o next =>
    obtain ⟨⟨hclear, hread⟩, hnext⟩ := h.resolve_left id
    refine ⟨hnext _ trivial, ?_⟩
    cases o with
    | access k f =>
      show (w.store.keyspace.alter k f)[key]? = _
      rw [Std.ExtTreeMap.getElem?_alter]
      split
      · rename_i heq
        cases Std.LawfulEqCmp.eq_of_compare heq
        rw [hread f rfl]
        rfl
      · rfl
    | clear => exact absurd rfl hclear
    | _ => rfl

section Kept

variable {ι : Type} [DecidableEq ι] {key : Bytes} {readers : ι → Option (Entry F) → Reply F}

/-- A writer and any number of readers. -/
abbrev Readers (ι F : Type) [LinearOrder F] :=
  Config (Option ι) (StoreOp F) StoreOp.Res Halt (Reply F) (World F)

def start (key : Bytes) (writer : StoreM F (Reply F)) (readers : ι → Option (Entry F) → Reply F)
    (w : World F) : Readers ι F :=
  ⟨fun
    | none => writer
    | some i => reader key (readers i), w⟩

/-- The time of the entry is over by some reading of the clock. -/
def Over (env : Env) (e : Entry F) : Prop := ∃ t n, e.expires_at = some t ∧ t < env.clock n

/-- A reader has not begun, has read the new entry, or does not write any more. -/
def Reading (key : Bytes) (f : Option (Entry F) → Reply F) (e : Entry F) (p : StoreM F (Reply F)) :
    Prop := p = reader key f ∨ p = checking key f e ∨ Quiet key p

/-- The new entry is under the key, and no reader holds another one. -/
structure Fresh (key : Bytes) (readers : ι → Option (Entry F) → Reply F) (e : Entry F)
    (c : Readers ι F) : Prop where
  found : c.shared.store.keyspace[key]? = some e
  writer : Quiet key (c.threads none)
  readers : ∀ i, Reading key (readers i) e (c.threads (some i))

theorem quiet_done (reply : Reply F) : Quiet key (.pure reply) := trivial

/-- One step of a reader: it comes to reading the entry again, or sees that its time is over. -/
theorem reading_advance {e : Entry F} {env : Env} {w : World F} {f : Option (Entry F) → Reply F}
    {p : StoreM F (Reply F)} (h : Reading key f e p) (hlater : Later env w.env)
    (hfound : w.store.keyspace[key]? = some e) :
    Over env e ∨ Reading key f e (p.advance step w).1 ∧
      (p.advance step w).2.store.keyspace[key]? = some e := by
  rcases h with rfl | rfl | hquiet
  · rw [advance_reader, hfound]
    exact .inr ⟨.inr (.inl rfl), rfl⟩
  · cases hexp : e.expires_at with
    | none =>
      rw [checking_plain hexp]
      exact .inr ⟨.inr (.inr (quiet_done _)), hfound⟩
    | some t =>
      obtain ⟨n, hn⟩ := hlater
      by_cases hlt : t < w.env.clock 0
      · exact .inl ⟨t, n + 0, hexp, hn 0 ▸ hlt⟩
      · rw [advance_checking hexp, if_neg hlt]
        exact .inr ⟨.inr (.inr (quiet_done _)), hfound⟩
  · obtain ⟨hquiet', hsame⟩ := quiet_advance hquiet w
    exact .inr ⟨.inr (.inr hquiet'), hsame.trans hfound⟩

theorem fresh_step {e : Entry F} {env : Env} {c : Readers ι F} (h : Fresh key readers e c)
    (hlater : Later env c.shared.env) (j : Option ι) :
    Over env e ∨ Fresh key readers e (c.step step j) := by
  cases j with
  | none =>
    obtain ⟨hquiet, hsame⟩ := quiet_advance h.writer c.shared
    refine .inr ⟨hsame.trans h.found, ?_, fun i => ?_⟩
    · rw [step_self]
      exact hquiet
    · rw [step_other (Option.some_ne_none i)]
      exact h.readers i
  | some k =>
    rcases reading_advance (h.readers k) hlater h.found with hover | ⟨hreading, hfound⟩
    · exact .inl hover
    · refine .inr ⟨hfound, ?_, fun i => ?_⟩
      · rw [step_other (Option.some_ne_none k).symm]
        exact h.writer
      · by_cases hi : i = k
        · rw [hi, step_self]
          exact hreading
        · rw [step_other fun heq => hi (Option.some.inj heq)]
          exact h.readers i

theorem put_step {e : Entry F} {reply : Reply F} {c : Readers ι F}
    (hput : c.threads none = put key e reply)
    (hreaders : ∀ i, c.threads (some i) = reader key (readers i) ∨ Quiet key (c.threads (some i))) :
    Fresh key readers e (c.step step none) := by
  refine ⟨?_, ?_, fun i => ?_⟩
  · rw [step_shared, hput]
    exact Std.ExtTreeMap.getElem?_alter_self
  · rw [step_self, hput]
    exact .inr ⟨⟨nofun, nofun⟩, fun _ _ => quiet_done _⟩
  · rw [step_other (Option.some_ne_none i)]
    exact (hreaders i).imp_right .inr

/-- **Lazy expiry.** Take any interleaving of a writer with any readers. When the writer puts an entry
under the key while no reader is between its reading of an entry and its end, that entry is under
the key from then on, unless its own time is over. -/
theorem fresh_value_kept (key : Bytes) (writer : StoreM F (Reply F))
    (readers : ι → Option (Entry F) → Reply F) (w : World F) (before after : List (Option ι))
    (e : Entry F) (reply : Reply F)
    (hput : (run (step step) (start key writer readers w) before).threads none =
      put key e reply)
    (hreaders : ∀ i,
      (run (step step) (start key writer readers w) before).threads (some i) =
          reader key (readers i) ∨
        Quiet key ((run (step step) (start key writer readers w) before).threads (some i))) :
    let final := run (step step) (start key writer readers w) (before ++ none :: after)
    final.shared.store.keyspace[key]? = some e ∨
      ∃ t n, e.expires_at = some t ∧ t < w.env.clock n := by
  have hlater : ∀ schedule : List (Option ι), Later w.env
      (run (step step) (start key writer readers w) schedule).shared.env := fun schedule =>
    run_invariant (I := fun c : Readers ι F => Later w.env c.shared.env)
      (fun c j hc => later_advance hc (c.threads j)) schedule ⟨0, fun k => by rw [Nat.zero_add]; rfl⟩
  intro final
  have hfinal : final = run (step step) ((run (step step)
      (start key writer readers w) before).step step none) after := run_append _ _ _
  have hkept : Later w.env final.shared.env ∧ (Over w.env e ∨ Fresh key readers e final) := by
    rw [hfinal]
    exact run_invariant (I := fun c : Readers ι F =>
        Later w.env c.shared.env ∧ (Over w.env e ∨ Fresh key readers e c))
      (fun c j hI => ⟨later_advance hI.1 _, hI.2.elim .inl fun hf => fresh_step hf hI.1 j⟩) after
      ⟨later_advance (hlater before) _, .inr (put_step hput hreaders)⟩
  exact hkept.2.elim .inr fun hf => .inl hf.found

end Kept

def stale_world : World Resp.Infinity :=
  let w : World Resp.Infinity := .new { Env.still with clock := fun _ => 1 }
  { w with store := { w.store with
    keyspace := (∅ : HashMap Bytes _).insert (as_bytes "k") ⟨.String (as_bytes "old"), some 0, 0, 1, 1⟩ } }

/-- `SET k new`, and a reader that replies whether there is a value. -/
def reader_and_writer : Readers Unit Resp.Infinity :=
  start (as_bytes "k") (cmd_set [as_bytes "k", as_bytes "new"])
    (fun _ e => int (if e.isSome then 1 else 0)) stale_world

def new_value : Entry Resp.Infinity := ⟨.String (as_bytes "new"), none, 1, 1, 1⟩

/-- The reader begins when the value is in. -/
theorem fresh_value_kept_later :
    (run (step step) reader_and_writer
      (List.replicate 6 none ++ none :: [some (), some (), some ()])).shared.store.keyspace[as_bytes "k"]? =
      some new_value := by
  refine (fresh_value_kept (as_bytes "k") (cmd_set [as_bytes "k", as_bytes "new"]) _ stale_world
    (List.replicate 6 none) [some (), some (), some ()] new_value ok rfl fun _ => .inl rfl).resolve_right ?_
  rintro ⟨t, n, ht, -⟩
  cases ht

/-- The reader has seen that the time is over; the writer removes the key, puts its value in and
comes to its end; and the reader removes the new value. -/
theorem fresh_value_lost :
    let final := run (step step) reader_and_writer
      (some () :: some () :: List.replicate 8 none ++ [some ()])
    final.threads none = .pure ok ∧ final.shared.store.keyspace[as_bytes "k"]? = none :=
  ⟨rfl, rfl⟩

end ValkeyRs.LazyExpiry
