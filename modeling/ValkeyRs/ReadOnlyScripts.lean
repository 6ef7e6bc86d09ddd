/-
Read-only scripts.

EVAL_RO, EVALSHA_RO and FCALL_RO run a script whose `redis.call` refuses the commands that write.
Of the sixteen commands there are, the others only read, and all they remove is what they have seen
to be expired (`Kept`). The refusal is a matter of the function, though, and not of the evaluation
that is going on: a function that an ordinary EVAL has left in a global variable still writes. What
is proved is for every script that cannot reach such a function (`read_only_keeps`).
-/
import ValkeyRs.Scripting
import ValkeyRs.StoreWp

set_option autoImplicit false

open ValkeyRs Text Storage Zset Strings Maps

namespace ValkeyRs.Scripting

variable {F : Type} [Score F]

/-! ## What reading leaves -/

/-- Every entry is as it was, or has been removed after its time, by a reading of the clock that
satisfies `C`. -/
def KeptBy (C : Instant → Prop) (m m' : HashMap Bytes (Entry F)) : Prop :=
  ∀ key : Bytes, m'[key]? = m[key]? ∨ (m'[key]? = none ∧
    ∃ e t now, m[key]? = some e ∧ e.expires_at = some t ∧ C now ∧ t < now)

theorem KeptBy.refl {C : Instant → Prop} (m : HashMap Bytes (Entry F)) : KeptBy C m m :=
  fun _ => .inl rfl

theorem KeptBy.trans {C : Instant → Prop} {m m' m'' : HashMap Bytes (Entry F)}
    (h : KeptBy C m m') (h' : KeptBy C m' m'') : KeptBy C m m'' := by
  intro key
  rcases h key with hsame | ⟨hgone, hexpired⟩
  · rcases h' key with hsame' | ⟨hgone', e, t, now, he, hexp⟩
    · exact .inl (hsame'.trans hsame)
    · exact .inr ⟨hgone', e, t, now, hsame ▸ he, hexp⟩
  · rcases h' key with hsame' | ⟨hgone', -⟩
    · exact .inr ⟨hsame'.trans hgone, hexpired⟩
    · exact .inr ⟨hgone', hexpired⟩

theorem KeptBy.erase {C : Instant → Prop} {m : HashMap Bytes (Entry F)} {key : Bytes} {e : Entry F}
    {t now : Instant} (he : m[key]? = some e) (hexp : e.expires_at = some t) (hnow : C now)
    (hlt : t < now) : KeptBy C m (m.erase key) := by
  intro k
  by_cases hk : key = k
  · subst hk
    exact .inr ⟨Std.ExtTreeMap.getElem?_erase_self, e, t, now, he, hexp, hnow, hlt⟩
  · exact .inl (Maps.erase_of_ne (Ne.symm hk))

section Reading

variable {C : Instant → Prop} {α : Type}

/-- The program reads. -/
def Reads (C : Instant → Prop) (p : StoreM F α) : Prop :=
  ∀ m, p.Wp (may C) (fun _ m' => KeptBy C m m') m

theorem reads_pure (a : α) : Reads C (pure a : StoreM F α) := fun m => .refl m

theorem Reads.bind {β : Type} {p : StoreM F α} {f : α → StoreM F β} (hp : Reads C p)
    (hf : ∀ a, Reads C (f a)) : Reads C (p >>= f) := by
  intro m
  refine (hp m).bind (fun a m' hm' => ?_) fun e m' hm' => hm'
  exact (hf a m').mono fun r m'' hm'' => hm'.trans hm''

theorem reads_get (key : Bytes) : Reads C (Store.get key : StoreM F (Option (Entry F))) := by
  intro m
  rw [← bind_pure (Store.get key)]
  refine wp_get (fun _ => .refl m) (fun e _ _ => .refl m) fun e t now he hexp hnow hlt => ?_
  exact .erase he hexp hnow hlt

theorem reads_string (key : Bytes) (present : Bytes → Reply F) (absent : Reply F) :
    Reads C (read_string key present absent) := by
  refine (reads_get key).bind fun entry => ?_
  cases entry with
  | none => exact reads_pure _
  | some e => cases hdata : e.data <;> simp only [hdata] <;> exact reads_pure _

theorem reads_existing (keys : List Bytes) (count : ℕ) :
    Reads C (Keys.count_existing keys count : StoreM F ℕ) := by
  induction keys generalizing count with
  | nil => exact reads_pure _
  | cons key keys ih =>
    refine .bind ((reads_get key).bind fun e => reads_pure _) fun found => ?_
    exact ih _

theorem reads_with_key {cmd : String} {f : Bytes → StoreM F (Reply F)} (hf : ∀ key, Reads C (f key))
    (args : List Bytes) : Reads C (with_key cmd f args) := by
  cases args with
  | nil => exact reads_pure _
  | cons key rest => exact hf key

theorem reads_handler {c : ScriptCommand} (hc : is_write_command c.name = false)
    (args : List Bytes) : Reads C (c.handler args : StoreM F (Reply F)) := by
  cases c with
  | GET | GETEX | STRLEN => exact reads_with_key (fun key => reads_string key _ _) args
  | EXISTS =>
    show Reads C (Keys.cmd_exists args)
    unfold Keys.cmd_exists
    split
    · exact reads_pure _
    · exact (reads_existing args 0).bind fun n => reads_pure _
  | TTL =>
    refine reads_with_key (fun key => (reads_get key).bind fun entry => ?_) args
    cases entry with
    | none => exact reads_pure _
    | some e => cases hexp : e.expires_at <;> simp only [hexp] <;> exact reads_pure _
  | TYPE =>
    refine reads_with_key (fun key => (reads_get key).bind fun entry => ?_) args
    cases entry <;> exact reads_pure _
  | PING => exact reads_pure _
  | ECHO => exact reads_with_key (fun key => reads_pure _) args
  | _ => exact absurd hc (by decide)

theorem reads_redis_call (lossy : Bytes → String) (name : String) (args : List (LuaValue F)) :
    Reads C (redis_call lossy true name args) := by
  unfold redis_call
  cases args.map (arg_text lossy) with
  | nil => exact reads_pure _
  | cons cmd cmd_args =>
    dsimp only
    cases hwrite : is_write_command (to_ascii_uppercase cmd) with
    | true => exact reads_pure _
    | false =>
      unfold dispatch_redis_command
      cases hnamed : ScriptCommand.named (to_ascii_uppercase cmd) with
      | none => exact reads_pure _
      | some c =>
        rw [← ScriptCommand.name_of_named hnamed] at hwrite
        exact reads_handler hwrite _

theorem reads_script {lossy : Bytes → String} {flags : List Bool} {owners : ℕ → Prop}
    (hflags : ∀ i, owners i → flags.getD i false = true) {p : Script F α} {Q : α → Prop}
    (hp : p.Meets (within owners) Q) : Reads C (run_script lossy flags p) := by
  induction p with
  | pure a => exact reads_pure a
  | fail e => nomatch e
  | op call next ih =>
    obtain ⟨hasks, hnext⟩ := hp.resolve_left id
    unfold run_script
    rw [hflags _ hasks]
    exact (reads_redis_call lossy call.name call.args).bind fun r => ih r (hnext r trivial)

end Reading

/-! ## Read-only evaluations -/

/-- Every entry is as it was, or has been removed after its time. -/
def Kept (w w' : World F) : Prop :=
  KeptBy (fun now => ∃ n, now = w.env.clock n) w.store.keyspace w'.store.keyspace

theorem kept_of_reads {α : Type} {w : World F} {p : StoreM F α}
    (hp : Reads (fun now => ∃ n, now = w.env.clock n) p) : Kept w (p.run World.step w).2 :=
  run_of_wp (hp w.store.keyspace) fun n => ⟨n, rfl⟩

section Engine

variable {L : Lua F} {self : ScriptEngine L} {sha1hex : String → String} {C : Instant → Prop}

/-- No function of an evaluation that may write can be reached. -/
def NoWriter (self : ScriptEngine L) : Prop :=
  ∀ i, L.reach self.lua i → self.flags[i]? = some true

theorem reads_eval_impl (hno : NoWriter self) (script : String) (keys args : List Bytes) :
    Reads C (self.eval_impl script keys args true) := by
  have hflags : ∀ i, (L.reach self.lua i ∨ i = self.flags.length) →
      (self.flags ++ [true]).getD i false = true := by
    rintro i (hreach | rfl)
    · have hi := hno i hreach
      have hlt := (List.getElem?_eq_some_iff.mp hi).1
      rw [List.getD_eq_getElem?_getD, List.getElem?_append_left hlt, hi]
      rfl
    · rw [List.getD_eq_getElem?_getD, List.getElem?_concat_length]
      rfl
  unfold ScriptEngine.eval_impl
  split
  · exact fun m => .refl m
  · exact (reads_script hflags (L.confined self.lua self.flags.length script keys args)).bind
      fun r => reads_pure _

/-- A call of one of the three kinds that are read-only. -/
def ScriptCall.IsReadOnly : ScriptCall → Prop
  | .eval read_only _ _ _ | .evalsha read_only _ _ _ | .fcall read_only _ _ _ => read_only = true
  | _ => False

theorem reads_call (hno : NoWriter self) {c : ScriptCall} (hc : c.IsReadOnly) :
    Reads C (self.call sha1hex c) := by
  cases c with
  | eval read_only script keys args =>
    rw [show read_only = true from hc]
    exact reads_eval_impl hno script keys args
  | evalsha read_only sha keys args =>
    rw [show read_only = true from hc]
    show Reads C (self.evalsha_impl sha keys args true)
    unfold ScriptEngine.evalsha_impl
    cases self.scripts[sha]? with
    | none => exact reads_pure _
    | some script => exact reads_eval_impl hno script keys args
  | fcall read_only name keys args =>
    rw [show read_only = true from hc]
    show Reads C (self.fcall_impl name keys args true)
    unfold ScriptEngine.fcall_impl
    cases self.functions[name]? with
    | none => exact reads_pure _
    | some entry => exact reads_eval_impl hno entry.body keys args
  | _ => exact absurd hc id

theorem step_kept (hno : NoWriter self) {c : ScriptCall} (hc : c.IsReadOnly) (w : World F) :
    Kept w (self.step sha1hex c w).2.2 := by
  have hkept : Kept w ((self.call sha1hex c).run World.step w).2 := kept_of_reads (reads_call hno hc)
  unfold ScriptEngine.step
  cases hrun : (self.call sha1hex c).run World.step w with
  | mk result w' =>
    rw [hrun] at hkept
    cases result with
    | ok r => exact hkept
    | error e => exact hkept

theorem answer_kept (hno : NoWriter self) {cmd bad_text : String}
    (make : String → List Bytes → List Bytes → ScriptCall)
    (hmake : ∀ text keys rest, (make text keys rest).IsReadOnly) (args : List Bytes) (w : World F) :
    Kept w (self.answer sha1hex (read_eval cmd bad_text make args) w).2.2 := by
  unfold read_eval
  cases script_args (F := F) cmd bad_text args with
  | error e => exact .refl _
  | ok r =>
    cases r with
    | inl reply => exact .refl _
    | inr parts => exact step_kept hno (hmake _ _ _) w

end Engine

/-- The three commands that run a script read-only. -/
inductive ReadOnlyCommand where
  | EVAL_RO
  | EVALSHA_RO
  | FCALL_RO
  deriving Repr, DecidableEq

def ReadOnlyCommand.handle : ReadOnlyCommand → List Bytes → Except Halt (Reply F ⊕ ScriptCall)
  | .EVAL_RO => handle_eval_ro
  | .EVALSHA_RO => handle_evalsha_ro
  | .FCALL_RO => handle_fcall_ro

def quoted (inside : Bool) : List Char → List Char → List Bytes
  | [], _ => []
  | '"' :: cs, read =>
    if inside then as_bytes (String.ofList read) :: quoted false cs [] else quoted true cs []
  | c :: cs, read => quoted inside cs (read ++ [c])

/-- `saved = redis.call`, `saved("..", ..)` and `redis.call("..", ..)`; the state is the evaluation
whose function is in the variable `saved`. -/
def piece_eval (saved : Option ℕ) (g : ℕ) (script : String) :
    Script F (Reply F × Option ℕ) :=
  let args := (quoted false script.toList []).map LuaValue.String
  if script = "saved = redis.call" then .pure (null_bulk, some g)
  else if "redis.call(".toList.isPrefixOf script.toList then
    .op ⟨g, "call", args⟩ fun reply => .pure (reply, saved)
  else if "saved(".toList.isPrefixOf script.toList then
    match saved with
    | some i => .op ⟨i, "call", args⟩ fun reply => .pure (reply, saved)
    | none => .pure (.Error "ERR Error running script: attempt to call a nil value", none)
  else .pure (null_bulk, saved)

def Lua.piece : Lua F where
  State := Option ℕ
  new := none
  reach saved i := saved = some i
  lossy b := (from_utf8 b).toOption.getD "\ufffd"
  eval saved g script _ _ := piece_eval saved g script
  reach_new _ := nofun
  confined saved g script keys args := by
    unfold piece_eval
    dsimp only
    split
    · exact fun i hi => .inr (Option.some.inj hi).symm
    · split
      · exact .inr ⟨.inr rfl, fun _ _ i hi => .inl hi⟩
      · split
        · split
          · rename_i j
            exact .inr ⟨.inl rfl, fun _ _ i hi => .inl hi⟩
          · exact fun i hi => .inl hi
        · exact fun i hi => .inl hi

def empty_world : World Resp.Infinity := .new .still

end ValkeyRs.Scripting
