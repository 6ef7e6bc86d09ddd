/-
The commands of a script against the commands themselves.

`redis.call` has an implementation of its own of sixteen commands. For each of them this file says
at which arguments and on which entries the two implementations come to the same: the same values
and expiry times in the store, and the same reply, or an error both times. The two are compared at
one moment, on a store without a memory limit, and on arguments that are text: those that are not
reach the script's commands changed.

The differences are of a few kinds. The script's commands do not look at arguments beyond those they
use, options included. INCR and its relatives count what is no number as zero, and they and APPEND
store a new entry without the expiry time of the old one, where the commands themselves edit the
entry in place, expired or not. EXPIRE revives an entry that has expired. TTL replies 20.
-/
import ValkeyRs.Commands
import ValkeyRs.ErrorRules
import ValkeyRs.OneKey
import ValkeyRs.Scripting

set_option autoImplicit false

open ValkeyRs Text Storage Zset Strings Maps Option Entry Keys

namespace ValkeyRs.Scripting

variable {F : Type} [Score F]

/-! ## The commands themselves -/

def cmd_ping (args : List Bytes) : StoreM F (Reply F) :=
  match args with
  | [] => return .SimpleString "PONG"
  | arg :: _ => return bull arg

def cmd_echo (args : List Bytes) : StoreM F (Reply F) :=
  match args with
  | [arg] => return bull arg
  | _ => return .Error (wrong_number "echo")

/-- The two commands of `server.rs` that scripts have as well. -/
def server_command (name : String) (args : List Bytes) : StoreM F (Reply F) :=
  if name = "PING" then cmd_ping args
  else if name = "ECHO" then cmd_echo args
  else return .Error ("ERR unknown command `" ++ name ++ "`")

/-- The command as `dispatch_ctx` runs it. -/
def direct (c : ScriptCommand) (args : List Bytes) : StoreM F (Reply F) :=
  Server.command (Server.keyspace_command server_command) c.name args

def refused (reply : Reply F) : Prop := Errors.is_error reply = true

/-! ## Replies without a look at the store -/

section Same

variable {t : Moment} {m : HashMap Bytes (Entry F)} {p : StoreM F (Reply F)} {r r' : Reply F}

theorem same_refl : SameOutcome refused (t.effect p m) (t.effect p m) := by
  refine ⟨?_, fun _ => rfl⟩
  cases (t.effect p m).1 with
  | ok r => exact .inl rfl
  | error e => rfl

theorem same_replies :
    SameOutcome refused (t.effect (pure r) m) (t.effect (pure r') m) ↔
      r = r' ∨ (refused r ∧ refused r') :=
  ⟨fun h => h.1, fun h => ⟨h, fun _ => rfl⟩⟩

theorem same_errors (e e' : String) :
    SameOutcome refused (t.effect (pure (.Error e) : StoreM F (Reply F)) m)
      (t.effect (pure (.Error e')) m) :=
  same_replies.mpr (.inr ⟨rfl, rfl⟩)

end Same

/-! ## Reading a string -/

section Reading

variable {T : Instant} {e : Option (Entry F)}

/-- There is something that has not expired, and it is not a string. -/
def WrongKind (T : Instant) (e : Option (Entry F)) : Prop :=
  ∃ en, live T e = some en ∧ ∀ s, en.data ≠ .String s

def string_reply (present : Bytes → Reply F) (absent : Reply F) (r : Option (Entry F)) : Reply F :=
  match r.map data with
  | some (.String s) => present s
  | some _ => wrong_type
  | none => absent

variable {present : Bytes → Reply F}

variable {absent : Reply F} {en : Entry F}

theorem string_reply_string {s : Bytes}
    (h : en.data = .String s) : string_reply present absent (some en) = present s := by
  unfold string_reply
  rw [map_some, h]

theorem string_reply_other
    (h : ∀ s, en.data ≠ .String s) : string_reply present absent (some en) = wrong_type := by
  unfold string_reply
  cases hdata : en.data <;> simp_all

def reads_to (T : Instant) (present : Bytes → Reply F) (absent : Reply F) (e : Option (Entry F)) :
    Except Halt (Reply F) × Option (Entry F) :=
  (.ok (string_reply present absent (live T e)), live T e)

theorem acts_read_string {t : Moment} {key : Bytes} (present : Bytes → Reply F) (absent : Reply F) :
    Acts t key (read_string key present absent) (reads_to t.now present absent) := by
  refine acts_get (G := fun r e => (.ok (string_reply present absent r), e)) fun r => ?_
  cases r with
  | none => exact acts_pure _
  | some en =>
    unfold string_reply
    cases hdata : en.data <;> simp only [hdata, map_some] <;> exact acts_pure _

omit [Score F] in
theorem not_corresponds {r : Reply F} (hr : ¬ refused r) (x : String) :
    ¬ Corresponds refused (.ok r) (.ok (.Error x)) := by
  rintro (rfl | ⟨h, -⟩)
  · exact hr rfl
  · exact hr h

theorem wrongKind_iff (h : live T e = some en) : WrongKind T e ↔ ∀ s, en.data ≠ .String s := by
  simp [WrongKind, h]

theorem not_wrongKind (h : live T e = none) : ¬ WrongKind T e := by
  simp [WrongKind, h]

theorem reads_to_error
    (hpresent : ∀ s, ¬ refused (present s)) (habsent : ¬ refused absent) (x : String) :
    SameAct refused (reads_to T present absent e) (.ok (.Error x), e) ↔ WrongKind T e := by
  unfold SameAct reads_to
  cases hlive : live T e with
  | none => exact iff_of_false (fun h => not_corresponds habsent x h.1) (not_wrongKind hlive)
  | some en =>
    rw [wrongKind_iff hlive, eq_of_live hlive]
    by_cases hstring : ∃ s, en.data = .String s
    · obtain ⟨s, hs⟩ := hstring
      rw [string_reply_string hs]
      exact iff_of_false (fun h => not_corresponds (hpresent s) x h.1) (fun h => h s hs)
    · have hother : ∀ s, en.data ≠ .String s := fun s hs => hstring ⟨s, hs⟩
      rw [string_reply_other hother]
      exact iff_of_true ⟨.inr ⟨rfl, rfl⟩, rfl⟩ hother

end Reading

/-! ## Editing a string

INCR and its relatives, and APPEND. The script reads and stores a new entry; the command itself
edits the entry in place. -/

section Editing

variable {T : Instant} {t : Moment} {key : Bytes}

def new_string (T : Instant) (value : Bytes) : Entry F := ⟨.String value, none, T, 1, 1⟩

/-- What is stored, and replied, to what has been read: `edit` gives the new string and the
reply. -/
def stored (T : Instant) (edit : Option Bytes → Bytes × Reply F) (r e : Option (Entry F)) :
    Except Halt (Reply F) × Option (Entry F) :=
  match r.map data with
  | some (.String s) => (.ok (edit (some s)).2, some (new_string T (edit (some s)).1))
  | some _ => (.ok wrong_type, e)
  | none => (.ok (edit none).2, some (new_string T (edit none).1))

variable {edit : Option Bytes → Bytes × Reply F}

theorem stored_string {en : Entry F} {s : Bytes}
    (h : en.data = .String s) (e : Option (Entry F)) :
    stored T edit (some en) e = (.ok (edit (some s)).2, some (new_string T (edit (some s)).1)) := by
  unfold stored
  rw [map_some, h]

theorem stored_other {en : Entry F}
    (h : ∀ s, en.data ≠ .String s) (e : Option (Entry F)) :
    stored T edit (some en) e = (.ok wrong_type, e) := by
  unfold stored
  cases hdata : en.data <;> simp_all

theorem acts_put (value : Bytes) (reply : Reply F) :
    Acts t key (put key value reply) fun _ => (.ok reply, some (new_string t.now value)) :=
  acts_set (acts_pure reply)

/-- The new value and the reply of INCR and its relatives, in a script. -/
def changed (change : Int64 → Int64) (s : Option Bytes) : Bytes × Reply F :=
  let new_val := change (s.elim 0 fun s => (parse_i64 s).getD 0)
  (int_bytes new_val, .Integer new_val)

theorem acts_add_to (change : Int64 → Int64) :
    Acts t key (add_to key change : StoreM F (Reply F)) fun e =>
      stored t.now (changed change) (live t.now e) (live t.now e) := by
  refine acts_get fun r => ?_
  unfold stored
  cases r.map data with
  | none => exact acts_put _ _
  | some d =>
    cases d with
    | String s => exact acts_put _ _
    | _ => exact acts_pure _

/-- The same of APPEND. -/
def appended (value : Bytes) (s : Option Bytes) : Bytes × Reply F :=
  (s.getD [] ++ value, int (s.getD [] ++ value).length)

theorem acts_append_to (value : Bytes) :
    Acts t key (append_to key value : StoreM F (Reply F)) fun e =>
      stored t.now (appended value) (live t.now e) (live t.now e) := by
  refine acts_get fun r => ?_
  unfold stored
  cases r.map data with
  | none => exact acts_put _ _
  | some d =>
    cases d with
    | String s => exact acts_put _ _
    | _ => exact acts_pure _

def edited (T : Instant) (f : Bytes → Option Bytes × Except Halt (Reply F))
    (absent : Bytes × Reply F) (e : Option (Entry F)) :
    Except Halt (Reply F) × Option (Entry F) :=
  match e with
  | some en =>
    match en.data with
    | .String s => ((f s).2, some (edit_entry (fun s => (f s).1) en))
    | _ => (.ok wrong_type, some en)
  | none => (.ok absent.2, some (new_string T absent.1))

theorem acts_insert_string (value : Bytes) (reply : Reply F) :
    Acts t key (do
      insert_string key value
      return reply : StoreM F (Reply F)) fun _ => (.ok reply, some (new_string t.now value)) :=
  acts_now (acts_access (g := fun _ => some (new_string t.now value)) fun _ => acts_pure reply)

theorem acts_edit (f : Bytes → Option Bytes × Except Halt (Reply F)) (value : Bytes)
    (reply : Reply F) :
    Acts t key (Strings.edit key f (do
      insert_string key value
      return reply)) (edited t.now f (value, reply)) := by
  -- the reply to what was found, with the entry that the guard has left
  let G (r e : Option (Entry F)) : Except Halt (Reply F) × Option (Entry F) :=
    match r.map data with
    | some (.String s) => ((f s).2, e)
    | some _ => (.ok wrong_type, e)
    | none => (.ok reply, some (new_string t.now value))
  refine (acts_access (G := G) fun r => ?_).congr fun e => ?_
  · cases r with
    | none => exact acts_insert_string value reply
    | some en =>
      dsimp only [G, map_some]
      cases hdata : en.data with
      | String s => exact acts_lift _
      | _ => exact acts_pure _
  · cases e with
    | none => rfl
    | some en =>
      dsimp only [G, edited, map_some, edit_entry]
      cases hdata : en.data <;> rfl

variable {f : Bytes → Option Bytes × Except Halt (Reply F)}

variable {en : Entry F}

theorem edited_other {absent : Bytes × Reply F} (h : ∀ s, en.data ≠ .String s) :
    edited T f absent (some en) = (.ok wrong_type, some en) := by
  unfold edited
  cases hdata : en.data <;> simp_all

theorem edited_string {absent : Bytes × Reply F} {s : Bytes} (h : en.data = .String s) :
    edited T f absent (some en) = ((f s).2, some (match (f s).1 with
      | some b => { en with data := .String b }
      | none => en)) := by
  unfold edited edit_entry
  cases hf : (f s).1 <;> simp only [h, hf]

/-- The entries on which an edit in place comes to what the script stores. -/
def Editable (T : Instant) (good : Bytes → Prop) (e : Option (Entry F)) : Prop :=
  e = none ∨ WrongKind T e ∨
    ∃ en s, e = some en ∧ en.data = .String s ∧ good s ∧ en.expires_at = none

theorem stale_of_none (h : en.expires_at = none) : en.stale T = false := by
  unfold stale
  rw [h]

/-- **Editing.** The two ways agree on a key that is not there, on the wrong kind of value, and on a
string without an expiry time that both can read. -/
theorem stored_iff_edited {good : Bytes → Prop}
    (hedit : ∀ s, ¬ refused (edit s).2)
    (hgood : ∀ s, good s → f s = (some (edit (some s)).1, .ok (edit (some s)).2))
    (hbad : ∀ s, ¬ good s → ∃ x, f s = (none, .ok (.Error x))) (e : Option (Entry F)) :
    SameAct refused (stored T edit (live T e) (live T e)) (edited T f (edit none) e) ↔
      Editable T good e := by
  cases e with
  | none => exact iff_of_true ⟨.inl rfl, rfl⟩ (.inl rfl)
  | some en =>
    by_cases hstring : ∃ s, en.data = .String s
    · obtain ⟨s, hs⟩ := hstring
      have hkind : ¬ WrongKind T (some en) := by
        rintro ⟨en', hlive, hother⟩
        cases eq_of_live hlive
        exact hother s hs
      have hright : Editable T good (some en) ↔ good s ∧ en.expires_at = none := by
        simp [Editable, hkind, hs]
      rw [hright, edited_string hs]
      by_cases hg : good s
      · rw [hgood s hg, and_iff_right hg]
        -- an edit keeps the expiry time, and the new entry has none
        cases hstale : en.stale T with
        | false =>
          rw [live_of_fresh hstale, stored_string hs]
          simp [SameAct, Corresponds, view, new_string, eq_comm]
        | true =>
          rw [live_of_stale hstale]
          constructor
          · rintro ⟨-, hview⟩
            exact (congrArg Prod.snd (Option.some.inj hview)).symm
          · intro hexp
            rw [stale_of_none hexp] at hstale
            cases hstale
      · obtain ⟨x, hx⟩ := hbad s hg
        rw [hx]
        refine iff_of_false (fun h => ?_) (fun h => hg h.1)
        obtain ⟨hreply, -⟩ := h
        cases hstale : en.stale T with
        | false =>
          rw [live_of_fresh hstale, stored_string hs] at hreply
          exact not_corresponds (hedit _) x hreply
        | true =>
          rw [live_of_stale hstale] at hreply
          exact not_corresponds (hedit none) x hreply
    · have hother : ∀ s, en.data ≠ .String s := fun s hs => hstring ⟨s, hs⟩
      have hright : Editable T good (some en) ↔ WrongKind T (some en) := by
        simp [Editable, hother]
      rw [hright, edited_other hother]
      cases hstale : en.stale T with
      | false =>
        have hlive := live_of_fresh hstale
        rw [wrongKind_iff hlive, hlive, stored_other hother]
        exact iff_of_true (same_act_refl _ _) hother
      | true =>
        have hlive := live_of_stale hstale
        rw [hlive]
        exact iff_of_false (fun h => not_corresponds (hedit none) _ h.1) (not_wrongKind hlive)

theorem stored_error (hedit : ∀ s, ¬ refused (edit s).2)
    (x : String) (e : Option (Entry F)) :
    SameAct refused (stored T edit (live T e) (live T e)) (.ok (.Error x), e) ↔ WrongKind T e := by
  cases hlive : live T e with
  | none => exact iff_of_false (fun h => not_corresponds (hedit none) x h.1) (not_wrongKind hlive)
  | some en =>
    rw [wrongKind_iff hlive]
    by_cases hstring : ∃ s, en.data = .String s
    · obtain ⟨s, hs⟩ := hstring
      rw [stored_string hs]
      exact iff_of_false (fun h => not_corresponds (hedit _) x h.1) (fun h => h s hs)
    · have hother : ∀ s, en.data ≠ .String s := fun s hs => hstring ⟨s, hs⟩
      rw [stored_other hother, eq_of_live hlive]
      exact iff_of_true ⟨.inr ⟨rfl, rfl⟩, rfl⟩ hother

end Editing

/-! ## Expiry times -/

section Expiry

variable {t : Moment} {key : Bytes}

/-- The reply of TTL in a script. -/
def ttl_reply (r : Option (Entry F)) : Reply F :=
  match r with
  | some en =>
    match en.expires_at with
    | some _ => .Integer 20
    | none => .Integer (-1)
  | none => .Integer (-2)

theorem acts_time_to_live :
    Acts t key (time_to_live key : StoreM F (Reply F)) fun e =>
      (.ok (ttl_reply (live t.now e)), live t.now e) := by
  refine acts_get (G := fun r e => (.ok (ttl_reply r), e)) fun r => ?_
  cases r with
  | none => exact acts_pure _
  | some en =>
    dsimp only [ttl_reply]
    cases hexp : en.expires_at <;> exact acts_pure _

/-- The reply of the command itself to a key that is there. -/
def seconds_reply : Option Duration → Reply F
  | some d => int (d / 10 ^ 9)
  | none => .Integer (-1)

def ttl_direct (T : Instant) (r : Option (Entry F)) : Reply F :=
  match r with
  | some en => seconds_reply (left T (some en))
  | none => .Integer (-2)

theorem acts_cmd_ttl :
    Acts t key (cmd_ttl [key] : StoreM F (Reply F)) fun e =>
      (.ok (ttl_direct t.now (live t.now e)), live t.now e) := by
  let G (r : Bool) (e : Option (Entry F)) : Except Halt (Reply F) × Option (Entry F) :=
    if r then (.ok (seconds_reply (left t.now (live t.now e))), live t.now e)
    else (.ok (.Integer (-2)), e)
  show Acts t key (do
    if ← Store.exists_key key then do
      match ← Store.ttl key with
      | some d => return int (d / 10 ^ 9)
      | none => return .Integer (-1)
    else return .Integer (-2)) _
  refine (acts_exists (G := G) fun r => ?_).congr fun e => ?_
  · cases r with
    | false => exact acts_pure _
    | true =>
      refine acts_ttl (G := fun d e => (.ok (seconds_reply d), e)) fun d => ?_
      cases d <;> exact acts_pure _
  · cases hlive : live t.now e with
    | none => rfl
    | some en =>
      have hagain := live_live t.now e
      rw [hlive] at hagain
      dsimp only [G, ttl_direct, isSome_some]
      rw [if_pos rfl, hagain]

/-- The entry has no expiry time, or twenty seconds are left. -/
def Twenty (T : Instant) (e : Option (Entry F)) : Prop :=
  ∀ en x, live T e = some en → en.expires_at = some x → Int64.ofNat ((x - T) / 10 ^ 9) = 20

theorem ttl_iff (T : Instant) (e : Option (Entry F)) :
    SameAct refused (.ok (ttl_reply (live T e)), live T e) (.ok (ttl_direct T (live T e)), live T e) ↔
      Twenty T e := by
  unfold Twenty
  cases hlive : live T e with
  | none => exact iff_of_true (same_act_refl _ _) nofun
  | some en =>
    have hright : (∀ en' x, some en = some en' → en'.expires_at = some x →
        Int64.ofNat ((x - T) / 10 ^ 9) = 20) ↔
        ∀ x, en.expires_at = some x → Int64.ofNat ((x - T) / 10 ^ 9) = 20 :=
      ⟨fun h x => h en x rfl, fun h _ x he => Option.some.inj he ▸ h x⟩
    rw [hright]
    cases hexp : en.expires_at with
    | none => simp [ttl_reply, ttl_direct, seconds_reply, left, hexp, SameAct, Corresponds]
    | some x =>
      have hle : T ≤ x := by
        by_contra hlt
        have hstale : en.stale T = true := by
          unfold stale
          rw [hexp]
          exact decide_eq_true (Nat.not_le.mp hlt)
        have hagain := live_live T e
        rw [hlive, live_of_stale hstale] at hagain
        cases hagain
      simp [ttl_reply, ttl_direct, seconds_reply, left, hexp, hle, SameAct, Corresponds, int, refused,
        Errors.is_error, eq_comm]

def expires_to (t : Moment) (dur : Duration) (e : Option (Entry F)) :
    Except Halt (Reply F) × Option (Entry F) :=
  if t.now + dur > instant_max then (.error .Panic, e)
  else (.ok (int (if e.isSome then 1 else 0)), e.map ({ · with expires_at := some (t.now + dur) }))

theorem acts_deadline {α : Type} {dur : Duration} {f : Instant → StoreM F α}
    {G : Option (Entry F) → Except Halt α × Option (Entry F)} (h : Acts t key (f (t.now + dur)) G) :
    Acts t key (deadline dur >>= f) fun e =>
      if t.now + dur > instant_max then (.error .Panic, e) else G e := by
  have hprog : Acts t key ((if t.now + dur > instant_max then .fail .Panic
      else return t.now + dur : StoreM F Instant) >>= f) fun e =>
        if t.now + dur > instant_max then (.error .Panic, e) else G e := by
    by_cases hmax : t.now + dur > instant_max
    · simp only [if_pos hmax]
      exact acts_fail .Panic
    · simp only [if_neg hmax]
      exact h
  exact acts_now hprog

theorem acts_expire_key {number : Bytes} {seconds : Int64} (h : parse_i64 number = some seconds) :
    Acts t key (expire_key key number : StoreM F (Reply F))
      (expires_to t (seconds.toInt.toNat * 10 ^ 9)) := by
  unfold expire_key
  rw [h]
  exact acts_deadline (acts_expire (G := fun r e => (.ok (int (if r then 1 else 0)), e))
    fun r => acts_pure _)

/-- What EXPIRE itself comes to. -/
def expire_direct (t : Moment) (cond : Keys.ExpireCond) (dur : Duration) (e : Option (Entry F)) :
    Except Halt (Reply F) × Option (Entry F) :=
  match live t.now e with
  | some en =>
    if cond.holds (left t.now (some en)) dur then expires_to t dur (some en)
    else (.ok (int 0), some en)
  | none => (.ok (int 0), none)

theorem acts_expire_with (cmd : String) (unit : ℕ) (number : Bytes) (rest : List Bytes) :
    Acts t key (expire_with cmd unit false (key :: number :: rest) : StoreM F (Reply F))
      (expire_direct t (expire_cond rest)
        ((expire_number number).toInt.toNat * unit)) := by
  set dur := (expire_number number).toInt.toNat * unit with hdur
  set cond := expire_cond rest with hcond
  -- the part behind the condition
  let G₂ (r : Bool) (e : Option (Entry F)) : Except Halt (Reply F) × Option (Entry F) :=
    if r then if t.now + dur > instant_max then (.error .Panic, e)
      else (.ok (int 1), e.map ({ · with expires_at := some (t.now + dur) }))
    else (.ok (int 0), e)
  let G₁ (r : Bool) (e : Option (Entry F)) : Except Halt (Reply F) × Option (Entry F) :=
    if r then G₂ (cond.holds (left t.now (live t.now e)) dur) (live t.now e)
    else (.ok (int 0), e)
  show Acts t key (do
    if ← Store.exists_key key then do
      let dur ← (return dur : StoreM F Duration)
      if ← check_expire_cond key dur cond then do
        let at_ ← deadline dur
        let _ ← Store.expire key at_
        return int 1
      else return int 0
    else return int 0) _
  refine (acts_exists (G := G₁) fun r => ?_).congr fun e => ?_
  · cases r with
    | false => exact acts_pure _
    | true =>
      show Acts t key ((do return cond.holds (← Store.ttl key) dur) >>= fun r =>
        if r then do
          let at_ ← deadline dur
          let _ ← Store.expire key at_
          return int 1
        else return int 0) _
      rw [Prog.bind_assoc]
      refine acts_ttl (G := fun d e => G₂ (cond.holds d dur) e) fun d => ?_
      cases cond.holds d dur with
      | false => exact acts_pure _
      | true =>
        exact acts_deadline (acts_expire (G := fun _ e => (.ok (int 1), e)) fun _ => acts_pure _)
  · unfold expire_direct
    cases hlive : live t.now e with
    | none => rfl
    | some en =>
      have hagain := live_live t.now e
      rw [hlive] at hagain
      dsimp only [G₁, isSome_some]
      rw [if_pos rfl, hagain]
      rfl

/-- Where the two agree: on a key that is not there, if there is such a time, and on a live entry
that meets the condition. -/
def Expirable (t : Moment) (cond : Keys.ExpireCond) (dur : Duration) (e : Option (Entry F)) : Prop :=
  (e = none ∧ t.now + dur ≤ instant_max) ∨
    ∃ en, live t.now e = some en ∧ cond.holds (left t.now (some en)) dur = true

theorem expire_iff (cond : Keys.ExpireCond) (dur : Duration) (e : Option (Entry F)) :
    SameAct refused (expires_to t dur e) (expire_direct t cond dur e) ↔ Expirable t cond dur e := by
  -- an entry that is there is never left alone by the script
  have hset : ∀ (en : Entry F) (e' : Option (Entry F)),
      ¬ SameAct refused (expires_to t dur (some en)) (.ok (int 0), e') := by
    rintro en e' ⟨hreply, -⟩
    unfold expires_to at hreply
    split at hreply
    · exact hreply
    · rcases hreply with h | ⟨h, -⟩
      · have hone : (1 : Int64) = 0 := Resp.RespValue.Integer.inj h
        exact absurd hone (by decide)
      · cases h
  unfold expire_direct Expirable
  cases e with
  | none =>
    by_cases hmax : t.now + dur > instant_max
    · simp [live, SameAct, Corresponds, expires_to, hmax]
    · simp [live, SameAct, Corresponds, expires_to, hmax, Nat.not_lt.mp hmax]
  | some en =>
    cases hstale : en.stale t.now with
    | true =>
      rw [live_of_stale hstale]
      exact iff_of_false (hset en none) (by simp)
    | false =>
      rw [live_of_fresh hstale]
      dsimp only
      by_cases hholds : cond.holds (left t.now (some en)) dur = true
      · rw [if_pos hholds]
        exact iff_of_true (same_act_refl _ _) (.inr ⟨en, rfl, hholds⟩)
      · rw [if_neg hholds]
        exact iff_of_false (hset en _) (by simp [hholds])

/-- A number that cannot be read is an error in a script, and never one of the command itself. -/
theorem expire_not_integer (cond : Keys.ExpireCond) (dur : Duration) (e : Option (Entry F)) :
    ¬ SameAct refused (.ok not_integer, e) (expire_direct t cond dur e) := by
  have hno : ∀ n, ¬ Corresponds refused (.ok not_integer) (.ok (int n : Reply F)) := by
    rintro n (h | ⟨-, h⟩)
    · cases h
    · cases h
  rintro ⟨hreply, -⟩
  unfold expire_direct expires_to at hreply
  split at hreply
  · split at hreply
    · split at hreply
      · exact hreply
      · exact hno _ hreply
    · exact hno _ hreply
  · exact hno _ hreply

end Expiry

/-! ## SET

In a script SET looks at no options. -/

section Set

variable {t : Moment} {key value : Bytes}

/-- The options of SET read without the store; none where SET replies early. -/
def set_plan (t : Moment) : List Bytes → SetOptions → Option SetOptions
  | [], opts => some opts
  | opt :: rest, opts =>
    match option_name opt with
    | none => none
    | some name =>
      match expiry_option name with
      | some (unit, absolute) =>
        match rest with
        | [] => none
        | number :: rest =>
          match parse_u64 number with
          | none => none
          | some n =>
            if absolute then
              if n > t.wall / unit % 2 ^ 64 then
                set_plan t rest { opts with ttl := some ((n - t.wall / unit % 2 ^ 64) * unit) }
              else none
            else set_plan t rest { opts with ttl := some (n * unit) }
      | none =>
        if name = "KEEPTTL" then set_plan t rest { opts with ttl := none }
        else if name = "NX" then set_plan t rest { opts with nx := true }
        else if name = "XX" then set_plan t rest { opts with xx := true }
        else if name = "GET" then set_plan t rest { opts with get := true }
        else none

theorem effect_ttl_until {α : Type} (unit ts : ℕ) (f : Option Duration → StoreM F α)
    (m : HashMap Bytes (Entry F)) :
    t.effect (ttl_until key unit ts >>= f) m =
      if ts > t.wall / unit % 2 ^ 64 then t.effect (f (some ((ts - t.wall / unit % 2 ^ 64) * unit))) m
      else t.effect (f none) (m.erase key) := by
  have hprog : t.effect (ttl_until key unit ts >>= f) m =
      t.effect ((if ts > t.wall / unit % 2 ^ 64 then
        return some ((ts - t.wall / unit % 2 ^ 64) * unit)
      else do
        let _ ← Store.del key
        return none : StoreM F (Option Duration)) >>= f) m := rfl
  rw [hprog]
  split
  · rfl
  · rw [Prog.bind_assoc, effect_del]
    rfl

theorem effect_set_options {α : Type} (key : Bytes) (f : Except (Reply F) SetOptions → StoreM F α)
    (opts : List Bytes) (o : SetOptions) (m : HashMap Bytes (Entry F)) :
    (∃ o', set_plan t opts o = some o' ∧
      t.effect (set_options key opts o >>= f) m = t.effect (f (.ok o')) m) ∨
    (set_plan t opts o = none ∧ ∃ reply m', reply ≠ ok ∧
      t.effect (set_options key opts o >>= f) m = t.effect (f (.error reply)) m') := by
  fun_induction set_plan t opts o with unfold set_options
  | case1 o => exact .inl ⟨o, rfl, rfl⟩
  | case2 opt rest o hname =>
    refine .inr ⟨rfl, syntax_error, m, nofun, ?_⟩
    rw [hname]
    rfl
  | case3 opt o name hname unit absolute hexpiry =>
    refine .inr ⟨rfl, syntax_error, m, nofun, ?_⟩
    simp only [hname, hexpiry]
    rfl
  | case4 opt o name hname unit absolute hexpiry number rest hnumber =>
    refine .inr ⟨rfl, not_integer, m, nofun, ?_⟩
    simp only [hname, hexpiry, hnumber]
    rfl
  | case5 opt o name hname unit number rest n hnumber hafter hexpiry ih =>
    simp only [hname, hexpiry, hnumber, if_pos, Prog.bind_assoc]
    rw [effect_ttl_until, if_pos hafter]
    exact ih
  | case6 opt o name hname unit number rest n hnumber hpast hexpiry =>
    refine .inr ⟨rfl, null_bulk, m.erase key, nofun, ?_⟩
    simp only [hname, hexpiry, hnumber, if_pos, Prog.bind_assoc]
    rw [effect_ttl_until, if_neg hpast]
    rfl
  | case7 opt o name hname unit absolute hexpiry number rest n hnumber habs ih =>
    simp only [hname, hexpiry, hnumber, if_neg habs]
    exact ih
  | case8 opt rest o hname hexpiry ih =>
    simp only [hname, hexpiry, if_pos]
    exact ih
  | case9 opt rest o hname hexpiry hne ih =>
    simp only [hname, hexpiry, if_neg hne, if_pos]
    exact ih
  | case10 opt rest o hname hexpiry h₁ h₂ ih =>
    simp only [hname, hexpiry, if_neg h₁, if_neg h₂, if_pos]
    exact ih
  | case11 opt rest o hname hexpiry h₁ h₂ h₃ ih =>
    simp only [hname, hexpiry, if_neg h₁, if_neg h₂, if_neg h₃, if_pos]
    exact ih
  | case12 opt rest o name hname hexpiry h₁ h₂ h₃ h₄ =>
    refine .inr ⟨rfl, syntax_error, m, nofun, ?_⟩
    simp only [hname, hexpiry, if_neg h₁, if_neg h₂, if_neg h₃, if_neg h₄]
    rfl

/-- What SET comes to behind its options. -/
def set_direct (T : Instant) (value : Bytes) (o : SetOptions) (e : Option (Entry F)) :
    Except Halt (Reply F) × Option (Entry F) :=
  if o.nx && (live T e).isSome then
    (.ok (if o.get then string_reply bull null_bulk (live T e) else null_bulk), live T e)
  else if o.xx && !(live T e).isSome then (.ok null_bulk, live T e)
  else match new (.String value) o.ttl T with
    | .ok entry => (.ok (if o.get then .BulkString (string_of (live T e)) else ok), some entry)
    | .error err => (.error err, live T e)

theorem acts_overwrite (ttl : Option Duration) (reply : Reply F) :
    Acts t key (do
      Store.maybe_evict
      Store.set key (.String value) ttl
      return reply : StoreM F (Reply F)) fun e =>
        match new (.String value) ttl t.now with
        | .ok entry => (.ok reply, some entry)
        | .error err => (.error err, e) := by
  refine acts_maybe_evict ?_
  have hset : Acts t key (do
      Store.set key (.String value) ttl
      return reply : StoreM F (Reply F)) _ := acts_set (acts_pure reply)
  refine hset.congr fun e => ?_
  cases new (F := F) (.String value) ttl t.now <;> rfl

theorem acts_set_with (o : SetOptions) :
    Acts t key (set_with key value o : StoreM F (Reply F)) (set_direct t.now value o) := by
  -- behind the test of the key, which has removed what has expired
  let G (r : Bool) (e : Option (Entry F)) : Except Halt (Reply F) × Option (Entry F) :=
    if o.nx && r then
      if o.get then reads_to t.now bull null_bulk e else (.ok null_bulk, e)
    else if o.xx && !r then (.ok null_bulk, e)
    else match new (.String value) o.ttl t.now with
      | .ok entry =>
        (.ok (if o.get then .BulkString (string_of (live t.now e)) else ok), some entry)
      | .error err => (.error err, if o.get then live t.now e else e)
  refine (acts_exists (G := G) fun r => ?_).congr fun e => ?_
  · dsimp only [G]
    by_cases hnx : (o.nx && r) = true
    · simp only [if_pos hnx]
      by_cases hget : o.get = true
      · simp only [if_pos hget]
        exact acts_read_string bull null_bulk
      · simp only [if_neg hget]
        exact acts_pure _
    · simp only [if_neg hnx]
      by_cases hxx : (o.xx && !r) = true
      · simp only [if_pos hxx]
        exact acts_pure _
      · simp only [if_neg hxx]
        unfold old_value
        by_cases hget : o.get = true
        · simp only [if_pos hget, Prog.bind_assoc]
          exact acts_get fun r => acts_overwrite o.ttl (.BulkString (string_of r))
        · simp only [if_neg hget]
          exact acts_overwrite o.ttl ok
  · unfold set_direct
    dsimp only [G, reads_to]
    rw [live_live, ite_self]
    split
    · split <;> rfl
    · rfl

/-- The plan gives no expiry time and no old value, and its conditions are met. -/
def PlainSet (T : Instant) (o : SetOptions) (e : Option (Entry F)) : Prop :=
  o.ttl = none ∧ o.get = false ∧ (o.nx = true → live T e = none) ∧ (o.xx = true → live T e ≠ none)

omit [Score F] in
theorem not_ok_of_ne {r : Reply F} (hr : r ≠ ok) : ¬ Corresponds refused (.ok ok) (.ok r) := by
  rintro (h | ⟨h, -⟩)
  · exact hr h.symm
  · cases h

theorem string_reply_ne_ok (r : Option (Entry F)) : string_reply bull null_bulk r ≠ ok := by
  unfold string_reply
  split <;> nofun

theorem set_iff (o : SetOptions) (e : Option (Entry F)) :
    SameAct refused (.ok ok, some (new_string t.now value)) (set_direct t.now value o e) ↔
      PlainSet t.now o e := by
  unfold set_direct PlainSet
  by_cases hnx : (o.nx && (live t.now e).isSome) = true
  · rw [if_pos hnx]
    obtain ⟨hn, hsome⟩ := (Bool.and_eq_true _ _).mp hnx
    have hreply : (if o.get then string_reply bull null_bulk (live t.now e) else null_bulk) ≠
        (ok : Reply F) := by
      split
      · exact string_reply_ne_ok _
      · nofun
    constructor
    · rintro ⟨h, -⟩
      exact absurd h (not_ok_of_ne hreply)
    · rintro ⟨-, -, hnone, -⟩
      rw [hnone hn] at hsome
      cases hsome
  · rw [if_neg hnx]
    by_cases hxx : (o.xx && !(live t.now e).isSome) = true
    · rw [if_pos hxx]
      obtain ⟨hx, hnot⟩ := (Bool.and_eq_true _ _).mp hxx
      constructor
      · rintro ⟨h, -⟩
        exact absurd h (not_ok_of_ne nofun)
      · rintro ⟨-, -, -, hsome⟩
        cases hlive : live t.now e with
        | none => exact absurd hlive (hsome hx)
        | some en =>
          rw [hlive] at hnot
          cases hnot
    · rw [if_neg hxx]
      have hconds : (o.nx = true → live t.now e = none) ∧ (o.xx = true → live t.now e ≠ none) := by
        cases hlive : live t.now e with
        | none =>
          refine ⟨fun _ => rfl, fun hx => absurd ?_ hxx⟩
          rw [hx, hlive]
          rfl
        | some en =>
          refine ⟨fun hn => absurd ?_ hnx, fun _ => nofun⟩
          rw [hn, hlive]
          rfl
      have hright : (o.ttl = none ∧ o.get = false ∧ (o.nx = true → live t.now e = none) ∧
          (o.xx = true → live t.now e ≠ none)) ↔ o.ttl = none ∧ o.get = false :=
        ⟨fun h => ⟨h.1, h.2.1⟩, fun h => ⟨h.1, h.2, hconds⟩⟩
      rw [hright]
      cases httl : o.ttl with
      | some d =>
        -- a time that is kept can be seen in the entry
        constructor
        · rintro ⟨hreply, hview⟩
          by_cases hmax : t.now + d > instant_max
          · simp only [new, if_pos hmax] at hreply
            exact absurd hreply id
          · simp only [new, if_neg hmax] at hview
            cases congrArg Prod.snd (Option.some.inj hview)
        · rintro ⟨h, -⟩
          cases h
      | none =>
        cases hget : o.get with
        | true =>
          constructor
          · rintro ⟨h, -⟩
            exact absurd h (not_ok_of_ne nofun)
          · rintro ⟨-, h⟩
            cases h
        | false => exact ⟨fun _ => ⟨rfl, rfl⟩, fun _ => ⟨.inl rfl, rfl⟩⟩

def set_behind_options (key value : Bytes) : Except (Reply F) SetOptions → StoreM F (Reply F)
  | .error reply => return reply
  | .ok opts => set_with key value opts

/-- SET agrees when its options say nothing. -/
theorem scripted_set (opts : List Bytes) (m : HashMap Bytes (Entry F)) :
    SameOutcome refused (t.effect (put key value ok) m)
        (t.effect (cmd_set (key :: value :: opts)) m) ↔
      ∃ o, set_plan t opts ⟨none, false, false, false⟩ = some o ∧ PlainSet t.now o m[key]? := by
  have hput : Acts t key (put key value (ok : Reply F)) _ := acts_put value ok
  have hopts := effect_set_options (t := t) key (set_behind_options key value) opts
    ⟨none, false, false, false⟩ m
  rcases hopts with ⟨o, hplan, heffect⟩ | ⟨hplan, reply, m', hreply, heffect⟩
  · have hsame : SameOutcome refused _ (t.effect (set_behind_options key value (.ok o)) m) ↔ _ :=
      same_outcome_iff hput (acts_set_with o) m
    rw [set_iff, ← heffect] at hsame
    simp only [hplan, Option.some.injEq, exists_eq_left']
    exact hsame
  · rw [hplan]
    constructor
    · rintro ⟨hcorr, -⟩
      have hfirst : (t.effect (put key value ok : StoreM F (Reply F)) m).1 = .ok ok :=
        congrArg Prod.fst (hput m)
      have hsecond : (t.effect (cmd_set (key :: value :: opts) : StoreM F (Reply F)) m).1 =
          .ok reply := congrArg Prod.fst heffect
      exact absurd (hsecond ▸ hcorr) (not_ok_of_ne hreply)
    · rintro ⟨o, h, -⟩
      cases h

end Set

/-! ## GETEX

In a script GETEX is GET. -/

section Getex

variable {t : Moment} {key : Bytes}

/-- What the option of GETEX asks for. -/
inductive Renewal where
  | refuse
  /-- A time that has passed: the key is deleted. -/
  | delete
  | keep
  | persist
  | renew (ttl : Duration)

/-- The option of GETEX read without the store. -/
def getex_plan (t : Moment) (opts : List Bytes) : Renewal :=
  match opts with
  | [] => .keep
  | opt :: rest =>
    match option_name opt with
    | none => .refuse
    | some name =>
      match expiry_option name with
      | some (unit, absolute) =>
        match rest with
        | [] => .refuse
        | number :: _ =>
          let n := (parse_u64 number).getD 0
          if absolute then
            if n > t.wall / unit % 2 ^ 64 then .renew ((n - t.wall / unit % 2 ^ 64) * unit)
            else .delete
          else .renew (n * unit)
      | none =>
        if name = "PERSIST" then .persist
        else if name = "KEEPTTL" then .keep
        else .refuse

/-- What the rest of the command is given: the reply or the time to live, and the entry. -/
def Renewal.handed (e : Option (Entry F)) :
    Renewal → Except (Reply F) (Option Duration) × Option (Entry F)
  | .refuse => (.error syntax_error, e)
  | .delete => (.error null_bulk, none)
  | .keep => (.ok none, e)
  | .persist => (.ok none, e.map ({ · with expires_at := none }))
  | .renew ttl => (.ok (some ttl), e)

theorem acts_ttl_until {α : Type} {unit ts : ℕ} {f : Option Duration → StoreM F α}
    {G : Option Duration → Option (Entry F) → Except Halt α × Option (Entry F)}
    (h : ∀ r, Acts t key (f r) (G r)) :
    Acts t key (ttl_until key unit ts >>= f) fun e =>
      if ts > t.wall / unit % 2 ^ 64 then G (some ((ts - t.wall / unit % 2 ^ 64) * unit)) e
      else G none none := by
  intro m
  rw [effect_ttl_until]
  by_cases hafter : ts > t.wall / unit % 2 ^ 64
  · simp only [if_pos hafter]
    rw [h]
  · simp only [if_neg hafter]
    rw [h, ← alter_eq_erase (f := fun _ => none) rfl, Std.ExtTreeMap.getElem?_alter_self, alter_alter]
    rfl

/-- How GETEX goes on behind a time since the epoch. -/
def until_next {α : Type}
    (G : Except (Reply F) (Option Duration) → Option (Entry F) → Except Halt α × Option (Entry F)) :
    Option Duration → Option (Entry F) → Except Halt α × Option (Entry F)
  | some ttl => G (.ok (some ttl))
  | none => G (.error null_bulk)

theorem acts_getex_option {α : Type} (opts : List Bytes)
    {f : Except (Reply F) (Option Duration) → StoreM F α}
    {G : Except (Reply F) (Option Duration) → Option (Entry F) → Except Halt α × Option (Entry F)}
    (h : ∀ r, Acts t key (f r) (G r)) :
    Acts t key (getex_option key opts >>= f) fun e =>
      G ((getex_plan t opts).handed e).1 ((getex_plan t opts).handed e).2 := by
  unfold getex_option
  fun_cases getex_plan t opts with
  | case1 => exact h _
  | case2 opt rest hname =>
    simp only [hname]
    exact h _
  | case3 opt name hname unit absolute hexpiry =>
    simp only [hname, hexpiry]
    exact h _
  | case4 opt name hname unit number rest n hafter hexpiry =>
    simp only [hname, hexpiry, if_pos, Prog.bind_assoc]
    refine (acts_ttl_until (G := until_next G) fun r => ?_).congr fun e => ?_
    · cases r <;> exact h _
    · rw [if_pos hafter]
      rfl
  | case5 opt name hname unit number rest n hpast hexpiry =>
    simp only [hname, hexpiry, if_pos, Prog.bind_assoc]
    refine (acts_ttl_until (G := until_next G) fun r => ?_).congr fun e => ?_
    · cases r <;> exact h _
    · rw [if_neg hpast]
      rfl
  | case6 opt name hname unit absolute hexpiry number rest n habs =>
    simp only [hname, hexpiry, if_neg habs]
    exact h _
  | case7 opt rest hname hexpiry =>
    simp only [hname, hexpiry, if_pos, Prog.bind_assoc]
    exact acts_access fun _ => h _
  | case8 opt rest hname hexpiry hne =>
    simp only [hname, hexpiry, if_neg hne, if_pos]
    exact h _
  | case9 opt rest name hname hexpiry h₁ h₂ =>
    simp only [hname, hexpiry, if_neg h₁, if_neg h₂]
    exact h _

/-- What the read at the end of GETEX comes to. -/
def value_to (T : Instant) (e : Option (Entry F)) : Except Halt (Reply F) × Option (Entry F) :=
  match live T e with
  | some en =>
    match en.data with
    | .String s => (.ok (bull s), some en)
    | _ => (.error .Panic, some en)
  | none => (.ok null_bulk, none)

theorem acts_getex_value : Acts t key (getex_value key : StoreM F (Reply F)) (value_to t.now) := by
  let G (r e : Option (Entry F)) : Except Halt (Reply F) × Option (Entry F) :=
    match r with
    | some en =>
      match en.data with
      | .String s => (.ok (bull s), e)
      | _ => (.error .Panic, e)
    | none => (.ok null_bulk, e)
  refine (acts_get (G := G) fun r => ?_).congr fun e => ?_
  · cases r with
    | none => exact acts_pure _
    | some en =>
      dsimp only [G]
      cases hdata : en.data with
      | String s => exact acts_pure _
      | _ => exact acts_fail _
  · unfold value_to
    cases hlive : live t.now e with
    | none => rfl
    | some en =>
      dsimp only [G]

/-- GETEX behind its option. -/
def getex_with (key : Bytes) : Except (Reply F) (Option Duration) → StoreM F (Reply F)
  | .error reply => return reply
  | .ok none => getex_value key
  | .ok (some ttl) => do
    match string_of (← Store.get key) with
    | some value => do
      Store.set key (.String value) (some ttl)
      getex_value key
    | none => return null_bulk

/-- What a new time to live for what has been read comes to. -/
def renewed (T : Instant) (ttl : Duration) (r e : Option (Entry F)) :
    Except Halt (Reply F) × Option (Entry F) :=
  match string_of r with
  | some value =>
    if T + ttl > instant_max then (.error .Panic, e)
    else value_to T (some ⟨.String value, some (T + ttl), T, 1, 1⟩)
  | none => (.ok null_bulk, e)

def getex_to (T : Instant) (r : Except (Reply F) (Option Duration)) (e : Option (Entry F)) :
    Except Halt (Reply F) × Option (Entry F) :=
  match r with
  | .error reply => (.ok reply, e)
  | .ok none => value_to T e
  | .ok (some ttl) => renewed T ttl (live T e) (live T e)

theorem acts_getex_with (r : Except (Reply F) (Option Duration)) :
    Acts t key (getex_with key r) (getex_to t.now r) := by
  match r with
  | .error reply => exact acts_pure reply
  | .ok none => exact acts_getex_value
  | .ok (some ttl) =>
    refine acts_get (G := renewed t.now ttl) fun r => ?_
    unfold renewed
    cases string_of r with
    | none => exact acts_pure _
    | some value =>
      have hset : Acts t key (do
          Store.set key (.String value) (some ttl)
          getex_value key : StoreM F (Reply F)) _ := acts_set acts_getex_value
      refine hset.congr fun e => ?_
      by_cases hmax : t.now + ttl > instant_max
      · simp only [new, if_pos hmax]
      · simp only [new, if_neg hmax]

/-- What GETEX itself comes to, to what has been read. -/
def getex_read (t : Moment) (opts : List Bytes) (r e : Option (Entry F)) :
    Except Halt (Reply F) × Option (Entry F) :=
  match r.map data with
  | some (.String _) =>
    getex_to t.now ((getex_plan t opts).handed e).1 ((getex_plan t opts).handed e).2
  | some _ => (.ok wrong_type, e)
  | none => (.ok null_bulk, e)

theorem acts_cmd_getex {opts : List Bytes} (hlen : opts.length ≤ 2) :
    Acts t key (cmd_getex (key :: opts) : StoreM F (Reply F)) fun e =>
      getex_read t opts (live t.now e) (live t.now e) := by
  unfold cmd_getex
  simp only [if_neg (Nat.not_lt.mpr hlen)]
  refine acts_get (G := getex_read t opts) fun r => ?_
  unfold getex_read
  cases r with
  | none => exact acts_pure _
  | some en =>
    dsimp only [map_some]
    cases hdata : en.data with
    | String s => exact acts_getex_option opts acts_getex_with
    | _ => exact acts_pure _

/-- The option leaves the expiry time as it is. -/
def Renewal.Keeps (T : Instant) (expires : Option Instant) : Renewal → Prop
  | .refuse => False
  | .delete => False
  | .keep => True
  | .persist => expires = none
  | .renew ttl => expires = some (T + ttl) ∧ T + ttl ≤ instant_max

theorem value_to_string {T : Instant} {en : Entry F} {s : Bytes} (hs : en.data = .String s)
    (hstale : en.stale T = false) : value_to T (some en) = (.ok (bull s), some en) := by
  unfold value_to
  rw [live_of_fresh hstale]
  dsimp only
  rw [hs]

theorem getex_string_iff {opts : List Bytes} {en : Entry F} {s : Bytes} (hs : en.data = .String s)
    (hstale : en.stale t.now = false) :
    SameAct refused (.ok (bull s), some en) (getex_to t.now
        ((getex_plan t opts).handed (some en)).1 ((getex_plan t opts).handed (some en)).2) ↔
      (getex_plan t opts).Keeps t.now en.expires_at := by
  have hne : ∀ r : Reply F, (∀ s, r ≠ bull s) → ∀ e',
      ¬ SameAct refused (.ok (bull s), some en) (.ok r, e') := by
    rintro r hr e' ⟨h | ⟨h, -⟩, -⟩
    · exact hr s h.symm
    · cases h
  cases getex_plan t opts with
  | refuse =>
    have hreply : ∀ s, (syntax_error : Reply F) ≠ bull s := fun s h => by cases h
    exact ⟨fun h => absurd h (hne _ hreply _), fun h => absurd h id⟩
  | delete =>
    have hreply : ∀ s, (null_bulk : Reply F) ≠ bull s := fun s h => by cases h
    exact ⟨fun h => absurd h (hne _ hreply _), fun h => absurd h id⟩
  | keep =>
    show SameAct refused _ (value_to t.now (some en)) ↔ True
    rw [value_to_string hs hstale]
    exact ⟨fun _ => trivial, fun _ => same_act_refl _ _⟩
  | persist =>
    show SameAct refused _ (value_to t.now (some { en with expires_at := none })) ↔
      en.expires_at = none
    have hpersist : value_to t.now (some { en with expires_at := none }) =
        (.ok (bull s), some { en with expires_at := none }) := value_to_string hs (stale_of_none rfl)
    rw [hpersist]
    constructor
    · rintro ⟨-, hview⟩
      exact congrArg Prod.snd (Option.some.inj hview)
    · intro hnone
      exact ⟨.inl rfl, congrArg some (Prod.ext rfl hnone)⟩
  | renew ttl =>
    show SameAct refused _ (renewed t.now ttl (live t.now (some en)) (live t.now (some en))) ↔
      en.expires_at = some (t.now + ttl) ∧ t.now + ttl ≤ instant_max
    have hread : string_of (some en) = some s := by
      unfold string_of
      rw [map_some, hs]
    rw [live_of_fresh hstale, renewed, hread]
    dsimp only
    by_cases hmax : t.now + ttl > instant_max
    · rw [if_pos hmax]
      constructor
      · rintro ⟨hreply, -⟩
        exact absurd hreply id
      · rintro ⟨-, hle⟩
        exact absurd hmax (Nat.not_lt.mpr hle)
    · rw [if_neg hmax]
      -- the new time has not passed yet
      have hfresh : stale t.now (⟨.String s, some (t.now + ttl), t.now, 1, 1⟩ : Entry F) =
          false := decide_eq_false (Nat.not_lt.mpr (Nat.le_add_right _ _))
      rw [value_to_string rfl hfresh]
      constructor
      · rintro ⟨-, hview⟩
        exact ⟨congrArg Prod.snd (Option.some.inj hview), Nat.not_lt.mp hmax⟩
      · rintro ⟨hexp, -⟩
        exact ⟨.inl rfl, congrArg some (Prod.ext (congrArg (·.value) hs) hexp)⟩

/-- GETEX agrees where its option changes nothing. -/
theorem getex_iff (opts : List Bytes) (e : Option (Entry F)) :
    SameAct refused (reads_to t.now bull null_bulk e)
        (getex_read t opts (live t.now e) (live t.now e)) ↔
      WrongKind t.now e ∨ ∀ en, live t.now e = some en →
        (getex_plan t opts).Keeps t.now en.expires_at := by
  unfold reads_to WrongKind
  cases hlive : live t.now e with
  | none => exact ⟨fun _ => .inr fun en h => (nomatch h), fun _ => ⟨.inl rfl, rfl⟩⟩
  | some en =>
    by_cases hstring : ∃ s, en.data = .String s
    · obtain ⟨s, hs⟩ := hstring
      have hstale : en.stale t.now = false := by
        have hfilter := (filter_eq_some_iff.mp hlive).2
        simpa using hfilter
      rw [string_reply_string hs]
      have hread : getex_read t opts (some en) (some en) = getex_to t.now
          ((getex_plan t opts).handed (some en)).1 ((getex_plan t opts).handed (some en)).2 := by
        unfold getex_read
        rw [map_some, hs]
      rw [hread, getex_string_iff hs hstale]
      constructor
      · intro h
        refine .inr fun en' hen => ?_
        cases hen
        exact h
      · rintro (⟨en', hen, hkind⟩ | h)
        · cases hen
          exact absurd hs (hkind s)
        · exact h en rfl
    · have hother : ∀ s, en.data ≠ .String s := fun s hs => hstring ⟨s, hs⟩
      rw [string_reply_other hother]
      have hread : getex_read t opts (some en) (some en) = (.ok wrong_type, some en) := by
        unfold getex_read
        cases hdata : en.data <;> simp_all
      rw [hread]
      exact ⟨fun _ => .inl ⟨en, rfl, hother⟩, fun _ => same_act_refl _ _⟩

end Getex

/-! ## Command by command -/

section Commands

variable {t : Moment} {m : HashMap Bytes (Entry F)}

def ScriptCommand.command : ScriptCommand → List Bytes → StoreM F (Reply F)
  | .GET => cmd_get
  | .SET => cmd_set
  | .DEL => cmd_del
  | .EXISTS => cmd_exists
  | .INCR => cmd_incr
  | .DECR => cmd_decr
  | .INCRBY => cmd_incrby
  | .DECRBY => cmd_decrby
  | .EXPIRE => cmd_expire
  | .TTL => cmd_ttl
  | .APPEND => cmd_append
  | .GETEX => cmd_getex
  | .STRLEN => cmd_strlen
  | .PING => cmd_ping
  | .ECHO => cmd_echo
  | .TYPE => cmd_type

theorem direct_eq (c : ScriptCommand) (args : List Bytes) :
    direct c args = (c.command args : StoreM F (Reply F)) := by
  cases c <;> rfl

/-- Where a command of a script and the command itself agree: on which entries, with which
arguments. -/
def Agrees (t : Moment) (m : HashMap Bytes (Entry F)) : ScriptCommand → List Bytes → Prop
  | .GET, key :: _ :: _ => WrongKind t.now m[key]?
  | .STRLEN, key :: _ :: _ => WrongKind t.now m[key]?
  | .SET, key :: _ :: opts =>
    ∃ o, set_plan t opts ⟨none, false, false, false⟩ = some o ∧ PlainSet t.now o m[key]?
  | .INCR, [key] => Editable t.now (fun s => (parse_i64 s).isSome) m[key]?
  | .INCR, key :: _ :: _ => WrongKind t.now m[key]?
  | .DECR, [key] => Editable t.now (fun s => (parse_i64 s).isSome) m[key]?
  | .DECR, key :: _ :: _ => WrongKind t.now m[key]?
  | .INCRBY, key :: number :: rest => parse_i64 number = none ∨ WrongKind t.now m[key]? ∨
      rest = [] ∧ Editable t.now (fun s => (parse_i64 s).isSome) m[key]?
  | .DECRBY, key :: number :: rest => parse_i64 number = none ∨ WrongKind t.now m[key]? ∨
      rest = [] ∧ Editable t.now (fun s => (parse_i64 s).isSome) m[key]?
  | .EXPIRE, key :: number :: rest => ∃ seconds, parse_i64 number = some seconds ∧
      Expirable t (expire_cond rest) (seconds.toInt.toNat * 10 ^ 9) m[key]?
  | .TTL, [key] => Twenty t.now m[key]?
  | .TTL, _ :: _ :: _ => False
  | .APPEND, [key, _] => Editable t.now (fun _ => True) m[key]?
  | .APPEND, key :: _ :: _ :: _ => WrongKind t.now m[key]?
  | .GETEX, key :: opts => WrongKind t.now m[key]? ∨
      opts.length ≤ 2 ∧ ∀ en, live t.now m[key]? = some en →
        (getex_plan t opts).Keeps t.now en.expires_at
  | .PING, _ :: _ => False
  | .ECHO, _ :: _ :: _ => False
  | .TYPE, _ :: _ :: _ => False
  | _, _ => True

omit [Score F] in
theorem bull_not_refused (s : Bytes) : ¬ refused (bull s : Reply F) := Bool.false_ne_true

omit [Score F] in
theorem null_bulk_not_refused : ¬ refused (null_bulk : Reply F) := Bool.false_ne_true

omit [Score F] in
theorem int_not_refused (n : ℕ) : ¬ refused (int n : Reply F) := Bool.false_ne_true

/-- GET and STRLEN. -/
theorem scripted_read {present : Bytes → Reply F} {absent : Reply F}
    (hpresent : ∀ s, ¬ refused (present s)) (habsent : ¬ refused absent) (key : Bytes) (x : String) :
    SameOutcome refused (t.effect (read_string key present absent) m)
      (t.effect (pure (.Error x)) m) ↔ WrongKind t.now m[key]? := by
  rw [← reads_to_error hpresent habsent x]
  exact same_outcome_iff (acts_read_string present absent) (acts_pure _) m

omit [Score F] in
theorem changed_not_refused (change : Int64 → Int64) (s : Option Bytes) :
    ¬ refused (changed change s : Bytes × Reply F).2 := nofun

/-- The edit of INCR and its relatives. -/
def increase (increment : Int64) (s : Bytes) : Option Bytes × Except Halt (Reply F) :=
  match parse_i64 s with
  | some current =>
    (some (int_bytes (current + increment)), .ok (.Integer (current + increment)))
  | none => (none, .ok not_integer)

/-- INCR and its relatives. -/
theorem scripted_add (change : Int64 → Int64) (increment : Int64)
    (hchange : ∀ n, change n = n + increment) (key : Bytes) :
    SameOutcome refused (t.effect (add_to key change) m)
        (t.effect (cmd_incrby_internal key increment) m) ↔
      Editable t.now (fun s => (parse_i64 s).isSome) m[key]? := by
  have hzero : change 0 = increment := (hchange 0).trans (Int64.zero_add _)
  have hdirect : Acts t key (cmd_incrby_internal key increment : StoreM F (Reply F))
      (edited t.now (increase increment) (changed change none)) := by
    unfold changed
    dsimp only [elim_none]
    rw [hzero]
    exact acts_edit _ _ _
  rw [same_outcome_iff (acts_add_to change) hdirect m]
  refine stored_iff_edited (changed_not_refused change) (fun s hs => ?_) (fun s hs => ?_) _
  · obtain ⟨n, hn⟩ := isSome_iff_exists.mp hs
    simp only [increase, hn, changed, elim_some, getD_some, hchange]
  · have hnone : parse_i64 s = none := not_isSome_iff_eq_none.mp hs
    simp only [increase, hnone]
    exact ⟨_, rfl⟩

theorem scripted_add_error (change : Int64 → Int64) (key : Bytes) (x : String) :
    SameOutcome refused (t.effect (add_to key change : StoreM F (Reply F)) m)
      (t.effect (pure (.Error x)) m) ↔ WrongKind t.now m[key]? := by
  rw [same_outcome_iff (acts_add_to change) (acts_pure _) m]
  exact stored_error (changed_not_refused change) x _

/-- INCRBY and DECRBY. -/
theorem scripted_incrby {cmd : String} {change : Int64 → Int64 → Int64} {sign : Int64 → Int64}
    (hchange : ∀ x n, change x n = x + sign n) (args : List Bytes) :
    SameOutcome refused (t.effect (with_value cmd (add_number · · change) args) m)
        (t.effect (incrby cmd sign args) m) ↔
      match args with
      | key :: number :: rest => parse_i64 number = none ∨ WrongKind t.now m[key]? ∨
          rest = [] ∧ Editable t.now (fun s => (parse_i64 s).isSome) m[key]?
      | _ => True := by
  match args with
  | [] => exact iff_true_intro same_refl
  | [_] => exact iff_true_intro same_refl
  | key :: number :: rest =>
    dsimp only [with_value, add_number, incrby]
    cases hnumber : parse_i64 number with
    | none =>
      refine iff_of_true ?_ (.inl rfl)
      cases rest with
      | nil =>
        dsimp only
        rw [hnumber]
        exact same_refl
      | cons _ _ => exact same_errors _ _
    | some n =>
      cases rest with
      | nil =>
        dsimp only
        rw [hnumber]
        refine (scripted_add (change · n) (sign n) (hchange · n) key).trans ?_
        constructor
        · intro h
          exact .inr (.inr ⟨rfl, h⟩)
        · rintro (h | h | ⟨-, h⟩)
          · cases h
          · exact .inr (.inl h)
          · exact h
      | cons _ _ =>
        refine (scripted_add_error (change · n) key _).trans ?_
        constructor
        · intro h
          exact .inr (.inl h)
        · rintro (h | h | ⟨h, -⟩)
          · cases h
          · exact h
          · cases h

theorem scripted_append (key value : Bytes) :
    SameOutcome refused (t.effect (append_to key value : StoreM F (Reply F)) m)
      (t.effect (cmd_append [key, value]) m) ↔ Editable t.now (fun _ => True) m[key]? := by
  have hdirect : Acts t key (cmd_append [key, value] : StoreM F (Reply F)) (edited t.now
      (fun s => (some (s ++ value), .ok (int (s ++ value).length))) (appended value none)) :=
    acts_edit _ _ _
  rw [same_outcome_iff (acts_append_to value) hdirect m]
  exact stored_iff_edited (fun s => int_not_refused _) (fun s _ => rfl) (fun s hs => absurd trivial hs) _

theorem scripted_expire (key number : Bytes) (rest : List Bytes) :
    SameOutcome refused (t.effect (expire_key key number : StoreM F (Reply F)) m)
        (t.effect (cmd_expire (key :: number :: rest)) m) ↔
      ∃ seconds, parse_i64 number = some seconds ∧
        Expirable t (expire_cond rest) (seconds.toInt.toNat * 10 ^ 9) m[key]? := by
  have hdirect : Acts t key (cmd_expire (key :: number :: rest) : StoreM F (Reply F)) _ :=
    acts_expire_with "expire" (10 ^ 9) number rest
  cases hnumber : parse_i64 number with
  | none =>
    have hscript : Acts t key (expire_key key number : StoreM F (Reply F)) fun e =>
        (.ok not_integer, e) := by
      unfold expire_key
      rw [hnumber]
      exact acts_pure _
    rw [same_outcome_iff hscript hdirect m]
    constructor
    · intro h
      exact absurd h (expire_not_integer _ _ _)
    · rintro ⟨_, h, -⟩
      cases h
  | some seconds =>
    have hread : expire_number number = seconds := by
      unfold expire_number
      rw [hnumber, getD_some]
    rw [hread] at hdirect
    rw [same_outcome_iff (acts_expire_key hnumber) hdirect m, expire_iff]
    constructor
    · intro h
      exact ⟨seconds, rfl, h⟩
    · rintro ⟨seconds', h, hexpire⟩
      cases h
      exact hexpire

theorem scripted_getex (key : Bytes) (opts : List Bytes) :
    SameOutcome refused (t.effect (read_string key bull null_bulk) m)
        (t.effect (cmd_getex (key :: opts)) m) ↔
      WrongKind t.now m[key]? ∨ opts.length ≤ 2 ∧ ∀ en, live t.now m[key]? = some en →
        (getex_plan t opts).Keeps t.now en.expires_at := by
  by_cases hlen : opts.length ≤ 2
  · rw [same_outcome_iff (acts_read_string bull null_bulk) (acts_cmd_getex hlen) m, getex_iff]
    exact or_congr_right (and_iff_right hlen).symm
  · have herror : cmd_getex (key :: opts) =
        (return .Error (wrong_number "getex") : StoreM F (Reply F)) := by
      unfold cmd_getex
      dsimp only
      rw [if_pos (Nat.not_le.mp hlen)]
    rw [herror, scripted_read bull_not_refused null_bulk_not_refused]
    constructor
    · exact .inl
    · rintro (h | ⟨h, -⟩)
      · exact h
      · exact absurd h hlen

theorem never_error {key : Bytes} {p : StoreM F (Reply F)} {reply : Option (Entry F) → Reply F}
    {left : Option (Entry F) → Option (Entry F)}
    (hp : Acts t key p fun e => (.ok (reply e), left e)) (hreply : ∀ e, ¬ refused (reply e))
    (x : String) :
    ¬ SameOutcome refused (t.effect p m) (t.effect (pure (.Error x)) m) := by
  rw [same_outcome_iff hp (acts_pure _) m]
  rintro ⟨h, -⟩
  exact not_corresponds (hreply _) x h

theorem ttl_not_refused (e : Option (Entry F)) : ¬ refused (ttl_reply (live t.now e)) := by
  unfold ttl_reply
  split
  · split <;> nofun
  · nofun

/-- The reply of TYPE. -/
def type_reply (r : Option (Entry F)) : Reply F :=
  .SimpleString (r.elim "none" fun en => type_name en.data)

theorem acts_type_of {key : Bytes} : Acts t key (type_of key : StoreM F (Reply F)) fun e =>
    (.ok (type_reply (live t.now e)), live t.now e) := by
  refine acts_get (G := fun r e => (.ok (type_reply r), e)) fun r => ?_
  cases r <;> exact acts_pure _

theorem type_not_refused (e : Option (Entry F)) : ¬ refused (type_reply (live t.now e)) := nofun

/-- **The commands of a script.** A command means the same in a script exactly where `Agrees` says
so. -/
theorem scripted_iff (c : ScriptCommand) (args : List Bytes) :
    SameOutcome refused (t.effect (c.handler args : StoreM F (Reply F)) m)
      (t.effect (c.command args) m) ↔ Agrees t m c args := by
  match c, args with
  | .GET, [] | .GET, [_] | .STRLEN, [] | .STRLEN, [_] | .SET, [] | .SET, [_] | .DEL, _
  | .EXISTS, _ | .INCR, [] | .DECR, [] | .INCRBY, [] | .INCRBY, [_] | .DECRBY, [] | .DECRBY, [_]
  | .EXPIRE, [] | .EXPIRE, [_] | .TTL, [] | .APPEND, [] | .APPEND, [_] | .GETEX, [] | .PING, []
  | .ECHO, [] | .ECHO, [_] | .TYPE, [] | .TYPE, [_] =>
    exact iff_true_intro same_refl
  | .GET, key :: _ :: _ => exact scripted_read bull_not_refused null_bulk_not_refused key _
  | .STRLEN, key :: _ :: _ =>
    exact scripted_read (fun s => int_not_refused s.length) (int_not_refused 0) key _
  | .SET, _ :: _ :: opts => exact scripted_set opts m
  | .INCR, [key] => exact scripted_add (· + 1) 1 (fun _ => rfl) key
  | .INCR, key :: _ :: _ => exact scripted_add_error (· + 1) key _
  | .DECR, [key] => exact scripted_add (· - 1) (-1) (fun n => Int64.sub_eq_add_neg n 1) key
  | .DECR, key :: _ :: _ => exact scripted_add_error (· - 1) key _
  | .INCRBY, key :: n :: rest => exact scripted_incrby (fun _ _ => rfl) (key :: n :: rest)
  | .DECRBY, key :: n :: rest => exact scripted_incrby Int64.sub_eq_add_neg (key :: n :: rest)
  | .EXPIRE, key :: number :: rest => exact scripted_expire key number rest
  | .TTL, [key] =>
    exact (same_outcome_iff acts_time_to_live acts_cmd_ttl m).trans (ttl_iff t.now _)
  | .TTL, key :: _ :: _ => exact iff_of_false (never_error acts_time_to_live ttl_not_refused _) id
  | .APPEND, [key, value] => exact scripted_append key value
  | .APPEND, key :: value :: _ :: _ =>
    exact (same_outcome_iff (acts_append_to value) (acts_pure _) m).trans
      (stored_error (fun s => int_not_refused _) _ _)
  | .GETEX, key :: opts => exact scripted_getex key opts
  | .PING, _ :: _ =>
    refine iff_of_false (fun h => ?_) id
    rcases same_replies.mp h with h | ⟨h, -⟩
    · cases h
    · cases h
  | .ECHO, _ :: _ :: _ => exact iff_of_false (fun h => not_corresponds (bull_not_refused _) _ h.1) id
  | .TYPE, key :: _ :: _ => exact iff_of_false (never_error acts_type_of type_not_refused _) id

end Commands

/-! ## Calls from a script -/

theorem redis_call_eq {lossy : Bytes → String} (hlossy : ∀ s, lossy (as_bytes s) = s)
    {cmd : String} {c : ScriptCommand} (hcmd : to_ascii_uppercase cmd = c.name) (function : String)
    (args : List String) :
    redis_call lossy false function
        (.String (as_bytes cmd) :: args.map fun a => .String (as_bytes a)) =
      (c.handler (args.map as_bytes) : StoreM F (Reply F)) := by
  have hargs : (args.map fun a => LuaValue.String (as_bytes a)).map (arg_text (F := F) lossy) =
      args := by
    rw [List.map_map]
    refine List.map_id'' (fun a => ?_) args
    exact hlossy a
  have htext : ((.String (as_bytes cmd) :: args.map fun a => LuaValue.String (as_bytes a)).map
      (arg_text (F := F) lossy)) = cmd :: args := by
    rw [List.map_cons, hargs]
    exact congrArg (· :: args) (hlossy cmd)
  unfold redis_call
  rw [htext]
  dsimp only
  rw [hcmd, Bool.false_and, if_neg Bool.false_ne_true, dispatch_redis_command, ScriptCommand.named_name]

/-- **Scripted commands.** At one moment, on a store without a memory limit, a call with text
arguments comes to what the command itself comes to exactly where the two agree. -/
theorem scripted_as_direct_iff {lossy : Bytes → String} (hlossy : ∀ s, lossy (as_bytes s) = s)
    (t : Moment) (m : HashMap Bytes (Entry F)) {cmd : String} {c : ScriptCommand}
    (hcmd : to_ascii_uppercase cmd = c.name) (function : String) (args : List String) :
    SameOutcome refused
        (t.effect (redis_call lossy false function
          (.String (as_bytes cmd) :: args.map fun a => .String (as_bytes a))) m)
        (t.effect (direct c (args.map as_bytes)) m) ↔
      Agrees t m c (args.map as_bytes) := by
  rw [redis_call_eq hlossy hcmd, direct_eq]
  exact scripted_iff c (args.map as_bytes)

/-- `APPEND k b` where `k` holds "a". -/
theorem scripted_append_as_direct :
    SameOutcome refused
      (Moment.zero.effect (redis_call lossy_text false "call"
        (.String (as_bytes "append") :: ["k", "b"].map fun a => .String (as_bytes a)))
          ((∅ : HashMap Bytes (Entry Resp.Infinity)).insert (as_bytes "k") (new_string 0 (as_bytes "a"))))
      (Moment.zero.effect (direct .APPEND (["k", "b"].map as_bytes))
        ((∅ : HashMap Bytes (Entry Resp.Infinity)).insert (as_bytes "k")
          (new_string 0 (as_bytes "a")))) :=
  (scripted_as_direct_iff lossy_text_as_bytes _ _ (by decide +kernel) "call" ["k", "b"]).mpr
    (.inr (.inr ⟨new_string 0 (as_bytes "a"), as_bytes "a",
      Std.ExtTreeMap.getElem?_insert_self, rfl, trivial, rfl⟩))

/-- `SET k v EX 10`: the key never expires when a script has set it. -/
theorem scripted_set_without_expiry :
    ¬ SameOutcome refused
      (Moment.zero.effect (redis_call lossy_text false "call"
        (.String (as_bytes "SET") :: ["k", "v", "EX", "10"].map fun a => .String (as_bytes a)))
          (∅ : HashMap Bytes (Entry Resp.Infinity)))
      (Moment.zero.effect
        (direct .SET (["k", "v", "EX", "10"].map as_bytes))
          (∅ : HashMap Bytes (Entry Resp.Infinity))) := by
  rintro ⟨-, hviews⟩
  have hexpires := congrArg (Option.map Prod.snd) (hviews (as_bytes "k"))
  revert hexpires
  decide +kernel

end ValkeyRs.Scripting
