/-
Live commands against their replay.

The store that the live server builds and the one that `replay_command` builds from the same
commands are related by `Agree`: every key has the same value and the same expiry time in both. The
representations may differ, since only the live commands make listpacks and intsets. At a fixed time
nothing expires on either side, so a command is a function on maps (`Moment.effect`), and `Stays`
says that one command, where it succeeds, takes agreeing stores to agreeing stores.

`Faithful` is the condition, on the command and the live store in front of it, that is needed for
each command: mostly that the key has no expiry time, which the replay would drop.
-/
import ValkeyRs.AofReplay
import ValkeyRs.Compact
import ValkeyRs.FixedClock
import ValkeyRs.ZsetRules

set_option autoImplicit false

open ValkeyRs Text Storage Zset Strings Maps Server List Option Collections World Keys
open Compact

namespace ValkeyRs.Aof

variable {F : Type} [Score F]

/-! ## Representations -/

/-- A value as the replay represents it. -/
def Plain : DataType F → Prop
  | .ListPack _ | .IntSet _ => False
  | _ => True

/-- A plain value is known by what a client sees of it, but for the index of a sorted set. -/
theorem Plain.data_eq {d : DataType F} (h : Plain d) {v : Value F} (hv : d.value = v) :
    match v with
    | .string s => d = .String s
    | .list l => d = .List l
    | .hash m => d = .Hash m
    | .set s => d = .Set s
    | .zset m => ∃ z, d = .ZSet z ∧ z.members = m
    | .stream .. => True := by
  subst hv
  cases d with
  | ListPack | IntSet => exact h.elim
  | ZSet z => exact ⟨z, rfl, rfl⟩
  | Stream => trivial
  | String | List | Hash | Set => rfl

/-! ## Agreement -/

/-- The stores hold the same, key by key. -/
structure Agree (now : ℕ) (L R : HashMap Bytes (Entry F)) : Prop where
  views : ∀ k : Bytes, L[k]?.map Entry.view = R[k]?.map Entry.view
  fresh : Fresh now L
  plain : ∀ (k : Bytes) (e : Entry F), R[k]? = some e → Plain e.data
  orderly : ∀ (k : Bytes) (e : Entry F), L[k]? = some e → Orderly e.data

/-- Two entries that can stand under the same key. -/
structure Twins (now : ℕ) (e e' : Entry F) : Prop where
  value : e.data.value = e'.data.value
  expires : e.expires_at = e'.expires_at
  fresh : ∀ x ∈ e.expires_at, now ≤ x
  plain : Plain e'.data
  orderly : Orderly e.data

namespace Agree

variable {now : ℕ} {L R : HashMap Bytes (Entry F)}

theorem empty (now : ℕ) : Agree now (∅ : HashMap Bytes (Entry F)) ∅ where
  views _ := rfl
  fresh := fresh_empty now
  plain k e he := by
    cases he
  orderly k e he := by
    cases he

theorem at_key (h : Agree now L R) (k : Bytes) :
    (L[k]? = none ∧ R[k]? = none) ∨
      ∃ e e', L[k]? = some e ∧ R[k]? = some e' ∧ Twins now e e' := by
  have hview := h.views k
  cases hL : L[k]? with
  | none =>
    rw [hL, map_none, eq_comm, map_eq_none_iff] at hview
    exact .inl ⟨rfl, hview⟩
  | some e =>
    rw [hL, map_some, eq_comm, map_eq_some_iff] at hview
    obtain ⟨e', hR, hview⟩ := hview
    refine .inr ⟨e, e', rfl, hR, ?_⟩
    exact ⟨(congrArg Prod.fst hview).symm, (congrArg Prod.snd hview).symm, h.fresh k e hL,
      h.plain k e' hR, h.orderly k e hL⟩

theorem absent_right (h : Agree now L R) {k : Bytes} (hk : L[k]? = none) : R[k]? = none := by
  have hview := h.views k
  rwa [hk, map_none, eq_comm, map_eq_none_iff] at hview

theorem fresh_right (h : Agree now L R) : Fresh now R := by
  intro k e he x hx
  obtain ⟨-, hnone⟩ | ⟨e₁, e', -, hR, htwins⟩ := h.at_key k
  · rw [hnone] at he
    cases he
  · rw [he] at hR
    cases hR
    rw [← htwins.expires] at hx
    exact htwins.fresh x hx

theorem insert (h : Agree now L R) (key : Bytes) {e e' : Entry F} (htwins : Twins now e e') :
    Agree now (L.insert key e) (R.insert key e') where
  views k := by
    rw [Std.ExtTreeMap.getElem?_insert, Std.ExtTreeMap.getElem?_insert]
    split
    · exact congrArg some (Prod.ext htwins.value htwins.expires)
    · exact h.views k
  fresh := h.fresh.insert key htwins.fresh
  plain k x hx := by
    obtain ⟨-, rfl⟩ | hx := of_insert hx
    · exact htwins.plain
    · exact h.plain k x hx
  orderly k x hx := by
    obtain ⟨-, rfl⟩ | hx := of_insert hx
    · exact htwins.orderly
    · exact h.orderly k x hx

theorem erase (h : Agree now L R) (key : Bytes) : Agree now (L.erase key) (R.erase key) where
  views k := by
    rw [Std.ExtTreeMap.getElem?_erase, Std.ExtTreeMap.getElem?_erase]
    split
    · rfl
    · exact h.views k
  fresh := h.fresh.erase key
  plain k x hx := h.plain k x (of_erase hx)
  orderly k x hx := h.orderly k x (of_erase hx)

end Agree

theorem twins_new {now : ℕ} {d d' : DataType F} (hvalue : d.value = d'.value) (hplain : Plain d')
    (horderly : Orderly d) (a b : ℕ) :
    Twins now ⟨d, none, a, 1, 1⟩ ⟨d', none, b, 1, 1⟩ :=
  ⟨hvalue, rfl, fun _ hx => (not_mem_none _ hx).elim, hplain, horderly⟩

/-! ## One command -/

/-- The reply is not an error. -/
def Succeeded (reply : Reply F) : Prop := ∀ e, reply ≠ .Error e

/-- Where the live command succeeds, its replay comes to an end, and the stores agree afterwards. -/
def Stays (t : Moment) (L R : HashMap Bytes (Entry F)) (live : StoreM F (Reply F))
    (again : Replayed F) : Prop :=
  ∀ reply, (t.effect live L).1 = .ok reply → Succeeded reply →
    ∃ L' R' result, (t.effect live L).2 = t.world L' ∧ t.effect again R = (.ok result, t.world R') ∧
      Agree t.now L' R'

section Stays

variable {t : Moment} {L R : HashMap Bytes (Entry F)} {live : StoreM F (Reply F)}
  {again : Replayed F}

theorem stays_of {L' R' : HashMap Bytes (Entry F)} {result : Except String Unit}
    (hlive : (t.effect live L).2 = t.world L')
    (hagain : t.effect again R = (.ok result, t.world R')) (h : Agree t.now L' R') :
    Stays t L R live again :=
  fun _ _ _ => ⟨L', R', result, hlive, hagain, h⟩

theorem stays_of_effect_eq {live' : StoreM F (Reply F)} (he : t.effect live L = t.effect live' L)
    (h : Stays t L R live' again) : Stays t L R live again := by
  unfold Stays
  rw [he]
  exact h

theorem stays_error {e : String} {w : World F} (hlive : t.effect live L = (.ok (.Error e), w)) :
    Stays t L R live again := by
  intro reply hreply hsucc
  rw [hlive] at hreply
  cases hreply
  exact absurd rfl (hsucc e)

theorem stays_halt {e : Halt} {w : World F} (hlive : t.effect live L = (.error e, w)) :
    Stays t L R live again := by
  intro reply hreply
  rw [hlive] at hreply
  cases hreply

end Stays

/-! ## Strings -/

section Strings

variable {t : Moment} {L R : HashMap Bytes (Entry F)} (h : Agree t.now L R)

/-- The options of SET that say nothing about the expiry time. -/
def harmless_options : List String := ["NX", "XX", "GET", "KEEPTTL"]

/-- The option is among these. -/
def Named (opts : List Bytes) (name : String) : Prop := some name ∈ opts.map option_name

theorem effect_set_options {key : Bytes} {opts : List Bytes}
    (hopts : ∀ opt ∈ opts, ∃ name ∈ harmless_options, option_name opt = some name)
    {o : SetOptions} (httl : o.ttl = none) :
    ∃ o' : SetOptions, o'.ttl = none ∧ (o'.nx = true → o.nx = true ∨ Named opts "NX") ∧
      (o'.xx = true → o.xx = true ∨ Named opts "XX") ∧
      ∀ (f : Except (Reply F) SetOptions → StoreM F (Reply F)) (m : HashMap Bytes (Entry F)),
        t.effect (set_options key opts o >>= f) m = t.effect (f (.ok o')) m := by
  induction opts generalizing o with
  | nil => exact ⟨o, httl, .inl, .inl, fun _ _ => rfl⟩
  | cons opt opts ih =>
    obtain ⟨name, hmem, hname⟩ := hopts opt mem_cons_self
    have hrest : ∀ opt' ∈ opts, ∃ name ∈ harmless_options, option_name opt' = some name :=
      fun opt' hopt' => hopts opt' (mem_cons_of_mem _ hopt')
    have hthere : ∀ {n : String}, Named opts n → Named (opt :: opts) n :=
      fun hn => mem_cons_of_mem _ hn
    have hhere : Named (opt :: opts) name := by
      rw [Named, map_cons, hname]
      exact mem_cons_self
    simp only [harmless_options, mem_cons, not_mem_nil, or_false] at hmem
    unfold set_options
    rw [hname]
    obtain rfl | rfl | rfl | rfl := hmem
    · obtain ⟨o', h1, h2, h3, h4⟩ := ih hrest (o := { o with nx := true }) httl
      exact ⟨o', h1, fun _ => .inr hhere, fun hx => (h3 hx).imp_right hthere, h4⟩
    · obtain ⟨o', h1, h2, h3, h4⟩ := ih hrest (o := { o with xx := true }) httl
      exact ⟨o', h1, fun hx => (h2 hx).imp_right hthere, fun _ => .inr hhere, h4⟩
    · obtain ⟨o', h1, h2, h3, h4⟩ := ih hrest (o := { o with get := true }) httl
      exact ⟨o', h1, fun hx => (h2 hx).imp_right hthere, fun hx => (h3 hx).imp_right hthere, h4⟩
    · obtain ⟨o', h1, h2, h3, h4⟩ := ih hrest (o := { o with ttl := none }) rfl
      exact ⟨o', h1, fun hx => (h2 hx).imp_right hthere, fun hx => (h3 hx).imp_right hthere, h4⟩

theorem twins_string (now : ℕ) (value : Bytes) (a b : ℕ) :
    Twins now (⟨.String value, none, a, 1, 1⟩ : Entry F) ⟨.String value, none, b, 1, 1⟩ :=
  @twins_new F _ now (.String value) (.String value) rfl trivial trivial a b

theorem effect_put_back (key : Bytes) (d : DataType F) :
    t.effect (put_back key d) R = (.ok (.ok ()), t.world (R.insert key ⟨d, none, t.now, 1, 1⟩)) :=
  effect_set_none t R key d _

include h

theorem effect_old_value (key : Bytes) (get : Bool) :
    ∃ v, ∀ f : Option Bytes → StoreM F (Reply F),
      t.effect (old_value key get >>= f) L = t.effect (f v) L := by
  cases get with
  | false => exact ⟨none, fun _ => rfl⟩
  | true =>
    refine ⟨string_of L[key]?, fun f => ?_⟩
    have hold : (old_value key true) >>= f =
        Store.get key >>= fun e => f (string_of e) := Prog.bind_assoc _ _ _
    rw [hold, effect_get h.fresh]

theorem stays_set {key value : Bytes} {opts : List Bytes}
    (hopts : ∀ opt ∈ opts, ∃ name ∈ harmless_options, option_name opt = some name)
    (hnx : Named opts "NX" → L[key]? = none) (hxx : Named opts "XX" → L[key]? ≠ none) :
    Stays t L R (cmd_set (key :: value :: opts)) (replay_set (key :: value :: opts)) := by
  obtain ⟨o, httl, honx, hoxx, hrun⟩ :=
    @effect_set_options F _ t key opts hopts ⟨none, false, false, false⟩ rfl
  have hnx' : (o.nx && L[key]?.isSome) = false := by
    cases hcase : o.nx with
    | false => rfl
    | true =>
      rw [hnx ((honx hcase).resolve_left Bool.false_ne_true)]
      rfl
  have hxx' : (o.xx && !L[key]?.isSome) = false := by
    cases hcase : o.xx with
    | false => rfl
    | true =>
      rw [isSome_iff_ne_none.mpr (hxx ((hoxx hcase).resolve_left Bool.false_ne_true))]
      rfl
  have hlive : t.effect (cmd_set (key :: value :: opts)) L =
      t.effect (set_with key value o) L := hrun _ L
  obtain ⟨old, hold⟩ := effect_old_value h key o.get
  unfold set_with at hlive
  rw [effect_exists h.fresh, hnx', hxx', if_neg Bool.false_ne_true, if_neg Bool.false_ne_true, hold,
    effect_maybe_evict, httl, effect_set_none, effect_pure] at hlive
  exact stays_of (congrArg Prod.snd hlive) (effect_put_back key (.String value))
    (h.insert key (twins_string _ _ _ _))

theorem stays_setex (cmd : String) (unit : ℕ) (args : List Bytes) :
    Stays t L R (setex cmd unit args) (replay_setex unit args) := by
  unfold setex
  split
  · rename_i key time value
    cases hn : parse_u64 time with
    | none => exact stays_error rfl
    | some n =>
      have hagain : t.effect (replay_setex unit [key, time, value]) R =
          t.effect (do
            Store.set key (.String value) (some (n * unit))
            return .ok ()) R := by
        rw [replay_setex, hn]
      rw [effect_set] at hagain
      by_cases hmax : t.now + n * unit > instant_max
      · refine stays_halt (e := .Panic) (w := t.world L) ?_
        rw [effect_set, Entry.new, if_pos hmax]
      · have hnew : Entry.new (.String value : DataType F) (some (n * unit)) t.now =
            .ok ⟨.String value, some (t.now + n * unit), t.now, 1, 1⟩ := if_neg hmax
        rw [hnew] at hagain
        refine stays_of ?_ hagain (h.insert key ⟨rfl, rfl, ?_, trivial, trivial⟩)
        · rw [effect_set, hnew]
          rfl
        · intro x hx
          cases hx
          exact Nat.le_add_right _ _
  · exact stays_error rfl

theorem stays_setnx (args : List Bytes) : Stays t L R (cmd_setnx args) (replay_setnx args) := by
  unfold cmd_setnx
  split
  · rename_i key value
    have hlive := effect_exists h.fresh key fun b => (if b then return int 0 else do
      Store.set key (.String value) none
      return int 1 : StoreM F (Reply F))
    have hagain := effect_exists h.fresh_right key fun b => (if b then return .ok ()
      else put_back key (.String value) : Replayed F)
    obtain ⟨hL, hR⟩ | ⟨e, e', hL, hR, -⟩ := h.at_key key
    · rw [hL] at hlive
      rw [hR] at hagain
      exact stays_of (congrArg Prod.snd (hlive.trans (effect_set_none t L key _ _)))
        (hagain.trans (effect_put_back key _)) (h.insert key (twins_string _ _ _ _))
    · rw [hL] at hlive
      rw [hR] at hagain
      exact stays_of (congrArg Prod.snd hlive) hagain h
  · exact stays_error rfl

theorem stays_getset (args : List Bytes) : Stays t L R (cmd_getset args) (replay_set args) := by
  unfold cmd_getset
  split
  · rename_i key value
    have hinsert := h.insert key (twins_string t.now value t.now t.now)
    have hagain := effect_put_back (t := t) (R := R) key (.String value)
    obtain ⟨hL, -⟩ | ⟨e, e', hL, -, -⟩ := h.at_key key
    · refine stays_of ?_ hagain hinsert
      rw [effect_get h.fresh, hL]
      exact congrArg Prod.snd (effect_set_none t L key _ _)
    · cases hdata : e.data with
      | String s =>
        refine stays_of ?_ hagain hinsert
        rw [effect_get h.fresh, hL]
        dsimp only
        rw [hdata]
        exact congrArg Prod.snd (effect_set_none t L key _ _)
      | List | Hash | Set | ZSet | Stream | ListPack | IntSet =>
        -- the live command waits for its own guard
        refine stays_halt (e := .Deadlock) (w := t.world L) ?_
        rw [effect_get h.fresh, hL]
        dsimp only
        rw [hdata]
        rfl
  · exact stays_error rfl

end Strings

/-! ## Editing in place -/

/-- The key has no expiry time. -/
def Lasting (m : HashMap Bytes (Entry F)) (key : Bytes) : Prop :=
  ∀ e : Entry F, m[key]? = some e → e.expires_at = none

section Editing

variable {t : Moment} {L R : HashMap Bytes (Entry F)}

theorem effect_insert_string (key value : Bytes) (f : Unit → StoreM F (Reply F)) :
    t.effect (insert_string key value >>= f) L =
      t.effect (f ()) (L.insert key ⟨.String value, none, t.now, 1, 1⟩) := by
  rw [← alter_eq_insert (f := fun _ => some _) rfl]
  rfl

variable (h : Agree t.now L R) {key : Bytes}

include h

/-- A string that is changed in place, against one that is read and put back. The change is the
same wherever the live command does not reply an error. -/
theorem stays_edit (hl : Lasting L key) {f : Bytes → Option Bytes × Except Halt (Reply F)}
    {change : Bytes → Except String Bytes} {absent : Bytes} {r : Reply F}
    (hf : ∀ s, (∃ b r, f s = (some b, .ok r) ∧ change s = .ok b) ∨ ∃ e, (f s).2 = .ok (.Error e)) :
    Stays t L R (edit key f do
        insert_string key absent
        return r) (replay_edit key change absent) := by
  unfold edit replay_edit
  obtain ⟨hL, hR⟩ | ⟨e, e', hL, hR, htwins⟩ := h.at_key key
  · have hagain : t.effect (replay_edit key change absent : Replayed F) R =
        (.ok (.ok ()), t.world (R.insert key ⟨.String absent, none, t.now, 1, 1⟩)) := by
      rw [replay_edit, effect_get h.fresh_right, hR]
      exact effect_put_back key _
    refine stays_of ?_ hagain (h.insert key (twins_string _ absent t.now t.now))
    rw [effect_access, alter_eq_self (by rw [hL]; rfl), hL]
    exact congrArg Prod.snd (effect_insert_string key absent _)
  · cases hdata : e.data with
    | String s =>
      have hdata' : e'.data = .String s :=
        htwins.plain.data_eq (v := .string s) (by rw [← htwins.value, hdata]; rfl)
      obtain ⟨b, r', hfs, hchange⟩ | ⟨e, he⟩ := hf s
      · have hentry : (L[key]?.map (edit_entry fun s => (f s).1)) =
            some { e with data := .String b } := by
          rw [hL, map_some, edit_entry, hdata]
          dsimp only
          rw [hfs]
        have hagain : t.effect (replay_edit key change absent : Replayed F) R =
            (.ok (.ok ()), t.world (R.insert key ⟨.String b, none, t.now, 1, 1⟩)) := by
          rw [replay_edit, effect_get h.fresh_right, hR]
          dsimp only
          rw [hdata']
          dsimp only
          rw [hchange]
          exact effect_put_back key _
        have htwins' : Twins t.now { e with data := .String b }
            (⟨.String b, none, t.now, 1, 1⟩ : Entry F) :=
          ⟨rfl, hl e hL, htwins.fresh, trivial, trivial⟩
        refine stays_of ?_ hagain (h.insert key htwins')
        rw [effect_access, alter_eq_insert hentry, hL]
        dsimp only
        rw [hdata]
        dsimp only
        rw [hfs]
        rfl
      · refine stays_error (e := e) (w := t.world (L.alter key
          (·.map (edit_entry fun s => (f s).1)))) ?_
        rw [effect_access, hL]
        dsimp only
        rw [hdata]
        dsimp only
        rw [he]
        rfl
    | List | Hash | Set | ZSet | Stream | ListPack | IntSet =>
      refine stays_error (e := "WRONGTYPE Operation against a key holding the wrong kind of value")
        (w := t.world (L.alter key (·.map (edit_entry fun s => (f s).1)))) ?_
      rw [effect_access, hL]
      dsimp only
      rw [hdata]
      rfl

variable {args : List Bytes}

theorem stays_append (hl : ∀ k ∈ args.head?, Lasting L k) :
    Stays t L R (cmd_append args) (replay_append args) := by
  unfold cmd_append
  split
  · rename_i key value
    exact stays_edit h (hl key rfl) fun s => .inl ⟨_, _, rfl, rfl⟩
  · exact stays_error rfl

theorem stays_count (hl : Lasting L key) {change : Int64 → Int64} {by_ absent : Int64}
    (hchange : ∀ n, change n = n + by_) (habsent : absent = by_) :
    Stays t L R (cmd_incrby_internal key by_) (replay_edit key (recount change) (int_bytes absent)) := by
  subst habsent
  refine stays_edit h hl fun s => ?_
  cases hs : parse_i64 s with
  | none => exact .inr ⟨not_an_integer, rfl⟩
  | some n => exact .inl ⟨_, _, rfl, by simp only [recount, hs, hchange]⟩

theorem stays_incr (hl : ∀ k ∈ args.head?, Lasting L k) (cmd : String)
    {change : Int64 → Int64} {by_ : Int64} (hchange : ∀ n, change n = n + by_) :
    Stays t L R (incr cmd by_ args) (replay_incr change by_ args) := by
  unfold incr
  split
  · rename_i key
    exact stays_count h (hl key rfl) hchange rfl
  · exact stays_error rfl

theorem stays_incrby (hl : ∀ k ∈ args.head?, Lasting L k) (cmd bad : String)
    {sign : Int64 → Int64} {change : Int64 → Int64 → Int64}
    (hchange : ∀ n val, change n val = val + sign n) :
    Stays t L R (incrby cmd sign args) (replay_incrby bad change sign args) := by
  unfold incrby
  split
  · rename_i key by_
    unfold replay_incrby
    dsimp only
    cases hn : parse_i64 by_ with
    | none => exact stays_error rfl
    | some n => exact stays_count h (hl key rfl) (hchange n) rfl
  · exact stays_error rfl

end Editing

/-! ## Removal and expiry -/

section Expiry

variable {t : Moment} {L R : HashMap Bytes (Entry F)}

theorem effect_del_keys (keys : List Bytes) (n : ℕ) (f : ℕ → StoreM F (Reply F))
    (m : HashMap Bytes (Entry F)) :
    ∃ c, t.effect (del_keys keys n >>= f) m =
      t.effect (f c) (keys.foldl (fun m k => m.erase k) m) := by
  induction keys generalizing n m with
  | nil => exact ⟨n, rfl⟩
  | cons key keys ih =>
    obtain ⟨c, hc⟩ := ih (if m[key]?.isSome then n + 1 else n) (m.erase key)
    refine ⟨c, ?_⟩
    rw [del_keys, Prog.bind_assoc, effect_del]
    exact hc

theorem effect_replay_del (keys : List Bytes) (m : HashMap Bytes (Entry F)) :
    t.effect (replay_del keys : Replayed F) m =
      (.ok (.ok ()), t.world (keys.foldl (fun m k => m.erase k) m)) := by
  induction keys generalizing m with
  | nil => rfl
  | cons key keys ih =>
    rw [replay_del, effect_del, ih]
    rfl

theorem Agree.erase_all {now : ℕ} (h : Agree now L R) (keys : List Bytes) :
    Agree now (keys.foldl (fun m k => m.erase k) L) (keys.foldl (fun m k => m.erase k) R) := by
  induction keys generalizing L R with
  | nil => exact h
  | cons key keys ih => exact ih (h.erase key)

variable {args : List Bytes} {dur : Duration} {unit : ℕ}

/-- DEL and UNLINK. -/
theorem stays_del (h : Agree t.now L R) {cmd : String} : Stays t L R (do
        if args.isEmpty then return .Error (wrong_number cmd)
        return int (← del_keys args 0)) (replay_del args) := by
  cases args with
  | nil => exact stays_error rfl
  | cons key keys =>
    obtain ⟨c, hc⟩ := effect_del_keys (t := t) (key :: keys) 0 (fun n => return int n) L
    exact stays_of (congrArg Prod.snd hc) (effect_replay_del _ R) (h.erase_all _)

theorem Agree.expire {now : ℕ} (h : Agree now L R) (key : Bytes) {x : ℕ} (hx : now ≤ x) :
    Agree now (L.alter key (·.map ({ · with expires_at := some x })))
      (R.alter key (·.map ({ · with expires_at := some x }))) := by
  obtain ⟨hL, hR⟩ | ⟨e, e', hL, hR, htwins⟩ := h.at_key key
  · rw [alter_eq_self (by rw [hL]; rfl), alter_eq_self (by rw [hR]; rfl)]
    exact h
  · rw [alter_eq_insert (by rw [hL]; rfl), alter_eq_insert (by rw [hR]; rfl)]
    refine h.insert key ⟨htwins.value, rfl, fun y hy => ?_, htwins.plain, htwins.orderly⟩
    cases hy
    exact hx

theorem effect_deadline {α : Type} (dur : Duration) (f : Instant → StoreM F α)
    (m : HashMap Bytes (Entry F)) :
    t.effect (deadline dur >>= f) m =
      if t.now + dur > instant_max then (.error .Panic, t.world m)
      else t.effect (f (t.now + dur)) m := by
  unfold deadline
  rw [Prog.bind_assoc, effect_now]
  split <;> rfl

theorem effect_expire_after (key : Bytes) (hmax : t.now + dur ≤ instant_max)
    (m : HashMap Bytes (Entry F)) : t.effect (expire_after key dur : Replayed F) m =
      (.ok (.ok ()), t.world (m.alter key (·.map ({ · with expires_at := some (t.now + dur) })))) := by
  rw [expire_after, effect_deadline, if_neg (Nat.not_lt.mpr hmax), effect_expire]
  rfl

/-- The duration that the number of a live command stands for. -/
def duration_at (t : Moment) (unit : ℕ) (absolute : Bool) (n : Int64) : Duration :=
  if absolute then (n - Int64.ofNat (t.wall / unit)).toInt.toNat * unit else n.toInt.toNat * unit

/-- The key passes the condition of a live command with this duration. -/
def Passes (t : Moment) (m : HashMap Bytes (Entry F)) (key : Bytes) (rest : List Bytes)
    (dur : Duration) : Prop :=
  (expire_cond rest).holds ((m[key]?.bind Entry.expires_at).map (· - t.now)) dur = true

theorem effect_expire_duration (unit : ℕ) (absolute : Bool) (n : Int64)
    (f : Duration → StoreM F (Reply F)) (m : HashMap Bytes (Entry F)) :
    t.effect (expire_duration unit absolute n >>= f) m =
      t.effect (f (duration_at t unit absolute n)) m := by
  cases absolute <;> rfl

theorem effect_expire_with (hfresh : Fresh t.now L) {key number : Bytes} {rest : List Bytes}
    {absolute : Bool} (cmd : String) (hkey : L[key]? ≠ none)
    (hdur : duration_at t unit absolute (expire_number number) = dur)
    (hpass : Passes t L key rest dur) :
    t.effect (expire_with cmd unit absolute (key :: number :: rest)) L =
      if t.now + dur > instant_max then (.error .Panic, t.world L) else (.ok (int 1),
        t.world (L.alter key (·.map ({ · with expires_at := some (t.now + dur) })))) := by
  unfold expire_with
  unfold Passes at hpass
  rw [effect_exists hfresh, isSome_iff_ne_none.mpr hkey, if_pos rfl, effect_expire_duration,
    hdur, check_expire_cond, Prog.bind_assoc, effect_ttl hfresh]
  dsimp only [Prog.pure'_bind]
  rw [if_pos hpass, effect_deadline]
  split
  · rfl
  · rw [effect_expire]
    rfl

theorem effect_expire_with_absent (hfresh : Fresh t.now L) {key : Bytes} (hkey : L[key]? = none)
    (cmd : String) (unit : ℕ) (absolute : Bool) (number : Bytes) (rest : List Bytes) :
    t.effect (expire_with cmd unit absolute (key :: number :: rest)) L =
      (.ok (int 0), t.world L) := by
  unfold expire_with
  rw [effect_exists hfresh, hkey]
  rfl

theorem effect_expire_absent {key : Bytes} (hkey : R[key]? = none)
    (hmax : t.now + dur ≤ instant_max) :
    t.effect (expire_after key dur : Replayed F) R = (.ok (.ok ()), t.world R) := by
  rw [effect_expire_after key hmax, alter_eq_self (by rw [hkey]; rfl)]

/-- A key that is not there stays away on both sides; on any other both set the same time. -/
theorem stays_expire_with (h : Agree t.now L R) {key number : Bytes} {rest : List Bytes}
    {absolute : Bool} {cmd : String} {again : Replayed F}
    (habsent : L[key]? = none → ∃ r, t.effect again R = (.ok r, t.world R))
    (hpresent : L[key]? ≠ none → ∃ dur, duration_at t unit absolute (expire_number number) = dur ∧
      Passes t L key rest dur ∧ t.effect again R = t.effect (expire_after key dur) R) :
    Stays t L R (expire_with cmd unit absolute (key :: number :: rest)) again := by
  by_cases hkey : L[key]? = none
  · obtain ⟨r, hagain⟩ := habsent hkey
    have hlive := effect_expire_with_absent h.fresh hkey cmd unit absolute number rest
    exact stays_of (congrArg Prod.snd hlive) hagain h
  obtain ⟨dur, hdur, hpass, hagain⟩ := hpresent hkey
  have hlive := effect_expire_with h.fresh cmd hkey hdur hpass
  by_cases hmax : t.now + dur > instant_max
  · rw [if_pos hmax] at hlive
    exact stays_halt hlive
  · rw [if_neg hmax] at hlive
    rw [effect_expire_after key (Nat.not_lt.mp hmax)] at hagain
    exact stays_of (congrArg Prod.snd hlive) hagain (h.expire key (Nat.le_add_right _ _))

/-- EXPIRE and PEXPIRE: both sides read the same number, and a key that is there passes the
condition. On a key that is not there the time must exist, since the replay computes it. -/
def ExpiresAlike (t : Moment) (m : HashMap Bytes (Entry F)) (unit : ℕ) (key number : Bytes)
    (rest : List Bytes) : Prop :=
  if m[key]? = none then ∀ n, parse_u64 number = some n → t.now + n * unit ≤ instant_max
  else ∃ n, parse_u64 number = some n ∧ (parse_i64 number).map Int64.toInt = some n ∧
    Passes t m key rest (n * unit)

theorem stays_expire (h : Agree t.now L R) (cmd : String)
    (ha : ∀ key number rest, args = key :: number :: rest → ExpiresAlike t L unit key number rest) :
    Stays t L R (expire_with cmd unit false args) (replay_expire unit args) := by
  obtain _ | ⟨key, _ | ⟨number, rest⟩⟩ := args
  · exact stays_error rfl
  · exact stays_error rfl
  · have hcond := ha key number rest rfl
    unfold ExpiresAlike at hcond
    refine stays_expire_with h (fun hkey => ?_) fun hkey => ?_
    · rw [if_pos hkey] at hcond
      cases hn : parse_u64 number with
      | none => exact ⟨.error "bad ttl", by rw [replay_expire, hn]; rfl⟩
      | some n =>
        refine ⟨.ok (), ?_⟩
        rw [replay_expire, hn]
        exact effect_expire_absent (h.absent_right hkey) (hcond n hn)
    · rw [if_neg hkey] at hcond
      obtain ⟨n, hn, hi, hpass⟩ := hcond
      obtain ⟨i, hi, hin⟩ := map_eq_some_iff.mp hi
      refine ⟨_, ?_, hpass, by rw [replay_expire, hn]⟩
      rw [duration_at, if_neg Bool.false_ne_true, expire_number, hi, getD_some, hin,
        Int.toNat_natCast]

/-- EXPIREAT and PEXPIREAT: on a key that is there, the clock shows a whole number of units and the
time has not passed. -/
def ExpiresAtAlike (t : Moment) (m : HashMap Bytes (Entry F)) (unit : ℕ) (key number : Bytes)
    (rest : List Bytes) : Prop :=
  if m[key]? = none then ∀ ts, parse_i64 number = some ts →
    t.wall ≤ ts.toInt.toNat * unit → t.now + (ts.toInt.toNat * unit - t.wall) ≤ instant_max
  else t.wall % unit = 0 ∧ ∃ ts, parse_i64 number = some ts ∧ t.wall ≤ ts.toInt.toNat * unit ∧
    Passes t m key rest (ts.toInt.toNat * unit - t.wall)

theorem duration_at_whole (hunit : 0 < unit) (hwhole : t.wall % unit = 0) {ts : Int64}
    (hle : t.wall ≤ ts.toInt.toNat * unit) :
    duration_at t unit true ts = ts.toInt.toNat * unit - t.wall := by
  obtain ⟨q, hq⟩ := Nat.dvd_of_mod_eq_zero hwhole
  have hdiv : t.wall / unit = q := by rw [hq, Nat.mul_div_cancel_left q hunit]
  have hqle : q ≤ ts.toInt.toNat := by
    rw [hq, Nat.mul_comm] at hle
    exact Nat.le_of_mul_le_mul_right hle hunit
  have hlt : ts.toInt < 2 ^ 63 := ts.toInt_lt
  have hge : -2 ^ 63 ≤ ts.toInt := ts.le_toInt
  have hofNat : (Int64.ofNat q).toInt = (q : ℤ) := Int64.toInt_ofNat_of_lt (by omega)
  have hsub : (ts - Int64.ofNat q).toInt = ts.toInt - q := by
    rw [Int64.toInt_sub, hofNat, Int.bmod_eq_of_le] <;> omega
  have hnat : (ts - Int64.ofNat q).toInt.toNat = ts.toInt.toNat - q := by omega
  rw [duration_at, if_pos rfl, hdiv, hnat, Nat.sub_mul, hq, Nat.mul_comm unit q]

theorem stays_expireat (h : Agree t.now L R) (cmd : String) (hunit : 0 < unit)
    (ha : ∀ key number rest, args = key :: number :: rest →
      ExpiresAtAlike t L unit key number rest) :
    Stays t L R (expire_with cmd unit true args) (replay_expireat unit args) := by
  obtain _ | ⟨key, _ | ⟨number, rest⟩⟩ := args
  · exact stays_error rfl
  · exact stays_error rfl
  · have hcond := ha key number rest rfl
    unfold ExpiresAtAlike at hcond
    refine stays_expire_with h (fun hkey => ?_) fun hkey => ?_
    · rw [if_pos hkey] at hcond
      cases hn : parse_i64 number with
      | none => exact ⟨.error "bad timestamp", by rw [replay_expireat, hn]; rfl⟩
      | some ts =>
        refine ⟨.ok (), ?_⟩
        rw [replay_expireat, hn]
        rw [effect_unix_time]
        split
        · exact effect_expire_absent (h.absent_right hkey) (hcond ts hn ‹_›)
        · rfl
    · rw [if_neg hkey] at hcond
      obtain ⟨hwhole, ts, hts, hle, hpass⟩ := hcond
      refine ⟨_, ?_, hpass, ?_⟩
      · rw [expire_number, hts, getD_some, duration_at_whole hunit hwhole hle]
      · rw [replay_expireat, hts]
        rw [effect_unix_time, if_pos hle]

/-- PERSIST on a key that is not there. On any other the replay makes it expire in a hundred
years. -/
theorem stays_persist (h : Agree t.now L R) (hmax : t.now + century ≤ instant_max)
    (ha : ∀ key ∈ args.head?, L[key]? = none) :
    Stays t L R (cmd_persist args) (replay_persist args) := by
  unfold cmd_persist
  split
  · rename_i key
    have hkey := ha key rfl
    refine stays_of ?_ (effect_expire_absent (h.absent_right hkey) hmax) h
    rw [effect_get h.fresh, hkey]
    rfl
  · exact stays_error rfl

end Expiry

/-! ## Renaming -/

section Renaming

variable {t : Moment} {L R : HashMap Bytes (Entry F)} (h : Agree t.now L R)

theorem Twins.copy {now : ℕ} {e e' : Entry F} (htwins : Twins now e e') (a b : ℕ) :
    Twins now ⟨e.data, none, a, 1, 1⟩ ⟨e'.data, none, b, 1, 1⟩ :=
  twins_new htwins.value htwins.plain htwins.orderly a b

include h

theorem effect_move_entry {key : Bytes} (newkey : Bytes) {e' : Entry F} (hR : R[key]? = some e') :
    t.effect (move_entry key newkey : Replayed F) R =
      (.ok (.ok ()), t.world ((R.insert newkey ⟨e'.data, none, t.now, 1, 1⟩).erase key)) := by
  rw [move_entry, effect_get h.fresh_right, hR]
  rw [effect_set_none, effect_del]
  rfl

theorem stays_rename {args : List Bytes} (ha : ∀ key newkey rest, args = key :: newkey :: rest →
      key ≠ newkey ∧ Lasting L key) :
    Stays t L R (cmd_rename args) (replay_rename args) := by
  obtain _ | ⟨key, _ | ⟨newkey, rest⟩⟩ := args
  · exact stays_error rfl
  · exact stays_error rfl
  · obtain ⟨hne, hl⟩ := ha key newkey rest rfl
    unfold cmd_rename
    obtain ⟨hL, -⟩ | ⟨e, e', hL, hR, htwins⟩ := h.at_key key
    · refine stays_error (e := "ERR no such key") (w := t.world L) ?_
      rw [effect_get h.fresh, hL]
      rfl
    · have hswap : (R.insert newkey ⟨e'.data, none, t.now, 1, 1⟩).erase key =
          (R.erase key).insert newkey ⟨e'.data, none, t.now, 1, 1⟩ := erase_insert hne.symm _
      have hagain := effect_move_entry h newkey hR
      rw [hswap] at hagain
      refine stays_of ?_ hagain ((h.erase key).insert newkey (htwins.copy t.now t.now))
      rw [effect_get h.fresh, hL]
      dsimp only
      rw [ttl_of, hl e hL]
      dsimp only [Prog.pure'_bind]
      rw [effect_del, effect_set_none]
      rfl

theorem stays_renamenx {args : List Bytes} (ha : ∀ key newkey rest, args = key :: newkey :: rest →
      L[newkey]? = none → Lasting L key) :
    Stays t L R (cmd_renamenx args) (replay_renamenx args) := by
  obtain _ | ⟨key, _ | ⟨newkey, rest⟩⟩ := args
  · exact stays_error rfl
  · exact stays_error rfl
  · have hlive : t.effect (cmd_renamenx (key :: newkey :: rest)) L = _ :=
      effect_exists h.fresh newkey _
    have hagain : t.effect (replay_renamenx (key :: newkey :: rest) : Replayed F) R = _ :=
      effect_exists h.fresh_right newkey _
    obtain ⟨hL, hR⟩ | ⟨n, n', hL, hR, -⟩ := h.at_key newkey
    · rw [hL, isSome_none, if_neg Bool.false_ne_true, effect_get h.fresh] at hlive
      rw [hR, isSome_none, if_neg Bool.false_ne_true] at hagain
      have hl := ha key newkey rest rfl hL
      obtain ⟨hL', hR'⟩ | ⟨e, e', hL', hR', htwins⟩ := h.at_key key
      · rw [hL'] at hlive
        rw [move_entry, effect_get h.fresh_right, hR'] at hagain
        exact stays_of (congrArg Prod.snd hlive) hagain h
      · rw [hL'] at hlive
        dsimp only at hlive
        rw [ttl_of, hl e hL'] at hlive
        dsimp only [Prog.pure'_bind] at hlive
        rw [effect_set_none, effect_del] at hlive
        rw [effect_move_entry h _ hR'] at hagain
        exact stays_of (congrArg Prod.snd hlive) hagain
          ((h.insert newkey (htwins.copy t.now t.now)).erase key)
    · rw [hL] at hlive
      rw [hR] at hagain
      exact stays_of (congrArg Prod.snd hlive) hagain h

end Renaming

/-! ## Lists -/

section Lists

variable {t : Moment} {L R : HashMap Bytes (Entry F)}

/-- The replay of a command on a collection: `c` is what it finds. -/
theorem effect_collection {α : Type} (hfresh : Fresh t.now R) {key : Bytes}
    {open_ : DataType F → Option α} (change : Option α → Except String (DataType F)) {c : Option α}
    {data : DataType F} (hc : R[key]? = none ∧ c = none ∨
      ∃ e x, R[key]? = some e ∧ open_ e.data = some x ∧ c = some x)
    (hdata : change c = .ok data) :
    t.effect (replay_collection key open_ change) R =
      (.ok (.ok ()), t.world (R.insert key ⟨data, none, t.now, 1, 1⟩)) := by
  unfold replay_collection
  obtain ⟨hR, rfl⟩ | ⟨e, x, hR, hx, rfl⟩ := hc
  · rw [effect_get hfresh, hR]
    rw [hdata]
    exact effect_put_back key _
  · rw [effect_get hfresh, hR]
    dsimp only
    rw [hx]
    dsimp only
    rw [hdata]
    exact effect_put_back key _

/-- What a push does behind the list. -/
def push_reply (key : Bytes) : Option (DataType F × ℕ) → StoreM F (Reply F)
  | some (_, len) => do
    Store.notify_watchers key
    return int len
  | none => return wrong_type

theorem stays_push (h : Agree t.now L R) (cmd : String) (front : Bool) {key value : Bytes}
    {rest : List Bytes} (hl : Lasting L key) (hp : ∀ v ∈ value :: rest, Packable v) :
    Stays t L R (push_with cmd front (key :: value :: rest))
      (replay_collection key list_of fun l =>
        .ok (.List ((value :: rest).foldl (push_one front) (l.getD [])))) := by
  generalize hnew : value :: rest = new at hp
  let vacant : Entry F := ⟨.ListPack .new, none, t.now, 1, 1⟩
  have hlive : t.effect (push_with cmd front (key :: value :: rest) :
      StoreM F (Reply F)) L =
      t.effect (push_reply key (push front new (L[key]?.getD vacant).data))
        (L.insert key (push_entry front new (L[key]?.getD vacant))) := by
    rw [← alter_eq_insert (f := fun e => some (push_entry front new (e.getD vacant))) rfl,
      ← hnew]
    rfl
  rw [hnew] at hlive
  -- the entry the live command works on, against what the replay finds
  have hcases : (∃ l c, (L[key]?.getD vacant).data.value = .list l ∧ Option.getD c [] = l ∧
      (R[key]? = none ∧ c = none ∨
        ∃ e x, R[key]? = some e ∧ list_of e.data = some x ∧ c = some x)) ∨
      push front new (L[key]?.getD vacant).data = none := by
    obtain ⟨hL, hR⟩ | ⟨e, e', hL, hR, htwins⟩ := h.at_key key
    · rw [hL]
      exact .inl ⟨[], none, congrArg Value.list packs_new.to_vec, rfl, .inl ⟨hR, rfl⟩⟩
    · rw [hL]
      obtain ⟨l, hvalue⟩ | hnone := list_or_push_none e.data front new
      · have hdata' : e'.data = .List l := htwins.plain.data_eq (htwins.value.symm.trans hvalue)
        exact .inl ⟨l, some l, hvalue, rfl, .inr ⟨e', l, hR, by rw [hdata']; rfl, rfl⟩⟩
      · exact .inr hnone
  have horderly : Orderly (L[key]?.getD vacant).data := by
    cases hL : L[key]? with
    | none => exact ⟨[], packs_new⟩
    | some e => exact h.orderly key e hL
  have hexpires : (L[key]?.getD vacant).expires_at = none := by
    cases hL : L[key]? with
    | none => rfl
    | some e => exact hl e hL
  generalize L[key]?.getD vacant = entry at hlive hcases horderly hexpires
  obtain ⟨l, c, hvalue, hc, hfound⟩ | hnone := hcases
  · obtain ⟨d', hpush, hvalue', horderly'⟩ := push_value horderly hvalue front hp
    have hagain := effect_collection (t := t) h.fresh_right
      (fun l => .ok (.List (new.foldl (push_one front) (l.getD [])))) hfound rfl
    have hentry : push_entry front new entry = { entry with data := d' } := by
      rw [push_entry, hpush]
    rw [hpush, hentry] at hlive
    refine stays_of (congrArg Prod.snd hlive) hagain (h.insert key ⟨?_, hexpires, ?_, trivial, ?_⟩)
    · rw [hvalue', hc]
      rfl
    · intro x hx
      rw [show ({ entry with data := d' } : Entry F).expires_at = none from hexpires] at hx
      cases hx
    · exact horderly'
  · rw [hnone] at hlive
    exact stays_error hlive

theorem stays_rpush (h : Agree t.now L R) {args : List Bytes}
    (ha : ∀ key values, args = key :: values → Lasting L key ∧ ∀ v ∈ values, Packable v) :
    Stays t L R (rp args) (replay_rpush args) := by
  obtain _ | ⟨key, _ | ⟨value, rest⟩⟩ := args
  · exact stays_error rfl
  · exact stays_error rfl
  · obtain ⟨hl, hp⟩ := ha key (value :: rest) rfl
    exact stays_push h "rpush" false hl hp

theorem stays_lpush (h : Agree t.now L R) {args : List Bytes}
    (ha : ∀ key values, args = key :: values →
      Lasting L key ∧ (∀ v ∈ values, Packable v) ∧ values.reverse = values) :
    Stays t L R (lp args) (replay_lpush args) := by
  obtain _ | ⟨key, _ | ⟨value, rest⟩⟩ := args
  · exact stays_error rfl
  · exact stays_error rfl
  · obtain ⟨hl, hp, hreverse⟩ := ha key (value :: rest) rfl
    unfold replay_lpush
    dsimp only
    rw [hreverse]
    exact stays_push h "lpush" true hl hp

end Lists

/-! ## Hashes and sets -/

section Sets

variable {t : Moment} {L R : HashMap Bytes (Entry F)}

theorem hset_fields_eq (pairs : List Bytes) (h : HashMap Bytes Bytes) (n : ℕ) :
    (hset_fields pairs h n).1 = insert_pairs pairs h := by
  induction pairs, h, n using hset_fields.induct with
  | case1 field value rest h n ih => rw [hset_fields, insert_pairs, ih]
  | case2 pairs h n hpairs =>
    rw [hset_fields.eq_2 _ _ _ hpairs, insert_pairs.eq_2 _ _ hpairs]

/-- What HSET replies, by what it has found. -/
def hset_reply (pairs : List Bytes) : DataType F → StoreM F (Reply F)
  | .Hash h => return int (hset_fields pairs h 0).2
  | _ => return wrong_type

theorem stays_hset (h : Agree t.now L R) {args : List Bytes} (ha : ∀ key ∈ args.head?, Lasting L key) :
    Stays t L R (hset args) (replay_hset args) := by
  obtain _ | ⟨key, _ | ⟨field, _ | ⟨value, rest⟩⟩⟩ := args
  · exact stays_error rfl
  · exact stays_error rfl
  · exact stays_error rfl
  · have hl := ha key rfl
    unfold replay_hset
    dsimp only
    generalize field :: value :: rest = pairs
    by_cases hlen : pairs.length < 2 ∨ pairs.length % 2 ≠ 0
    · exact stays_error (congrArg (t.effect · L) (if_pos hlen))
    · let vacant : Entry F := ⟨.Hash ∅, none, t.now, 1, 1⟩
      let put (h : Option (HashMap Bytes Bytes)) : Except String (DataType F) :=
        .ok (.Hash (insert_pairs pairs (h.getD ∅)))
      have hlive : t.effect (hset (key :: pairs)) L =
          t.effect (hset_reply pairs (L[key]?.getD vacant).data)
          (L.insert key (hset_entry pairs (L[key]?.getD vacant))) := by
        rw [hset, if_neg hlen, ← alter_eq_insert (f := fun e => some (hset_entry pairs (e.getD vacant))) rfl]
        rfl
      obtain ⟨hL, hR⟩ | ⟨e, e', hL, hR, htwins⟩ := h.at_key key
      · rw [hL] at hlive
        have hagain : t.effect (replay_collection key hash_of put : Replayed F) R = _ :=
          effect_collection h.fresh_right put (.inl ⟨hR, rfl⟩) rfl
        refine stays_of (congrArg Prod.snd hlive) hagain (h.insert key ?_)
        exact ⟨congrArg Value.hash (hset_fields_eq pairs ∅ 0), rfl,
          fun _ hx => (not_mem_none _ hx).elim, trivial, trivial⟩
      · rw [hL] at hlive
        dsimp only [getD_some] at hlive
        cases hdata : e.data with
        | Hash m =>
          have hdata' : e'.data = .Hash m :=
            htwins.plain.data_eq (v := .hash m) (by rw [← htwins.value, hdata]; rfl)
          have hagain : t.effect (replay_collection key hash_of put : Replayed F) R = _ :=
            effect_collection h.fresh_right put (.inr ⟨e', m, hR, by rw [hdata']; rfl, rfl⟩) rfl
          rw [hset_entry, hdata] at hlive
          refine stays_of (congrArg Prod.snd hlive) hagain (h.insert key ?_)
          exact ⟨congrArg Value.hash (hset_fields_eq pairs m 0), hl e hL, htwins.fresh, trivial, trivial⟩
        | String | List | Set | ZSet | Stream | ListPack | IntSet =>
          rw [hdata] at hlive
          exact stays_error hlive

/-- What SADD does with the new set. -/
def sadd_reply (key : Bytes) : Option (DataType F × ℕ) → StoreM F (Reply F)
  | some (entry, added) => do
    Store.set key entry none
    return int added
  | none => return wrong_type

theorem stays_sadd (h : Agree t.now L R) {args : List Bytes}
    (ha : ∀ key members, args = key :: members →
      IntoIntSet (L[key]?.map Entry.data) members → ∀ m ∈ members, Canonical m) :
    Stays t L R (sadd args) (replay_sadd args) := by
  obtain _ | ⟨key, _ | ⟨member, rest⟩⟩ := args
  · exact stays_error rfl
  · exact stays_error rfl
  · have hcanon := ha key (member :: rest) rfl
    let put (s : Option (HashSet Bytes)) : Except String (DataType F) :=
      .ok (.Set (gather (s.getD ∅) (member :: rest)))
    let add (existing : Option (DataType F)) : StoreM F (Reply F) :=
      sadd_reply key (sadd_data (member :: rest)
        (sadd_start (member :: rest) existing))
    have hlive : t.effect (sadd (key :: member :: rest)) L =
        t.effect (add (L[key]?.map Entry.data)) L := effect_get h.fresh key _
    -- the set the live command finds, against the one the replay finds
    have hadd : ∀ {s : HashSet Bytes} {c : Option (HashSet Bytes)}, c.getD ∅ = s →
        (L[key]?.map Entry.data = none ∧ s = ∅ ∨
          ∃ d, L[key]?.map Entry.data = some d ∧ d.value = .set s) →
        (R[key]? = none ∧ c = none ∨
          ∃ e x, R[key]? = some e ∧ set_of e.data = some x ∧ c = some x) →
        Stays t L R (sadd (key :: member :: rest)) (replay_collection key set_of put) := by
      intro s c hc hs hfound
      obtain ⟨d', n, hdata, hvalue, horderly⟩ := sadd_value hs hcanon
      have hagain := effect_collection (t := t) h.fresh_right put hfound rfl
      unfold add at hlive
      rw [hdata, sadd_reply, effect_set_none] at hlive
      refine stays_of (congrArg Prod.snd hlive) hagain (h.insert key ?_)
      refine ⟨?_, rfl, fun _ hx => (not_mem_none _ hx).elim, trivial, horderly⟩
      rw [hvalue, ← hc]
      rfl
    obtain ⟨hL, hR⟩ | ⟨e, e', hL, hR, htwins⟩ := h.at_key key
    · exact hadd (c := none) rfl (.inl ⟨by rw [hL]; rfl, rfl⟩) (.inl ⟨hR, rfl⟩)
    · obtain ⟨s, hvalue⟩ | hnone := set_or_sadd_none e.data (member :: rest)
      · have hdata' : e'.data = .Set s := htwins.plain.data_eq (htwins.value.symm.trans hvalue)
        exact hadd (c := some s) rfl (.inr ⟨e.data, by rw [hL]; rfl, hvalue⟩)
          (.inr ⟨e', s, hR, by rw [hdata']; rfl, rfl⟩)
      · unfold add at hlive
        rw [hL, map_some, hnone] at hlive
        exact stays_error hlive

end Sets

/-! ## Sorted sets -/

/-- What `str::parse` for `f64` does with the texts of the infinities, and with what `to_string`
gives. -/
class ScoreText (F : Type) [Score F] : Prop where
  parse_inf : Resp.FloatText.parse "inf" = .ok (Resp.FloatText.infinity : F)
  parse_plus_inf : Resp.FloatText.parse "+inf" = .ok (Resp.FloatText.infinity : F)
  parse_neg_inf : Resp.FloatText.parse "-inf" = .ok (Resp.FloatText.neg_infinity : F)
  parse_display : ∀ d : F, Resp.FloatText.parse (Score.display d) = .ok d

instance : ScoreText Resp.Infinity where
  parse_inf := rfl
  parse_plus_inf := rfl
  parse_neg_inf := rfl
  parse_display d := by cases d <;> rfl

section Zsets

variable {t : Moment} {L R : HashMap Bytes (Entry F)}

theorem stays_lift {α : Type} {x : Except Halt α} {f : α → StoreM F (Reply F)} {again : Replayed F}
    (h : ∀ a, x = .ok a → Stays t L R (f a) again) :
    Stays t L R ((liftM x : StoreM F α) >>= f) again := by
  cases x with
  | ok a => exact h a rfl
  | error e => exact stays_halt rfl

theorem effect_get_zset (hfresh : Fresh t.now L) (key : String)
    (f : Option (ZSetData F) → StoreM F (Reply F)) :
    t.effect (get_zset key >>= f) L =
      t.effect (f (L[as_bytes key]?.bind fun e => zset_of e.data)) L := by
  unfold get_zset
  rw [Prog.bind_assoc, effect_get hfresh]
  cases hL : L[as_bytes key]? with
  | none => rfl
  | some e =>
    dsimp only [bind_some]
    cases e.data <;> rfl

variable [ScoreText F]

theorem parse_f64_of_parse_score {b : Bytes} {x : F} (h : parse_score b = .ok x) :
    parse_f64 b = some x := by
  unfold parse_score at h
  unfold parse_f64 text
  cases hb : from_utf8 b with
  | error e =>
    rw [hb] at h
    cases h
  | ok s =>
    rw [hb] at h
    dsimp only [Except.toOption, getD_some] at h ⊢
    split at h
    · rename_i hs
      cases h
      rcases hs with rfl | rfl
      · rw [ScoreText.parse_inf]
      · rw [ScoreText.parse_plus_inf]
    · split at h
      · rename_i hs
        cases h
        rw [hs, ScoreText.parse_neg_inf]
      · cases hp : (Resp.FloatText.parse s : Except _ F) with
        | ok d =>
          rw [hp] at h
          cases h
          rfl
        | error e =>
          rw [hp] at h
          cases h

theorem add_scores_of_zadd_pairs {pairs : List Bytes} {z z' y : ZSetData F} {n n' : ℕ}
    (h : zadd_pairs ⟨false, false, false, false, false⟩ pairs z n = .ok (z', n'))
    (hmembers : y.members = z.members) :
    ∃ y', add_scores pairs y = .ok y' ∧ y'.members = z'.members := by
  induction pairs, y using add_scores.induct generalizing z n with
  | case1 s member rest y score hs ih =>
    rw [zadd_pairs] at h
    cases hscore : (parse_score s : Except Halt F) with
    | error e =>
      rw [hscore] at h
      cases h
    | ok x =>
      obtain rfl : score = x := by
        rw [parse_f64_of_parse_score hscore] at hs
        cases hs
        rfl
      rw [hscore] at h
      rw [add_scores, hs]
      exact ih (z := z.add member score) h (congrArg (·.insert member score) hmembers)
  | case2 s member rest y hs =>
    rw [zadd_pairs] at h
    cases hscore : (parse_score s : Except Halt F) with
    | error e =>
      rw [hscore] at h
      cases h
    | ok x =>
      rw [parse_f64_of_parse_score hscore] at hs
      cases hs
  | case3 pairs y hpairs =>
    rw [zadd_pairs.eq_2 _ _ _ _ hpairs] at h
    cases h
    exact ⟨y, add_scores.eq_2 _ _ hpairs, hmembers⟩

/-- The words that are options of ZADD. -/
def zadd_options : List String := ["NX", "XX", "GT", "LT", "CH", "INCR"]

theorem zadd_flags_none {a : Bytes} {rest : List Bytes} {flags : ZaddFlags} {r : ZaddFlags × List Bytes}
    (ha : ∀ name ∈ zadd_options, option_name a ≠ some name)
    (h : zadd_flags (a :: rest) flags = .ok r) : r = (flags, a :: rest) := by
  rw [zadd_flags] at h
  unfold str_from_bytes at h
  unfold option_name at ha
  cases hs : from_utf8 a with
  | error e =>
    rw [hs] at h
    cases h
  | ok s =>
    rw [hs] at h ha
    have hname : ∀ name ∈ zadd_options, to_ascii_uppercase s ≠ name := fun name hmem heq =>
      ha name hmem (congrArg some heq)
    dsimp only [bind, Except.bind] at h
    split at h
    · exact absurd ‹_› (hname "NX" (by decide))
    · exact absurd ‹_› (hname "XX" (by decide))
    · exact absurd ‹_› (hname "GT" (by decide))
    · exact absurd ‹_› (hname "LT" (by decide))
    · exact absurd ‹_› (hname "CH" (by decide))
    · exact absurd ‹_› (hname "INCR" (by decide))
    · cases h
      rfl

theorem stays_zadd (h : Agree t.now L R) {args : List Bytes}
    (ha : ∀ key score rest, args = key :: score :: rest →
      (∀ name ∈ zadd_options, option_name score ≠ some name) ∧
        ∀ e : Entry F, L[key]? = some e → ∃ z, e.data = .ZSet z) :
    Stays t L R (zadd args) (replay_zadd args) := by
  obtain _ | ⟨key, _ | ⟨score, _ | ⟨member, rest⟩⟩⟩ := args
  · exact stays_halt rfl
  · exact stays_halt rfl
  · exact stays_halt rfl
  · obtain ⟨hoption, hzset⟩ := ha key score (member :: rest) rfl
    unfold zadd
    refine stays_lift fun a hkey => ?_
    cases hkey
    refine stays_lift fun name hname => ?_
    have hkey : as_bytes name = key := as_bytes_of_from_utf8 (from_utf8_of_str_from_bytes hname)
    refine stays_lift fun r hflags => ?_
    cases zadd_flags_none hoption hflags
    dsimp only
    have hoff : ¬ (false && false) = true := Bool.false_ne_true
    generalize hpairs : score :: member :: rest = pairs
    by_cases hlen : pairs.length < 2 ∨ pairs.length % 2 ≠ 0
    · rw [if_pos hlen]
      exact stays_halt rfl
    · rw [if_neg hlen, if_neg Bool.false_ne_true]
      let put (z : Option (ZSetData F)) : Except String (DataType F) :=
        (add_scores pairs (z.getD .new)).map .ZSet
      have hagain : replay_zadd (key :: pairs) = replay_collection key zset_of put := by
        subst hpairs
        rfl
      rw [hagain]
      -- what the live command finds, and what the replay finds
      obtain ⟨z, c, hz, hmembers, hfound⟩ : ∃ z c : Option (ZSetData F),
          (L[as_bytes name]?.bind fun e => zset_of e.data) = z ∧
          (c.getD .new).members = (z.getD .new).members ∧
          (R[key]? = none ∧ c = none ∨
            ∃ e x, R[key]? = some e ∧ zset_of e.data = some x ∧ c = some x) := by
        rw [hkey]
        obtain ⟨hL, hR⟩ | ⟨e, e', hL, hR, htwins⟩ := h.at_key key
        · exact ⟨none, none, by rw [hL]; rfl, rfl, .inl ⟨hR, rfl⟩⟩
        · obtain ⟨z, hdata⟩ := hzset e hL
          obtain ⟨y, hdata', hy⟩ := htwins.plain.data_eq (v := .zset z.members)
            (by rw [← htwins.value, hdata]; rfl)
          refine ⟨some z, some y, ?_, hy, .inr ⟨e', y, hR, by rw [hdata']; rfl, rfl⟩⟩
          rw [hL, bind_some, hdata]
          rfl
      refine stays_of_effect_eq (effect_get_zset h.fresh name _) ?_
      rw [hz]
      refine stays_lift fun r hr => ?_
      obtain ⟨y', hy', hmembers'⟩ := add_scores_of_zadd_pairs hr hmembers
      have hagain := effect_collection (t := t) h.fresh_right put hfound
        (show put c = .ok (.ZSet y') by unfold put; rw [hy']; rfl)
      refine stays_of (congrArg Prod.snd (effect_set_none t L (as_bytes name) _ _)) hagain ?_
      rw [hkey]
      refine h.insert key ⟨congrArg Value.zset hmembers'.symm, rfl, ?_, trivial, trivial⟩
      exact fun _ hx => (not_mem_none _ hx).elim

end Zsets

/-! ## All commands -/

/-- The commands that `replay_command` knows. -/
def replayable : List String :=
  ["SET", "SETEX", "PSETEX", "SETNX", "GETSET", "APPEND", "INCR", "DECR", "INCRBY", "DECRBY", "DEL",
    "UNLINK", "EXPIRE", "PEXPIRE", "EXPIREAT", "PEXPIREAT", "PERSIST", "RPUSH", "LPUSH", "HSET",
    "SADD", "ZADD", "RENAME", "RENAMENX", "FLUSHDB", "FLUSHALL"]

/-- What a command and the live store in front of it have to meet for the replay to do the same. -/
def Faithful (t : Moment) (m : HashMap Bytes (Entry F)) (name : String) (args : List Bytes) : Prop :=
  match name with
  | "SET" => ∀ key value opts, args = key :: value :: opts →
    (∀ opt ∈ opts, ∃ name ∈ harmless_options, option_name opt = some name) ∧
      (Named opts "NX" → m[key]? = none) ∧ (Named opts "XX" → m[key]? ≠ none)
  | "APPEND" | "INCR" | "DECR" | "INCRBY" | "DECRBY" | "HSET" =>
    ∀ key ∈ args.head?, Lasting m key
  | "EXPIRE" => ∀ key number rest, args = key :: number :: rest →
    ExpiresAlike t m (10 ^ 9) key number rest
  | "PEXPIRE" => ∀ key number rest, args = key :: number :: rest →
    ExpiresAlike t m (10 ^ 6) key number rest
  | "EXPIREAT" => ∀ key number rest, args = key :: number :: rest →
    ExpiresAtAlike t m (10 ^ 9) key number rest
  | "PEXPIREAT" => ∀ key number rest, args = key :: number :: rest →
    ExpiresAtAlike t m (10 ^ 6) key number rest
  | "PERSIST" => t.now + century ≤ instant_max ∧ ∀ key ∈ args.head?, m[key]? = none
  | "RPUSH" => ∀ key values, args = key :: values → Lasting m key ∧ ∀ v ∈ values, Packable v
  | "LPUSH" => ∀ key values, args = key :: values →
    Lasting m key ∧ (∀ v ∈ values, Packable v) ∧ values.reverse = values
  | "SADD" => ∀ key members, args = key :: members →
    IntoIntSet (m[key]?.map Entry.data) members → ∀ x ∈ members, Canonical x
  | "ZADD" => ∀ key score rest, args = key :: score :: rest →
    (∀ name ∈ zadd_options, option_name score ≠ some name) ∧
      ∀ e : Entry F, m[key]? = some e → ∃ z, e.data = .ZSet z
  | "RENAME" => ∀ key newkey rest, args = key :: newkey :: rest → key ≠ newkey ∧ Lasting m key
  | "RENAMENX" => ∀ key newkey rest, args = key :: newkey :: rest →
    m[newkey]? = none → Lasting m key
  | _ => True

theorem stays_flush {t : Moment} {L R : HashMap Bytes (Entry F)} :
    Stays t L R cmd_flushall replay_flush :=
  stays_of rfl rfl (Agree.empty t.now)

section All

variable [ScoreText F] {t : Moment} {L R : HashMap Bytes (Entry F)}
  (other : String → List Bytes → StoreM F (Reply F))

theorem stays_command (h : Agree t.now L R) {name : String} (hname : name ∈ replayable)
    {args : List Bytes} (hf : Faithful t L name args) :
    Stays t L R (command (keyspace_command other) name args) (replay_named name args) := by
  have hneg : ∀ n val : Int64, val - n = val + -n := fun n val => Int64.sub_eq_add_neg val n
  simp only [replayable, mem_cons, not_mem_nil, or_false] at hname
  rcases hname with rfl | rfl | rfl | rfl | rfl | rfl | rfl | rfl | rfl | rfl | rfl | rfl | rfl |
    rfl | rfl | rfl | rfl | rfl | rfl | rfl | rfl | rfl | rfl | rfl | rfl | rfl
  · obtain _ | ⟨key, _ | ⟨value, opts⟩⟩ := args
    · exact stays_error rfl
    · exact stays_error rfl
    · obtain ⟨hopts, hnx, hxx⟩ := hf key value opts rfl
      exact stays_set h hopts hnx hxx
  · exact stays_setex h "setex" (10 ^ 9) args
  · exact stays_setex h "psetex" (10 ^ 6) args
  · exact stays_setnx h args
  · exact stays_getset h args
  · exact stays_append h hf
  · exact stays_incr h hf "incr" fun _ => rfl
  · exact stays_incr h hf "decr" fun n => hneg 1 n
  · exact stays_incrby h hf "incrby" "bad increment" fun _ _ => rfl
  · exact stays_incrby h hf "decrby" "bad decrement" hneg
  · exact stays_del h
  · exact stays_del h
  · exact stays_expire h "expire" hf
  · exact stays_expire h "pexpire" hf
  · exact stays_expireat h "expireat" (by decide) hf
  · exact stays_expireat h "pexpireat" (by decide) hf
  · exact stays_persist h hf.1 hf.2
  · exact stays_rpush h hf
  · exact stays_lpush h hf
  · exact stays_hset h hf
  · exact stays_sadd h hf
  · exact stays_zadd h hf
  · exact stays_rename h hf
  · exact stays_renamenx h hf
  · exact stays_flush
  · exact stays_flush

end All

/-! ## Whole logs -/

def live (other : String → List Bytes → StoreM F (Reply F)) (cmd : Cmd) : StoreM F (Reply F) :=
  command (keyspace_command other) ((name_of cmd).getD "") cmd.tail

def serve (other : String → List Bytes → StoreM F (Reply F)) (w : World F) (cmd : Cmd) : World F :=
  ((live other cmd).run step w).2

/-- The command is one of those that are replayed, and is executed without an error. -/
def Accepted (other : String → List Bytes → StoreM F (Reply F)) (w : World F) (cmd : Cmd) : Prop :=
  (∃ name ∈ replayable, name_of cmd = some name) ∧
    ∃ reply, ((live other cmd).run step w).1 = .ok reply ∧ Succeeded reply

/-- The condition on a command, in the live store. -/
def FaithfulIn (t : Moment) (w : World F) (cmd : Cmd) : Prop :=
  Faithful t w.store.keyspace ((name_of cmd).getD "") cmd.tail

section Logs

variable (t : Moment) (other : String → List Bytes → StoreM F (Reply F))

theorem replay_command_named {cmd : Cmd} {name : String} (h : name_of cmd = some name) :
    (replay_command cmd : Replayed F) = replay_named name cmd.tail := by
  cases cmd with
  | nil => cases h
  | cons first args =>
    dsimp only [name_of] at h
    dsimp only [replay_command]
    cases hs : from_utf8 first with
    | error e =>
      rw [hs] at h
      cases h
    | ok s =>
      rw [hs] at h
      cases h
      rfl

/-- A run, seen at the moment `t`: the worlds are known up to who is watching. -/
theorem effect_of_hush {α : Type} {p : StoreM F α} {w : World F} {m : HashMap Bytes (Entry F)}
    (hw : w.hush = t.world m) :
    t.effect p m = ((p.run step w).1, (p.run step w).2.hush) := by
  rw [Moment.effect, ← hw, run_hush]

variable [ScoreText F]

/-- The induction over the log: `L` and `R` are what the two sides have built so far. -/
theorem replay_agrees_from {cmds : List Cmd} {w v : World F} {L R : HashMap Bytes (Entry F)}
    (hw : w.hush = t.world L) (hv : v.hush = t.world R) (h : Agree t.now L R)
    (haccepted : Runs.Along (serve other) (Accepted other) w cmds)
    (hfaithful : Runs.Along (serve other) (FaithfulIn t) w cmds) :
    ((replay_all cmds).run step v).1 = .ok () ∧
      ∃ L' R', (Runs.run (serve other) w cmds).hush = t.world L' ∧
        ((replay_all cmds).run step v).2.hush = t.world R' ∧ Agree t.now L' R' := by
  induction cmds generalizing w v L R with
  | nil => exact ⟨rfl, L, R, hw, hv, h⟩
  | cons cmd cmds ih =>
    obtain ⟨⟨⟨name, hmem, hname⟩, reply, hreply, hsucc⟩, haccepted⟩ := haccepted
    have hkeyspace : w.store.keyspace = L := congrArg (fun w : World F => w.store.keyspace) hw
    have hcond : Faithful t L name cmd.tail := by
      have hf := hfaithful.1
      unfold FaithfulIn at hf
      rwa [hname, hkeyspace] at hf
    have hprogram : command (keyspace_command other) name cmd.tail = live other cmd := by
      rw [live, hname]
      rfl
    have hlive : t.effect (command (keyspace_command other) name cmd.tail) L =
        (((live other cmd).run step w).1, (serve other w cmd).hush) := by
      rw [hprogram]
      exact effect_of_hush t hw
    obtain ⟨L', R', result, hL', hagain, hagree⟩ :=
      stays_command other h hmem hcond reply (by rw [hlive]; exact hreply) hsucc
    rw [hlive] at hL'
    rw [effect_of_hush t hv] at hagain
    have hrun : (replay_all (cmd :: cmds)).run step v =
        (replay_all cmds).run step ((replay_named name cmd.tail).run step v).2 := by
      rw [replay_all, Prog.run_bind, replay_command_named hname]
      rw [Prod.ext_iff] at hagain
      generalize (replay_named name cmd.tail).run step v = final at hagain ⊢
      obtain ⟨r, v'⟩ := final
      obtain rfl : r = .ok result := hagain.1
      rfl
    rw [hrun]
    exact ih hL' (congrArg Prod.snd hagain) hagree haccepted hfaithful.2

/-- **Replaying a log.** A log of commands that the live server executed at a fixed time, each of
which met the condition where it was executed, is replayed into a store with the same keys, values
and expiry times. -/
theorem replay_agrees (cmds : List Cmd)
    (haccepted : Runs.Along (serve other) (Accepted other) (new t.env) cmds)
    (hfaithful : Runs.Along (serve other) (FaithfulIn t) (new t.env) cmds) :
    ((replay_all cmds).run step (new t.env : World F)).1 = .ok () ∧
      ∀ k : Bytes,
        ((replay_all cmds).run step
            (new t.env : World F)).2.store.keyspace[k]?.map Entry.view =
          (Runs.run (serve other) (new t.env) cmds).store.keyspace[k]?.map Entry.view := by
  obtain ⟨hok, L, R, hL, hR, hagree⟩ :=
    replay_agrees_from t other (show (new t.env : World F).hush = t.world ∅ from rfl)
      (show (new t.env : World F).hush = t.world ∅ from rfl) (Agree.empty t.now) haccepted
      hfaithful
  refine ⟨hok, fun k => ?_⟩
  have hkL : (Runs.run (serve other) (new t.env) cmds).store.keyspace = L :=
    congrArg (fun w : World F => w.store.keyspace) hL
  have hkR : ((replay_all cmds).run step (new t.env : World F)).2.store.keyspace = R :=
    congrArg (fun w : World F => w.store.keyspace) hR
  rw [hkL, hkR, hagree.views k]

end Logs

def nothing (_ : String) (_ : List Bytes) : StoreM Resp.Infinity (Reply Resp.Infinity) :=
  return .Error "ERR unknown command"

theorem replay_agrees_rpush :
    ((replay_all [cmd_of ["RPUSH", "k", "a", "b"]]).run step
        (new Moment.zero.env : World Resp.Infinity)).1 = .ok () ∧
      ∀ k : Bytes,
        ((replay_all [cmd_of ["RPUSH", "k", "a", "b"]]).run step
            (new Moment.zero.env : World Resp.Infinity)).2.store.keyspace[k]?.map Entry.view =
          (Runs.run (serve nothing) (new Moment.zero.env)
            [cmd_of ["RPUSH", "k", "a", "b"]]).store.keyspace[k]?.map Entry.view := by
  refine replay_agrees Moment.zero nothing [cmd_of ["RPUSH", "k", "a", "b"]] ⟨?_, trivial⟩ ⟨?_, trivial⟩
  · exact ⟨⟨"RPUSH", by decide, by decide⟩, int 2, rfl, fun e he => by cases he⟩
  · intro key values hargs
    have htail : (cmd_of ["RPUSH", "k", "a", "b"]).tail =
        [as_bytes "k", as_bytes "a", as_bytes "b"] := rfl
    injection hargs with hkey hvalues
    subst hkey hvalues
    refine ⟨fun e he => ?_, ?_⟩
    · cases he
    · show ∀ v ∈ [as_bytes "a", as_bytes "b"], List.length v + 15 < 2 ^ 32
      decide

/-- `SET k v EX 10`: the live key expires after ten seconds, the replayed one does not. -/
theorem replay_forgets_expiry :
    let cmds := [cmd_of ["SET", "k", "v", "EX", "10"]]
    let served := Runs.run (serve nothing) (new Moment.zero.env) cmds
    let again := (replay_all cmds).run step (new Moment.zero.env : World Resp.Infinity)
    (((live nothing (cmd_of ["SET", "k", "v", "EX", "10"])).run step
        (new Moment.zero.env)).1 matches .ok (.SimpleString "OK")) ∧ again.1.toBool ∧
      served.store.keyspace[as_bytes "k"]?.map Entry.expires_at = some (some (10 * 10 ^ 9)) ∧
      again.2.store.keyspace[as_bytes "k"]?.map Entry.expires_at = some none := by
  decide

end ValkeyRs.Aof
