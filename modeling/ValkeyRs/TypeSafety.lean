/-
Sorted-set commands on a key that holds something else.

`get_zset` gives nothing both for a key without an entry and for one with another type, so no
command on a sorted set can reply WRONGTYPE. The commands that remove members then do nothing. Those
that add members start from an empty sorted set and store it, and the value that was there is gone.
-/
import ValkeyRs.ZsetCalls

set_option autoImplicit false

open ValkeyRs Text Storage Zset Geo

namespace ValkeyRs.TypeSafety

/-! ## The commands -/

/-- The commands on one sorted set. -/
inductive KeyCommand where
  | ZADD
  | ZINCRBY
  | GEOADD
  | ZREM
  | ZPOPMIN
  | ZPOPMAX
  | ZREMRANGEBYRANK
  | ZREMRANGEBYSCORE
  | ZREMRANGEBYLEX
  deriving Repr, DecidableEq

namespace KeyCommand

variable {F : Type} [GeoScore F]

/-- The handler `dispatch_ctx` comes to. -/
def handler : KeyCommand → List Bytes → StoreM F (Reply F)
  | .ZADD => zadd
  | .ZINCRBY => zincrby
  | .GEOADD => geoadd
  | .ZREM => zrem
  | .ZPOPMIN => zpopmin
  | .ZPOPMAX => zpopmax
  | .ZREMRANGEBYRANK => zremrangebyrank
  | .ZREMRANGEBYSCORE => zremrangebyscore
  | .ZREMRANGEBYLEX => zremrangebylex

/-- The key of a command that is well formed: its arguments pass every check there is on them. -/
def target (F : Type) [GeoScore F] : KeyCommand → List Bytes → Option Bytes
  | .ZADD, args => addition_key (zadd_request args : Except Halt (String × Addition F))
  | .ZINCRBY, args => addition_key (zincrby_request args : Except Halt (String × Addition F))
  | .GEOADD, args => geoadd_key F args
  | .ZREM, args => removal_key (zrem_request args : Except Halt (String × Removal F))
  | .ZPOPMIN, args =>
    removal_key (zpop_request "zpopmin" false args : Except Halt (String × Removal F))
  | .ZPOPMAX, args =>
    removal_key (zpop_request "zpopmax" true args : Except Halt (String × Removal F))
  | .ZREMRANGEBYRANK, args =>
    removal_key (zremrangebyrank_request args : Except Halt (String × Removal F))
  | .ZREMRANGEBYSCORE, args =>
    removal_key (zremrangebyscore_request args : Except Halt (String × Removal F))
  | .ZREMRANGEBYLEX, args =>
    removal_key (zremrangebylex_request args : Except Halt (String × Removal F))

def removes : KeyCommand → Bool
  | .ZADD | .ZINCRBY | .GEOADD => false
  | _ => true

end KeyCommand

/-! ## Another type -/

section Types

variable {F : Type} [Score F]

/-- The key holds a live value that is no sorted set. -/
def WrongType (T : Instant) (m : HashMap Bytes (Entry F)) (key : Bytes) : Prop :=
  ∃ entry, seen T m key = some entry ∧ entry.data.as_zset = none

/-- The client gets a WRONGTYPE error. -/
def WrongTypeReply : Except Halt (Reply F) → Prop
  | .ok (.Error message) => "WRONGTYPE".toList.isPrefixOf message.toList = true
  | .error (.Err message) => "WRONGTYPE".toList.isPrefixOf message.toList = true
  | _ => False

/-- What is promised of a command on a key: if the key holds something else, then that is said, and
the value stays. -/
def TypeSafe (T : Instant) (key : Bytes) (m : HashMap Bytes (Entry F)) (r : Except Halt (Reply F))
    (m' : HashMap Bytes (Entry F)) : Prop :=
  WrongType T m key → WrongTypeReply r ∧ contents T m' key = contents T m key

/-- What a command does instead. -/
def Mistaken (T : Instant) (key : Bytes) (removes : Bool) (m : HashMap Bytes (Entry F))
    (r : Except Halt (Reply F)) (m' : HashMap Bytes (Entry F)) : Prop :=
  WrongType T m key →
    ¬ WrongTypeReply r ∧ (contents T m' key = contents T m key ↔ removes = true) ∧
      (removes = false → ∃ zset, contents T m' key = some (.zset zset, none))

variable {T : Instant} {m : HashMap Bytes (Entry F)} {key : Bytes}

theorem as_zset_of_value {data : DataType F} {members : HashMap Bytes F}
    (h : data.value = .zset members) : ∃ zset, data.as_zset = some zset := by
  cases data with
  | ZSet zset => exact ⟨zset, rfl⟩
  | String | List | Hash | Set | Stream | ListPack | IntSet => cases h

theorem zset_at_of_wrong_type (h : WrongType T m key) : zset_at T m key = none := by
  obtain ⟨entry, hseen, hzset⟩ := h
  unfold zset_at
  rw [hseen, Option.bind_some, hzset]

theorem upsert_mistaken {change : ZSetData F → Except Halt (ZSetData F × Reply F)}
    (hok : ∀ zset, (change zset).isOk = true)
    (hreply : ∀ zset r, change zset = .ok r → ¬ WrongTypeReply (.ok r.2)) :
    (upsert key change).Wp (may (· = T)) (Mistaken T key false m) m := by
  refine wp_upsert_at (fun zset reply hchange hwrong => ?_) fun e herror => ?_
  · have hstored : contents T ((swept T m key).insert key ⟨.ZSet zset, none, T, 1, 1⟩) key =
        some (.zset zset.members, none) := by
      unfold contents
      rw [seen_of_some Std.ExtTreeMap.getElem?_insert_self rfl]
      rfl
    refine ⟨hreply _ _ hchange, ?_, fun _ => ⟨_, hstored⟩⟩
    rw [hstored]
    refine iff_of_false (fun heq => ?_) Bool.false_ne_true
    -- the value that was there would have to be a sorted set
    obtain ⟨entry, hseen, hzset⟩ := hwrong
    unfold contents at heq
    rw [hseen, Option.map_some] at heq
    obtain ⟨zset', hzset'⟩ := as_zset_of_value (congrArg Prod.fst (Option.some.inj heq)).symm
    rw [hzset] at hzset'
    cases hzset'
  · have := hok ((zset_at T m key).getD .new)
    rw [herror] at this
    cases this

theorem removal_mistaken (r : Removal F) :
    (r.run key).Wp (may (· = T)) (Mistaken T key true m) m := by
  refine wp_removal_at (fun zset hzset hwrong => ?_) fun _ hwrong => ?_
  · rw [zset_at_of_wrong_type hwrong] at hzset
    cases hzset
  · refine ⟨?_, iff_of_true (congrFun contents_swept key) rfl, nofun⟩
    cases r <;> exact fun h => h

theorem addition_reply (a : Addition F) (zset : ZSetData F) (r : ZSetData F × Reply F)
    (h : a.change zset = .ok r) : ¬ WrongTypeReply (.ok r.2) := by
  cases a with
  | incr member by_ =>
    cases h
    exact fun h => h
  | pairs flags rest =>
    rw [Addition.change] at h
    cases hpairs : zadd_pairs flags rest zset 0 with
    | error e =>
      rw [hpairs] at h
      cases h
    | ok p =>
      rw [hpairs] at h
      cases h
      exact fun h => h

theorem run_addition_mistaken {request : Except Halt (String × Addition F)}
    (h : addition_key request = some key) :
    (run_addition request).Wp (may (· = T)) (Mistaken T key false m) m := by
  cases request with
  | error e => cases h
  | ok request =>
    obtain ⟨key', addition⟩ := request
    have hrequest : (if addition.accepted then some (as_bytes key') else none) = some key := h
    split at hrequest
    · rename_i haccepted
      cases hrequest
      exact upsert_mistaken (fun zset => (addition.change_isOk zset).trans haccepted)
        (addition_reply addition)
    · cases hrequest

theorem run_removal_mistaken {request : Except Halt (String × Removal F)}
    (h : removal_key request = some key) :
    (run_removal request).Wp (may (· = T)) (Mistaken T key true m) m := by
  cases request with
  | error e => cases h
  | ok request =>
    cases h
    exact removal_mistaken request.2

end Types

variable {F : Type} [GeoScore F] {T : Instant} {m : HashMap Bytes (Entry F)} {key : Bytes}

theorem geoadd_reply (flags : GeoFlags) (rest : List Bytes) (zset : ZSetData F)
    (r : ZSetData F × Reply F) (h : geoadd_change flags rest zset = .ok r) :
    ¬ WrongTypeReply (.ok r.2) := by
  unfold geoadd_change at h
  cases hst : geoadd_positions flags rest ⟨zset, 0, 0⟩ with
  | error e =>
    rw [hst] at h
    cases h
  | ok st =>
    rw [hst] at h
    cases h
    exact fun h => h

theorem geoadd_mistaken {args : List Bytes} (h : geoadd_key F args = some key) :
    (geoadd args).Wp (may (· = T)) (Mistaken T key false m) m := by
  rw [geoadd_eq]
  unfold geoadd_key at h
  cases hrequest : geoadd_request args with
  | error e =>
    rw [hrequest] at h
    cases h
  | ok request =>
    obtain ⟨key', flags, rest⟩ := request
    rw [hrequest] at h
    dsimp only at h
    split at h
    · rename_i hreadable
      cases h
      exact upsert_mistaken (fun zset => (geoadd_change_isOk flags rest zset).trans hreadable)
        (geoadd_reply flags rest)
    · cases h

theorem handler_mistaken (c : KeyCommand) (args : List Bytes) (h : c.target F args = some key) :
    (c.handler args).Wp (may (· = T)) (Mistaken T key c.removes m) m := by
  cases c with
  | ZADD =>
    rw [KeyCommand.handler, zadd_eq]
    exact run_addition_mistaken h
  | ZINCRBY =>
    rw [KeyCommand.handler, zincrby_eq]
    exact run_addition_mistaken h
  | GEOADD => exact geoadd_mistaken h
  | ZREM =>
    rw [KeyCommand.handler, zrem_eq]
    exact run_removal_mistaken h
  | ZPOPMIN =>
    rw [KeyCommand.handler, zpopmin, zpop_eq]
    exact run_removal_mistaken h
  | ZPOPMAX =>
    rw [KeyCommand.handler, zpopmax, zpop_eq]
    exact run_removal_mistaken h
  | ZREMRANGEBYRANK =>
    rw [KeyCommand.handler, zremrangebyrank_eq]
    exact run_removal_mistaken h
  | ZREMRANGEBYSCORE =>
    rw [KeyCommand.handler, zremrangebyscore_eq]
    exact run_removal_mistaken h
  | ZREMRANGEBYLEX =>
    rw [KeyCommand.handler, zremrangebylex_eq]
    exact run_removal_mistaken h

/-! ## The result -/

/-- **Type safety of the commands on one sorted set.** It holds of a well-formed command if and only
if the key holds no live value of another type. Where it does, the reply is never WRONGTYPE: the
commands that remove leave the value as it is, and the others store a sorted set in its place. -/
theorem type_safe_iff (c : KeyCommand) (args : List Bytes) (key : Bytes) (T : Instant) (w : World F)
    (h : c.target F args = some key) :
    let run := (c.handler args : StoreM F (Reply F)).run World.step (w.at T)
    (TypeSafe T key w.store.keyspace run.1 run.2.store.keyspace ↔
        ¬ WrongType T w.store.keyspace key) ∧
      Mistaken T key c.removes w.store.keyspace run.1 run.2.store.keyspace := by
  have hrun := run_of_wp (w := w.at T) (handler_mistaken c args h) (w.at_within T)
  refine ⟨⟨fun hsafe hwrong => ?_, fun hnot hwrong => absurd hwrong hnot⟩, hrun⟩
  exact (hrun hwrong).1 (hsafe hwrong).1

/-- A string under the key `k`. -/
def string_at_k : World Resp.Infinity :=
  World.single (as_bytes "k") ⟨.String (as_bytes "v"), none, 0, 1, 1⟩ .still

/-- ZADD on the string. -/
theorem type_safe_iff_zadd :
    let run := (KeyCommand.ZADD.handler [as_bytes "k", as_bytes "inf", as_bytes "m"] :
      StoreM Resp.Infinity (Reply Resp.Infinity)).run World.step (string_at_k.at 0)
    (TypeSafe 0 (as_bytes "k") string_at_k.store.keyspace run.1 run.2.store.keyspace ↔
        ¬ WrongType 0 string_at_k.store.keyspace (as_bytes "k")) ∧
      Mistaken 0 (as_bytes "k") false string_at_k.store.keyspace run.1 run.2.store.keyspace :=
  type_safe_iff .ZADD _ _ _ _ (by decide)

/-- ZADD replies with the number of members it has added, and the string is a sorted set now; ZREM
replies that there was nothing to remove. -/
theorem zadd_replaces_string :
    let zadd := (KeyCommand.ZADD.handler [as_bytes "k", as_bytes "inf", as_bytes "m"] :
      StoreM Resp.Infinity (Reply Resp.Infinity)).run World.step (string_at_k.at 0)
    let zrem := (KeyCommand.ZREM.handler [as_bytes "k", as_bytes "m"] :
      StoreM Resp.Infinity (Reply Resp.Infinity)).run World.step (string_at_k.at 0)
    (seen 0 string_at_k.store.keyspace (as_bytes "k")).isSome = true ∧
      zset_at 0 string_at_k.store.keyspace (as_bytes "k") = none ∧
      zadd.1 = .ok (int 1) ∧
      (zset_at 0 zadd.2.store.keyspace (as_bytes "k")).isSome = true ∧
      zrem.1 = .ok (int 0) := by
  refine ⟨by decide, rfl, rfl, by decide, rfl⟩

end ValkeyRs.TypeSafety
