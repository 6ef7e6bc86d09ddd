/-
What the string commands do to the store, for any contract.

The commands that go through the methods of `Store` and those that edit an entry in place are
granted different things: `Grants` for the first, and `Edits` in addition for the second. Which
arguments of a command are its keys is `keys_of`, and a contract that grants what is needed for
these keys is met by the command (`handle_meets`).
-/
import ValkeyRs.StoreRules
import ValkeyRs.Strings

set_option autoImplicit false

open ValkeyRs Text Storage Zset Prog List

namespace ValkeyRs.Strings

variable {F : Type} [Score F]

/-! ## Keys -/

/-- `args.chunks(2)`, the first of each. -/
def even_args : List Bytes → List Bytes
  | key :: _ :: rest => key :: even_args rest
  | _ => []

def keys_of (name : String) (args : List Bytes) : List Bytes :=
  if name = "MGET" ∨ name = "DEL" then args
  else if name = "MSET" ∨ name = "MSETNX" then even_args args
  else if name = "LCS" then args.take 2
  else args.take 1

def editing : List String :=
  ["INCR", "DECR", "INCRBY", "DECRBY", "INCRBYFLOAT", "APPEND", "SETRANGE", "GETEX"]

/-! ## What a contract has to grant -/

structure Grants (C : Prog.Contract (StoreOp F) StoreOp.Res) (K : Bytes → Prop) : Prop where
  get : ∀ key, K key → (Store.get key).Meets C fun _ => True
  set : ∀ key data ttl, K key → (Store.set key data ttl).Meets C fun _ => True
  del : ∀ key, K key → (Store.del key).Meets C fun _ => True
  notify : ∀ key, K key → (Store.notify_watchers key).Meets C fun _ => True
  evict : (Store.maybe_evict : StoreM F Unit).Meets C fun _ => True
  now : C.asks .now
  unix_time : C.asks .unix_time

/-- Changing entries in place. -/
def Edits (C : Prog.Contract (StoreOp F) StoreOp.Res) (K : Bytes → Prop) : Prop :=
  ∀ key f, K key → C.asks (.access key f)

section Commands

variable {C : Prog.Contract (StoreOp F) StoreOp.Res} {K : Bytes → Prop} (h : Grants C K)

include h

/-! ## One key -/

section Key

variable {key : Bytes} (hk : K key)

include hk

theorem exists_key_meets : (Store.exists_key key).Meets C fun _ => True :=
  .bind (h.get key hk) fun _ _ => trivial

theorem read_string_meets (present : Bytes → Reply F) (absent : Reply F) :
    (read_string key present absent).Meets C fun _ => True := by
  refine .bind (h.get key hk) fun e _ => ?_
  cases e with
  | none => trivial
  | some entry =>
    dsimp only
    split <;> trivial

theorem lcs_fetch_meets : (lcs_fetch key).Meets C fun _ => True := by
  refine .bind (h.get key hk) fun e _ => ?_
  split <;> trivial

theorem ttl_until_meets (unit ts : ℕ) : (ttl_until key unit ts).Meets C fun _ => True := by
  refine .bind (call_meets h.unix_time) fun now _ => ?_
  refine .ite (fun _ => trivial) fun _ => ?_
  exact .bind (h.del key hk) fun _ _ => trivial

theorem set_options_meets (args : List Bytes) (opts : SetOptions) :
    (set_options key args opts).Meets C fun _ => True := by
  fun_induction set_options (F := F) key args opts with
  | case5 opts opt name hname unit number rest n hn hexp ih =>
    refine .bind (ttl_until_meets h hk unit n) fun ttl _ => ?_
    cases ttl with
    | none => trivial
    | some ttl => exact ih ttl
  | _ => trivial

theorem set_with_meets (value : Bytes) (opts : SetOptions) :
    (set_with key value opts).Meets C fun _ => True := by
  refine .bind (exists_key_meets h hk) fun key_exists _ => ?_
  refine .ite (fun _ => ?_) fun _ => .ite (fun _ => trivial) fun _ => ?_
  · exact .ite (fun _ => read_string_meets h hk _ _) fun _ => trivial
  · have hold : (old_value key opts.get : StoreM F (Option Bytes)).Meets C fun _ => True :=
      .ite (fun _ => .bind (h.get key hk) fun _ _ => trivial)
        fun _ => trivial
    refine .bind hold fun old _ => ?_
    refine .bind h.evict fun _ _ => ?_
    exact .bind (h.set key _ _ hk) fun _ _ => trivial

theorem getex_value_meets : (getex_value key).Meets C fun _ => True := by
  refine .bind (h.get key hk) fun e _ => ?_
  cases e with
  | none => trivial
  | some entry =>
    dsimp only
    split <;> trivial

/-! Editing in place. -/

variable (he : Edits C K)

include he

theorem insert_string_meets (value : Bytes) : (insert_string key value).Meets C fun _ => True := by
  refine .bind (call_meets h.now) fun now _ => ?_
  refine .lift_bind fun entry _ => ?_
  exact .bind (call_meets (he key _ hk)) fun _ _ => trivial

omit h in
theorem edit_meets (f : Bytes → Option Bytes × Except Halt (Reply F)) {absent : StoreM F (Reply F)}
    (habsent : absent.Meets C fun _ => True) :
    (edit key f absent).Meets C fun _ => True := by
  refine .bind (call_meets (he key _ hk)) fun e _ => ?_
  cases e with
  | none => exact habsent
  | some entry =>
    dsimp only
    split
    · rename_i s _
      cases (f s).2 <;> trivial
    · trivial

theorem cmd_incrby_internal_meets (increment : Int64) :
    (cmd_incrby_internal key increment).Meets C fun _ => True :=
  edit_meets hk he _ (.bind (insert_string_meets h hk he _) fun _ _ => trivial)

theorem getex_option_meets (opts : List Bytes) : (getex_option key opts).Meets C fun _ => True := by
  unfold getex_option
  split
  · trivial
  · split
    · trivial
    · split
      · split
        · trivial
        · refine .ite (fun _ => ?_) fun _ => trivial
          refine .bind (ttl_until_meets h hk _ _) fun ttl _ => ?_
          cases ttl <;> trivial
      · refine .ite (fun _ => ?_) fun _ => .ite (fun _ => trivial) fun _ => trivial
        exact .bind (call_meets (he key _ hk)) fun _ _ => trivial

end Key

/-! ## Several keys -/

theorem mget_values_meets {keys : List Bytes} (hk : ∀ b ∈ keys, K b) :
    (mget_values keys).Meets C fun _ => True := by
  induction keys with
  | nil => trivial
  | cons key keys ih =>
    refine .bind (h.get key (hk key mem_cons_self)) fun e _ => ?_
    refine .bind (ih fun b hb => hk b (mem_cons_of_mem _ hb)) fun _ _ => trivial

theorem cmd_lcs_meets {args : List Bytes} (hk : ∀ b ∈ args.take 2, K b) :
    (cmd_lcs args).Meets C fun _ => True := by
  unfold cmd_lcs
  split
  · rename_i key1 key2 opts
    split
    · trivial
    · refine .ite (fun _ => trivial) fun _ => ?_
      refine .bind (lcs_fetch_meets h (hk key1 (by simp))) fun a _ => ?_
      cases a with
      | error reply => trivial
      | ok a =>
        refine .bind (lcs_fetch_meets h (hk key2 (by simp))) fun b _ => ?_
        cases b <;> trivial
  · trivial

theorem del_keys_meets {keys : List Bytes} (hk : ∀ b ∈ keys, K b) (count : ℕ) :
    (del_keys keys count).Meets C fun _ => True := by
  induction keys generalizing count with
  | nil => trivial
  | cons key keys ih =>
    refine .bind (h.del key (hk key mem_cons_self)) fun found _ => ?_
    exact ih (fun b hb => hk b (mem_cons_of_mem _ hb)) _

section Pairs

variable {args : List Bytes} (hk : ∀ b ∈ even_args args, K b)

include hk

theorem set_pairs_meets : (set_pairs args).Meets C fun _ => True := by
  induction args using List.twoStepInduction with
  | nil | singleton => trivial
  | cons_cons key value rest ih =>
    refine .bind (h.set key _ _ (hk key mem_cons_self)) fun _ _ => ?_
    exact ih fun b hb => hk b (mem_cons_of_mem _ hb)

theorem any_exists_meets : (any_exists args).Meets C fun _ => True := by
  induction args using List.twoStepInduction with
  | nil | singleton => trivial
  | cons_cons key value rest ih =>
    refine .bind (exists_key_meets h (hk key mem_cons_self)) fun found _ => ?_
    refine .ite (fun _ => trivial) fun _ => ?_
    exact ih fun b hb => hk b (mem_cons_of_mem _ hb)

theorem cmd_mset_meets : (cmd_mset args).Meets C fun _ => True := by
  refine .ite (fun _ => trivial) fun _ => ?_
  exact .bind (set_pairs_meets h hk) fun _ _ => trivial

theorem cmd_msetnx_meets : (cmd_msetnx args).Meets C fun _ => True := by
  refine .ite (fun _ => trivial) fun _ => ?_
  refine .bind (any_exists_meets h hk) fun found _ => ?_
  refine .ite (fun _ => trivial) fun _ => ?_
  exact .bind (set_pairs_meets h hk) fun _ _ => trivial

end Pairs

/-! ## The key is the first argument -/

section First

variable {args : List Bytes} (hk : ∀ b ∈ args.take 1, K b)

include hk

theorem cmd_getrange_meets : (cmd_getrange args).Meets C fun _ => True := by
  unfold cmd_getrange
  split
  · split
    · exact read_string_meets h (hk _ mem_cons_self) _ _
    · trivial
  · trivial

theorem cmd_set_meets : (cmd_set args).Meets C fun _ => True := by
  unfold cmd_set
  split
  · rename_i key value opts
    have hkey : K key := hk key mem_cons_self
    refine .bind (set_options_meets h hkey _ _) fun r _ => ?_
    cases r with
    | error reply => trivial
    | ok opts => exact set_with_meets h hkey value opts
  · trivial

theorem cmd_getset_meets : (cmd_getset args).Meets C fun _ => True := by
  unfold cmd_getset
  split
  · rename_i key value
    have hkey : K key := hk key mem_cons_self
    refine .bind (h.get key hkey) fun e _ => ?_
    cases e with
    | none => exact .bind (h.set key _ _ hkey) fun _ _ => trivial
    | some entry =>
      dsimp only
      split
      · exact .bind (h.set key _ _ hkey) fun _ _ => trivial
      · refine .bind (h.notify key hkey) fun _ _ => ?_
        exact .bind (call_meets h.now) fun _ _ => trivial
  · trivial

theorem cmd_setnx_meets : (cmd_setnx args).Meets C fun _ => True := by
  unfold cmd_setnx
  split
  · rename_i key value
    have hkey : K key := hk key mem_cons_self
    refine .bind (exists_key_meets h hkey) fun found _ => ?_
    refine .ite (fun _ => trivial) fun _ => ?_
    exact .bind (h.set key _ _ hkey) fun _ _ => trivial
  · trivial

theorem setex_meets (cmd : String) (unit : ℕ) : (setex cmd unit args).Meets C fun _ => True := by
  unfold setex
  split
  · rename_i key time value
    split
    · exact .bind (h.set key _ _ (hk key mem_cons_self)) fun _ _ => trivial
    · trivial
  · trivial

theorem cmd_getdel_meets : (cmd_getdel args).Meets C fun _ => True := by
  unfold cmd_getdel
  split
  · rename_i key
    have hkey : K key := hk key mem_cons_self
    refine .bind (h.get key hkey) fun e _ => ?_
    refine .bind (h.del key hkey) fun _ _ => ?_
    split <;> trivial
  · trivial

variable (he : Edits C K)

include he

theorem incr_meets (cmd : String) (by_ : Int64) : (incr cmd by_ args).Meets C fun _ => True := by
  unfold incr
  split
  · exact cmd_incrby_internal_meets h (hk _ mem_cons_self) he _
  · trivial

theorem incrby_meets (cmd : String) (sign : Int64 → Int64) :
    (incrby cmd sign args).Meets C fun _ => True := by
  unfold incrby
  split
  · split
    · exact cmd_incrby_internal_meets h (hk _ mem_cons_self) he _
    · trivial
  · trivial

theorem cmd_incrbyfloat_meets : (cmd_incrbyfloat args).Meets C fun _ => True := by
  unfold cmd_incrbyfloat
  split
  · rename_i key by_
    have hkey : K key := hk key mem_cons_self
    split
    · trivial
    · exact edit_meets hkey he _
        (.bind (insert_string_meets h hkey he _) fun _ _ => trivial)
  · trivial

theorem cmd_append_meets : (cmd_append args).Meets C fun _ => True := by
  unfold cmd_append
  split
  · rename_i key value
    have hkey : K key := hk key mem_cons_self
    exact edit_meets hkey he _
      (.bind (insert_string_meets h hkey he _) fun _ _ => trivial)
  · trivial

theorem cmd_setrange_meets : (cmd_setrange args).Meets C fun _ => True := by
  unfold cmd_setrange
  split
  · rename_i key offset value
    have hkey : K key := hk key mem_cons_self
    split
    · trivial
    · refine .ite (fun _ => trivial) fun _ => .ite (fun _ => ?_) fun _ => ?_
      · exact edit_meets hkey he _ trivial
      · exact edit_meets hkey he _
          (.bind (insert_string_meets h hkey he _) fun _ _ => trivial)
  · trivial

theorem cmd_getex_meets : (cmd_getex args).Meets C fun _ => True := by
  unfold cmd_getex
  split
  · rename_i key opts
    have hkey : K key := hk key mem_cons_self
    refine .ite (fun _ => trivial) fun _ => ?_
    refine .bind (h.get key hkey) fun e _ => ?_
    split
    · refine .bind (getex_option_meets h hkey he opts) fun r _ => ?_
      split
      · trivial
      · exact getex_value_meets h hkey
      · refine .bind (h.get key hkey) fun e _ => ?_
        split
        · exact .bind (h.set key _ _ hkey) fun _ _ => getex_value_meets h hkey
        · trivial
    · trivial
    · trivial
  · trivial

end First

/-! ## The commands by name -/

/-- A command is met by every contract that grants it its keys, for editing in place if it is one
of those that do. -/
theorem handle_meets {name : String} {args : List Bytes}
    (he : name ∈ editing → Edits C K) (hk : ∀ b ∈ keys_of name args, K b) :
    (handle name args).Meets C fun _ => True := by
  unfold handle
  split
  · unfold cmd_get
    split
    · exact read_string_meets h (hk _ mem_cons_self) _ _
    · trivial
  · exact cmd_set_meets h hk
  · refine .ite (fun _ => trivial) fun _ => ?_
    exact .bind (del_keys_meets h hk 0) fun _ _ => trivial
  · exact cmd_getset_meets h hk
  · refine .ite (fun _ => trivial) fun _ => ?_
    exact .bind (mget_values_meets h hk) fun _ _ => trivial
  · exact cmd_mset_meets h hk
  · exact cmd_msetnx_meets h hk
  · exact incr_meets h hk (he (by decide)) _ _
  · exact incr_meets h hk (he (by decide)) _ _
  · exact incrby_meets h hk (he (by decide)) _ _
  · exact incrby_meets h hk (he (by decide)) _ _
  · exact cmd_incrbyfloat_meets h hk (he (by decide))
  · exact cmd_append_meets h hk (he (by decide))
  · unfold cmd_strlen
    split
    · exact read_string_meets h (hk _ mem_cons_self) _ _
    · trivial
  · exact cmd_getrange_meets h hk
  · exact cmd_setrange_meets h hk (he (by decide))
  · exact cmd_setnx_meets h hk
  · exact setex_meets h hk _ _
  · exact setex_meets h hk _ _
  · exact cmd_getex_meets h hk (he (by decide))
  · exact cmd_getdel_meets h hk
  · exact cmd_lcs_meets h hk
  · trivial

end Commands

end ValkeyRs.Strings
