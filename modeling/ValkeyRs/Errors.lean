/-
What an error reply leaves behind: the string, list and set commands.

Almost every command looks at everything that can make it fail before it changes anything. Three
do not. GETDEL deletes the key before it looks at the type of the value. LMOVE, and RPOPLPUSH which
is made of it, take the element from the source before they look at the destination, and so does
SMOVE with the member. `Spoils` says when that shows, and for every other command, argument list
and store an error leaves the live contents as they were.
-/
import ValkeyRs.ErrorRules
import ValkeyRs.Lists
import ValkeyRs.Sets

set_option autoImplicit false

open ValkeyRs Text Storage Zset Strings Maps Option

namespace ValkeyRs.Errors

variable {F : Type} [Score F] {T : Instant}

/-- An error reply leaves the live contents as they were. -/
abbrev Harmless (T : Instant) (p : StoreM F (Reply F)) : Prop :=
  Safe T (fun reply => is_error reply = true) p

/-- The reply, if there is one, is no error. -/
abbrev Succeeds (p : StoreM F (Reply F)) : Prop := Clean (fun reply => is_error reply = true) p

/-! ## Strings -/

section Strings

theorem succeeds_pure {reply : Reply F} (h : is_error reply = false) :
    Succeeds (F := F) (pure reply) :=
  .pure (by rw [h]; exact Bool.false_ne_true)

theorem read_string_harmless (key : Bytes) (present : Bytes → Reply F) (absent : Reply F) :
    Harmless T (read_string key present absent) := by
  refine (Safe.get key).after fun e => ?_
  cases e with
  | none => exact .pure _
  | some entry =>
    dsimp only
    split <;> exact .pure _

variable (args : List Bytes)

theorem cmd_getrange_harmless : Harmless (F := F) T (cmd_getrange args) := by
  unfold cmd_getrange
  split
  · split
    · exact read_string_harmless _ _ _
    · exact .pure _
  · exact .pure _

theorem mget_values_quiet (keys : List Bytes) : Quiet (F := F) (mget_values keys) := by
  induction keys with
  | nil => exact .pure fun h => h
  | cons key keys ih => exact .bind (.get key) fun _ => .bind ih fun _ => .pure fun h => h

theorem cmd_mget_harmless : Harmless (F := F) T (cmd_mget args) := by
  refine Safe.ite (fun _ => Safe.pure _) fun _ => Clean.safe ?_
  exact Clean.bind (mget_values_quiet args) fun _ => succeeds_pure rfl

/-! ### SET and its relatives -/

variable (key : Bytes)

/-- EXAT and PXAT: nothing is deleted where there is time left. -/
theorem ttl_until_safe (unit ts : ℕ) :
    Safe T (fun ttl => ttl ≠ none) (ttl_until key unit ts : StoreM F (Option Duration)) := by
  refine Safe.unix_time.after fun now => Safe.ite (fun _ => Safe.pure _) fun _ => Clean.safe ?_
  exact Clean.bind (Clean.del key) fun _ => Clean.pure fun h => h rfl

/-- The options: what is deleted on the way shows in a reply that is no error. -/
def Unspent {α : Type} (r : Except (Reply F) α) : Prop := ∀ reply, r = .error reply → is_error reply = true

theorem set_options_safe (args : List Bytes) (opts : SetOptions) :
    Safe T Unspent (set_options key args opts : StoreM F (Except (Reply F) SetOptions)) := by
  fun_induction set_options (F := F) key args opts with
  | case5 opts opt name hname unit number rest n hn hexp ih =>
    refine (ttl_until_safe key unit n).bind (fun ttl httl => ?_) fun ttl httl => ?_
    · cases ttl with
      | none => exact absurd rfl httl
      | some ttl => exact ih ttl
    · rw [not_not.mp httl]
      refine .pure fun h => ?_
      cases h null_bulk rfl
  | case6 | case7 | case8 | case9 | case10 => assumption
  | _ => exact .pure _

theorem set_with_harmless (key value : Bytes) (opts : SetOptions) :
    Harmless (F := F) T (set_with key value opts) := by
  refine (Safe.exists_key key).after fun key_exists => ?_
  refine Safe.ite (fun _ => ?_) fun _ => Safe.ite (fun _ => Safe.pure _) fun _ => ?_
  · exact .ite (fun _ => read_string_harmless _ _ _) fun _ => .pure _
  · have hold : Reads T (old_value key opts.get : StoreM F (Option Bytes)) :=
      Safe.ite (fun _ => (Safe.get key).after fun _ => Safe.pure _) fun _ => Safe.pure _
    -- an error comes from the eviction, or not at all
    refine hold.after fun old => maybe_evict_safe.bind (fun _ h => h.elim) fun _ _ => ?_
    refine .bind (.set key _ _) fun _ => succeeds_pure ?_
    split <;> rfl

theorem cmd_set_harmless : Harmless (F := F) T (cmd_set args) := by
  unfold cmd_set
  split
  · refine (set_options_safe _ _ _).bind (fun r hr => ?_) fun r hr => ?_
    · cases r with
      | error reply => exact .pure _
      | ok opts => exact set_with_harmless _ _ opts
    · cases r with
      | error reply =>
        refine .pure fun herror => hr fun reply' h => ?_
        cases h
        exact herror
      | ok opts => exact absurd (fun _ h => nomatch h) hr
  · exact .pure _

theorem set_succeeds {key : Bytes} {data : DataType F} {ttl : Option Duration} {reply : Reply F}
    (h : is_error reply = false) :
    Succeeds (do
      Store.set key data ttl
      return reply : StoreM F (Reply F)) :=
  .bind (.set key data ttl) fun _ => succeeds_pure h

theorem del_keys_quiet (keys : List Bytes) (count : ℕ) : Quiet (F := F) (del_keys keys count) := by
  induction keys generalizing count with
  | nil => exact .pure fun h => h
  | cons key keys ih => exact .bind (.del key) fun _ => ih _

theorem cmd_del_harmless : Harmless (F := F) T (cmd_del args) :=
  .ite (fun _ => .pure _) fun _ =>
    Clean.safe (Clean.bind (del_keys_quiet args 0) fun _ => succeeds_pure rfl)

theorem cmd_getset_harmless : Harmless (F := F) T (cmd_getset args) := by
  unfold cmd_getset
  split
  · refine (Safe.get _).after fun e => ?_
    cases e with
    | none => exact (set_succeeds rfl).safe
    | some entry =>
      dsimp only
      split
      · exact (set_succeeds rfl).safe
      · refine Clean.safe (Clean.bind (Clean.call _) fun _ => Clean.bind (Clean.call _) fun _ => ?_)
        exact Clean.deadlock
  · exact .pure _

theorem set_pairs_quiet : Quiet (F := F) (set_pairs args) := by
  fun_induction set_pairs (F := F) args with
  | case1 key value rest ih => exact .bind (.set key _ _) fun _ => ih
  | case2 args hargs => exact .pure fun h => h

theorem any_exists_quiet : Quiet (F := F) (any_exists args) := by
  fun_induction any_exists (F := F) args with
  | case1 key value rest ih =>
    refine .bind (.exists_key key) fun b => .ite (fun _ => ?_) fun _ => ih
    exact .pure fun h => h
  | case2 args hargs => exact .pure fun h => h

theorem cmd_mset_harmless : Harmless (F := F) T (cmd_mset args) :=
  .ite (fun _ => .pure _) fun _ =>
    Clean.safe (Clean.bind (set_pairs_quiet args) fun _ => succeeds_pure rfl)

theorem cmd_msetnx_harmless : Harmless (F := F) T (cmd_msetnx args) := by
  refine Safe.ite (fun _ => Safe.pure _) fun _ => Clean.safe ?_
  refine Clean.bind (any_exists_quiet args) fun b => Clean.ite (fun _ => succeeds_pure rfl) fun _ => ?_
  exact .bind (set_pairs_quiet args) fun _ => succeeds_pure rfl

theorem cmd_setnx_harmless : Harmless (F := F) T (cmd_setnx args) := by
  unfold cmd_setnx
  split
  · refine (Safe.exists_key _).after fun b => Safe.ite (fun _ => Safe.pure _) fun _ => ?_
    exact (set_succeeds rfl).safe
  · exact .pure _

theorem setex_harmless (cmd : String) (unit : ℕ) (args : List Bytes) :
    Harmless (F := F) T (setex cmd unit args) := by
  unfold setex
  split
  · split
    · exact (set_succeeds rfl).safe
    · exact .pure _
  · exact .pure _

/-! ### GETEX -/

theorem getex_option_safe (opts : List Bytes) :
    Safe T (fun r => ∃ reply, r = .error reply ∧ is_error reply = true)
      (getex_option key opts : StoreM F (Except (Reply F) (Option Duration))) := by
  unfold getex_option
  split
  · exact .pure _
  · split
    · exact .pure _
    · split
      · split
        · exact .pure _
        · refine .ite (fun _ => ?_) fun _ => .pure _
          refine (ttl_until_safe key _ _).bind (fun ttl httl => ?_) fun ttl httl => ?_
          · cases ttl with
            | none => exact .pure _
            | some ttl => exact .pure _
          · rw [not_not.mp httl]
            refine .pure ?_
            rintro ⟨reply, h, herror⟩
            cases h
            cases herror
      · refine .ite (fun _ => ?_) fun _ => .ite (fun _ => .pure _) fun _ => .pure _
        refine Clean.safe (Clean.bind (Clean.call _) fun _ => Clean.pure ?_)
        rintro ⟨reply, h, -⟩
        cases h

theorem getex_value_succeeds : Succeeds (F := F) (getex_value key) := by
  refine .bind (.get key) fun e => ?_
  cases e with
  | none => exact succeeds_pure rfl
  | some entry =>
    dsimp only
    split
    · exact succeeds_pure rfl
    · exact .panic

theorem cmd_getex_harmless : Harmless (F := F) T (cmd_getex args) := by
  unfold cmd_getex
  split
  · rename_i key opts
    refine Safe.ite (fun _ => Safe.pure _) fun _ => (Safe.get key).after fun e => ?_
    split
    · refine (getex_option_safe key opts).bind (fun r hr => ?_) fun r hr => ?_
      · obtain ⟨reply, rfl, -⟩ := hr
        exact .pure _
      · cases r with
        | error reply => exact .pure fun herror => hr ⟨reply, rfl, herror⟩
        | ok ttl =>
          cases ttl with
          | none => exact getex_value_succeeds key
          | some ttl =>
            refine .bind (.get key) fun e => ?_
            split
            · exact .bind (.set key _ _) fun _ => getex_value_succeeds key
            · exact succeeds_pure rfl
    · exact .pure _
    · exact .pure _
  · exact .pure _

/-! ### Editing in place -/

theorem edit_harmless {key : Bytes} {f : Bytes → Option Bytes × Except Halt (Reply F)}
    {absent : StoreM F (Reply F)} (hf : ∀ s, (f s).1 = none ∨ ¬ Failed (f s).2)
    (habsent : Harmless T absent) : Harmless T (edit key f absent) := by
  intro m
  refine wp_access.mpr ?_
  cases he : m[key]? with
  | none =>
    rw [alter_eq_self (by rw [he]; rfl)]
    exact habsent m
  | some entry =>
    dsimp only
    cases hdata : entry.data with
    | String s =>
      have hlift : ∀ {Q : Except Halt (Reply F) → HashMap Bytes (Entry F) → Prop} {m'},
          Q (f s).2 m' → (liftM (f s).2 : StoreM F (Reply F)).Wp (may (· = T)) Q m' := by
        intro Q m' h
        cases hreply : (f s).2 <;> rw [hreply] at h <;> exact h
      refine hlift fun hfault => ?_
      rcases hf s with hsame | hfine
      · -- nothing is written
        refine contents_alter_map fun e he' => ?_
        rw [he] at he'
        cases he'
        unfold edit_entry
        rw [hdata]
        dsimp only
        rw [hsame]
      · exact absurd hfault hfine
    | List | Hash | Set | ZSet | Stream | ListPack | IntSet =>
      intro _
      refine contents_alter_map fun e he' => ?_
      rw [he] at he'
      cases he'
      unfold edit_entry
      rw [hdata]

theorem insert_string_succeeds (key value : Bytes) {reply : Reply F} (h : is_error reply = false) :
    Succeeds (do
      insert_string key value
      return reply : StoreM F (Reply F)) := by
  refine .bind ?_ fun _ => succeeds_pure h
  refine .bind (.call _) fun now => .bind (.entry_new _ _ now) fun _ => ?_
  exact .bind (.call _) fun _ => .pure fun h => h

theorem cmd_incrby_internal_harmless (increment : Int64) :
    Harmless (F := F) T (cmd_incrby_internal key increment) := by
  refine edit_harmless (fun s => ?_) (insert_string_succeeds _ _ rfl).safe
  cases parse_i64 s with
  | none => exact .inl rfl
  | some current => exact .inr Bool.false_ne_true

theorem incr_harmless (cmd : String) (by_ : Int64) (args : List Bytes) :
    Harmless (F := F) T (incr cmd by_ args) := by
  unfold incr
  split
  · exact cmd_incrby_internal_harmless _ _
  · exact .pure _

theorem incrby_harmless (cmd : String) (sign : Int64 → Int64) (args : List Bytes) :
    Harmless (F := F) T (incrby cmd sign args) := by
  unfold incrby
  split
  · split
    · exact cmd_incrby_internal_harmless _ _
    · exact .pure _
  · exact .pure _

theorem cmd_incrbyfloat_harmless : Harmless (F := F) T (cmd_incrbyfloat args) := by
  unfold cmd_incrbyfloat
  split
  · split
    · exact .pure _
    · refine edit_harmless (fun s => ?_) (insert_string_succeeds _ _ rfl).safe
      cases (parse_f64 s : Option F) with
      | none => exact .inl rfl
      | some current => exact .inr Bool.false_ne_true
  · exact .pure _

theorem cmd_append_harmless : Harmless (F := F) T (cmd_append args) := by
  unfold cmd_append
  split
  · exact edit_harmless (fun s => .inr Bool.false_ne_true) (insert_string_succeeds _ _ rfl).safe
  · exact .pure _

theorem cmd_setrange_harmless : Harmless (F := F) T (cmd_setrange args) := by
  unfold cmd_setrange
  split
  · split
    · exact .pure _
    · refine .ite (fun _ => .pure _) fun _ => .ite (fun _ => ?_) fun _ => ?_
      · exact edit_harmless (fun s => .inl rfl) (.fail _)
      · refine edit_harmless (fun s => .inr Bool.false_ne_true) ?_
        exact (insert_string_succeeds _ _ rfl).safe
  · exact .pure _

theorem cmd_lcs_harmless : Harmless (F := F) T (cmd_lcs args) := by
  have hfetch : ∀ key, Reads T (lcs_fetch key : StoreM F (Except (Reply F) Bytes)) := by
    intro key
    refine (Safe.get key).after fun e => ?_
    split <;> exact Safe.pure _
  unfold cmd_lcs
  split
  · split
    · exact .pure _
    · refine .ite (fun _ => .pure _) fun _ => (hfetch _).after fun a => ?_
      cases a with
      | error reply => exact .pure _
      | ok a =>
        refine (hfetch _).after fun b => ?_
        cases b <;> exact .pure _
  · exact .pure _

end Strings

/-! ## Lists -/

section Lists

open ValkeyRs.Lists ValkeyRs.Collections

variable {f : List Bytes → List Bytes}

theorem edit_list_of_not_list {e : Entry F} (h : e.data.as_list = none) : edit_list f e = e := by
  unfold edit_list
  rw [h]

theorem edit_list_view {e : Entry F} {l : List Bytes}
    (h : e.data.as_list = some l) (hf : f l = l) : (edit_list f e).view = e.view := by
  unfold edit_list
  rw [h]
  dsimp only
  rw [hf]
  unfold Entry.view
  rw [DataType.as_list_eq_some.mp h]
  rfl

theorem contents_edit_list {m : HashMap Bytes (Entry F)} {key : Bytes}
    (h : ∀ e l, m[key]? = some e → e.data.as_list = some l → f l = l) :
    contents T (m.alter key (·.map (edit_list f))) = contents T m := by
  refine contents_alter_map fun e he => ?_
  cases hl : e.data.as_list with
  | none => rw [edit_list_of_not_list hl]
  | some l => exact edit_list_view hl (h e l he hl)

theorem with_list_harmless {key : Bytes}
    {found : List Bytes → StoreM F (Reply F)} {absent : Reply F}
    (h : ∀ l, Succeeds (found l) ∨ f l = l ∧ Harmless T (found l)) :
    Harmless T (with_list key f found absent) := by
  intro m
  refine wp_access.mpr ?_
  cases he : m[key]? with
  | none =>
    intro _
    rw [alter_eq_self (by rw [he]; rfl)]
  | some e =>
    dsimp only
    cases hl : e.data.as_list with
    | none =>
      intro _
      refine contents_edit_list fun e' l' he' hl' => ?_
      rw [he] at he'
      cases he'
      cases hl.symm.trans hl'
    | some l =>
      rcases h l with hfine | ⟨hsame, hsafe⟩
      · exact (hfine.wp _ _).mono fun r m' hr hfault => absurd hfault hr
      · refine (hsafe _).mono fun r m' hr hfault => ?_
        rw [hr hfault]
        refine contents_edit_list fun e' l' he' hl' => ?_
        rw [he] at he'
        cases he'
        cases hl.symm.trans hl'
        exact hsame

theorem push_with_harmless (cmd : String) (front : Bool) (args : List Bytes) :
    Harmless (F := F) T (push_with cmd front args) := by
  unfold push_with
  split
  · rename_i key value rest
    intro m
    refine wp_now.mpr fun now _ => wp_access.mpr ?_
    split
    · refine ((Clean.bind (Clean.call _) fun _ => succeeds_pure rfl).wp _ _).mono ?_
      exact fun r m' hr hfault => absurd hfault hr
    · rename_i hpush
      intro _
      cases he : m[key]? with
      | none =>
        rw [he] at hpush
        cases hpush
      | some e =>
        rw [he] at hpush
        refine contents_alter ?_
        rw [he, getD_some]
        unfold push_entry contents seen
        rw [he]
        rw [getD_some] at hpush
        rw [hpush]
  · exact .pure _

variable (args : List Bytes)

theorem pushx_harmless (left : Bool) : Harmless (F := F) T (pushx args left) := by
  unfold pushx
  split
  · refine (Safe.get _).after fun e => ?_
    cases e with
    | none => exact Safe.pure _
    | some entry =>
      refine Safe.ite (fun _ => ?_) fun _ => Safe.pure _
      exact Safe.ite (fun _ => push_with_harmless _ _ _) fun _ => push_with_harmless _ _ _
  · exact .pure _

theorem remove_if_quiet (empty : Bool) (key : Bytes) : Quiet (F := F) (remove_if empty key) :=
  .ite (fun _ => .bind (.call _) fun _ => .pure fun h => h) fun _ =>
    .pure fun h => h

omit [Score F] in
theorem popped_reply_not_error (vs : List Bytes) : is_error (popped_reply vs : Reply F) = false := by
  unfold popped_reply
  split <;> rfl

theorem pop_with_harmless (cmd : String) (front : Bool) (args : List Bytes) :
    Harmless (F := F) T (pop_with cmd front args) := by
  unfold pop_with
  split
  · exact .pure _
  · split
    · exact .pure _
    · refine with_list_harmless fun l => .inl ?_
      refine .ite (fun _ => succeeds_pure rfl) fun _ => ?_
      exact .bind (remove_if_quiet _ _) fun _ => succeeds_pure (popped_reply_not_error _)

theorem read_list_harmless (key : Bytes) (present : DataType F → Option (Reply F))
    (absent : Reply F) : Harmless T (read_list key present absent) := by
  refine (Safe.read key).after fun e => ?_
  cases e <;> exact Safe.pure _

theorem lr_harmless : Harmless (F := F) T (lr args) := by
  unfold lr
  split
  · split
    · exact read_list_harmless _ _ _
    · exact .pure _
  · exact .pure _

theorem ll_harmless : Harmless (F := F) T (ll args) := by
  unfold ll
  split
  · exact read_list_harmless _ _ _
  · exact .pure _

theorem li_harmless : Harmless (F := F) T (li args) := by
  unfold li
  split
  · split
    · exact read_list_harmless _ _ _
    · exact .pure _
  · exact .pure _

theorem lpos_harmless : Harmless (F := F) T (lpos args) := by
  unfold lpos
  split
  · split
    · exact .pure _
    · exact read_list_harmless _ _ _
  · exact .pure _

/-- LSET writes nothing behind the end of the list. -/
theorem ls_harmless : Harmless (F := F) T (ls args) := by
  unfold ls
  split
  · split
    · exact .pure _
    · rename_i idx _
      refine with_list_harmless fun l => ?_
      by_cases hout : ni idx.toInt l.length ≥ l.length
      · refine .inr ⟨List.set_eq_of_length_le ?_, .ite (fun _ => .pure _) fun _ => .pure _⟩
        omega
      · rw [if_neg hout]
        exact .inl (succeeds_pure rfl)
  · exact .pure _

theorem lins_harmless : Harmless (F := F) T (lins args) := by
  unfold lins
  split
  · split
    · exact .pure _
    · refine with_list_harmless fun l => .inl ?_
      exact .ite (fun _ => succeeds_pure rfl) fun _ => succeeds_pure rfl
  · exact .pure _

theorem lre_harmless : Harmless (F := F) T (lre args) := by
  unfold lre
  split
  · split
    · exact .pure _
    · refine with_list_harmless fun l => .inl ?_
      exact .bind (remove_if_quiet _ _) fun _ => succeeds_pure rfl
  · exact .pure _

theorem ltr_harmless : Harmless (F := F) T (ltr args) := by
  unfold ltr
  split
  · split
    · exact with_list_harmless fun l => .inl (succeeds_pure rfl)
    · exact .pure _
  · exact .pure _

/-! ### Several keys, and blocking -/

omit [Score F] in
theorem left_nil (front : Bool) (n : ℕ) : Lists.left front n [] = [] := by
  unfold Lists.left
  cases front <;> simp

theorem pop_keys_safe (front : Bool) (count : ℕ) (keys : List Bytes) :
    Safe T (fun r => r = none)
      (pop_keys front count keys : StoreM F (Option (Bytes × List Bytes))) := by
  induction keys with
  | nil => exact .pure _
  | cons key keys ih =>
    intro m
    refine wp_access.mpr ?_
    split
    · refine Prog.Wp.mono (Clean.wp ?_ _ _) fun r m' hr hfault => absurd hfault hr
      exact Clean.bind (remove_if_quiet _ _) fun _ => Clean.pure nofun
    · rename_i hnone
      refine (ih _).mono fun r m' hr hfault => (hr hfault).trans ?_
      refine contents_edit_list fun e l he hl => ?_
      cases l with
      | nil => exact left_nil front count
      | cons v l =>
        refine absurd ?_ (hnone v l)
        rw [he]
        exact hl

theorem lmpop_harmless : Harmless (F := F) T (lmpop args) := by
  refine .ite (fun _ => .pure _) fun _ => ?_
  split
  · exact .pure _
  · exact .fail _
  · refine (pop_keys_safe _ _ _).bind (fun r _ => .pure _) fun r hr => ?_
    cases r with
    | none => exact absurd rfl hr
    | some popped => exact succeeds_pure rfl

/-- Nothing has happened yet, or it is an error. -/
def Pending (r : Option (Reply F)) : Prop := ∀ reply, r = some reply → is_error reply = true

theorem block_forever_safe {attempt : StoreM F (Option (Reply F))} (h : Safe T Pending attempt)
    (turns : ℕ) : Safe T Pending (block_forever attempt turns) := by
  induction turns with
  | zero => exact .pure _
  | succ turns ih =>
    refine h.bind (fun r _ => ?_) fun r hr => ?_
    · cases r with
      | none => exact ih
      | some reply => exact .pure _
    · cases r with
      | none => exact absurd (fun _ h => nomatch h) hr
      | some reply => exact .pure hr

theorem watch_all_reads (keys : List Bytes) : Reads (F := F) T (watch_all keys) := by
  induction keys with
  | nil => exact .pure _
  | cons key keys ih => exact (Safe.watch key).after fun _ => ih

omit [Score F] in
theorem not_error_of_not_pending {reply : Reply F} (h : ¬ Pending (some reply)) :
    is_error reply = false := by
  refine Bool.eq_false_iff.mpr fun herror => h fun reply' h' => ?_
  cases h'
  exact herror

theorem blocking_harmless (keys : List Bytes) {attempt : StoreM F (Option (Reply F))}
    (h : Safe T Pending attempt) (timeout : Timeout) :
    Harmless T (blocking keys attempt timeout) := by
  -- an attempt either has done nothing so far, or it has come to a reply
  have hended : ∀ r : Option (Reply F), ¬ Pending r →
      ∃ reply, r = some reply ∧ Succeeds (return reply) := by
    intro r hr
    cases r with
    | none => exact absurd (fun _ h => by cases h) hr
    | some reply => exact ⟨reply, rfl, succeeds_pure (not_error_of_not_pending hr)⟩
  refine h.bind (fun r _ => ?_) fun r hr => ?_
  rotate_left
  · obtain ⟨_, rfl, hreply⟩ := hended r hr
    exact hreply
  cases r with
  | some reply => exact .pure _
  | none =>
    cases timeout with
    | invalid => exact .fail _
    | after turns =>
      refine (watch_all_reads keys).after fun _ => ?_
      refine (block_forever_safe h turns).bind (fun r _ => .pure _) fun r hr => ?_
      obtain ⟨_, rfl, hreply⟩ := hended r hr
      exact hreply
    | forever turns =>
      refine (watch_all_reads keys).after fun _ => ?_
      refine (block_forever_safe h turns).bind (fun r _ => ?_) fun r hr => ?_
      · cases r with
        | some reply => exact .pure _
        | none => exact .fail _
      · obtain ⟨_, rfl, hreply⟩ := hended r hr
        exact hreply

theorem pop_attempt_safe (front : Bool) (count : ℕ) (keys : List Bytes)
    {reply : Bytes × List Bytes → Reply F} (h : ∀ popped, is_error (reply popped) = false) :
    Safe T Pending (do return (← pop_keys front count keys).map reply : StoreM F _) := by
  refine (pop_keys_safe front count keys).bind (fun r _ => .pure _) fun r hr => ?_
  cases r with
  | none => exact absurd rfl hr
  | some popped =>
    refine .pure fun hpending => ?_
    cases (h popped).symm.trans (hpending _ rfl)

theorem bpop_harmless (cmd : String) (front : Bool) (pf : Bytes → Option Timeout)
    (args : List Bytes) : Harmless (F := F) T (bpop cmd front pf args) := by
  refine .ite (fun _ => .pure _) fun _ => ?_
  split
  · exact .pure _
  · exact blocking_harmless _ (pop_attempt_safe _ _ _ fun _ => rfl) _

variable (pf : Bytes → Option Timeout)

theorem blmpop_harmless (args : List Bytes) : Harmless (F := F) T (blmpop pf args) := by
  unfold blmpop
  split
  · refine .ite (fun _ => .pure _) fun _ => ?_
    split
    · exact .pure _
    · split
      · exact .pure _
      · exact .fail _
      · exact blocking_harmless _ (pop_attempt_safe _ _ _ fun _ => rfl) _
  · exact .pure _

/-! ### Moving an element -/

theorem wp_pop_nothing {m : HashMap Bytes (Entry F)} {key : Bytes} (front : Bool)
    (h : ∀ e v l, m[key]? = some e → e.data.as_list ≠ some (v :: l)) :
    (pop_one front key).Wp (may (· = T))
      (fun r m' => contents T m' = contents T m ∧ ∃ x, r = .ok x ∧ ∀ v, x ≠ .ok (some v)) m := by
  refine wp_access.mpr ?_
  have hsame : contents T (m.alter key (·.map (edit_list (Lists.left front 1)))) = contents T m := by
    refine contents_edit_list fun e l he hl => ?_
    cases l with
    | nil => exact left_nil front 1
    | cons v l => exact absurd hl (h e v l he)
  cases he : m[key]? with
  | none => exact ⟨hsame, _, rfl, nofun⟩
  | some e =>
    dsimp only
    cases hl : e.data.as_list with
    | none => exact ⟨hsame, _, rfl, nofun⟩
    | some l =>
      cases l with
      | cons v l => exact absurd hl (h e v l he)
      | nil =>
        have htaken : taken front 1 [] = [] := by cases front <;> rfl
        dsimp only
        rw [htaken]
        exact ⟨hsame, _, rfl, nofun⟩

/-- The map a pop leaves: the list is shorter by one, or it is gone. -/
structure Popped (m : HashMap Bytes (Entry F)) (key : Bytes) (e : Entry F) (l : List Bytes)
    (m' : HashMap Bytes (Entry F)) : Prop where
  others : ∀ k, k ≠ key → m'[k]? = m[k]?
  shorter : ∀ e', m'[key]? = some e' → e'.expires_at = e.expires_at ∧
    ∃ l', e'.data = .List l' ∧ l'.length = l.length

theorem wp_pop_one {m : HashMap Bytes (Entry F)} {key v : Bytes} {e : Entry F} {l : List Bytes}
    (front : Bool) (he : m[key]? = some e) (hl : e.data.as_list = some (v :: l)) :
    (pop_one front key).Wp (may (· = T))
      (fun r m' => Popped m key e l m' ∧ ∃ x, r = .ok (.ok (some x))) m := by
  have hlength : (Lists.left front 1 (v :: l)).length = l.length := by
    unfold Lists.left
    split <;> simp
  have htaken : ∃ x xs, taken front 1 (v :: l) = x :: xs := by
    refine List.exists_cons_of_length_pos ?_
    unfold taken
    split <;> simp
  obtain ⟨x, xs, htaken⟩ := htaken
  refine wp_access.mpr ?_
  rw [he]
  dsimp only
  rw [hl]
  dsimp only
  rw [htaken]
  refine .bind (R := fun r m' => r = .ok () ∧ Popped m key e l m') ?_ ?_ ?_
  · refine .ite (fun _ => wp_access.mpr ⟨rfl, fun k hk => ?_, fun e' he' => ?_⟩)
      fun _ => ⟨rfl, fun k hk => ?_, fun e' he' => ?_⟩
    · rw [alter_of_ne hk, alter_of_ne hk]
    · rw [Std.ExtTreeMap.getElem?_alter_self] at he'
      cases he'
    · exact alter_of_ne hk
    · rw [Std.ExtTreeMap.getElem?_alter_self, he, map_some] at he'
      cases he'
      unfold edit_list
      rw [hl]
      exact ⟨rfl, _, rfl, hlength⟩
  · rintro a m' ⟨-, hm'⟩
    exact ⟨hm', x, rfl⟩
  · rintro e' m' ⟨h, -⟩
    cases h

theorem pop_one_safe (front : Bool) (key : Bytes) :
    Safe T (fun r => ∀ v, r ≠ .ok (some v))
      (pop_one front key : StoreM F (Except (Reply F) (Option Bytes))) := by
  intro m
  by_cases h : ∃ e v l, m[key]? = some e ∧ e.data.as_list = some (v :: l)
  · obtain ⟨e, v, l, he, hl⟩ := h
    refine (wp_pop_one front he hl).mono ?_
    rintro r m' ⟨-, x, rfl⟩ hfault
    exact absurd rfl (hfault x)
  · refine (wp_pop_nothing front fun e v l he hl => h ⟨e, v, l, he, hl⟩).mono ?_
    rintro r m' ⟨hsame, -⟩ -
    exact hsame

theorem push_to_dest_quiet (dest val : Bytes) (to_left : Bool) :
    Quiet (F := F) (push_to_dest dest val to_left) := by
  refine .bind (.call _) fun now => .bind (.entry_new _ _ now) fun vacant => ?_
  refine .bind (.call _) fun found => ?_
  split
  · exact .bind (.call _) fun _ => .pure fun h => h
  · exact .pure fun h => h

theorem blmove_harmless (args : List Bytes) : Harmless (F := F) T (blmove pf args) := by
  have hattempt : ∀ source dest fl tl,
      Safe T Pending (blmove_attempt source dest fl tl : StoreM F (Option (Reply F))) := by
    intro source dest fl tl
    refine (pop_one_safe fl source).bind (fun r hr => ?_) fun r hr => ?_
    · split
      · exact .pure _
      · exact .pure _
      · exact absurd rfl (hr _)
    · split
      · exact absurd nofun hr
      · exact absurd nofun hr
      · refine .bind (push_to_dest_quiet _ _ _) fun _ => .pure fun hpending => ?_
        cases hpending _ rfl
  unfold blmove
  split
  · split
    · split
      · exact .pure _
      · exact blocking_harmless _ (hattempt _ _ _ _) _
    · exact .pure _
  · exact .pure _

theorem brpoplpush_harmless (args : List Bytes) : Harmless (F := F) T (brpoplpush pf args) := by
  unfold brpoplpush
  split
  · exact blmove_harmless _ _
  · exact .pure _

end Lists

/-! ## Sets -/

section Sets

open Sets Collections

theorem read_set_harmless (key : Bytes) (present : DataType F → Option (Reply F))
    (absent : Reply F) : Harmless T (read_set key present absent) := by
  refine (Safe.get key).after fun e => ?_
  cases e <;> exact Safe.pure _

variable (args : List Bytes)

theorem smembers_harmless : Harmless (F := F) T (smembers args) := by
  unfold smembers
  split
  · exact read_set_harmless _ _ _
  · exact .pure _

theorem sismember_harmless : Harmless (F := F) T (sismember args) := by
  unfold sismember
  split
  · exact read_set_harmless _ _ _
  · exact .pure _

theorem smismember_harmless : Harmless (F := F) T (smismember args) := by
  unfold smismember
  split
  · exact read_set_harmless _ _ _
  · exact .pure _

theorem scard_harmless : Harmless (F := F) T (scard args) := by
  unfold scard
  split
  · exact read_set_harmless _ _ _
  · exact .pure _

theorem sscan_harmless : Harmless (F := F) T (sscan args) := by
  unfold sscan
  split
  · split
    · exact .pure _
    · split
      · exact .pure _
      · exact read_set_harmless _ _ _
  · exact .pure _

/-! ### Random members -/

theorem draw_member_reads (s : HashSet Bytes) : Reads (F := F) T (draw_member s) :=
  .ite (fun _ => .fail _) fun _ => Safe.random.after fun _ => .pure _

theorem draw_repeatedly_reads (s : HashSet Bytes) (n : ℕ) (drawn : List Bytes) :
    Reads (F := F) T (draw_repeatedly s n drawn) := by
  induction n generalizing drawn with
  | zero => exact .pure _
  | succ n ih =>
    refine (draw_member_reads s).after fun m => ?_
    cases m with
    | none => exact .fail _
    | some m => exact ih _

theorem shuffle_reads (i : ℕ) (chosen : List Bytes) : Reads (F := F) T (shuffle i chosen) := by
  induction i generalizing chosen with
  | zero => exact .pure _
  | succ i ih => exact Safe.random.after fun _ => ih _

theorem srandmember_harmless : Harmless (F := F) T (srandmember args) := by
  have hreply : ∀ s count, Harmless T (srandmember_reply s count : StoreM F (Reply F)) := by
    intro s count
    unfold srandmember_reply
    split
    · exact (draw_member_reads s).after fun _ => .pure _
    · split
      · exact .pure _
      · refine .ite (fun _ => ?_) fun _ => ?_
        · exact (draw_repeatedly_reads s _ _).after fun _ => .pure _
        · exact (shuffle_reads _ _).after fun _ => .pure _
  unfold srandmember
  split
  · refine Safe.ite (fun _ => Safe.pure _) fun _ => (Safe.get _).after fun e => ?_
    cases e with
    | none => exact Safe.pure _
    | some entry =>
      dsimp only
      split
      · exact Safe.ite (fun _ => Safe.pure _) fun _ => hreply _ _
      · exact Safe.pure _
  · exact .pure _

/-! ### Changing one set -/

theorem sadd_harmless : Harmless (F := F) T (sadd args) := by
  unfold sadd
  split
  · refine (Safe.get _).after fun e => ?_
    dsimp only
    split
    · exact (set_succeeds rfl).safe
    · exact Safe.pure _
  · exact .pure _

theorem srem_harmless : Harmless (F := F) T (srem args) := by
  unfold srem
  split
  · refine (Safe.get _).after fun e => ?_
    cases e with
    | none => exact Safe.pure _
    | some entry =>
      dsimp only
      split
      · exact (set_succeeds rfl).safe
      · exact Safe.pure _
  · exact .pure _

theorem spop_members_reads (n : ℕ) (s : HashSet Bytes) (popped : List Bytes) :
    Reads (F := F) T (spop_members n s popped) := by
  induction n generalizing s popped with
  | zero => exact .pure _
  | succ n ih =>
    refine (draw_member_reads s).after fun m => ?_
    cases m <;> exact ih _ _

theorem spop_harmless : Harmless (F := F) T (spop args) := by
  unfold spop
  split
  · refine .ite (fun _ => .pure _) fun _ => ?_
    split
    · exact .pure _
    · refine (Safe.get _).after fun e => ?_
      cases e with
      | none => exact Safe.pure _
      | some entry =>
        dsimp only
        split
        · refine Safe.ite (fun _ => Safe.pure _) fun _ => ?_
          refine (spop_members_reads _ _ _).after fun r => Clean.safe ?_
          refine Clean.bind (Clean.set _ _ _) fun _ => ?_
          exact Clean.ite (fun _ => succeeds_pure rfl) fun _ => succeeds_pure rfl
        · exact Safe.pure _
  · exact .pure _

/-! ### Operations on several sets -/

theorem fetch_sets_reads (missing : ℕ → Option (HashSet Bytes)) (keys : List Bytes)
    (sets : List (HashSet Bytes)) :
    Reads T (fetch_sets missing keys sets :
      StoreM F (Except (Reply F) (Option (List (HashSet Bytes))))) := by
  induction keys generalizing sets with
  | nil => exact .pure _
  | cons key keys ih =>
    refine (Safe.get key).after fun e => ?_
    cases e with
    | none =>
      dsimp only
      split
      · exact ih _
      · exact .pure _
    | some entry =>
      dsimp only
      split
      · exact ih _
      · exact .pure _

theorem set_op_harmless (cmd : String) (op : SetOp) (args : List Bytes) :
    Harmless (F := F) T (set_op cmd op args) := by
  refine .ite (fun _ => .pure _) fun _ => (fetch_sets_reads _ _ _).after fun r => ?_
  cases r <;> exact .pure _

theorem set_op_store_harmless (cmd : String) (op : SetOp) (args : List Bytes) :
    Harmless (F := F) T (set_op_store cmd op args) := by
  unfold set_op_store
  split
  · refine (fetch_sets_reads _ _ _).after fun r => ?_
    cases r with
    | error reply => exact .pure _
    | ok sets => exact (set_succeeds rfl).safe
  · exact .pure _

theorem sintercard_harmless : Harmless (F := F) T (sintercard args) := by
  unfold sintercard
  split
  · split
    · exact .pure _
    · exact .pure _
    · refine .ite (fun _ => .fail _) fun _ => .ite (fun _ => .pure _) fun _ => ?_
      split
      · exact .pure _
      · refine (fetch_sets_reads _ _ _).after fun r => ?_
        cases r <;> exact .pure _
  · exact .pure _

end Sets

/-! ## The commands that change something first -/

section Spoiling

open ValkeyRs.Lists ValkeyRs.Sets

variable (T) (m : HashMap Bytes (Entry F))

/-- A value that GETDEL deletes and then refuses. -/
def GetdelSpoils (key : Bytes) : Prop := ∃ e, seen T m key = some e ∧ ∀ s, e.data ≠ .String s

/-- A live list with elements, and a destination that is no list. The list commands do not look at
the expiry time of the destination. -/
def LmoveSpoils (source dest : Bytes) : Prop :=
  ∃ e v l d, seen T m source = some e ∧ e.data.as_list = some (v :: l) ∧
    m[dest]? = some d ∧ d.data.as_list = none

/-- A set with the member, and a destination that is no set. -/
def SmoveSpoils (source dest member : Bytes) : Prop :=
  ∃ e s d, seen T m source = some e ∧ e.data.to_set_clone = some s ∧ member ∈ s ∧
    seen T m dest = some d ∧ d.data.to_set_clone = none

variable {T m}

/-- The reply is an error, and the contents are not what they were. -/
def Spoiled (T : Instant) (m : HashMap Bytes (Entry F)) (r : Except Halt (Reply F))
    (m' : HashMap Bytes (Entry F)) : Prop :=
  Failed r ∧ contents T m' ≠ contents T m

theorem wp_getdel_spoils {key : Bytes} (h : GetdelSpoils T m key) :
    (cmd_getdel [key]).Wp (may (· = T)) (Spoiled T m) m := by
  obtain ⟨e, he, hdata⟩ := h
  refine wp_get_at (wp_del ?_)
  have hgone : contents T ((swept T m key).erase key) ≠ contents T m := by
    intro hsame
    have hkey : (seen T m key).map Entry.view = none := by
      refine (congrFun hsame key).symm.trans ?_
      unfold contents
      rw [seen_of_none Std.ExtTreeMap.getElem?_erase_self]
      rfl
    rw [he] at hkey
    cases hkey
  rw [he, map_some]
  cases hd : e.data with
  | String s => exact absurd hd (hdata s)
  | List | Hash | Set | ZSet | Stream | ListPack | IntSet => exact ⟨rfl, hgone⟩

theorem cmd_getdel_harmless {args : List Bytes} (h : ∀ key, args = [key] → ¬ GetdelSpoils T m key) :
    (cmd_getdel args : StoreM F (Reply F)).Wp (may (· = T))
      (fun r m' => Failed r → contents T m' = contents T m) m := by
  unfold cmd_getdel
  split
  · rename_i key
    refine wp_get_at (wp_del ?_)
    cases he : seen T m key with
    | none => exact fun hfault => absurd hfault Bool.false_ne_true
    | some e =>
      by_cases hstring : ∃ s, e.data = .String s
      · obtain ⟨s, hs⟩ := hstring
        rw [map_some, hs]
        exact fun hfault => absurd hfault Bool.false_ne_true
      · exact absurd ⟨e, he, fun s hs => hstring ⟨s, hs⟩⟩ (h key rfl)
  · exact fun _ => rfl

/-! ### LMOVE -/

variable {dest : Bytes}

theorem wp_push_refused {d : Entry F} (hd : m[dest]? = some d)
    (hdata : d.data.as_list = none) (val : Bytes) (to_left : Bool) :
    (push_to_dest dest val to_left).Wp (may (· = T))
      (fun r m' => r = .ok false ∧ m' = m) m := by
  refine wp_now.mpr fun now _ => wp_access.mpr ?_
  rw [alter_eq_self (by rw [hd, getD_some, edit_list_of_not_list hdata]), hd]
  dsimp only [getD_some]
  rw [hdata]
  exact ⟨rfl, rfl⟩

theorem wp_push_taken (h : ∀ d, m[dest]? = some d → d.data.as_list ≠ none)
    (val : Bytes) (to_left : Bool) :
    (push_to_dest dest val to_left : StoreM F Bool).Wp (may (· = T)) (fun r _ => r = .ok true) m := by
  refine wp_now.mpr fun now _ => wp_access.mpr ?_
  split
  · exact wp_notify.mpr rfl
  · rename_i hnone
    cases hd : m[dest]? with
    | none =>
      rw [hd] at hnone
      cases hnone
    | some d =>
      rw [hd] at hnone
      exact absurd hnone (h d hd)

/-- `lmo` behind its arguments. -/
def lmo_with (source dest : Bytes) (fl tl : Bool) : StoreM F (Reply F) := do
  match ← pop_one fl source with
  | .error reply => return reply
  | .ok none => return null_bulk
  | .ok (some val) => do
    if ← push_to_dest dest val tl then return bull val else return wrong_type

theorem wp_lmo_spoils {source : Bytes} (h : LmoveSpoils T m source dest) (fl tl : Bool) :
    (lmo_with source dest fl tl).Wp (may (· = T)) (Spoiled T m) m := by
  obtain ⟨e, v, l, d, hseen, hl, hd, hdata⟩ := h
  have he : m[source]? = some e := (seen_eq_some_iff.mp hseen).1
  have hne : dest ≠ source := by
    rintro rfl
    rw [hd] at he
    cases he
    cases hdata.symm.trans hl
  refine .bind (wp_pop_one fl he hl) ?_ ?_
  · rintro r m' ⟨hm', x, hx⟩
    cases hx
    have hrefused := wp_push_refused (T := T) ((hm'.others dest hne).trans hd) hdata x tl
    refine .bind hrefused ?_ fun _ _ h => nomatch h.1
    rintro _ m'' ⟨h, hm''⟩
    cases h
    rw [hm'']
    refine ⟨rfl, fun hsame => ?_⟩
    -- the source was there with one element more
    have hcontents : contents T m' source = some (.list (v :: l), e.expires_at) := by
      rw [hsame]
      unfold contents
      rw [hseen, map_some]
      unfold Entry.view
      rw [DataType.as_list_eq_some.mp hl]
    obtain ⟨e', he', hview⟩ := map_eq_some_iff.mp hcontents
    obtain ⟨-, l', hl', hlength⟩ := hm'.shorter e' (seen_eq_some_iff.mp he').1
    have hvalue : (DataType.List l' : DataType F).value = .list (v :: l) := by
      rw [← hl']
      exact congrArg Prod.fst hview
    cases hvalue
    simp at hlength
  · rintro e' m' ⟨-, x, hx⟩
    cases hx

theorem lmo_harmless {source : Bytes} (h : ¬ LmoveSpoils T m source dest) (fl tl : Bool) :
    (lmo_with source dest fl tl).Wp (may (· = T))
      (fun r m' => Failed r → contents T m' = contents T m) m := by
  by_cases hpop : ∃ e v l, m[source]? = some e ∧ e.data.as_list = some (v :: l)
  · obtain ⟨e, v, l, he, hl⟩ := hpop
    refine .bind (wp_pop_one fl he hl) ?_ ?_
    · rintro r m' ⟨hm', x, hx⟩
      cases hx
      by_cases hdest : ∃ d, m'[dest]? = some d ∧ d.data.as_list = none
      · obtain ⟨d, hd, hdata⟩ := hdest
        refine .bind (wp_push_refused hd hdata x tl) ?_ fun _ _ h => nomatch h.1
        rintro _ m'' ⟨h', hm''⟩
        cases h'
        rw [hm'']
        intro _
        have hne : dest ≠ source := by
          rintro rfl
          obtain ⟨-, l', hl', -⟩ := hm'.shorter d hd
          rw [hl'] at hdata
          cases hdata
        -- only a source that has expired is left, and it shows neither before nor after
        have hstale : e.stale T = true := by
          by_contra hlive
          refine h ⟨e, v, l, d, seen_of_some he (Bool.eq_false_iff.mpr hlive), hl, ?_, hdata⟩
          rw [← hm'.others dest hne, hd]
        funext k
        by_cases hk : k = source
        · have hnone : seen T m' source = none := by
            cases he' : m'[source]? with
            | none => exact seen_of_none he'
            | some e' =>
              refine seen_of_stale he' ?_
              rw [← hstale]
              unfold Entry.stale
              rw [(hm'.shorter e' he').1]
          unfold contents
          rw [hk, hnone, seen_of_stale he hstale]
        · unfold contents
          rw [seen_congr (hm'.others k hk)]
      · have htaken := wp_push_taken (T := T) (fun d hd hdata => hdest ⟨d, hd, hdata⟩) x tl
        refine .bind htaken ?_ fun _ _ h => nomatch h
        rintro _ m'' h'
        cases h'
        intro hfault
        exact absurd hfault Bool.false_ne_true
    · rintro e' m' ⟨-, x, hx⟩
      cases hx
  · refine .bind (wp_pop_nothing fl fun e v l he hl => hpop ⟨e, v, l, he, hl⟩) ?_ ?_
    · rintro r m' ⟨hsame, x, hx, hnothing⟩
      cases hx
      cases r with
      | error reply => exact fun _ => hsame
      | ok val =>
        cases val with
        | none => exact fun _ => hsame
        | some val => exact absurd rfl (hnothing val)
    · rintro e' m' ⟨-, x, hx, -⟩
      cases hx

/-! ### SMOVE -/

theorem value_of_to_set_clone {data : DataType F} {s : HashSet Bytes}
    (h : data.to_set_clone = some s) : data.value = .set s := by
  cases data <;> cases h <;> rfl

/-- The map when the member has been taken out of the source. -/
def unmembered (T : Instant) (m : HashMap Bytes (Entry F)) (source member : Bytes)
    (s : HashSet Bytes) : HashMap Bytes (Entry F) :=
  (swept T m source).insert source ⟨.Set (s.erase member), none, T, 1, 1⟩

variable {source dest member : Bytes}

variable {s : HashSet Bytes}

theorem seen_unmembered_of_ne (h : dest ≠ source) :
    seen T (unmembered T m source member s) dest = seen T m dest := by
  refine seen_congr ?_
  unfold unmembered
  rw [insert_of_ne h, swept_of_ne h]

theorem seen_unmembered_self {source member : Bytes} :
    seen T (unmembered T m source member s) source = some ⟨.Set (s.erase member), none, T, 1, 1⟩ :=
  seen_of_some Std.ExtTreeMap.getElem?_insert_self rfl

/-- SMOVE up to the point where it looks at the destination. -/
theorem wp_smove {e : Entry F}
    (he : seen T m source = some e) (hs : e.data.to_set_clone = some s) (hmember : member ∈ s)
    {Q : Except Halt (Reply F) → HashMap Bytes (Entry F) → Prop}
    (h : (smove_in dest member).Wp (may (· = T)) Q
      (unmembered T m source member s)) :
    (smove [source, dest, member] : StoreM F (Reply F)).Wp (may (· = T)) Q m := by
  refine wp_get_at ?_
  rw [he]
  dsimp only
  rw [hs]
  dsimp only
  rw [if_pos (Std.ExtTreeSet.mem_iff_contains.mp hmember)]
  refine wp_set_none fun now hnow => ?_
  rw [hnow]
  exact h

theorem wp_smove_spoils (h : SmoveSpoils T m source dest member) :
    (smove [source, dest, member]).Wp (may (· = T)) (Spoiled T m) m := by
  obtain ⟨e, s, d, he, hs, hmember, hd, hdata⟩ := h
  have hne : dest ≠ source := by
    rintro rfl
    rw [hd] at he
    cases he
    cases hdata.symm.trans hs
  refine wp_smove he hs hmember (wp_get_at ?_)
  rw [seen_unmembered_of_ne hne, hd]
  dsimp only [map_some, getD_some]
  rw [hdata]
  refine ⟨rfl, fun hsame => ?_⟩
  -- the member was in the source
  rw [contents_swept] at hsame
  have hsource : (some (.set (s.erase member), none) : Option (Value F × Option Instant)) =
      some (.set s, e.expires_at) := by
    calc (some (.set (s.erase member), none) : Option (Value F × Option Instant))
        = contents T (unmembered T m source member s) source := by
          unfold contents
          rw [seen_unmembered_self]
          rfl
      _ = contents T m source := congrFun hsame source
      _ = some (.set s, e.expires_at) := by
          unfold contents
          rw [he, map_some]
          unfold Entry.view
          rw [value_of_to_set_clone hs]
  have hset : s.erase member = s := by
    have hvalue := congrArg Prod.fst (Option.some.inj hsource)
    exact Value.set.inj hvalue
  rw [← hset] at hmember
  simp at hmember

theorem smove_harmless {args : List Bytes}
    (h : ∀ source dest member, args = [source, dest, member] →
      ¬ SmoveSpoils T m source dest member) :
    (smove args : StoreM F (Reply F)).Wp (may (· = T))
      (fun r m' => Failed r → contents T m' = contents T m) m := by
  by_cases hgood : ∃ source dest member e s, args = [source, dest, member] ∧
      seen T m source = some e ∧ e.data.to_set_clone = some s ∧ member ∈ s
  · obtain ⟨source, dest, member, e, s, rfl, he, hs, hmember⟩ := hgood
    refine wp_smove he hs hmember (wp_get_at ?_)
    cases hdata : (((seen T (unmembered T m source member s) dest).map Entry.data).getD
        (.Set ∅)).to_set_clone with
    | some s' =>
      exact ((set_succeeds rfl).wp _ _).mono fun r m' hr hfault => absurd hfault hr
    | none =>
      -- a destination that is no set has been there before
      have hne : dest ≠ source := by
        rintro rfl
        rw [seen_unmembered_self] at hdata
        cases hdata
      rw [seen_unmembered_of_ne hne] at hdata
      cases hd : seen T m dest with
      | none =>
        rw [hd] at hdata
        cases hdata
      | some d =>
        rw [hd] at hdata
        exact absurd ⟨e, s, d, he, hs, hmember, hd, hdata⟩ (h source dest member rfl)
  · -- nothing is taken out, and the store is only read
    unfold smove
    split
    · rename_i source dest member
      refine wp_get_at ?_
      cases he : seen T m source with
      | none => exact fun _ => contents_swept
      | some e =>
        dsimp only
        cases hs : e.data.to_set_clone with
        | none => exact fun _ => contents_swept
        | some s =>
          dsimp only
          by_cases hmember : s.contains member = true
          · refine absurd ⟨source, dest, member, e, s, rfl, he, hs, ?_⟩ hgood
            exact Std.ExtTreeSet.mem_iff_contains.mpr hmember
          · rw [if_neg hmember]
            exact fun _ => contents_swept
    · exact fun _ => rfl

end Spoiling

/-! ## All commands -/

section Commands

open ValkeyRs.Lists ValkeyRs.Sets

inductive Family where
  | string
  | list
  | set
  deriving Repr, DecidableEq

def command (pf : Bytes → Option Timeout) : Family → String → List Bytes → StoreM F (Reply F)
  | .string, name, args => Strings.handle name args
  | .list, name, args => Lists.handle pf name args
  | .set, name, args => Sets.handle name args

variable (T) (m : HashMap Bytes (Entry F))

/-- The commands that come to an error when they have already changed something. -/
def Spoils (family : Family) (name : String) (args : List Bytes) : Prop :=
  (family = .string ∧ name = "GETDEL" ∧ ∃ key, args = [key] ∧ GetdelSpoils T m key) ∨
  (family = .list ∧ name = "LMOVE" ∧ ∃ source dest from_ to_ rest fl tl,
    args = source :: dest :: from_ :: to_ :: rest ∧ either "LEFT" "RIGHT" from_ = some fl ∧
      either "LEFT" "RIGHT" to_ = some tl ∧ LmoveSpoils T m source dest) ∨
  (family = .list ∧ name = "RPOPLPUSH" ∧ ∃ source dest,
    args = [source, dest] ∧ LmoveSpoils T m source dest) ∨
  (family = .set ∧ name = "SMOVE" ∧ ∃ source dest member,
    args = [source, dest, member] ∧ SmoveSpoils T m source dest member)

variable {T m}

theorem lmo_eq {source dest from_ to_ : Bytes} (rest : List Bytes) {fl tl : Bool}
    (hfrom : either "LEFT" "RIGHT" from_ = some fl) (hto : either "LEFT" "RIGHT" to_ = some tl) :
    (lmo (source :: dest :: from_ :: to_ :: rest) : StoreM F (Reply F)) =
      lmo_with source dest fl tl := by
  unfold lmo
  dsimp only
  rw [hfrom, hto]
  rfl

theorem rpoplpush_eq (source dest : Bytes) :
    (rpoplpush [source, dest] : StoreM F (Reply F)) = lmo_with source dest false true := by
  have hright : either "LEFT" "RIGHT" (as_bytes "RIGHT") = some false := by decide
  have hleft : either "LEFT" "RIGHT" (as_bytes "LEFT") = some true := by decide
  exact lmo_eq [] hright hleft

variable (pf : Bytes → Option Timeout)

variable {name : String}

theorem wp_of_spoils {family : Family} {args : List Bytes} (h : Spoils T m family name args) :
    (command pf family name args : StoreM F (Reply F)).Wp (may (· = T)) (Spoiled T m) m := by
  rcases h with ⟨rfl, rfl, key, rfl, h⟩ | ⟨rfl, rfl, source, dest, from_, to_, rest, fl, tl, rfl,
    hf, ht, h⟩ | ⟨rfl, rfl, source, dest, rfl, h⟩ | ⟨rfl, rfl, source, dest, member, rfl, h⟩
  · exact wp_getdel_spoils h
  · show (lmo (source :: dest :: from_ :: to_ :: rest)).Wp (may (· = T))
      (Spoiled T m) m
    rw [lmo_eq rest hf ht]
    exact wp_lmo_spoils h fl tl
  · show (rpoplpush [source, dest] : StoreM F (Reply F)).Wp (may (· = T)) (Spoiled T m) m
    rw [rpoplpush_eq]
    exact wp_lmo_spoils h false true
  · exact wp_smove_spoils h

theorem lmo_args_harmless {args : List Bytes} (h : ¬ Spoils T m .list "LMOVE" args) :
    (lmo args : StoreM F (Reply F)).Wp (may (· = T))
      (fun r m' => Failed r → contents T m' = contents T m) m := by
  unfold lmo
  split
  · rename_i source dest from_ to_ rest
    split
    · rename_i fl tl hfl htl
      refine lmo_harmless (fun hspoils => h ?_) fl tl
      exact .inr (.inl ⟨rfl, rfl, source, dest, from_, to_, rest, fl, tl, rfl, hfl, htl, hspoils⟩)
    · exact fun _ => rfl
  · exact fun _ => rfl

theorem rpoplpush_harmless {args : List Bytes} (h : ¬ Spoils T m .list "RPOPLPUSH" args) :
    (rpoplpush args : StoreM F (Reply F)).Wp (may (· = T))
      (fun r m' => Failed r → contents T m' = contents T m) m := by
  unfold rpoplpush
  split
  · rename_i source dest
    show (rpoplpush [source, dest] : StoreM F (Reply F)).Wp (may (· = T)) _ m
    refine lmo_harmless (fun hspoils => h ?_) false true
    exact .inr (.inr (.inl ⟨rfl, rfl, source, dest, rfl, hspoils⟩))
  · exact fun _ => rfl

theorem string_harmless {args : List Bytes} (h : ¬ Spoils T m .string name args) :
    (Strings.handle name args).Wp (may (· = T))
      (fun r m' => Failed r → contents T m' = contents T m) m := by
  unfold Strings.handle
  split
  · unfold Strings.cmd_get
    split
    · exact read_string_harmless _ _ _ m
    · exact fun _ => rfl
  · exact cmd_set_harmless args m
  · exact cmd_del_harmless args m
  · exact cmd_getset_harmless args m
  · exact cmd_mget_harmless args m
  · exact cmd_mset_harmless args m
  · exact cmd_msetnx_harmless args m
  · exact incr_harmless _ _ args m
  · exact incr_harmless _ _ args m
  · exact incrby_harmless _ _ args m
  · exact incrby_harmless _ _ args m
  · exact cmd_incrbyfloat_harmless args m
  · exact cmd_append_harmless args m
  · unfold Strings.cmd_strlen
    split
    · exact read_string_harmless _ _ _ m
    · exact fun _ => rfl
  · exact cmd_getrange_harmless args m
  · exact cmd_setrange_harmless args m
  · exact cmd_setnx_harmless args m
  · exact setex_harmless _ _ args m
  · exact setex_harmless _ _ args m
  · exact cmd_getex_harmless args m
  · exact cmd_getdel_harmless fun key hkey hspoils => h (.inl ⟨rfl, rfl, key, hkey, hspoils⟩)
  · exact cmd_lcs_harmless args m
  · exact fun _ => rfl

theorem list_harmless {args : List Bytes} (h : ¬ Spoils T m .list name args) :
    (Lists.handle pf name args : StoreM F (Reply F)).Wp (may (· = T))
      (fun r m' => Failed r → contents T m' = contents T m) m := by
  unfold Lists.handle
  split
  · exact push_with_harmless _ _ args m
  · exact push_with_harmless _ _ args m
  · exact pushx_harmless args _ m
  · exact pushx_harmless args _ m
  · exact rpoplpush_harmless h
  · exact brpoplpush_harmless pf args m
  · exact pop_with_harmless _ _ args m
  · exact pop_with_harmless _ _ args m
  · exact lr_harmless args m
  · exact ll_harmless args m
  · exact li_harmless args m
  · exact ls_harmless args m
  · exact lins_harmless args m
  · exact lre_harmless args m
  · exact ltr_harmless args m
  · exact lmo_args_harmless h
  · exact bpop_harmless _ _ pf args m
  · exact bpop_harmless _ _ pf args m
  · exact lmpop_harmless args m
  · exact blmpop_harmless pf args m
  · exact blmove_harmless pf args m
  · exact lpos_harmless args m
  · exact fun _ => rfl

theorem set_harmless {args : List Bytes} (h : ¬ Spoils T m .set name args) :
    (Sets.handle name args : StoreM F (Reply F)).Wp (may (· = T))
      (fun r m' => Failed r → contents T m' = contents T m) m := by
  unfold Sets.handle
  split
  · exact sadd_harmless args m
  · exact smembers_harmless args m
  · exact sismember_harmless args m
  · exact smismember_harmless args m
  · exact scard_harmless args m
  · exact srem_harmless args m
  · exact spop_harmless args m
  · exact srandmember_harmless args m
  · refine smove_harmless fun source dest member hargs hspoils => h ?_
    exact .inr (.inr (.inr ⟨rfl, rfl, source, dest, member, hargs, hspoils⟩))
  · exact set_op_harmless _ _ args m
  · exact set_op_harmless _ _ args m
  · exact set_op_harmless _ _ args m
  · exact set_op_store_harmless _ _ args m
  · exact set_op_store_harmless _ _ args m
  · exact set_op_store_harmless _ _ args m
  · exact sscan_harmless args m
  · exact sintercard_harmless args m
  · exact fun _ => rfl

theorem command_harmless {family : Family} {args : List Bytes} (h : ¬ Spoils T m family name args) :
    (command pf family name args : StoreM F (Reply F)).Wp (may (· = T))
      (fun r m' => Failed r → contents T m' = contents T m) m := by
  cases family with
  | string => exact string_harmless h
  | list => exact list_harmless pf h
  | set => exact set_harmless h

/-- **Errors leave no trace**, but for the commands that spoil. The clock stands at `T` while the
command runs; everything else about the store and its surroundings is arbitrary. -/
theorem error_leaves_contents_iff (pf : Bytes → Option Timeout) (family : Family) (name : String)
    (args : List Bytes) (T : Instant) (w : World F) :
    let r := (command pf family name args).run World.step (w.at T)
    (Failed r.1 → contents T r.2.store.keyspace = contents T w.store.keyspace) ↔
      ¬ Spoils T w.store.keyspace family name args := by
  constructor
  · intro hleaves hspoils
    obtain ⟨hfailed, hdiffer⟩ := run_of_wp (w := w.at T) (wp_of_spoils pf hspoils) (w.at_within T)
    exact hdiffer (hleaves hfailed)
  · intro hspoils
    exact run_of_wp (w := w.at T) (command_harmless pf hspoils) (w.at_within T)

/-- A list under the key `l` and a string under the key `s`. -/
def list_and_string : World Resp.Infinity :=
  { (World.new .still : World Resp.Infinity) with
    store := { (Store.new : Store Resp.Infinity) with
      keyspace := ((∅ : HashMap _ _).insert (as_bytes "l") ⟨.List [as_bytes "a"], none, 0, 1, 1⟩).insert
        (as_bytes "s") ⟨.String (as_bytes "b"), none, 0, 1, 1⟩ } }

/-- GETDEL of the list and LMOVE from it to the string both reply WRONGTYPE, and the list is gone. -/
theorem wrong_type_after_change :
    let getdel : StoreM Resp.Infinity _ := command (fun _ => none) .string "GETDEL" [as_bytes "l"]
    let lmove : StoreM Resp.Infinity _ := command (fun _ => none) .list "LMOVE"
      [as_bytes "l", as_bytes "s", as_bytes "LEFT", as_bytes "LEFT"]
    let live (w : World Resp.Infinity) := (contents 0 w.store.keyspace (as_bytes "l")).isSome
    live list_and_string = true ∧
      (getdel.run World.step (list_and_string.at 0)).1 = .ok wrong_type ∧
      live (getdel.run World.step (list_and_string.at 0)).2 = false ∧
      (lmove.run World.step (list_and_string.at 0)).1 = .ok wrong_type ∧
      live (lmove.run World.step (list_and_string.at 0)).2 = false := by
  refine ⟨by decide, rfl, by decide, rfl, by decide⟩

end Commands

end ValkeyRs.Errors
