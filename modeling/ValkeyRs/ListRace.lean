/-
LPUSH, RPUSH, LPOP and RPOP side by side on one key.

A pop takes its elements under one guard as well, but when it has taken the last one it gives the
guard back and removes the key by a second call. What another client has pushed in between goes with
the key: it has been acknowledged, nobody has popped it, and it is not in the list.

Elements are counted as multisets. What the clients have pushed is what they have popped, what is in
the list and what has been removed with the key (`Balanced`), so that nothing is lost exactly if no
client removes the key while there is something in the list.
-/
import ValkeyRs.Compact
import ValkeyRs.Lists
import ValkeyRs.Threads

set_option autoImplicit false

open ValkeyRs Text Storage Zset Strings Maps Runs Finset World Multiset Collections

namespace ValkeyRs.ListRace

variable {F : Type} [Score F]

/-! ## Clients -/

/-- A client with its arguments behind the key: LPUSH and LPOP work at the front, RPUSH and RPOP at
the back. -/
inductive ListClient where
  | push (front : Bool) (values : List Bytes)
  | pop (front : Bool) (count : List Bytes)
  deriving Repr, DecidableEq

namespace ListClient

def handler (key : Bytes) : ListClient → StoreM F (Reply F)
  | push front values =>
    if front then lp (key :: values) else rp (key :: values)
  | pop front count => if front then Lists.lpo (key :: count) else Lists.rpo (key :: count)

def values : ListClient → List Bytes
  | push _ values => values
  | pop _ _ => []

def front : ListClient → Bool
  | push front _ => front
  | pop front _ => front

end ListClient

/-- How far a client has come. -/
inductive Phase (F : Type) where
  | stamp
  | insert (now : Instant)
  | notify (len : ℕ)
  | take (count : ℕ)
  | remove (items : List Bytes)
  | done (reply : Reply F)

def vacant (now : Instant) : Entry F := ⟨.ListPack .new, none, now, 1, 1⟩

def pushed (key : Bytes) (c : ListClient) (now : Instant) (found : Option (Entry F)) :
    StoreM F (Reply F) :=
  match push c.front c.values (found.getD (vacant now)).data with
  | some (_, len) => do
    Store.notify_watchers key
    return int len
  | none => return wrong_type

def rest (key : Bytes) (c : ListClient) : Phase F → StoreM F (Reply F)
  | .stamp => do
    let now ← Store.now
    let found ← Store.access key fun e =>
      some (push_entry c.front c.values (e.getD (vacant now)))
    pushed key c now found
  | .insert now => do
    let found ← Store.access key fun e =>
      some (push_entry c.front c.values (e.getD (vacant now)))
    pushed key c now found
  | .notify len => do
    Store.notify_watchers key
    return int len
  | .take count =>
    Lists.with_list key (Lists.left c.front count)
      (fun l =>
        if l.isEmpty then return null_bulk
        else do
          Lists.remove_if (Lists.left c.front count l).isEmpty key
          return Lists.popped_reply (Lists.taken c.front count l))
      (if count > 1 then .Array (some []) else null_bulk)
  | .remove items => do
    let _ ← Store.access key fun _ => none
    return Lists.popped_reply items
  | .done reply => return reply

def first : ListClient → Phase F
  | .push front [] => .done (.Error (wrong_number (if front then "lpush" else "rpush")))
  | .push _ (_ :: _) => .stamp
  | .pop _ count =>
    match Lists.pop_count count with
    | none => .done not_integer
    | some n => .take n

theorem handler_eq (key : Bytes) (c : ListClient) :
    (c.handler key : StoreM F (Reply F)) = rest key c (first c) := by
  cases c with
  | push front values =>
    cases values with
    | nil => cases front <;> rfl
    | cons v vs => cases front <;> rfl
  | pop front count =>
    have hpop : ((ListClient.pop front count).handler key : StoreM F (Reply F)) =
        Lists.pop_with (if front then "lpop" else "rpop") front (key :: count) := by
      cases front <;> rfl
    rw [hpop]
    unfold Lists.pop_with first
    dsimp only
    cases Lists.pop_count count <;> rfl

/-! ## What is under the key -/

/-- The list under the key; a key that is not there has none. -/
def list_at (key : Bytes) (w : World F) : List Bytes :=
  (w.store.keyspace[key]?.bind fun e => e.data.as_list).getD []

/-- What is under the key is a list, as the commands make it. -/
def Tidy (key : Bytes) (w : World F) : Prop :=
  ∀ e, w.store.keyspace[key]? = some e → ∃ l, e.data.value = .list l ∧ Compact.Orderly e.data

variable {key : Bytes}

variable {w : World F} {c : ListClient}

theorem list_at_none (h : w.store.keyspace[key]? = none) : list_at key w = [] := by
  unfold list_at
  rw [h]
  rfl

theorem list_at_some {e : Entry F} {l : List Bytes}
    (h : w.store.keyspace[key]? = some e) (hl : e.data.value = .list l) : list_at key w = l := by
  unfold list_at
  rw [h, Option.bind_some, DataType.as_list_eq_some.mpr hl]
  rfl

/-! ## The account of one step -/

def elements : Reply F → List Bytes
  | .BulkString (some v) => [v]
  | .Array (some items) => items.filterMap fun
    | .BulkString b => b
    | _ => none
  | _ => []

omit [Score F] in
theorem elements_popped_reply (items : List Bytes) :
    elements (Lists.popped_reply items : Reply F) = items := by
  have harray : elements (.Array (some (items.map bull)) : Reply F) = items := by
    show (items.map bull).filterMap _ = items
    rw [List.filterMap_map]
    exact List.filterMap_some
  match items with
  | [] => rfl
  | [v] => rfl
  | v :: v' :: rest => exact harray

def given (c : ListClient) : Phase F → Multiset Bytes
  | .notify _ => c.values
  | .done (.Integer _) => c.values
  | _ => 0

def got : Phase F → Multiset Bytes
  | .remove items => items
  | .done reply => elements reply
  | _ => 0

omit [Score F] in
theorem given_popped_reply (c : ListClient) (items : List Bytes) :
    given c (.done (Lists.popped_reply items) : Phase F) = 0 := by
  match items with
  | [] => rfl
  | [_] => rfl
  | _ :: _ :: _ => rfl

/-- What is lost when the client performs its next operation. -/
def lost (key : Bytes) (w : World F) : Phase F → Multiset Bytes
  | .remove _ => list_at key w
  | _ => 0

/-- What one step of a client does: the list stays a list, and every element is accounted for. -/
structure Stepped (key : Bytes) (c : ListClient) (ph ph' : Phase F) (w w' : World F) : Prop where
  tidy : Tidy key w'
  balance : given c ph' + got ph + list_at key w =
    given c ph + got ph' + list_at key w' + lost key w ph

theorem coe_push (front : Bool) (values l : List Bytes) :
    ((values.foldl (push_one front) l : List Bytes) : Multiset Bytes) = values + l := by
  induction values generalizing l with
  | nil => exact (zero_add _).symm
  | cons v values ih =>
    have hone : ((push_one front l v : List Bytes) : Multiset Bytes) = v ::ₘ l := by
      cases front with
      | true => rfl
      | false => exact coe_eq_coe.mpr (List.perm_append_singleton v l)
    rw [List.foldl_cons, ih, hone, ← cons_coe, cons_add, add_cons]

theorem coe_taken_left (front : Bool) (n : ℕ) (l : List Bytes) :
    ((Lists.taken front n l : List Bytes) : Multiset Bytes) + Lists.left front n l = l := by
  cases front with
  | true => exact congrArg _ (List.take_append_drop n l)
  | false =>
    show ((l.reverse.take n : List Bytes) : Multiset Bytes) + ((l.reverse.drop n).reverse : List Bytes) = l
    rw [coe_reverse, coe_add, List.take_append_drop, coe_reverse]

theorem stepped_same {ph ph' : Phase F} {w' : World F}
    (h : Tidy key w) (hkeys : w'.store.keyspace = w.store.keyspace)
    (hph : given c ph' + got ph = given c ph + got ph') (hlost : lost key w ph = 0) :
    Stepped key c ph ph' w w' where
  tidy := by
    unfold Tidy
    rw [hkeys]
    exact h
  balance := by
    unfold list_at
    rw [hkeys, hph, hlost, add_zero]

theorem getElem?_access (key : Bytes) (g : Option (Entry F) → Option (Entry F)) (w : World F) :
    (step (.access key g) w).2.store.keyspace[key]? = g w.store.keyspace[key]? :=
  Std.ExtTreeMap.getElem?_alter_self

theorem advance_insert (hw : Tidy key w)
    (hpack : ∀ v ∈ c.values, Compact.Packable v) (now : Instant) :
    ∃ len, ((rest key c (.insert now)).advance step w).1 = rest key c (.notify len) ∧
      Stepped key c (.insert now) (.notify len) w
        ((rest key c (.insert now)).advance step w).2 := by
  -- the list the values are put on, which may be a new one
  have hbefore : ∃ l, (w.store.keyspace[key]?.getD (vacant now)).data.value = .list l ∧
      Compact.Orderly (w.store.keyspace[key]?.getD (vacant now)).data ∧ list_at key w = l := by
    cases hkey : w.store.keyspace[key]? with
    | none => exact ⟨[], rfl, ⟨[], Compact.packs_new⟩, list_at_none hkey⟩
    | some e =>
      obtain ⟨l, hl, horderly⟩ := hw e hkey
      exact ⟨l, hl, horderly, list_at_some hkey hl⟩
  obtain ⟨l, hl, horderly, hlist⟩ := hbefore
  obtain ⟨d, hpush, hvalue, horderly'⟩ := Compact.push_value horderly hl c.front hpack
  have hget := getElem?_access key (fun e =>
    some (push_entry c.front c.values (e.getD (vacant now)))) w
  unfold push_entry at hget
  rw [hpush] at hget
  refine ⟨(c.values.foldl (push_one c.front) l).length, ?_, ⟨?_, ?_⟩⟩
  · show pushed key c now w.store.keyspace[key]? = _
    unfold pushed
    rw [hpush]
    rfl
  · intro e he
    cases hget.symm.trans he
    exact ⟨_, hvalue, horderly'⟩
  · have hafter : list_at key
        ((rest key c (.insert now)).advance step w).2 = _ :=
      list_at_some hget hvalue
    rw [hlist, hafter, coe_push]
    show (c.values : Multiset Bytes) + 0 + l = 0 + 0 + (c.values + l) + 0
    simp only [zero_add, add_zero]

theorem advance_access (g : Option (Entry F) → Option (Entry F))
    (f : Option (Entry F) → StoreM F (Reply F)) :
    ((Store.access key g >>= f).advance step w).1 = f w.store.keyspace[key]? := rfl

theorem advance_take (hw : Tidy key w) (n : ℕ) :
    ∃ ph', ((rest key c (.take n)).advance step w).1 = rest key c ph' ∧
      Stepped key c (.take n) ph' w ((rest key c (.take n)).advance step w).2 := by
  have hget := getElem?_access key (·.map (Lists.edit_list (Lists.left c.front n))) w
  cases hkey : w.store.keyspace[key]? with
  | none =>
    rw [hkey] at hget
    refine ⟨.done (if n > 1 then .Array (some []) else null_bulk), ?_, ⟨?_, ?_⟩⟩
    · unfold rest Lists.with_list
      rw [advance_access, hkey]
    · intro e he
      cases hget.symm.trans he
    · have hafter : list_at key
          ((rest key c (.take n)).advance step w).2 = [] :=
        list_at_none hget
      rw [list_at_none hkey, hafter]
      split <;> rfl
  | some e =>
    obtain ⟨l, hl, -⟩ := hw e hkey
    have has := DataType.as_list_eq_some.mpr hl
    rw [hkey, Option.map_some] at hget
    unfold Lists.edit_list at hget
    rw [has] at hget
    -- the list is a plain one from now on
    have htidy : Tidy key ((rest key c (.take n) : StoreM F (Reply F)).advance step w).2 := by
      intro e' he'
      cases hget.symm.trans he'
      exact ⟨_, rfl, trivial⟩
    have hlist : list_at key ((rest key c (.take n)).advance step w).2 =
        Lists.left c.front n l := list_at_some hget rfl
    have hnext : ((rest key c (.take n) : StoreM F (Reply F)).advance step w).1 =
        if l.isEmpty then return null_bulk
        else do
          Lists.remove_if (Lists.left c.front n l).isEmpty key
          return Lists.popped_reply (Lists.taken c.front n l) := by
      unfold rest Lists.with_list
      rw [advance_access, hkey]
      dsimp only
      rw [has]
    have hsum := coe_taken_left c.front n l
    by_cases hempty : l.isEmpty = true
    · refine ⟨.done null_bulk, ?_, htidy, ?_⟩
      · rw [hnext, if_pos hempty]
        rfl
      · rw [list_at_some hkey hl, hlist]
        have hnil : Lists.left c.front n l = l := by
          rw [List.isEmpty_iff.mp hempty]
          unfold Lists.left
          split <;> simp
        rw [hnil]
        exact (add_zero _).symm
    · rw [if_neg hempty] at hnext
      by_cases hlast : (Lists.left c.front n l).isEmpty = true
      · refine ⟨.remove (Lists.taken c.front n l), ?_, htidy, ?_⟩
        · rw [hnext, hlast]
          rfl
        · rw [list_at_some hkey hl, hlist]
          show 0 + 0 + (l : Multiset Bytes) = 0 + (Lists.taken c.front n l : Multiset Bytes) + _ + 0
          rw [← hsum]
          simp only [zero_add, add_zero]
      · refine ⟨.done (Lists.popped_reply (Lists.taken c.front n l)), ?_, htidy, ?_⟩
        · rw [hnext, Bool.eq_false_of_not_eq_true hlast]
          rfl
        · rw [list_at_some hkey hl, hlist, given_popped_reply]
          show 0 + 0 + (l : Multiset Bytes) = 0 + (elements _ : Multiset Bytes) + _ + 0
          rw [elements_popped_reply, ← hsum]
          simp only [zero_add, add_zero]

/-- **One step.** Whatever a client does next, every element is accounted for. -/
theorem advance_rest (hw : Tidy key w) (hpack : ∀ v ∈ c.values, Compact.Packable v) (ph : Phase F) :
    ∃ ph', ((rest key c ph).advance step w).1 = rest key c ph' ∧
      Stepped key c ph ph' w ((rest key c ph).advance step w).2 := by
  cases ph with
  | stamp => exact ⟨.insert (w.env.clock 0), rfl, stepped_same hw rfl rfl rfl⟩
  | insert now =>
    obtain ⟨len, hnext, hstepped⟩ := advance_insert hw hpack now
    exact ⟨_, hnext, hstepped⟩
  | notify len => exact ⟨.done (int len), rfl, stepped_same hw rfl rfl rfl⟩
  | take n => exact advance_take hw n
  | remove items =>
    have hget := getElem?_access key (fun _ => none) w
    refine ⟨.done (Lists.popped_reply items), rfl, fun e he => ?_, ?_⟩
    · cases hget.symm.trans he
    · have hafter : list_at key
          ((rest key c (.remove items) : StoreM F (Reply F)).advance step w).2 = [] :=
        list_at_none hget
      rw [hafter, given_popped_reply]
      show 0 + (items : Multiset Bytes) + list_at key w =
        0 + (elements (Lists.popped_reply items) : Multiset Bytes) + 0 + list_at key w
      rw [elements_popped_reply, add_zero]
  | done reply => exact ⟨.done reply, rfl, stepped_same hw rfl rfl rfl⟩

/-! ## All clients -/

section Race

variable {ι : Type} [DecidableEq ι] {key : Bytes} {clients : ι → ListClient}

abbrev Race (ι F : Type) [LinearOrder F] := Config ι (StoreOp F) StoreOp.Res Halt (Reply F) (World F)

def start (key : Bytes) (clients : ι → ListClient) (w : World F) : Race ι F :=
  ⟨fun i => (clients i).handler key, w⟩

/-- The clients have come to these phases. -/
structure At (key : Bytes) (clients : ι → ListClient) (c : Race ι F) (ph : ι → Phase F) : Prop where
  threads : ∀ i, c.threads i = rest key (clients i) (ph i)
  tidy : Tidy key c.shared

theorem at_step (hpack : ∀ i, ∀ v ∈ (clients i).values, Compact.Packable v) {c : Race ι F}
    {ph : ι → Phase F} (h : At key clients c ph) (i : ι) :
    ∃ ph', At key clients (c.step step i) (Function.update ph i ph') ∧
      Stepped key (clients i) (ph i) ph' c.shared (c.step step i).shared := by
  obtain ⟨ph', hnext, hstepped⟩ := advance_rest h.tidy (hpack i) (ph i)
  rw [← h.threads i] at hnext hstepped
  refine ⟨ph', ⟨fun j => ?_, hstepped.tidy⟩, hstepped⟩
  by_cases hj : j = i
  · rw [hj, Config.step_self, hnext, Function.update_self]
  · rw [Config.step_other hj, h.threads j, Function.update_of_ne hj]

/-- The next thing the program does is to remove the key. -/
def Removing (key : Bytes) (p : StoreM F (Reply F)) : Prop :=
  ∃ next, p = .op (.access key fun _ => none) next

theorem removing_iff (key : Bytes) (c : ListClient) (ph : Phase F) :
    Removing key (rest key c ph) ↔ ∃ items, ph = .remove items := by
  constructor
  · rintro ⟨next, hp⟩
    cases ph with
    | remove items => exact ⟨items, rfl⟩
    | insert now =>
      -- a push puts something there even if nothing was
      injection hp with hop
      injection hop with _ hfun
      cases congrFun hfun none
    | take n =>
      -- a pop leaves something there if something was
      injection hp with hop
      injection hop with _ hfun
      cases congrFun hfun (some (vacant 0))
    | stamp => cases hp
    | notify len => cases hp
    | done reply => cases hp
  · rintro ⟨items, rfl⟩
    exact ⟨_, rfl⟩

/-- The client does not remove the key while there is something in the list. -/
def Sparing (key : Bytes) (c : Race ι F) (i : ι) : Prop :=
  Removing key (c.threads i) → list_at key c.shared = []

omit [DecidableEq ι] in
theorem sparing_iff {c : Race ι F} {ph : ι → Phase F} (h : At key clients c ph) (i : ι) :
    Sparing key c i ↔ lost key c.shared (ph i) = 0 := by
  unfold Sparing
  rw [h.threads i, removing_iff]
  cases hph : ph i with
  | remove items =>
    show (_ → list_at key c.shared = []) ↔ (list_at key c.shared : Multiset Bytes) = 0
    rw [coe_eq_zero]
    exact ⟨fun hspare => hspare ⟨items, rfl⟩, fun hnil _ => hnil⟩
  | _ => exact iff_of_true (fun ⟨_, hno⟩ => nomatch hno) rfl

variable [Fintype ι]

theorem sum_update {α : Type} (g : ι → α → Multiset Bytes) (ph : ι → α) (i : ι) (x : α) :
    ∑ j, g j (Function.update ph i x j) + g i (ph i) = ∑ j, g j (ph j) + g i x := by
  have hrest : ∑ j ∈ Finset.univ.erase i, g j (Function.update ph i x j) =
      ∑ j ∈ Finset.univ.erase i, g j (ph j) := by
    refine sum_congr rfl fun j hj => ?_
    rw [Function.update_of_ne (ne_of_mem_erase hj)]
  have hself : g i (Function.update ph i x i) = g i x := by rw [Function.update_self]
  rw [← add_sum_erase _ _ (mem_univ i), hrest, hself,
    ← add_sum_erase _ (fun j => g j (ph j)) (mem_univ i)]
  ac_rfl

/-- The account: what was there and what has been pushed has been popped, is there, or is gone. -/
structure Balanced (key : Bytes) (clients : ι → ListClient) (initial gone : Multiset Bytes)
    (c : Race ι F) (ph : ι → Phase F) : Prop where
  at_ : At key clients c ph
  sum : initial + ∑ i, given (clients i) (ph i) =
    ∑ i, got (ph i) + list_at key c.shared + gone

theorem balanced_step (hpack : ∀ i, ∀ v ∈ (clients i).values, Compact.Packable v)
    {initial gone : Multiset Bytes} {c : Race ι F} {ph : ι → Phase F}
    (h : Balanced key clients initial gone c ph) (i : ι) :
    ∃ ph', Balanced key clients initial (gone + lost key c.shared (ph i))
      (c.step step i) ph' := by
  obtain ⟨ph', hat, hstepped⟩ := at_step hpack h.at_ i
  refine ⟨_, hat, ext.mpr fun v => ?_⟩
  -- the four equations, counted for one element
  have hgiven := congrArg (count v) (sum_update (fun j => given (clients j)) ph i ph')
  have hgot := congrArg (count v) (sum_update (fun _ => got) ph i ph')
  have hstep := congrArg (count v) hstepped.balance
  have hsum := congrArg (count v) h.sum
  simp only [count_add] at hgiven hgot hstep hsum ⊢
  omega

def acknowledged (clients : ι → ListClient) (c : Race ι F) : Multiset Bytes :=
  ∑ i, match c.threads i with
    | .pure (.Integer _) => ((clients i).values : Multiset Bytes)
    | _ => 0

def returned (c : Race ι F) : Multiset Bytes :=
  ∑ i, match c.threads i with
    | .pure reply => (elements reply : Multiset Bytes)
    | _ => 0

omit [DecidableEq ι] [Fintype ι] in
theorem ended_phase {c : ListClient} {ph : Phase F}
    (h : (rest key c ph).Ended) : ∃ reply, ph = .done reply := by
  cases ph with
  | done reply => exact ⟨reply, rfl⟩
  | _ => exact h.elim

omit [DecidableEq ι] in
theorem Balanced.replies {initial gone : Multiset Bytes} {c : Race ι F} {ph : ι → Phase F}
    (h : Balanced key clients initial gone c ph) (hend : c.Finished) :
    initial + acknowledged clients c = returned c + list_at key c.shared + gone := by
  have hdone : ∀ i, ∃ reply, ph i = .done reply ∧ c.threads i = .pure reply := by
    intro i
    obtain ⟨reply, hreply⟩ := ended_phase (c := clients i) (h.at_.threads i ▸ hend i)
    refine ⟨reply, hreply, ?_⟩
    rw [h.at_.threads i, hreply]
    rfl
  have hgiven : acknowledged clients c = ∑ i, given (clients i) (ph i) := by
    refine sum_congr rfl fun i _ => ?_
    obtain ⟨reply, hph, hthread⟩ := hdone i
    rw [hph, hthread]
    cases reply <;> rfl
  have hgot : returned c = ∑ i, got (ph i) := by
    refine sum_congr rfl fun i _ => ?_
    obtain ⟨reply, hph, hthread⟩ := hdone i
    rw [hph, hthread]
    rfl
  rw [hgiven, hgot]
  exact h.sum

omit [DecidableEq ι] in
theorem balanced_start {w : World F} (hw : Tidy key w) :
    Balanced key clients (list_at key w) 0 (start key clients w) fun i => first (clients i) := by
  have hnone : ∀ c : ListClient, given c (first c : Phase F) = 0 ∧ got (first c : Phase F) = 0 := by
    intro c
    cases c with
    | push front values => cases values <;> exact ⟨rfl, rfl⟩
    | pop front count =>
      unfold first
      dsimp only
      cases Lists.pop_count count <;> exact ⟨rfl, rfl⟩
  refine ⟨⟨fun i => handler_eq key (clients i), hw⟩, ?_⟩
  simp only [hnone, sum_const_zero, add_zero, zero_add]
  rfl

/-- **Conservation.** Let clients push short enough elements on a list and pop them, and run to
their ends. No element is popped more often than it was there or has been pushed. And all are popped
or in the list at the end if and only if no client removes the key while there is something in the
list. -/
theorem list_conservation_iff (key : Bytes) (clients : ι → ListClient) (w : World F)
    (schedule : List ι) (hw : Tidy key w)
    (hpack : ∀ i, ∀ v ∈ (clients i).values, Compact.Packable v)
    (hend : (run (Config.step step) (start key clients w) schedule).Finished) :
    let final := run (Config.step step) (start key clients w) schedule
    returned final + list_at key final.shared ≤ list_at key w + acknowledged clients final ∧
      (list_at key w + acknowledged clients final = returned final + list_at key final.shared ↔
        Along (Config.step step) (Sparing key) (start key clients w) schedule) := by
  intro final
  have hstart : Balanced key clients _ 0 (start key clients w) _ := balanced_start hw
  have hany : ∃ gone ph, Balanced key clients (list_at key w) gone final ph :=
    run_invariant (I := fun c => ∃ gone ph, Balanced key clients (list_at key w) gone c ph)
      (fun c i ⟨gone, ph, h⟩ => ⟨_, balanced_step hpack h i⟩) schedule ⟨_, _, hstart⟩
  constructor
  · obtain ⟨gone, ph, h⟩ := hany
    rw [h.replies hend]
    exact le_add_right _ _
  · constructor
    · intro hall
      by_contra hnot
      -- what is gone once stays gone
      obtain ⟨gone, hgone, ph, h⟩ := run_after
        (I := fun c => ∃ gone ph, Balanced key clients (list_at key w) gone c ph)
        (J := fun c => ∃ gone, gone ≠ 0 ∧ ∃ ph, Balanced key clients (list_at key w) gone c ph)
        (fun c i ⟨gone, ph, h⟩ => ⟨_, balanced_step hpack h i⟩)
        (fun c i ⟨gone, ph, h⟩ hi => ⟨_, fun hzero =>
          hi ((sparing_iff h.at_ i).mpr (add_eq_zero.mp hzero).2), balanced_step hpack h i⟩)
        (fun c i ⟨gone, hgone, ph, h⟩ => ⟨_, fun hzero => hgone (add_eq_zero.mp hzero).1,
          balanced_step hpack h i⟩)
        ⟨_, _, hstart⟩ (occurs_of_not_along hnot)
      have hreplies := h.replies hend
      rw [hall] at hreplies
      exact hgone (add_eq_left.mp hreplies.symm)
    · intro hspare
      obtain ⟨ph, h⟩ := hspare.invariant
        (I := fun c => ∃ ph, Balanced key clients (list_at key w) 0 c ph)
        (fun c i hi ⟨ph, h⟩ => by
          have hstep := balanced_step hpack h i
          rwa [(sparing_iff h.at_ i).mp hi, add_zero] at hstep) ⟨_, hstart⟩
      have hreplies := h.replies hend
      rwa [add_zero] at hreplies

end Race

def three_clients : Fin 3 → ListClient :=
  ![.push true [as_bytes "a"], .pop true [], .push true [as_bytes "b"]]

def empty_world : World Resp.Infinity := new .still

/-- One after the other: the second element is still in the list. -/
theorem list_conservation_serial :
    let final := run (Config.step step) (start (as_bytes "k") three_clients empty_world)
      [0, 0, 0, 1, 1, 2, 2, 2]
    returned final + list_at (as_bytes "k") final.shared ≤
        list_at (as_bytes "k") empty_world + acknowledged three_clients final ∧
      (list_at (as_bytes "k") empty_world + acknowledged three_clients final =
        returned final + list_at (as_bytes "k") final.shared ↔
          Along (Config.step step) (Sparing (as_bytes "k"))
            (start (as_bytes "k") three_clients empty_world) [0, 0, 0, 1, 1, 2, 2, 2]) := by
  refine list_conservation_iff (as_bytes "k") three_clients empty_world [0, 0, 0, 1, 1, 2, 2, 2]
    (fun e he => ?_) ?_ ?_
  · cases he
  · unfold Compact.Packable
    decide
  · unfold Config.Finished
    decide

/-- The second push comes between the two calls of the pop: its element is acknowledged, not popped,
and not in the list. -/
theorem push_lost_with_key :
    let final := run (Config.step step) (start (as_bytes "k") three_clients empty_world)
      [0, 0, 0, 1, 2, 2, 2, 1]
    final.Finished ∧ acknowledged three_clients final = {as_bytes "a", as_bytes "b"} ∧
      returned final = {as_bytes "a"} ∧ list_at (as_bytes "k") final.shared = [] := by
  refine ⟨?_, ?_, ?_, ?_⟩
  · unfold Config.Finished
    decide
  · decide +kernel
  · decide +kernel
  · decide +kernel

end ValkeyRs.ListRace
