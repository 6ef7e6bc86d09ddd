/-
A list is a double-ended queue, whichever way it is kept.

`Request` and `Request.apply` say what a queue of byte strings answers, with nothing in them of how
it is stored. LPUSH, RPUSH, LPOP, RPOP, LLEN and LINDEX are requests once their arguments have been
read. A push moves a listpack of more than 128 values to a plain list, and a pop moves any listpack;
every command keeps the relation and replies what the queue answers, so a whole sequence of commands
does (`list_is_deque`).
-/
import ValkeyRs.Compact
import ValkeyRs.Lists
import ValkeyRs.Simulation
import ValkeyRs.StoreWp

set_option autoImplicit false

open ValkeyRs Text Storage Zset Strings Maps Runs List Option
open Collections Lists Compact Simulation

namespace ValkeyRs.Deque

/-! ## The queue -/

/-- What a queue is asked for. -/
inductive Request where
  | push (front : Bool) (values : List Bytes)
  | pop (front : Bool) (n : ℕ)
  | length
  | index (i : ℤ)
  /-- Something that is no request. -/
  | malformed

/-- What a queue answers. -/
inductive Answer where
  | length (n : ℕ)
  | popped (values : List Bytes)
  | element (value : Option Bytes)
  | rejected
  deriving DecidableEq

/-- The queue with values on one end. The value that is pushed last is the outermost. -/
def pushed (front : Bool) (values queue : List Bytes) : List Bytes :=
  if front then values.reverse ++ queue else queue ++ values

/-- The element at a place; from the end, when the number is negative. -/
def element (queue : List Bytes) (i : ℤ) : Option Bytes :=
  if 0 ≤ i then queue[i.toNat]?
  else if -i ≤ queue.length then queue[queue.length - (-i).toNat]?
  else none

def Request.apply (queue : List Bytes) : Request → Answer × List Bytes
  | .push front values =>
    (.length (pushed front values queue).length, pushed front values queue)
  | .pop true n => (.popped (queue.take n), queue.drop n)
  | .pop false n => (.popped (queue.reverse.take n), queue.take (queue.length - n))
  | .length => (.length queue.length, queue)
  | .index i => (.element (element queue i), queue)
  | .malformed => (.rejected, queue)

/-! ## The commands -/

inductive ListCommand where
  | LPUSH
  | RPUSH
  | LPOP
  | RPOP
  | LLEN
  | LINDEX
  deriving Repr, DecidableEq

structure ListCall where
  cmd : ListCommand
  args : List Bytes

section Calls

variable {F : Type} [Score F]

def ListCall.exec (c : ListCall) : StoreM F (Reply F) :=
  match c.cmd with
  | .LPUSH => lp c.args
  | .RPUSH => rp c.args
  | .LPOP => lpo c.args
  | .RPOP => rpo c.args
  | .LLEN => ll c.args
  | .LINDEX => li c.args

/-- The server, one command after the other. -/
def ListCall.step (w : World F) (c : ListCall) : Except Halt (Reply F) × World F :=
  c.exec.run World.step w

def push_request (front : Bool) : List Bytes → Request
  | _ :: value :: rest => .push front (value :: rest)
  | _ => .malformed

/-- The number of elements a pop asks for: one if it does not say. -/
def pop_request (front : Bool) : List Bytes → Request
  | _ :: rest => ((Lists.pop_count rest).map (.pop front)).getD .malformed
  | [] => .malformed

def ListCall.request (c : ListCall) : Request :=
  match c.cmd, c.args with
  | .LPUSH, args => push_request true args
  | .RPUSH, args => push_request false args
  | .LPOP, args => pop_request true args
  | .RPOP, args => pop_request false args
  | .LLEN, _ :: _ => .length
  | .LLEN, [] => .malformed
  | .LINDEX, _ :: index :: _ => ((parse_i64 index).map (.index ·.toInt)).getD .malformed
  | .LINDEX, _ => .malformed

def ListCall.answer (queue : List Bytes) (c : ListCall) : Answer × List Bytes :=
  c.request.apply queue

/-- The reply shows the answer. A pop that returns nothing may reply with a null or with an empty
array. -/
def Shows : Except Halt (Reply F) → Answer → Prop
  | .ok reply, .length n => reply = int n
  | .ok reply, .popped values => reply = popped_reply values ∨ values = [] ∧ reply = null_bulk
  | .ok reply, .element value => reply = .BulkString value
  | .ok reply, .rejected => ∃ text, reply = .Error text
  | .error _, _ => False

/-- The call is about the key, or about none, and what it pushes is shorter than 2³¹ bytes. -/
structure ListCall.On (key : Bytes) (c : ListCall) : Prop where
  key : ∀ k ∈ c.args.head?, k = key
  short : c.cmd = .LPUSH ∨ c.cmd = .RPUSH → ∀ v ∈ c.args.tail, v.length < 2 ^ 31

/-! ## What stands for a queue -/

/-- The value under the key is the queue; there is none if the queue is empty. -/
structure Represents (key : Bytes) (m : HashMap Bytes (Entry F)) (queue : List Bytes) : Prop where
  absent : m[key]? = none → queue = []
  found : ∀ e, m[key]? = some e → queue ≠ [] ∧ e.data.value = .list queue ∧ Orderly e.data

section Values

variable {d : DataType F} {queue : List Bytes}

theorem list_len_of_value (horderly : Orderly d) (h : d.value = .list queue) :
    d.list_len = some queue.length := by
  cases d with
  | List l =>
    injection h with h
    rw [DataType.list_len, h]
  | ListPack pack =>
    obtain ⟨values, hvalues⟩ := horderly
    injection h with h
    rw [DataType.list_len, hvalues.len, ← h, hvalues.to_vec]
  | String | Hash | Set | ZSet | Stream | IntSet => cases h

theorem element_eq (queue : List Bytes) (i : ℤ) :
    (if (if i < 0 then queue.length + i else i) < 0 ∨
        (if i < 0 then queue.length + i else i) ≥ queue.length then none
      else queue[(if i < 0 then queue.length + i else i).toNat]?) = element queue i := by
  unfold element
  by_cases hi : 0 ≤ i
  · have hplace : (if i < 0 then (queue.length : ℤ) + i else i) = i := if_neg (by omega)
    rw [hplace, if_pos hi]
    by_cases hin : i < queue.length
    · exact if_neg (by omega)
    · rw [if_pos (by omega), List.getElem?_eq_none (by omega)]
  · have hplace : (if i < 0 then (queue.length : ℤ) + i else i) = queue.length + i :=
      if_pos (by omega)
    rw [hplace, if_neg hi]
    by_cases hin : -i ≤ queue.length
    · have hnat : ((queue.length : ℤ) + i).toNat = queue.length - (-i).toNat := by omega
      rw [if_pos hin, if_neg (by omega), hnat]
    · rw [if_neg hin, if_pos (by omega)]

theorem list_get_of_value (horderly : Orderly d) (h : d.value = .list queue) (i : ℤ) :
    d.list_get i = element queue i := by
  have hlen := list_len_of_value horderly h
  unfold DataType.list_get
  rw [hlen, ← element_eq]
  cases d with
  | List l =>
    injection h with h
    rw [h]
    rfl
  | ListPack pack =>
    injection h with h
    have hread : ∀ n : ℕ, (pack.iter[n]?).map ListPackEntry.to_bytes = queue[n]? := by
      intro n
      rw [← h, ListPack.to_vec, List.getElem?_map]
    simp only [bind_eq_bind, bind_some, hread]
  | String | Hash | Set | ZSet | Stream | IntSet => cases h

end Values

/-! ## The commands, one by one -/

section Commands

variable {key : Bytes} {m : HashMap Bytes (Entry F)} {queue : List Bytes}

/-- The program answers the request of a queue, and leaves the queue that the request leaves. -/
def Answers (key : Bytes) (m : HashMap Bytes (Entry F)) (queue : List Bytes)
    (p : StoreM F (Reply F)) (request : Request) : Prop :=
  p.Wp (may fun _ => True) (fun r m' =>
    Shows r (request.apply queue).1 ∧ Represents key m' (request.apply queue).2) m

theorem answers_malformed (h : Represents key m queue) (text : String) :
    Answers key m queue (return .Error text) .malformed :=
  ⟨⟨text, rfl⟩, h⟩

theorem foldl_push_one (front : Bool) (values queue : List Bytes) :
    values.foldl (push_one front) queue = pushed front values queue := by
  induction values generalizing queue with
  | nil => cases front <;> simp [pushed]
  | cons v values ih =>
    rw [foldl_cons, ih]
    cases front <;> simp [pushed, push_one]

theorem pushed_ne_nil (front : Bool) (value : Bytes) (rest queue : List Bytes) :
    pushed front (value :: rest) queue ≠ [] := by
  cases front <;> simp [pushed]

theorem push_answers (h : Represents key m queue) (cmd : String) (front : Bool) {args : List Bytes}
    (hkey : ∀ k ∈ args.head?, k = key) (hshort : ∀ v ∈ args.tail, v.length < 2 ^ 31) :
    Answers key m queue (push_with cmd front args) (push_request front args) := by
  match args with
  | [] | [_] => exact answers_malformed h _
  | k :: value :: rest =>
    obtain rfl : k = key := hkey k rfl
    refine wp_now.mpr fun now _ => wp_access.mpr ?_
    -- the entry that is there, or the one that is made
    have hentry : ∀ vacant : Entry F, vacant.data = .ListPack .new →
        (m[k]?.getD vacant).data.value = .list queue ∧ Orderly (m[k]?.getD vacant).data := by
      intro vacant hvacant
      cases hk : m[k]? with
      | none =>
        rw [h.absent hk, getD_none, hvacant]
        exact ⟨congrArg Value.list packs_new.to_vec, [], packs_new⟩
      | some e => exact (h.found e hk).2
    have hpackable : ∀ v ∈ value :: rest, Packable v := by
      intro v hv
      have hlen := hshort v hv
      unfold Packable
      omega
    obtain ⟨hvalue, horderly⟩ := hentry ⟨.ListPack .new, none, now, 1, 1⟩ rfl
    obtain ⟨d, hpush, hd, hd'⟩ := push_value horderly hvalue front hpackable
    rw [foldl_push_one] at hpush hd
    rw [alter_eq_insert rfl, push_entry, hpush]
    refine wp_notify.mpr ⟨rfl, ?_, ?_⟩
    · intro hnone
      rw [Std.ExtTreeMap.getElem?_insert_self] at hnone
      cases hnone
    · intro e he
      rw [Std.ExtTreeMap.getElem?_insert_self] at he
      cases he
      exact ⟨pushed_ne_nil front value rest queue, hd, hd'⟩

theorem apply_pop (queue : List Bytes) (front : Bool) (n : ℕ) :
    (Request.pop front n).apply queue = (.popped (taken front n queue), left front n queue) := by
  cases front with
  | true => rfl
  | false =>
    have hrest : queue.take (queue.length - n) = (queue.reverse.drop n).reverse := by
      rw [drop_reverse, reverse_reverse]
    rw [Request.apply, hrest]
    rfl

theorem represents_insert {e : Entry F} (hne : queue ≠ []) (hvalue : e.data.value = .list queue)
    (horderly : Orderly e.data) : Represents key (m.insert key e) queue where
  absent hnone := by
    rw [Std.ExtTreeMap.getElem?_insert_self] at hnone
    cases hnone
  found e' he := by
    rw [Std.ExtTreeMap.getElem?_insert_self] at he
    cases he
    exact ⟨hne, hvalue, horderly⟩

theorem represents_nil (hnone : m[key]? = none) : Represents key m [] where
  absent _ := rfl
  found e he := by
    rw [hnone] at he
    cases he

theorem pop_answers (h : Represents key m queue) (cmd : String) (front : Bool) {args : List Bytes}
    (hkey : ∀ k ∈ args.head?, k = key) :
    Answers key m queue (pop_with cmd front args) (pop_request front args) := by
  match args with
  | [] => exact answers_malformed h _
  | k :: rest =>
    obtain rfl : k = key := hkey k rfl
    unfold pop_with pop_request Answers
    dsimp only
    cases Lists.pop_count rest with
    | none => exact answers_malformed h _
    | some n =>
      rw [map_some, getD_some, apply_pop]
      refine wp_access.mpr ?_
      cases hk : m[k]? with
      | none =>
        rw [alter_eq_self (by rw [hk]; rfl), h.absent hk]
        have hnothing : taken front n [] = [] ∧ left front n [] = [] := by
          cases front <;> simp [taken, Lists.left]
        rw [hnothing.1, hnothing.2]
        refine ⟨?_, represents_nil hk⟩
        by_cases hn : n > 1
        · exact .inl (if_pos hn)
        · exact .inr ⟨rfl, if_neg hn⟩
      | some e =>
        obtain ⟨hne, hvalue, -⟩ := h.found e hk
        have hlist := DataType.as_list_eq_some.mpr hvalue
        have hedit : edit_list (left front n) e = { e with data := .List (left front n queue) } := by
          rw [edit_list, hlist]
        rw [alter_eq_insert (by rw [hk]; rfl), hedit]
        dsimp only
        rw [hlist]
        dsimp only
        rw [if_neg (by rw [List.isEmpty_iff]; exact hne)]
        unfold remove_if
        by_cases hempty : (left front n queue).isEmpty
        · rw [if_pos hempty, List.isEmpty_iff.mp hempty]
          refine wp_access.mpr ⟨.inl rfl, represents_nil ?_⟩
          rw [alter_eq_erase rfl, Std.ExtTreeMap.getElem?_erase_self]
        · rw [if_neg hempty]
          refine ⟨.inl rfl, represents_insert ?_ rfl trivial⟩
          rwa [List.isEmpty_iff] at hempty

theorem read_answers (h : Represents key m queue) {present : DataType F → Option (Reply F)}
    {absent : Reply F} {request : Request} (hkeep : (request.apply queue).2 = queue)
    (habsent : queue = [] → Shows (.ok absent) (request.apply queue).1)
    (hpresent : ∀ d, d.value = .list queue → Orderly d →
      ∃ reply, present d = some reply ∧ Shows (.ok reply) (request.apply queue).1) :
    Answers key m queue (read_list key present absent) request := by
  unfold Answers
  rw [hkeep]
  refine wp_access.mpr ?_
  rw [alter_eq_self rfl]
  cases hk : m[key]? with
  | none => exact ⟨habsent (h.absent hk), h⟩
  | some e =>
    obtain ⟨-, hvalue, horderly⟩ := h.found e hk
    obtain ⟨reply, hreply, hshows⟩ := hpresent e.data hvalue horderly
    dsimp only
    rw [hreply]
    exact ⟨hshows, h⟩

theorem exec_answers (h : Represents key m queue) {c : ListCall} (hc : c.On key) :
    Answers key m queue c.exec c.request := by
  obtain ⟨cmd, args⟩ := c
  cases cmd with
  | LPUSH => exact push_answers h _ true hc.key (hc.short (.inl rfl))
  | RPUSH => exact push_answers h _ false hc.key (hc.short (.inr rfl))
  | LPOP => exact pop_answers h _ true hc.key
  | RPOP => exact pop_answers h _ false hc.key
  | LLEN =>
    match args with
    | [] => exact answers_malformed h _
    | k :: _ =>
      obtain rfl : k = key := hc.key k rfl
      unfold ListCall.exec ListCall.request ll
      refine read_answers h rfl (fun hnil => ?_) fun d hvalue horderly => ?_
      · rw [hnil]
        rfl
      · rw [list_len_of_value horderly hvalue]
        exact ⟨_, rfl, rfl⟩
  | LINDEX =>
    match args with
    | [] | [_] => exact answers_malformed h _
    | k :: index :: _ =>
      obtain rfl : k = key := hc.key k rfl
      unfold ListCall.exec ListCall.request li
      dsimp only
      cases parse_i64 index with
      | none => exact answers_malformed h _
      | some i =>
        dsimp only [map_some, getD_some]
        refine read_answers h rfl (fun hnil => ?_) fun d hvalue horderly => ?_
        · have hnone : element [] i.toInt = none := by
            unfold element
            split
            · rfl
            · split <;> rfl
          rw [hnil, Request.apply, hnone]
          rfl
        · have htype : d.is_list_type = true := by
            cases d with
            | List | ListPack => rfl
            | String | Hash | Set | ZSet | Stream | IntSet => cases hvalue
          rw [list_get_of_value horderly hvalue, htype]
          cases helement : element queue i.toInt with
          | none => exact ⟨_, rfl, congrArg Resp.RespValue.BulkString helement.symm⟩
          | some v => exact ⟨_, rfl, congrArg Resp.RespValue.BulkString helement.symm⟩

theorem Represents.value (h : Represents key m queue) :
    m[key]?.map (·.data.value) = if queue = [] then none else some (.list queue) := by
  cases hk : m[key]? with
  | none => rw [if_pos (h.absent hk), map_none]
  | some e =>
    obtain ⟨hne, hvalue, -⟩ := h.found e hk
    rw [if_neg hne, map_some, hvalue]

end Commands

/-- **A list is a double-ended queue.** From a world in which there is no such key, every sequence
of the six commands replies what a queue of byte strings answers, and leaves the list that the
queue has become, if it is not empty. -/
theorem list_is_deque (key : Bytes) (w : World F) (habsent : w.store.keyspace[key]? = none)
    (cs : List ListCall) (hcs : ∀ c ∈ cs, c.On key) :
    List.Forall₂ Shows (replies ListCall.step w cs) (replies ListCall.answer [] cs) ∧
      (final ListCall.step w cs).store.keyspace[key]?.map (·.data.value) =
        if final ListCall.answer [] cs = [] then none
        else some (.list (final ListCall.answer [] cs)) := by
  have hstep : ∀ (w : World F) (queue : List Bytes) (c : ListCall), c.On key →
      Represents key w.store.keyspace queue →
      Shows (c.step w).1 (c.answer queue).1 ∧
        Represents key (c.step w).2.store.keyspace (c.answer queue).2 :=
    fun w queue c hc h => run_of_wp (exec_answers h hc) fun _ => trivial
  obtain ⟨hreplies, hfinal⟩ := simulates (C := fun _ (c : ListCall) => c.On key)
    (R := fun (w : World F) queue => Represents key w.store.keyspace queue) hstep
    (represents_nil habsent) (along_of_forall hcs)
  exact ⟨hreplies, hfinal.value⟩

end Calls

def over_the_threshold : List ListCall :=
  [⟨.RPUSH, as_bytes "k" :: List.replicate 129 (as_bytes "v")⟩, ⟨.LPOP, [as_bytes "k"]⟩,
    ⟨.LINDEX, [as_bytes "k", as_bytes "-1"]⟩]

theorem list_is_deque_over_threshold :
    List.Forall₂ Shows
        (replies ListCall.step (World.new .still : World Resp.Infinity) over_the_threshold)
        [.length 129, .popped [as_bytes "v"], .element (some (as_bytes "v"))] ∧
      (final ListCall.step (World.new .still : World Resp.Infinity)
        over_the_threshold).store.keyspace[as_bytes "k"]?.map (·.data.value) =
          some (.list (List.replicate 128 (as_bytes "v"))) := by
  have hanswers : replies ListCall.answer [] over_the_threshold =
      [.length 129, .popped [as_bytes "v"], .element (some (as_bytes "v"))] := by decide +kernel
  have hfinal : final ListCall.answer [] over_the_threshold = List.replicate 128 (as_bytes "v") := by
    decide +kernel
  have hne : List.replicate 128 (as_bytes "v") ≠ [] := by decide
  have hdeque := list_is_deque (as_bytes "k") (World.new .still : World Resp.Infinity) rfl
    over_the_threshold fun c hc => ?_
  · rwa [hanswers, hfinal, if_neg hne] at hdeque
  simp only [over_the_threshold, mem_cons, not_mem_nil, or_false] at hc
  rcases hc with rfl | rfl | rfl
  · refine ⟨fun k hk => (Option.some.inj hk).symm, fun _ v hv => ?_⟩
    rw [(mem_replicate.mp hv).2]
    decide
  · exact ⟨fun k hk => (Option.some.inj hk).symm, fun h => by simp at h⟩
  · exact ⟨fun k hk => (Option.some.inj hk).symm, fun h => by simp at h⟩

end ValkeyRs.Deque
