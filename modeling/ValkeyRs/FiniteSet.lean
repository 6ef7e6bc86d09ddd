/-
A set is a finite set of byte strings, unless it is kept as numbers and asked about other texts.

`Request.apply` says what a finite set answers. The commands SADD, SREM, SISMEMBER, SMISMEMBER, SCARD
and SMEMBERS are requests, and what each of them makes of the value under its key is a function of that
value (`SetCall.outcome`). An intset has the texts of its numbers as members. Two commands do not
see it like this: SADD of a text like `+7` or `007` puts in the number, whose text is another one, and
SISMEMBER parses the member too, and calls the value one of the wrong type when it is no number.
`Exact` is what excludes these cases. It is exactly what is needed: `set_is_finite_set_iff`.
-/
import ValkeyRs.Compact
import ValkeyRs.Sets
import ValkeyRs.Simulation
import ValkeyRs.StoreWp

set_option autoImplicit false

open ValkeyRs Text Storage Zset Strings Maps Runs List
open Collections Sets Compact Simulation

namespace ValkeyRs.FiniteSet

/-! ## The set -/

/-- What a set is asked for. -/
inductive Request where
  | add (members : List Bytes)
  | remove (members : List Bytes)
  | contains (member : Bytes)
  | contains_each (members : List Bytes)
  | card
  | members
  /-- Something that is no request. -/
  | malformed

/-- What a set answers. -/
inductive Answer where
  | count (n : ℕ)
  | flag (b : Bool)
  | flags (bs : List Bool)
  | members (S : Finset Bytes)
  | rejected

/-- Additions and removals answer how many members they added or removed. -/
def Request.apply (S : Finset Bytes) : Request → Answer × Finset Bytes
  | .add xs => (.count (xs.toFinset \ S).card, S ∪ xs.toFinset)
  | .remove xs => (.count (xs.toFinset ∩ S).card, S \ xs.toFinset)
  | .contains x => (.flag (x ∈ S), S)
  | .contains_each xs => (.flags (xs.map fun x => decide (x ∈ S)), S)
  | .card => (.count S.card, S)
  | .members => (.members S, S)
  | .malformed => (.rejected, S)

/-! ## The commands -/

inductive SetCommand where
  | SADD
  | SREM
  | SISMEMBER
  | SMISMEMBER
  | SCARD
  | SMEMBERS
  deriving Repr, DecidableEq

structure SetCall where
  cmd : SetCommand
  args : List Bytes

section Calls

variable {F : Type} [Score F]

def SetCall.exec (c : SetCall) : StoreM F (Reply F) :=
  match c.cmd with
  | .SADD => sadd c.args
  | .SREM => srem c.args
  | .SISMEMBER => sismember c.args
  | .SMISMEMBER => smismember c.args
  | .SCARD => scard c.args
  | .SMEMBERS => smembers c.args

/-- The server, one command after the other. -/
def SetCall.step (w : World F) (c : SetCall) : Except Halt (Reply F) × World F :=
  c.exec.run World.step w

def SetCall.request (c : SetCall) : Request :=
  match c.cmd, c.args with
  | .SADD, _ :: member :: rest => .add (member :: rest)
  | .SREM, _ :: member :: rest => .remove (member :: rest)
  | .SISMEMBER, [_, member] => .contains member
  | .SMISMEMBER, _ :: member :: rest => .contains_each (member :: rest)
  | .SCARD, [_] => .card
  | .SMEMBERS, [_] => .members
  | _, _ => .malformed

def SetCall.answer (S : Finset Bytes) (c : SetCall) : Answer × Finset Bytes := c.request.apply S

/-- The reply shows the answer; the members come in any order. -/
def Shows : Except Halt (Reply F) → Answer → Prop
  | .ok reply, .count n => reply = int n
  | .ok reply, .flag b => reply = one_or_zero b
  | .ok reply, .flags bs => reply = .Array (some (bs.map one_or_zero))
  | .ok reply, .members S => ∃ l, reply = members_reply l ∧ l.Nodup ∧ l.toFinset = S
  | .ok reply, .rejected => ∃ text, reply = .Error text
  | .error _, _ => False

/-- The call is about the key, or about none. -/
def SetCall.On (key : Bytes) (c : SetCall) : Prop := ∀ k ∈ c.args.head?, k = key

def data_at (m : HashMap Bytes (Entry F)) (key : Bytes) : Option (DataType F) :=
  m[key]?.map Entry.data

/-- The members of the set; a key that is not there has none. -/
def set_of (d : Option (DataType F)) : Option (HashSet Bytes) :=
  match d with
  | none => some ∅
  | some d => d.to_set_clone

/-- The data is a set with these members. -/
def Represents (d : Option (DataType F)) (S : Finset Bytes) : Prop :=
  ∃ s, set_of d = some s ∧ ∀ x, x ∈ s ↔ x ∈ S

/-- Numbers that go into an intset are written as the server writes them; and an intset is asked
for a number, which is written like this if it is there. -/
def Exact (d : Option (DataType F)) (c : SetCall) : Prop :=
  match c.cmd, c.args with
  | .SADD, _ :: member :: rest =>
    IntoIntSet d (member :: rest) → ∀ m ∈ member :: rest, Canonical m
  | .SISMEMBER, [_, member] => ∀ is, d = some (.IntSet is) →
    ∃ v, parse_i64 member = some v ∧ (is.contains v.toInt = true → int_bytes v = member)
  | _, _ => True

/-! ## What a command makes of the data -/

def read_outcome (present : DataType F → Option (Reply F)) (absent : Reply F)
    (d : Option (DataType F)) : Reply F × Option (DataType F) :=
  (match d with
    | some d => (present d).getD wrong_type
    | none => absent, d)

/-- The reply, and the data that is left under the key. -/
def SetCall.outcome (c : SetCall) (d : Option (DataType F)) : Reply F × Option (DataType F) :=
  match c.cmd, c.args with
  | .SADD, _ :: member :: rest =>
    match sadd_data (member :: rest) (sadd_start (member :: rest) d) with
    | some (data, added) => (int added, some data)
    | none => (wrong_type, d)
  | .SADD, _ => (.Error (wrong_number "sadd"), d)
  | .SREM, _ :: member :: rest =>
    match d with
    | some data =>
      match data.to_set_clone with
      | some s => (int (srem_members (member :: rest) s 0).2,
          some (.Set (srem_members (member :: rest) s 0).1))
      | none => (wrong_type, d)
    | none => (int 0, d)
  | .SREM, _ => (.Error (wrong_number "srem"), d)
  | .SISMEMBER, [_, member] =>
    read_outcome (fun data => (data.set_contains member).map one_or_zero) (int 0) d
  | .SISMEMBER, _ => (.Error (wrong_number "sismember"), d)
  | .SMISMEMBER, _ :: member :: rest =>
    read_outcome (fun data => data.to_set_clone.map fun s =>
        .Array (some ((member :: rest).map fun m => one_or_zero (s.contains m))))
      (.Array (some ((member :: rest).map fun _ => int 0))) d
  | .SMISMEMBER, _ => (.Error (wrong_number "smismember"), d)
  | .SCARD, [_] => read_outcome (fun data => data.set_len.map int) (int 0) d
  | .SCARD, _ => (.Error (wrong_number "scard"), d)
  | .SMEMBERS, [_] =>
    read_outcome (fun data => data.to_set_clone.map fun s => members_reply s.toList)
      (members_reply []) d
  | .SMEMBERS, _ => (.Error (wrong_number "smembers"), d)

/-- The key never gets an expiry time. -/
def Lasting (key : Bytes) (m : HashMap Bytes (Entry F)) : Prop :=
  ∀ e, m[key]? = some e → e.expires_at = none

section Outcomes

variable {key : Bytes} {m : HashMap Bytes (Entry F)}

/-- The program replies and leaves this. -/
def Gives (key : Bytes) (m : HashMap Bytes (Entry F)) (p : StoreM F (Reply F))
    (outcome : Reply F × Option (DataType F)) : Prop :=
  p.Wp (may fun _ => True) (fun r m' =>
    r = .ok outcome.1 ∧ data_at m' key = outcome.2 ∧ Lasting key m') m

/-- `Store::get` of a key without an expiry time. -/
theorem gives_get (h : Lasting key m) {f : Option (Entry F) → StoreM F (Reply F)}
    {outcome : Reply F × Option (DataType F)} (hf : Gives key m (f m[key]?) outcome) :
    Gives key m (Store.get key >>= f) outcome := by
  refine wp_get (fun hnone => ?_) (fun e he _ => ?_) fun e t now he ht _ _ => ?_
  · rw [hnone] at hf
    exact hf
  · rw [he] at hf
    exact hf
  · rw [h e he] at ht
    cases ht

theorem gives_set {data : DataType F} {reply : Reply F} :
    Gives key m (Store.set key data none >>= fun _ => return reply) (reply, some data) := by
  refine wp_set_none fun now _ => ⟨rfl, ?_, ?_⟩
  · rw [data_at, Std.ExtTreeMap.getElem?_insert_self]
    rfl
  · intro e he
    rw [Std.ExtTreeMap.getElem?_insert_self] at he
    cases he
    rfl

theorem gives_read (h : Lasting key m) (present : DataType F → Option (Reply F))
    (absent : Reply F) :
    Gives key m (read_set key present absent) (read_outcome present absent (data_at m key)) := by
  refine gives_get h ?_
  unfold data_at
  cases hk : m[key]? with
  | none => exact ⟨rfl, by rw [data_at, hk]; rfl, h⟩
  | some e => exact ⟨rfl, by rw [data_at, hk]; rfl, h⟩

/-- A command does to the data under its key what `outcome` says. -/
theorem exec_gives (h : Lasting key m) {c : SetCall} (hc : c.On key) :
    Gives key m c.exec (c.outcome (data_at m key)) := by
  obtain ⟨cmd, args⟩ := c
  have hstays (text : String) :
      Gives key m (return .Error text) (.Error text, data_at m key) := ⟨rfl, rfl, h⟩
  cases cmd with
  | SADD =>
    match args with
    | [] | [_] => exact hstays _
    | k :: member :: rest =>
      obtain rfl : k = key := hc k rfl
      refine gives_get h ?_
      show Gives k m (match sadd_data (member :: rest) (sadd_start (member :: rest) (data_at m k)) with
        | some (entry, added) => do
          Store.set k entry none
          return int added
        | none => return wrong_type) (match sadd_data (member :: rest)
            (sadd_start (member :: rest) (data_at m k)) with
          | some (data, added) => (int added, some data)
          | none => (wrong_type, data_at m k))
      cases sadd_data (member :: rest) (sadd_start (member :: rest) (data_at m k)) with
      | none => exact ⟨rfl, rfl, h⟩
      | some result => exact gives_set
  | SREM =>
    match args with
    | [] | [_] => exact hstays _
    | k :: member :: rest =>
      obtain rfl : k = key := hc k rfl
      refine gives_get h ?_
      unfold SetCall.outcome
      have hdata : data_at m k = m[k]?.map Entry.data := rfl
      cases hk : m[k]? with
      | none =>
        rw [hk] at hdata
        rw [hdata]
        exact ⟨rfl, hdata, h⟩
      | some e =>
        rw [hk] at hdata
        rw [hdata]
        dsimp only [Option.map_some]
        cases e.data.to_set_clone with
        | none => exact ⟨rfl, hdata, h⟩
        | some s => exact gives_set
  | SISMEMBER =>
    match args with
    | [k, member] =>
      obtain rfl : k = key := hc k rfl
      unfold SetCall.exec SetCall.outcome sismember
      exact gives_read h _ _
    | [] | [_] | _ :: _ :: _ :: _ => exact hstays _
  | SMISMEMBER =>
    match args with
    | [] | [_] => exact hstays _
    | k :: member :: rest =>
      obtain rfl : k = key := hc k rfl
      unfold SetCall.exec SetCall.outcome smismember
      exact gives_read h _ _
  | SCARD =>
    match args with
    | [k] =>
      obtain rfl : k = key := hc k rfl
      unfold SetCall.exec SetCall.outcome scard
      exact gives_read h _ _
    | [] | _ :: _ :: _ => exact hstays _
  | SMEMBERS =>
    match args with
    | [k] =>
      obtain rfl : k = key := hc k rfl
      unfold SetCall.exec SetCall.outcome smembers
      exact gives_read h _ _
    | [] | _ :: _ :: _ => exact hstays _

end Outcomes

/-! ## The loops -/

section Loops

variable {s : HashSet Bytes} {is : IntSet} {S : Finset Bytes}

theorem card_added (x : Bytes) (xs : List Bytes) (S : Finset Bytes) :
    ((x :: xs).toFinset \ S).card =
      (if x ∈ S then 0 else 1) + (xs.toFinset \ insert x S).card := by
  rw [toFinset_cons]
  by_cases hx : x ∈ S
  · rw [if_pos hx, Finset.insert_sdiff_of_mem _ hx, Finset.insert_eq_self.mpr hx, Nat.zero_add]
  · have hsplit : insert x xs.toFinset \ S = insert x (xs.toFinset \ insert x S) := by
      ext y
      by_cases hy : y = x
      · simp [hy, hx]
      · simp [hy]
    rw [if_neg hx, hsplit, Finset.card_insert_of_notMem (by simp), Nat.add_comm]

theorem card_removed (x : Bytes) (xs : List Bytes) (S : Finset Bytes) :
    ((x :: xs).toFinset ∩ S).card =
      (if x ∈ S then 1 else 0) + (xs.toFinset ∩ S.erase x).card := by
  rw [toFinset_cons]
  by_cases hx : x ∈ S
  · have hsplit : insert x xs.toFinset ∩ S = insert x (xs.toFinset ∩ S.erase x) := by
      ext y
      by_cases hy : y = x
      · simp [hy, hx]
      · simp [hy]
    rw [if_pos hx, hsplit, Finset.card_insert_of_notMem (by simp), Nat.add_comm]
  · rw [if_neg hx, Finset.erase_eq_of_notMem hx, Finset.insert_inter_of_notMem hx, Nat.zero_add]

theorem sadd_members_count (h : ∀ x, x ∈ s ↔ x ∈ S) (members : List Bytes) (n : ℕ) :
    (sadd_members members s n).2 = n + (members.toFinset \ S).card := by
  induction members generalizing s S n with
  | nil => simp [sadd_members]
  | cons m members ih =>
    have hnext : ∀ x, x ∈ s.insert m ↔ x ∈ insert m S := by
      intro x
      rw [Std.ExtTreeSet.mem_insert, Std.LawfulEqCmp.compare_eq_iff_eq, Finset.mem_insert, h, eq_comm]
    rw [sadd_members, ih hnext, card_added]
    simp only [Std.ExtTreeSet.contains_iff_mem, h]
    split <;> omega

theorem mem_srem_members (members : List Bytes) (n : ℕ) (x : Bytes) :
    x ∈ (srem_members members s n).1 ↔ x ∈ s ∧ x ∉ members := by
  induction members generalizing s n with
  | nil => simp [srem_members]
  | cons m members ih =>
    rw [srem_members, ih, Std.ExtTreeSet.mem_erase, ne_eq, Std.LawfulEqCmp.compare_eq_iff_eq,
      mem_cons, not_or, eq_comm]
    tauto

theorem srem_members_count (h : ∀ x, x ∈ s ↔ x ∈ S) (members : List Bytes) (n : ℕ) :
    (srem_members members s n).2 = n + (members.toFinset ∩ S).card := by
  induction members generalizing s S n with
  | nil => simp [srem_members]
  | cons m members ih =>
    have hnext : ∀ x, x ∈ s.erase m ↔ x ∈ S.erase m := by
      intro x
      rw [Std.ExtTreeSet.mem_erase, ne_eq, Std.LawfulEqCmp.compare_eq_iff_eq, Finset.mem_erase, h,
        eq_comm]
    rw [srem_members, ih hnext, card_removed]
    simp only [Std.ExtTreeSet.contains_iff_mem, h]
    split <;> omega

theorem mem_texts {x : Bytes} :
    x ∈ gather ∅ is.members ↔ ∃ v ∈ is.iter, as_bytes (toString v) = x := by
  rw [mem_gather, IntSet.members, mem_map]
  simp

theorem contains_iff_of_canonical (h : ∀ x, x ∈ gather ∅ is.members ↔ x ∈ S) {m : Bytes} {i : Int64}
    (hparse : parse_i64 m = some i) (htext : int_bytes i = m) :
    is.contains i.toInt = true ↔ m ∈ S := by
  rw [is.contains_iff, ← h, mem_texts]
  constructor
  · intro hi
    exact ⟨i.toInt, hi, htext⟩
  · rintro ⟨v, hv, rfl⟩
    rw [parse_member hv hparse]
    exact hv

theorem intset_len (h : ∀ x, x ∈ gather ∅ is.members ↔ x ∈ S) : is.len = S.card := by
  have hnodup : is.iter.Nodup := is.codes_iter.sorted.imp fun hlt => ne_of_lt hlt
  have htexts : is.members.Nodup := by
    refine List.Nodup.map_on (fun v hv v' hv' heq => ?_) hnodup
    obtain ⟨hlo, hhi⟩ := is.bounds hv
    have hparse := parse_i64_toString hlo hhi
    rw [← parse_member hv hparse]
    rw [heq] at hparse
    exact parse_member hv' hparse
  have hset : is.members.toFinset = S := by
    ext x
    rw [mem_toFinset, ← h, mem_gather]
    simp
  rw [← hset, toFinset_card_of_nodup htexts, IntSet.members, length_map,
    is.codes_iter.length]
  rfl

theorem sadd_integers_count (h : ∀ x, x ∈ gather ∅ is.members ↔ x ∈ S) {members : List Bytes}
    (hint : all_integers members = true) (hcanon : ∀ m ∈ members, Canonical m) (n : ℕ) :
    (sadd_integers members is n).2 = n + (members.toFinset \ S).card := by
  induction members generalizing is S n with
  | nil => simp [sadd_integers]
  | cons m members ih =>
    obtain ⟨hm, hrest⟩ : (parse_i64 m).isSome = true ∧ all_integers members = true := by
      simpa [all_integers] using hint
    obtain ⟨i, hi⟩ := Option.isSome_iff_exists.mp hm
    have htext : int_bytes i = m := hcanon m mem_cons_self i hi
    have hnext : ∀ x, x ∈ gather ∅ (is.add i).1.members ↔ x ∈ insert m S := by
      intro x
      rw [mem_texts, Finset.mem_insert, ← h, mem_texts]
      simp only [is.mem_add, or_and_right, exists_or, exists_eq_left]
      rw [show as_bytes (toString i.toInt) = m from htext, eq_comm]
    have hadded : (is.add i).2 = !is.contains i.toInt := by
      unfold IntSet.add
      split <;> simp_all
    rw [sadd_integers, hi]
    rw [ih hnext hrest (fun m' hm' => hcanon m' (mem_cons_of_mem m hm')), card_added, hadded]
    simp only [← contains_iff_of_canonical h hi htext]
    cases is.contains i.toInt <;> simp
    omega

end Loops

/-! ## One command -/

section Steps

variable {d : Option (DataType F)} {S : Finset Bytes}

/-- The outcome shows the answer, and represents the set that is left. -/
def Agrees (outcome : Reply F × Option (DataType F)) (answer : Answer × Finset Bytes) : Prop :=
  Shows (.ok outcome.1) answer.1 ∧ Represents outcome.2 answer.2

theorem sadd_set_agrees {s : HashSet Bytes} (h : ∀ x, x ∈ s ↔ x ∈ S) (members : List Bytes) :
    Agrees ((int (sadd_members members s 0).2, some (.Set (sadd_members members s 0).1)) :
      Reply F × Option (DataType F)) ((Request.add members).apply S) := by
  refine ⟨?_, _, rfl, fun x => ?_⟩
  · rw [sadd_members_count h, Nat.zero_add]
    rfl
  · rw [sadd_members_eq, mem_gather, h]
    simp [Request.apply]

theorem sadd_intset_agrees_iff {is : IntSet} (h : ∀ x, x ∈ gather ∅ is.members ↔ x ∈ S)
    {members : List Bytes} (hint : all_integers members = true) {data : DataType F} {n : ℕ}
    (hdata : sadd_data members (.IntSet is) = some (data, n)) :
    Agrees (int n, some data) ((Request.add members).apply S) ↔ ∀ m ∈ members, Canonical m := by
  obtain ⟨is', hn, hset⟩ : ∃ is', (is', n) = sadd_integers members is 0 ∧
      set_of (some data) = some (gather ∅ is'.members) := by
    cases hdata
    refine ⟨_, rfl, ?_⟩
    split <;> rfl
  have hresult : is' = (sadd_integers members is 0).1 := congrArg Prod.fst hn
  constructor
  · rintro ⟨-, s', hs', hmem⟩ m hm i hi
    -- the member is there after the addition, so it is the text of a number
    cases hset.symm.trans hs'
    have hm' : m ∈ gather ∅ is'.members := (hmem m).mpr (by simp [Request.apply, hm])
    obtain ⟨v, hv, rfl⟩ := mem_texts.mp hm'
    rw [int_bytes, parse_member hv hi]
  · intro hcanon
    refine ⟨?_, _, hset, fun x => ?_⟩
    · have hcount := sadd_integers_count h hint hcanon 0
      rw [← hn, Nat.zero_add] at hcount
      exact congrArg int hcount
    · rw [hresult, gather_sadd_integers hint hcanon, mem_gather, h]
      simp [Request.apply]

/-- Where the members go: into an intset or into a plain set, which is the one that is there. -/
theorem sadd_start_cases (h : Represents d S) (members : List Bytes) :
    (IntoIntSet d members ∧ ∃ is, sadd_start members d = .IntSet is ∧
        ∀ x, x ∈ gather ∅ is.members ↔ x ∈ S) ∨
      ¬ IntoIntSet d members ∧ ∃ s, sadd_start members d = .Set s ∧ ∀ x, x ∈ s ↔ x ∈ S := by
  obtain ⟨s, hs, hmem⟩ := h
  unfold sadd_start
  by_cases hint : all_integers members = true
  · simp only [if_pos hint]
    cases d with
    | none =>
      cases hs
      exact .inl ⟨⟨hint, fun _ h => by cases h⟩, .new, rfl, hmem⟩
    | some data =>
      cases data with
      | Set x =>
        cases hs
        refine .inr ⟨fun hinto => ?_, s, rfl, hmem⟩
        obtain ⟨is, his⟩ := hinto.2 _ rfl
        cases his
      | IntSet is =>
        cases hs
        refine .inl ⟨⟨hint, fun data hdata => ?_⟩, is, rfl, hmem⟩
        cases hdata
        exact ⟨is, rfl⟩
      | String | List | Hash | ZSet | Stream | ListPack => cases hs
  · simp only [if_neg hint]
    refine .inr ⟨fun hinto => hint hinto.1, s, ?_, hmem⟩
    cases d with
    | none =>
      cases hs
      rfl
    | some data =>
      cases data with
      | Set | IntSet =>
        cases hs
        rfl
      | String | List | Hash | ZSet | Stream | ListPack => cases hs

theorem sadd_agrees_iff (h : Represents d S) (key member : Bytes) (rest : List Bytes) :
    Agrees ((⟨.SADD, key :: member :: rest⟩ : SetCall).outcome d)
        ((Request.add (member :: rest)).apply S) ↔
      Exact d ⟨.SADD, key :: member :: rest⟩ := by
  unfold SetCall.outcome Exact
  dsimp only
  generalize member :: rest = members
  rcases sadd_start_cases h members with ⟨hinto, is, hstart, hmem⟩ | ⟨hinto, s, hstart, hmem⟩
  · obtain ⟨data, n, hdata⟩ : ∃ data n, sadd_data members (.IntSet is : DataType F) = some (data, n) :=
      ⟨_, _, rfl⟩
    rw [hstart, hdata]
    exact (sadd_intset_agrees_iff hmem hinto.1 hdata).trans ⟨fun h _ => h, fun h => h hinto⟩
  · rw [hstart]
    exact iff_of_true (sadd_set_agrees hmem members) fun h => absurd h hinto

theorem srem_agrees (h : Represents d S) (key member : Bytes) (rest : List Bytes) :
    Agrees ((⟨.SREM, key :: member :: rest⟩ : SetCall).outcome d)
      ((Request.remove (member :: rest)).apply S) := by
  unfold SetCall.outcome
  dsimp only
  generalize member :: rest = members
  obtain ⟨s, hs, hmem⟩ := h
  cases d with
  | none =>
    cases hs
    have hempty : S = ∅ := Finset.eq_empty_of_forall_notMem fun x hx => by
      simpa using (hmem x).mpr hx
    subst hempty
    exact ⟨by simp [Request.apply, Shows], ∅, rfl, by simp [Request.apply]⟩
  | some data =>
    have hclone : data.to_set_clone = some s := hs
    dsimp only
    rw [hclone]
    dsimp only
    refine ⟨?_, _, rfl, fun x => ?_⟩
    · rw [srem_members_count hmem, Nat.zero_add]
      rfl
    · rw [mem_srem_members, hmem]
      simp [Request.apply]

theorem read_agrees (h : Represents d S) {present : DataType F → Option (Reply F)}
    {absent : Reply F} {answer : Answer}
    (habsent : S = ∅ → Shows (.ok absent) answer)
    (hpresent : ∀ data s, data.to_set_clone = some s → (∀ x, x ∈ s ↔ x ∈ S) →
      ∃ reply, present data = some reply ∧ Shows (.ok reply) answer) :
    Agrees (read_outcome present absent d) (answer, S) := by
  refine ⟨?_, h⟩
  obtain ⟨s, hs, hmem⟩ := h
  unfold read_outcome
  cases d with
  | none =>
    cases hs
    refine habsent (Finset.eq_empty_of_forall_notMem fun x hx => ?_)
    simpa using (hmem x).mpr hx
  | some data =>
    obtain ⟨reply, hreply, hshows⟩ := hpresent data s hs hmem
    dsimp only
    rw [hreply]
    exact hshows

omit [Score F] in
theorem one_or_zero_inj {a b : Bool} : (one_or_zero a : Reply F) = one_or_zero b ↔ a = b := by
  constructor
  · intro h
    cases a <;> cases b <;> first | rfl | simp [one_or_zero, int] at h
  · exact congrArg one_or_zero

/-- SISMEMBER of an intset. -/
theorem sismember_intset_agrees_iff {is : IntSet} (h : ∀ x, x ∈ gather ∅ is.members ↔ x ∈ S)
    (member : Bytes) :
    ((((DataType.IntSet is : DataType F).set_contains member).map one_or_zero).getD wrong_type =
        (one_or_zero (member ∈ S) : Reply F)) ↔
      ∃ v, parse_i64 member = some v ∧ (is.contains v.toInt = true → int_bytes v = member) := by
  unfold DataType.set_contains
  cases hparse : parse_i64 member with
  | none =>
    refine iff_of_false nofun ?_
    rintro ⟨v, hv, -⟩
    cases hv
  | some v =>
    refine one_or_zero_inj.trans ?_
    rw [Bool.eq_iff_iff, decide_eq_true_iff]
    constructor
    · intro hiff
      refine ⟨v, rfl, fun hcontains => ?_⟩
      -- the member is the text of some number, and so of this one
      obtain ⟨v', hv', rfl⟩ := mem_texts.mp ((h member).mpr (hiff.mp hcontains))
      rw [int_bytes, parse_member hv' hparse]
    · rintro ⟨v', hv', htext⟩
      cases hv'
      constructor
      · intro hcontains
        exact (contains_iff_of_canonical h hparse (htext hcontains)).mp hcontains
      · intro hmember
        obtain ⟨v', hv', rfl⟩ := mem_texts.mp ((h member).mpr hmember)
        rw [is.contains_iff, parse_member hv' hparse]
        exact hv'

theorem sismember_agrees_iff (h : Represents d S) (key member : Bytes) :
    Agrees ((⟨.SISMEMBER, [key, member]⟩ : SetCall).outcome d)
        ((Request.contains member).apply S) ↔
      Exact d ⟨.SISMEMBER, [key, member]⟩ := by
  unfold SetCall.outcome Exact
  refine (and_iff_left h).trans ?_
  obtain ⟨s, hs, hmem⟩ := h
  cases d with
  | none =>
    cases hs
    have habsent : decide (member ∈ S) = false := decide_eq_false fun hm => by
      simpa using (hmem member).mpr hm
    refine iff_of_true ?_ nofun
    show int 0 = one_or_zero (decide (member ∈ S))
    rw [habsent]
    rfl
  | some data =>
    cases data with
    | Set s' =>
      cases hs
      refine iff_of_true (one_or_zero_inj.mpr ?_) nofun
      rw [Bool.eq_iff_iff, decide_eq_true_iff, Std.ExtTreeSet.contains_iff_mem, hmem]
    | IntSet is =>
      cases hs
      refine (sismember_intset_agrees_iff hmem member).trans ⟨fun hv is' his' => ?_, fun h => h is rfl⟩
      cases his'
      exact hv
    | String | List | Hash | ZSet | Stream | ListPack => cases hs

theorem smismember_agrees (h : Represents d S) (key member : Bytes) (rest : List Bytes) :
    Agrees ((⟨.SMISMEMBER, key :: member :: rest⟩ : SetCall).outcome d)
      ((Request.contains_each (member :: rest)).apply S) := by
  unfold SetCall.outcome
  dsimp only
  generalize member :: rest = members
  refine read_agrees h (fun hempty => ?_) fun data s hclone hmem => ?_
  · subst hempty
    simp [Shows, one_or_zero]
  · rw [hclone]
    refine ⟨_, rfl, ?_⟩
    have hflags : members.map (fun m => s.contains m) = members.map fun m => decide (m ∈ S) := by
      refine map_congr_left fun m _ => ?_
      rw [Bool.eq_iff_iff, decide_eq_true_iff, Std.ExtTreeSet.contains_iff_mem, hmem]
    show Resp.RespValue.Array _ = .Array (some ((members.map fun m => decide (m ∈ S)).map one_or_zero))
    rw [← hflags, map_map]
    rfl

theorem scard_agrees (h : Represents d S) (key : Bytes) :
    Agrees ((⟨.SCARD, [key]⟩ : SetCall).outcome d) (Request.card.apply S) := by
  refine read_agrees h (fun hempty => ?_) fun data s hclone hmem => ?_
  · subst hempty
    rfl
  · cases data with
    | Set s' =>
      cases hclone
      exact ⟨_, rfl, congrArg int (size_eq_card hmem)⟩
    | IntSet is =>
      cases hclone
      exact ⟨_, rfl, congrArg int (intset_len hmem)⟩
    | String | List | Hash | ZSet | Stream | ListPack => cases hclone

theorem smembers_agrees (h : Represents d S) (key : Bytes) :
    Agrees ((⟨.SMEMBERS, [key]⟩ : SetCall).outcome d) (Request.members.apply S) := by
  refine read_agrees h (fun hempty => ?_) fun data s hclone hmem => ?_
  · subst hempty
    exact ⟨[], rfl, .nil, rfl⟩
  · rw [hclone]
    exact ⟨_, rfl, s.toList, rfl, toFinset_toList hmem⟩

theorem agrees_iff (h : Represents d S) (c : SetCall) :
    Agrees (c.outcome d) (c.answer S) ↔ Exact d c := by
  obtain ⟨cmd, args⟩ := c
  have hmalformed (text : String) : Agrees ((.Error text, d)) (.rejected, S) :=
    ⟨⟨text, rfl⟩, h⟩
  cases cmd with
  | SADD =>
    match args with
    | [] | [_] => exact iff_of_true (hmalformed _) trivial
    | key :: member :: rest => exact sadd_agrees_iff h key member rest
  | SREM =>
    match args with
    | [] | [_] => exact iff_of_true (hmalformed _) trivial
    | key :: member :: rest => exact iff_of_true (srem_agrees h key member rest) trivial
  | SISMEMBER =>
    match args with
    | [key, member] => exact sismember_agrees_iff h key member
    | [] | [_] | _ :: _ :: _ :: _ => exact iff_of_true (hmalformed _) trivial
  | SMISMEMBER =>
    match args with
    | [] | [_] => exact iff_of_true (hmalformed _) trivial
    | key :: member :: rest => exact iff_of_true (smismember_agrees h key member rest) trivial
  | SCARD =>
    match args with
    | [key] => exact iff_of_true (scard_agrees h key) trivial
    | [] | _ :: _ :: _ => exact iff_of_true (hmalformed _) trivial
  | SMEMBERS =>
    match args with
    | [key] => exact iff_of_true (smembers_agrees h key) trivial
    | [] | _ :: _ :: _ => exact iff_of_true (hmalformed _) trivial

end Steps

/-- **A set is a finite set.** From a world in which there is no such key, a sequence of the six
commands replies what a finite set of byte strings answers, and leaves its members, at its end and on
the way, if and only if every command meets the condition on the data it finds. -/
theorem set_is_finite_set_iff (key : Bytes) (w : World F) (habsent : w.store.keyspace[key]? = none)
    (cs : List SetCall) (hcs : ∀ c ∈ cs, c.On key) :
    (∀ n, List.Forall₂ Shows (replies SetCall.step w (cs.take n))
          (replies SetCall.answer ∅ (cs.take n)) ∧
        Represents (data_at (final SetCall.step w (cs.take n)).store.keyspace key)
          (final SetCall.answer ∅ (cs.take n))) ↔
      Along (advance SetCall.step) (fun w c => Exact (data_at w.store.keyspace key) c) w cs := by
  have hgives (w : World F) (c : SetCall) (hc : c.On key) (hw : Lasting key w.store.keyspace) :
      (c.step w).1 = .ok (c.outcome (data_at w.store.keyspace key)).1 ∧
        data_at (c.step w).2.store.keyspace key = (c.outcome (data_at w.store.keyspace key)).2 ∧
        Lasting key (c.step w).2.store.keyspace :=
    run_of_wp (exec_gives hw hc) fun _ => trivial
  refine simulates_iff (I := fun w : World F => Lasting key w.store.keyspace)
    (R := fun (w : World F) S => Represents (data_at w.store.keyspace key) S)
    (fun w c hc hw => (hgives w c hc hw).2.2) (fun w S c hc hw hS => ?_) hcs ?_ ?_
  · obtain ⟨hreply, hdata, -⟩ := hgives w c hc hw
    rw [hreply, hdata]
    exact agrees_iff hS c
  · intro e he
    rw [habsent] at he
    cases he
  · rw [data_at, habsent]
    exact ⟨∅, rfl, by simp⟩

end Calls

def mixed_run : List SetCall :=
  [⟨.SADD, [as_bytes "k", as_bytes "7", as_bytes "a"]⟩, ⟨.SISMEMBER, [as_bytes "k", as_bytes "b"]⟩]

/-- A set with a member that is no number can be asked about anything. -/
theorem set_is_finite_set_mixed :
    List.Forall₂ Shows
        (replies SetCall.step (World.new .still : World Resp.Infinity) (mixed_run.take 2))
        (replies SetCall.answer ∅ (mixed_run.take 2)) ∧
      Represents (data_at (final SetCall.step (World.new .still : World Resp.Infinity)
        (mixed_run.take 2)).store.keyspace (as_bytes "k"))
        (final SetCall.answer ∅ (mixed_run.take 2)) := by
  refine (set_is_finite_set_iff (as_bytes "k") (World.new .still) rfl mixed_run ?_).mpr
    ⟨?_, ?_, trivial⟩ 2
  · simp [mixed_run, SetCall.On]
  · intro hinto
    exact absurd hinto.1 (by decide)
  · intro is his
    cases his

/-- `WRONGTYPE` for a member that is no number; a number that is not there under the text it was
added with; and a text that was never added. -/
theorem intset_shows_through :
    replies SetCall.step (World.new .still : World Resp.Infinity)
        [⟨.SADD, ["k", "1"].map as_bytes⟩, ⟨.SISMEMBER, ["k", "a"].map as_bytes⟩] =
      [.ok (int 1), .ok wrong_type] ∧
    replies SetCall.step (World.new .still : World Resp.Infinity)
        [⟨.SADD, ["k", "007"].map as_bytes⟩, ⟨.SMISMEMBER, ["k", "007", "7"].map as_bytes⟩,
          ⟨.SISMEMBER, ["k", "+7"].map as_bytes⟩] =
      [.ok (int 1), .ok (.Array (some [int 0, int 1])), .ok (int 1)] :=
  ⟨rfl, rfl⟩

end ValkeyRs.FiniteSet
