/-
What a change to a collection does to the expiry time of its key.

Some commands change the entry where it is, and others put a changed copy back with `Store::set`,
which makes a new entry without an expiry time. `Stored T m keys m'` says just that of two maps: the
keys in `keys` have been stored anew, and of the other ones those that are there have the expiry
time they had. Which keys a command stores anew can be said beforehand (`InPlace.rewritten`), and
the expiry times are kept if and only if none of them has one.
-/
import ValkeyRs.Hashes
import ValkeyRs.Lists
import ValkeyRs.Sets
import ValkeyRs.Streams
import ValkeyRs.ZsetCalls

set_option autoImplicit false

open ValkeyRs Text Storage Zset Strings Collections Option Streams Lists
open Maps

namespace ValkeyRs.Expiry

variable {F : Type} [Score F] {α β : Type}

/-! ## Expiry times -/

def expiry (T : Instant) (m : HashMap Bytes (Entry F)) (key : Bytes) : Option Instant :=
  (seen T m key).bind Entry.expires_at

/-- The keys that are there afterwards have the expiry times they had. -/
def Kept (T : Instant) (m m' : HashMap Bytes (Entry F)) : Prop :=
  ∀ key entry, seen T m' key = some entry → entry.expires_at = expiry T m key

/-- The given keys have been stored anew, and the other ones have kept their expiry times. -/
structure Stored (T : Instant) (m : HashMap Bytes (Entry F)) (keys : List Bytes)
    (m' : HashMap Bytes (Entry F)) : Prop where
  anew : ∀ key ∈ keys, ∃ entry, m'[key]? = some entry ∧ entry.expires_at = none
  kept : ∀ key ∉ keys, ∀ entry, seen T m' key = some entry → entry.expires_at = expiry T m key

section Entries

variable {T : Instant} {m m' : HashMap Bytes (Entry F)} {keys : List Bytes} {key : Bytes}
  {entry : Entry F}

omit [Score F] in
theorem stale_of_expires_at_none [LinearOrder F] {entry : Entry F} (h : entry.expires_at = none) :
    entry.stale T = false := by
  unfold Entry.stale
  rw [h]

theorem expiry_of_seen (h : seen T m key = some entry) : expiry T m key = entry.expires_at := by
  unfold expiry
  rw [h]
  rfl

theorem expiry_of_unseen (h : seen T m key = none) : expiry T m key = none := by
  unfold expiry
  rw [h]
  rfl

theorem Stored.kept_iff (h : Stored T m keys m') :
    Kept T m m' ↔ ∀ key ∈ keys, expiry T m key = none := by
  constructor
  · intro hkept key hkey
    obtain ⟨entry, hentry, hnone⟩ := h.anew key hkey
    have hseen := seen_of_some hentry (stale_of_expires_at_none (T := T) hnone)
    rw [← hkept key entry hseen, hnone]
  · intro hnone key entry hseen
    by_cases hkey : key ∈ keys
    · obtain ⟨entry', hentry, hnone'⟩ := h.anew key hkey
      rw [seen_of_some hentry (stale_of_expires_at_none hnone')] at hseen
      cases hseen
      rw [hnone', hnone key hkey]
    · exact h.kept key hkey entry hseen

namespace Stored

theorem refl : Stored T m [] m where
  anew := nofun
  kept _ _ _ hseen := (expiry_of_seen hseen).symm

theorem swept (h : Stored T m keys m') (key : Bytes) : Stored T m keys (swept T m' key) where
  anew k hk := by
    obtain ⟨entry, hentry, hnone⟩ := h.anew k hk
    refine ⟨entry, ?_, hnone⟩
    by_cases hkey : k = key
    · rw [hkey] at hentry ⊢
      rw [swept_self, seen_of_some hentry (stale_of_expires_at_none hnone)]
    · rw [swept_of_ne hkey, hentry]
  kept k hk entry hseen := h.kept k hk entry (by rwa [seen_swept] at hseen)

theorem insert (h : Stored T m keys m') (hnone : entry.expires_at = none) :
    Stored T m (key :: keys) (m'.insert key entry) where
  anew k hk := by
    by_cases hkey : key = k
    · rw [← hkey]
      exact ⟨entry, Std.ExtTreeMap.getElem?_insert_self, hnone⟩
    · rw [insert_of_ne (Ne.symm hkey)]
      exact h.anew k ((List.mem_cons.mp hk).resolve_left (Ne.symm hkey))
  kept k hk e hseen := by
    rw [List.mem_cons, not_or] at hk
    exact h.kept k hk.2 e (hseen ▸ seen_congr (insert_of_ne hk.1).symm)

theorem insert_fresh (h : Stored T m keys m') (hnone : entry.expires_at = none)
    (hfresh : expiry T m key = none) : Stored T m keys (m'.insert key entry) where
  anew k hk := (h.insert hnone).anew k (List.mem_cons_of_mem _ hk)
  kept k hk e hseen := by
    by_cases hkey : k = key
    · rw [hkey] at hseen ⊢
      have hself := (seen_eq_some_iff.mp hseen).1
      rw [Std.ExtTreeMap.getElem?_insert_self] at hself
      cases hself
      rw [hnone, hfresh]
    · exact (h.insert hnone).kept k (List.mem_cons.not.mpr (not_or.mpr ⟨hkey, hk⟩)) e hseen

theorem erase (h : Stored T m [] m') (key : Bytes) : Stored T m [] (m'.erase key) where
  anew := nofun
  kept k _ e hseen := by
    obtain ⟨he, hlive⟩ := seen_eq_some_iff.mp hseen
    exact h.kept k (by simp) e (seen_of_some (of_erase he) hlive)

end Stored

/-! ## Changes in place -/

theorem expiry_swept : expiry T (swept T m key) = expiry T m := by
  funext k
  unfold expiry
  rw [seen_swept]

theorem expiry_alter {g : Option (Entry F) → Option (Entry F)}
    (h : (g m[key]?).bind Entry.expires_at = m[key]?.bind Entry.expires_at)
    (hsome : m[key]?.isSome → (g m[key]?).isSome) : expiry T (m.alter key g) = expiry T m := by
  funext k
  by_cases hkey : key = k
  · rw [← hkey]
    unfold expiry seen
    rw [Std.ExtTreeMap.getElem?_alter_self]
    cases he : m[key]? with
    | none =>
      rw [he] at h
      cases hg : g none with
      | none => rfl
      | some e' =>
        -- a new entry, without an expiry time
        have hnone : e'.expires_at = none := by rwa [hg] at h
        rw [filter_some, stale_of_expires_at_none hnone]
        exact hnone
    | some e =>
      rw [he] at h hsome
      obtain ⟨e', hg⟩ := isSome_iff_exists.mp (hsome rfl)
      have hexp : e'.expires_at = e.expires_at := by rwa [hg] at h
      have hstale : e'.stale T = e.stale T := by
        unfold Entry.stale
        rw [hexp]
      rw [hg, filter_some, filter_some, hstale]
      split
      · exact hexp
      · rfl
  · exact congrArg (Option.bind · _) (seen_congr (alter_of_ne (Ne.symm hkey)))

theorem Stored.of_expiry (h : expiry T m' = expiry T m) : Stored T m [] m' := by
  refine ⟨nofun, fun key _ entry hseen => ?_⟩
  rw [← h, expiry_of_seen hseen]

end Entries

/-! ## Programs that leave the expiry times alone -/

/-- Every live key has the expiry time it had. -/
def Gentle (T : Instant) (p : StoreM F α) : Prop :=
  ∀ m, p.Wp (may (· = T)) (fun _ m' => expiry T m' = expiry T m) m

/-- The program stores the given keys anew, and leaves the expiry times of the others alone. -/
def Stores (T : Instant) (m : HashMap Bytes (Entry F)) (keys : List Bytes) (p : StoreM F α) : Prop :=
  p.Wp (may (· = T)) (fun _ m' => Stored T m keys m') m

section Programs

variable {T : Instant} {p : StoreM F α}

theorem Gentle.stores (h : Gentle T p) (m : HashMap Bytes (Entry F)) : Stores T m [] p :=
  (h m).mono fun _ _ hexp => .of_expiry hexp

namespace Gentle

theorem pure (a : α) : Gentle T (Pure.pure a : StoreM F α) := fun _ => rfl

theorem fail (e : Halt) : Gentle T (.fail e : StoreM F α) := fun _ => rfl

theorem bind {f : α → StoreM F β} (hp : Gentle T p) (hf : ∀ a, Gentle T (f a)) :
    Gentle T (p >>= f) := by
  intro m
  refine .bind (hp m) (fun a m' h => ?_) fun e m' h => h
  exact (hf a m').mono fun _ _ h' => h'.trans h

theorem ite {c : Prop} [Decidable c] {q : StoreM F α} (hp : c → Gentle T p)
    (hq : ¬ c → Gentle T q) : Gentle T (if c then p else q) :=
  fun m => .ite (fun hc => hp hc m) fun hc => hq hc m

theorem lift (x : Except Halt α) : Gentle T (liftM x : StoreM F α) := by
  cases x <;> exact fun _ => rfl

theorem call {o : StoreOp F} (ho : ∀ m r m', may (· = T) o m r m' → m' = m) :
    Gentle T (Storage.call o) := by
  intro m r m' hr
  rw [ho m r m' hr]
  rfl

theorem now : Gentle T (Store.now : StoreM F Instant) := call fun _ _ _ h => h.2

theorem unix_time : Gentle T (Store.unix_time : StoreM F ℕ) := call fun _ _ _ h => h

theorem notify (key : Bytes) : Gentle T (Store.notify_watchers key : StoreM F Unit) :=
  call fun _ _ _ h => h

theorem exists_key (key : Bytes) : Gentle T (Store.exists_key key : StoreM F Bool) := by
  intro m
  have hget : (Store.exists_key key >>= Pure.pure).Wp (may (· = T))
      (fun _ m' => expiry T m' = expiry T m) m := wp_exists_at expiry_swept
  refine (Prog.wp_bind.mp hget).mono fun r m' h => ?_
  cases r <;> exact h

theorem access {key : Bytes} {g : Option (Entry F) → Option (Entry F)}
    (h : ∀ e, (g e).bind Entry.expires_at = e.bind Entry.expires_at)
    (hsome : ∀ e, e.isSome → (g e).isSome) :
    Gentle T (Store.access key g) := by
  rintro m r m' ⟨-, rfl⟩
  exact expiry_alter (h _) (hsome _)

theorem map {key : Bytes} {g : Entry F → Entry F} (h : ∀ e, (g e).expires_at = e.expires_at) :
    Gentle T (Store.access key (·.map g)) := by
  refine access (fun e => ?_) fun e he => ?_
  · cases e with
    | none => rfl
    | some e => exact h e
  · rwa [isSome_map]

/-- `entry(key).or_insert_with(..)`. -/
theorem or_insert {key : Bytes} {g : Entry F → Entry F} {vacant : Entry F}
    (h : ∀ e, (g e).expires_at = e.expires_at) (hvacant : vacant.expires_at = none) :
    Gentle T (Store.access key fun e => some (g (e.getD vacant))) := by
  refine access (fun e => ?_) fun e _ => rfl
  cases e with
  | none => exact (h vacant).trans hvacant
  | some e => exact h e

theorem vacant {data : DataType F} {f : Entry F → StoreM F α}
    (h : ∀ entry, entry.expires_at = none → Gentle T (f entry)) :
    Gentle T (do
      let entry ← Entry.new data none (← Store.now)
      f entry) :=
  bind now fun _ => h _ rfl

end Gentle

/-! ## Lists -/

theorem push_entry_expires_at (front : Bool) (values : List Bytes) (entry : Entry F) :
    (push_entry front values entry).expires_at = entry.expires_at := by
  unfold push_entry
  split <;> rfl

theorem edit_list_expires_at (f : List Bytes → List Bytes) (entry : Entry F) :
    (edit_list f entry).expires_at = entry.expires_at := by
  unfold edit_list
  split <;> rfl

theorem push_with_gentle (cmd : String) (front : Bool) (args : List Bytes) :
    Gentle T (push_with cmd front args : StoreM F (Reply F)) := by
  unfold push_with
  split
  · refine .vacant fun vacant hvacant => ?_
    refine (Gentle.or_insert (push_entry_expires_at _ _) hvacant).bind fun found => ?_
    split
    · exact (Gentle.notify _).bind fun _ => Gentle.pure _
    · exact .pure _
  · exact .pure _

theorem with_list_gentle {key : Bytes} {f : List Bytes → List Bytes}
    {found : List Bytes → StoreM F (Reply F)} {absent : Reply F} (h : ∀ l, Gentle T (found l)) :
    Gentle T (with_list key f found absent) := by
  refine (Gentle.map (edit_list_expires_at f)).bind fun e => ?_
  cases e with
  | none => exact .pure _
  | some entry =>
    dsimp only
    split
    · exact h _
    · exact .pure _

variable (args : List Bytes)

theorem ls_gentle : Gentle T (ls args : StoreM F (Reply F)) := by
  unfold ls
  split
  · split
    · exact .pure _
    · refine with_list_gentle fun l => ?_
      exact .ite (fun _ => .pure _) fun _ => .pure _
  · exact .pure _

theorem ltr_gentle : Gentle T (ltr args : StoreM F (Reply F)) := by
  unfold ltr
  split
  · split
    · exact with_list_gentle fun l => .pure _
    · exact .pure _
  · exact .pure _

theorem pop_with_stores (cmd : String) (front : Bool) (args : List Bytes)
    (m : HashMap Bytes (Entry F)) :
    Stores T m [] (pop_with cmd front args) := by
  unfold pop_with
  split
  · exact (Gentle.pure _).stores m
  · split
    · exact (Gentle.pure _).stores m
    · rename_i key _ _ c _
      refine Prog.Wp.bind (Gentle.map (edit_list_expires_at (left front c)) m)
        (fun e m' hexp => ?_) fun _ _ hexp => .of_expiry hexp
      have hstored : Stored T m [] m' := .of_expiry hexp
      cases e with
      | none => exact hstored
      | some entry =>
        dsimp only
        split
        · refine .ite (fun _ => hstored) fun _ => ?_
          unfold remove_if
          rw [Prog.ite_bind]
          refine .ite (fun _ => ?_) fun _ => hstored
          refine wp_access.mpr ?_
          rw [alter_eq_erase rfl]
          exact hstored.erase key
        · exact hstored

/-! ## Hashes -/

theorem edit_hash_expires_at (f : HashMap Bytes Bytes → HashMap Bytes Bytes) (entry : Entry F) :
    (Hashes.edit_hash f entry).expires_at = entry.expires_at := by
  unfold Hashes.edit_hash
  split <;> rfl

variable (key : Bytes)

theorem with_hash_gentle (f : HashMap Bytes Bytes → HashMap Bytes Bytes)
    (reply : HashMap Bytes Bytes → Reply F) : Gentle T (Hashes.with_hash key f reply) := by
  refine .vacant fun vacant hvacant => ?_
  refine (Gentle.or_insert (edit_hash_expires_at f) hvacant).bind fun found => ?_
  split <;> exact Gentle.pure _

theorem hset_gentle : Gentle T (hset args : StoreM F (Reply F)) := by
  cases args with
  | nil => exact .pure _
  | cons key pairs =>
    exact .ite (fun _ => .pure _) fun _ => with_hash_gentle _ _ _

theorem hdel_gentle : Gentle T (Hashes.hdel args : StoreM F (Reply F)) := by
  unfold Hashes.hdel
  split
  · refine (Gentle.map (edit_hash_expires_at _)).bind fun e => ?_
    cases e with
    | none => exact Gentle.pure _
    | some entry =>
      dsimp only
      split <;> exact Gentle.pure _
  · exact .pure _

/-! ## Streams -/

theorem get_stream_gentle : Gentle T (get_stream key : StoreM F StreamData) := by
  refine (Gentle.access (fun _ => rfl) fun _ h => h).bind fun e => ?_
  cases e with
  | none => exact .pure _
  | some entry =>
    dsimp only
    split
    · exact .pure _
    · exact .fail _

theorem save_stream_gentle (sd : StreamData) :
    Gentle T (save_stream key sd : StoreM F Unit) := by
  refine .vacant fun vacant hvacant => .bind (.access (fun e => ?_) fun _ _ => rfl)
    fun _ => .pure _
  cases e with
  | none => exact hvacant
  | some e => rfl

theorem xadd_with_gentle (maxlen : Option (Bool × ℕ)) (req : Option StreamId)
    (fields : List (Bytes × Bytes)) :
    Gentle T (xadd_with key maxlen req fields : StoreM F (Reply F)) := by
  refine (get_stream_gentle key).bind fun sd => ?_
  refine .bind (Gentle.unix_time.bind fun _ => .pure _) fun now => ?_
  refine (Gentle.lift _).bind fun id => ?_
  exact (save_stream_gentle _ _).bind fun _ => Gentle.pure _

theorem xadd_gentle : Gentle T (xadd args : StoreM F (Reply F)) := by
  unfold xadd
  split
  · refine (Gentle.lift _).bind fun r => ?_
    obtain ⟨opts, req, fields⟩ := r
    refine Gentle.ite (fun _ => (Gentle.exists_key _).bind fun b => ?_) fun _ => ?_
    · exact Gentle.ite (fun _ => xadd_with_gentle _ _ _ _) fun _ => Gentle.pure _
    · exact xadd_with_gentle _ _ _ _
  · exact .fail _

theorem xtrim_with_gentle (strat : String) (threshold : Bytes) :
    Gentle T (xtrim_with key strat threshold : StoreM F (Reply F)) := by
  refine (get_stream_gentle key).bind fun sd => (Gentle.lift _).bind fun ids => ?_
  exact (save_stream_gentle _ _).bind fun _ => Gentle.pure _

theorem xtrim_gentle : Gentle T (xtrim args : StoreM F (Reply F)) := by
  unfold xtrim
  split
  · refine (Gentle.lift _).bind fun strat => (Gentle.lift _).bind fun a => ?_
    refine Gentle.ite (fun _ => ?_) fun _ => xtrim_with_gentle _ _ _
    split
    · exact Gentle.fail _
    · exact xtrim_with_gentle _ _ _
  · exact .fail _

theorem xdel_gentle : Gentle T (xdel args : StoreM F (Reply F)) := by
  unfold xdel
  split
  · refine (get_stream_gentle _).bind fun sd => (Gentle.lift _).bind fun r => ?_
    exact (save_stream_gentle _ _).bind fun _ => Gentle.pure _
  · exact .fail _

/-! ## Sets -/

def set_at (T : Instant) (m : HashMap Bytes (Entry F)) (key : Bytes) : Option (HashSet Bytes) :=
  (seen T m key).bind fun entry => entry.data.to_set_clone

theorem sadd_data_isSome (members : List Bytes) (data : DataType F) :
    (sadd_data members (sadd_start members (some data))).isSome = data.to_set_clone.isSome := by
  unfold sadd_start
  by_cases hall : all_integers members
  · rw [if_pos hall]
    cases data <;> rfl
  · rw [if_neg hall]
    cases data <;> rfl

variable {m : HashMap Bytes (Entry F)}

theorem sadd_stores (key member : Bytes) (rest : List Bytes) :
    Stores T m (if (set_at T m key).isSome then [key] else [])
      (sadd (key :: member :: rest)) := by
  refine wp_get_at ?_
  have hswept : Stored T m [] (swept T m key) := .of_expiry expiry_swept
  dsimp only
  cases hseen : seen T m key with
  | none =>
    have hset : (set_at T m key).isSome = false := by
      unfold set_at
      rw [hseen]
      rfl
    rw [hset]
    split
    · exact wp_set_none fun now _ => hswept.insert_fresh rfl (expiry_of_unseen hseen)
    · exact hswept
  | some entry =>
    have hset : (set_at T m key).isSome =
        (sadd_data (member :: rest) (sadd_start (member :: rest) (some entry.data))).isSome := by
      unfold set_at
      rw [hseen, sadd_data_isSome]
      rfl
    rw [hset, map_some]
    split
    · rename_i hdata
      rw [hdata]
      exact wp_set_none fun now _ => hswept.insert rfl
    · rename_i hdata
      rw [hdata]
      exact hswept

theorem srem_stores (key member : Bytes) (rest : List Bytes) :
    Stores T m (if (set_at T m key).isSome then [key] else [])
      (Sets.srem (key :: member :: rest)) := by
  refine wp_get_at ?_
  have hswept : Stored T m [] (swept T m key) := .of_expiry expiry_swept
  unfold set_at
  cases seen T m key with
  | none => exact hswept
  | some entry =>
    rw [bind_some]
    dsimp only
    cases entry.data.to_set_clone with
    | none => exact hswept
    | some s => exact wp_set_none fun now _ => hswept.insert rfl

/-- SPOP gets as many members as it is asked for, or panics when there are not so many. -/
theorem wp_spop_members {C : Instant → Prop} (n : ℕ) (s : HashSet Bytes) (popped : List Bytes) :
    (Sets.spop_members n s popped).Wp (may C)
      (fun r m' => m' = m ∧ r.isOk = decide (n ≤ s.size)) m := by
  induction n generalizing s popped with
  | zero => exact ⟨rfl, rfl⟩
  | succ n ih =>
    rw [Sets.spop_members]
    unfold Sets.draw_member
    by_cases hempty : s.isEmpty
    · rw [if_pos hempty]
      refine ⟨rfl, (decide_eq_false ?_).symm⟩
      rw [Std.ExtTreeSet.isEmpty_eq_size_beq_zero, beq_iff_eq] at hempty
      omega
    · rw [if_neg hempty, Prog.bind_assoc]
      refine wp_random fun r => ?_
      have hsize : 0 < s.size := by
        rw [Std.ExtTreeSet.isEmpty_eq_size_beq_zero, beq_iff_eq] at hempty
        omega
      have hidx : r % s.size < s.toList.length := by
        rw [Std.ExtTreeSet.length_toList]
        exact Nat.mod_lt _ hsize
      have hmem : s.contains s.toList[r % s.size] = true :=
        Std.ExtTreeSet.mem_iff_contains.mp (Std.ExtTreeSet.mem_toList.mp (List.getElem_mem hidx))
      rw [Prog.pure'_bind, List.getElem?_eq_getElem hidx]
      refine (ih _ _).mono fun _ _ h => ⟨h.1, h.2.trans (decide_eq_decide.mpr ?_)⟩
      rw [Std.ExtTreeSet.size_erase, if_pos hmem]
      omega

/-- The key SPOP stores: it has to be a set with as many members as are asked for. -/
def spop_rewritten (T : Instant) (m : HashMap Bytes (Entry F)) (key : Bytes) (count : List Bytes) :
    List Bytes :=
  if count.length > 1 then []
  else match Sets.spop_count count, set_at T m key with
    | some n, some s => if s.isEmpty = false ∧ n ≤ s.size then [key] else []
    | _, _ => []

theorem spop_stores (key : Bytes) (count : List Bytes) :
    Stores T m (spop_rewritten T m key count) (Sets.spop (key :: count)) := by
  unfold Sets.spop spop_rewritten
  refine .ite (fun hcount => ?_) fun hcount => ?_
  · rw [if_pos hcount]
    exact .refl
  rw [if_neg hcount]
  cases Sets.spop_count count with
  | none => exact .refl
  | some n =>
    refine wp_get_at ?_
    have hswept : Stored T m [] (swept T m key) := .of_expiry expiry_swept
    unfold set_at
    cases seen T m key with
    | none => exact hswept
    | some entry =>
      rw [bind_some]
      dsimp only
      cases entry.data.to_set_clone with
      | none => exact hswept
      | some s =>
        dsimp only
        refine .ite (fun hempty => ?_) fun hempty => ?_
        · rw [if_neg fun h => absurd (h.1.symm.trans hempty) Bool.false_ne_true]
          exact hswept
        refine .bind (wp_spop_members n s []) ?_ ?_
        · rintro r m' ⟨rfl, hok⟩
          -- the loop came to its end
          have hkeys : (if s.isEmpty = false ∧ n ≤ s.size then [key] else []) = [key] :=
            if_pos ⟨Bool.eq_false_iff.mpr hempty, of_decide_eq_true hok.symm⟩
          rw [hkeys]
          refine wp_set_none fun now _ => .ite (fun _ => ?_) fun _ => ?_ <;>
            exact hswept.insert rfl
        · rintro e m' ⟨rfl, hok⟩
          rw [if_neg fun h => of_decide_eq_false hok.symm h.2]
          exact hswept

/-- The keys SMOVE stores. -/
def smove_rewritten (T : Instant) (m : HashMap Bytes (Entry F)) (source dest member : Bytes) :
    List Bytes :=
  match set_at T m source with
  | some s =>
    if s.contains member then
      if (set_at T m dest).isSome then [dest, source] else [source]
    else []
  | none => []

theorem smove_in_stores {m' : HashMap Bytes (Entry F)} {source dest member : Bytes}
    (h : Stored T m [source] m')
    (hdest : (set_at T m' dest).isSome = (set_at T m dest).isSome)
    (habsent : seen T m' dest = none → expiry T m dest = none) :
    (Sets.smove_in dest member).Wp (may (· = T))
      (fun _ m'' => Stored T m
        (if (set_at T m dest).isSome then [dest, source] else [source]) m'') m' := by
  refine wp_get_at ?_
  rw [← hdest]
  unfold set_at
  cases hseen : seen T m' dest with
  | none => exact wp_set_none fun now _ => (h.swept dest).insert_fresh rfl (habsent hseen)
  | some entry =>
    rw [bind_some, map_some, getD_some]
    cases entry.data.to_set_clone with
    | none => exact h.swept dest
    | some s => exact wp_set_none fun now _ => (h.swept dest).insert rfl

theorem smove_stores (source dest member : Bytes) :
    Stores T m (smove_rewritten T m source dest member)
      (Sets.smove [source, dest, member]) := by
  refine wp_get_at ?_
  have hswept : Stored T m [] (swept T m source) := .of_expiry expiry_swept
  unfold smove_rewritten
  cases hset : set_at T m source with
  | none =>
    unfold set_at at hset
    cases hseen : seen T m source with
    | none => exact hswept
    | some entry =>
      rw [hseen, bind_some] at hset
      dsimp only
      rw [hset]
      exact hswept
  | some s =>
    obtain ⟨entry, hseen, hclone⟩ := bind_eq_some_iff.mp hset
    rw [hseen]
    dsimp only
    rw [hclone]
    refine .ite (fun hmem => ?_) fun hmem => ?_
    · rw [if_pos hmem]
      refine wp_set_none fun now _ => ?_
      -- what was stored last is a set without an expiry time
      have hself : seen T ((swept T m source).insert source
          ⟨.Set (s.erase member), none, now, 1, 1⟩) source =
          some ⟨.Set (s.erase member), none, now, 1, 1⟩ :=
        seen_of_some Std.ExtTreeMap.getElem?_insert_self rfl
      have hother : dest ≠ source → seen T ((swept T m source).insert source
          ⟨.Set (s.erase member), none, now, 1, 1⟩) dest = seen T m dest := by
        intro hne
        refine seen_congr ?_
        rw [insert_of_ne hne, swept_of_ne hne]
      refine smove_in_stores (hswept.insert rfl) ?_ fun habsent => ?_
      · by_cases hne : dest = source
        · rw [hne, hset]
          unfold set_at
          rw [hself]
          rfl
        · unfold set_at
          rw [hother hne]
      · by_cases hne : dest = source
        · rw [hne, hself] at habsent
          cases habsent
        · rw [hother hne] at habsent
          exact expiry_of_unseen habsent
    · rw [if_neg hmem]
      exact hswept

/-! ## Sorted sets -/

theorem upsert_stores {key : Bytes} {change : ZSetData F → Except Halt (ZSetData F × Reply F)}
    {accepted : Bool} (h : ∀ zset, (change zset).isOk = accepted) :
    Stores T m (if accepted then [key] else []) (upsert key change) := by
  have hswept : Stored T m [] (swept T m key) := .of_expiry expiry_swept
  refine wp_upsert_at (fun zset reply hok => ?_) fun e herror => ?_
  · rw [← h, hok]
    exact hswept.insert rfl
  · rw [← h, herror]
    exact hswept

theorem removal_stores (key : Bytes) (r : Removal F) :
    Stores T m (if (zset_at T m key).isSome then [key] else []) (r.run key) := by
  have hswept : Stored T m [] (swept T m key) := .of_expiry expiry_swept
  refine wp_removal_at (fun zset hzset => ?_) fun hzset => ?_
  · rw [hzset]
    exact hswept.insert rfl
  · rw [hzset]
    exact hswept

theorem run_addition_stores (request : Except Halt (String × Addition F)) :
    Stores T m (addition_key request).toList (run_addition request) := by
  cases request with
  | error e => exact .refl
  | ok request =>
    have hkeys : (addition_key (.ok request)).toList =
        if request.2.accepted then [as_bytes request.1] else [] := by
      show (if request.2.accepted then some (as_bytes request.1) else none).toList = _
      split <;> rfl
    rw [hkeys]
    exact upsert_stores request.2.change_isOk

def removal_rewritten (T : Instant) (m : HashMap Bytes (Entry F))
    (request : Except Halt (String × Removal F)) : List Bytes :=
  (removal_key request).toList.filter fun key => (zset_at T m key).isSome

theorem run_removal_stores (request : Except Halt (String × Removal F)) :
    Stores T m (removal_rewritten T m request) (run_removal request) := by
  cases request with
  | error e => exact .refl
  | ok request =>
    have hkeys : removal_rewritten T m (.ok request) =
        if (zset_at T m (as_bytes request.1)).isSome then [as_bytes request.1] else [] :=
      List.filter_cons
    rw [hkeys]
    exact removal_stores _ request.2

end Programs

/-! ## The commands -/

/-- The commands that modify a collection in place. -/
inductive InPlace where
  | SADD
  | SREM
  | SPOP
  | SMOVE
  | ZADD
  | ZINCRBY
  | ZREM
  | ZPOPMIN
  | ZPOPMAX
  | XADD
  | XDEL
  | XTRIM
  | LPUSH
  | RPUSH
  | LPOP
  | RPOP
  | LSET
  | LTRIM
  | HSET
  | HDEL
  deriving Repr, DecidableEq

namespace InPlace

/-- The handler `dispatch_ctx` comes to. -/
def handler : InPlace → List Bytes → StoreM F (Reply F)
  | .SADD => sadd
  | .SREM => Sets.srem
  | .SPOP => Sets.spop
  | .SMOVE => Sets.smove
  | .ZADD => zadd
  | .ZINCRBY => zincrby
  | .ZREM => zrem
  | .ZPOPMIN => zpopmin
  | .ZPOPMAX => zpopmax
  | .XADD => xadd
  | .XDEL => xdel
  | .XTRIM => xtrim
  | .LPUSH => lp
  | .RPUSH => rp
  | .LPOP => lpo
  | .RPOP => rpo
  | .LSET => ls
  | .LTRIM => ltr
  | .HSET => hset
  | .HDEL => Hashes.hdel

/-- The keys a command stores anew: those of the set and sorted-set commands that get as far as
`Store::set`. Lists, hashes and streams are changed where they are. -/
def rewritten (T : Instant) (m : HashMap Bytes (Entry F)) : InPlace → List Bytes → List Bytes
  | .SADD, key :: _ :: _ => if (set_at T m key).isSome then [key] else []
  | .SREM, key :: _ :: _ => if (set_at T m key).isSome then [key] else []
  | .SPOP, key :: count => spop_rewritten T m key count
  | .SMOVE, [source, dest, member] => smove_rewritten T m source dest member
  | .ZADD, args => (addition_key (zadd_request args : Except Halt (String × Addition F))).toList
  | .ZINCRBY, args =>
    (addition_key (zincrby_request args : Except Halt (String × Addition F))).toList
  | .ZREM, args => removal_rewritten T m (zrem_request args)
  | .ZPOPMIN, args => removal_rewritten T m (zpop_request "zpopmin" false args)
  | .ZPOPMAX, args => removal_rewritten T m (zpop_request "zpopmax" true args)
  | _, _ => []

end InPlace

section Commands

variable {T : Instant} {m : HashMap Bytes (Entry F)}

theorem handler_stores (c : InPlace) (args : List Bytes) :
    Stores T m (c.rewritten T m args) (c.handler args : StoreM F (Reply F)) := by
  cases c with
  | SADD =>
    match args with
    | [] | [_] => exact .refl
    | key :: member :: rest => exact sadd_stores key member rest
  | SREM =>
    match args with
    | [] | [_] => exact .refl
    | key :: member :: rest => exact srem_stores key member rest
  | SPOP =>
    match args with
    | [] => exact .refl
    | key :: count => exact spop_stores key count
  | SMOVE =>
    match args with
    | [] | [_] | [_, _] | _ :: _ :: _ :: _ :: _ => exact .refl
    | [source, dest, member] => exact smove_stores source dest member
  | ZADD =>
    rw [InPlace.handler, zadd_eq]
    exact run_addition_stores _
  | ZINCRBY =>
    rw [InPlace.handler, zincrby_eq]
    exact run_addition_stores _
  | ZREM =>
    rw [InPlace.handler, zrem_eq]
    exact run_removal_stores _
  | ZPOPMIN =>
    rw [InPlace.handler, zpopmin, zpop_eq]
    exact run_removal_stores _
  | ZPOPMAX =>
    rw [InPlace.handler, zpopmax, zpop_eq]
    exact run_removal_stores _
  | XADD => exact (xadd_gentle args).stores m
  | XDEL => exact (xdel_gentle args).stores m
  | XTRIM => exact (xtrim_gentle args).stores m
  | LPUSH => exact (push_with_gentle _ _ args).stores m
  | RPUSH => exact (push_with_gentle _ _ args).stores m
  | LPOP => exact pop_with_stores _ _ args m
  | RPOP => exact pop_with_stores _ _ args m
  | LSET => exact (ls_gentle args).stores m
  | LTRIM => exact (ltr_gentle args).stores m
  | HSET => exact (hset_gentle args).stores m
  | HDEL => exact (hdel_gentle args).stores m

end Commands

/-- **Expiry times.** A command on a collection leaves every key that is there afterwards with the
expiry time it had, if and only if no key that the command stores anew has one. -/
theorem expiry_kept_iff (c : InPlace) (args : List Bytes) (T : Instant) (w : World F) :
    Kept T w.store.keyspace
        ((c.handler args).run World.step (w.at T)).2.store.keyspace ↔
      ∀ key ∈ c.rewritten T w.store.keyspace args, expiry T w.store.keyspace key = none :=
  (run_of_wp (w := w.at T) (handler_stores c args) (w.at_within T)).kept_iff

def expiring_set : World Resp.Infinity :=
  World.single (as_bytes "s") ⟨.Set ((∅ : HashSet Bytes).insert (as_bytes "a")), some 100, 0, 1, 1⟩
    .still

/-- SADD of another member, and the set stays for ever. -/
theorem sadd_drops_expiry :
    let after : World Resp.Infinity :=
      ((InPlace.SADD.handler [as_bytes "s", as_bytes "b"]).run World.step (expiring_set.at 0)).2
    expiry 0 expiring_set.store.keyspace (as_bytes "s") = some 100 ∧
      (seen 0 after.store.keyspace (as_bytes "s")).isSome = true ∧
      expiry 0 after.store.keyspace (as_bytes "s") = none := by
  decide

end ValkeyRs.Expiry
