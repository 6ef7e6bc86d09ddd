/-
The IDs of a stream.

`last_id` is one behind the greatest ID there has been, and XADD compares a new ID with it. Three
things can take it back: the clock, since an automatic ID is not compared at all; the sequence number,
which starts again at zero behind the last one; and XSETID, which looks at the entries that are still
there and not at the last ID. As long as none of them does, every ID XADD returns is greater than
those it has returned before.
-/
import ValkeyRs.Runs
import ValkeyRs.StreamRuns

set_option autoImplicit false

open ValkeyRs Text Storage Zset Strings Maps Runs StreamId

namespace ValkeyRs.Streams

variable {F : Type} [Score F]

/-! ## The text of an ID -/

theorem toList_toString (n : UInt64) : (toString n).toList = Nat.toDigits 10 n.toNat := by
  have hrepr : toString n = toString n.toNat := rfl
  rw [hrepr, Nat.toString_eq_repr, Nat.toList_repr]

theorem parse_part_toString (n : UInt64) : parse_part (toString n).toList = .ok n := by
  have hfit : fits (unsigned_max (some 64)) n.toNat = true := by
    have hlt := n.toNat_lt
    refine decide_eq_true ?_
    show n.toNat ≤ 2 ^ 64 - 1
    omega
  have hparse : parse_nat (some 64) (toString n) = .ok n.toNat := parse_unsigned_repr _ _ hfit
  unfold parse_part
  rw [String.ofList_toList, hparse]
  simp

/-- What XADD replies with is read back by XADD. -/
theorem parse_id_toString (id : StreamId) :
    parse_id (toString id.ms ++ "-" ++ toString id.seq) = .ok id := by
  have hlist : (toString id.ms ++ "-" ++ toString id.seq).toList =
      (toString id.ms).toList ++ '-' :: (toString id.seq).toList := by
    simp
  -- the first dash is the one between the numbers
  have hdigits : ∀ c ∈ (toString id.ms).toList, decide (c ≠ '-') = true := by
    intro c hc
    rw [toList_toString] at hc
    have hdigit := isDigit_of_mem_toDigits hc
    refine decide_eq_true ?_
    rintro rfl
    exact absurd hdigit (by decide)
  have hspan : (toString id.ms ++ "-" ++ toString id.seq).toList.span (fun c => decide (c ≠ '-')) =
      ((toString id.ms).toList, '-' :: (toString id.seq).toList) := by
    rw [hlist, List.span_eq_takeWhile_dropWhile, List.takeWhile_append_of_pos hdigits,
      List.dropWhile_append_of_pos hdigits]
    simp
  unfold parse_id
  rw [hspan]
  dsimp only
  rw [parse_part_toString, parse_part_toString]
  rfl

def returned_id : Except Halt (Reply F) → Option StreamId
  | .ok (.BulkString (some b)) => (s b >>= parse_id).toOption
  | _ => none

omit [Score F] in
theorem returned_id_bytes (id : StreamId) :
    returned_id (.ok (bull (id_bytes id)) : Except Halt (Reply F)) = some id := by
  have hs : s (id_bytes id) = .ok (toString id.ms ++ "-" ++ toString id.seq) := by
    unfold s id_bytes
    rw [from_utf8_as_bytes]
  show (s (id_bytes id) >>= parse_id).toOption = some id
  rw [hs]
  show (parse_id (toString id.ms ++ "-" ++ toString id.seq)).toOption = some id
  rw [parse_id_toString]
  rfl

/-! ## XADD in a world -/

section Worlds

variable {α : Type} {w : World F} {key : Bytes} {sd : StreamData}

theorem run_read (g : Option (Entry F) → StoreM F α) :
    (Store.access key id >>= g).run World.step w =
      (g w.store.keyspace[key]?).run World.step w := by
  have hself : ({ w with store := { w.store with
      keyspace := w.store.keyspace.alter key id } } : World F) = w := by
    rw [alter_eq_self rfl]
  show (g w.store.keyspace[key]?).run World.step { w with store := { w.store with
    keyspace := w.store.keyspace.alter key id } } = _
  rw [hself]

theorem run_get_stream (h : Holds w.store.keyspace key sd) (f : StreamData → StoreM F α) :
    (get_stream key >>= f).run World.step w = (f sd).run World.step w := by
  unfold get_stream
  rw [Prog.bind_assoc, run_read]
  cases he : w.store.keyspace[key]? with
  | none =>
    rw [h.absent he]
    rfl
  | some e =>
    dsimp only
    rw [(h.found e he).1]
    rfl

theorem run_get_holds (h : Holds w.store.keyspace key sd) (f : Option (Entry F) → StoreM F α) :
    (Store.get key >>= f).run World.step w = (f w.store.keyspace[key]?).run World.step w := by
  unfold Store.get
  rw [Prog.bind_assoc, run_read]
  cases he : w.store.keyspace[key]? with
  | none => rfl
  | some e =>
    dsimp only
    unfold Store.is_expired
    rw [(h.found e he).2]
    rfl

def World.now_ms (w : World F) : UInt64 := UInt64.ofNat (w.env.wall 0 / 10 ^ 6)

/-- What XADD comes to: no ID and nothing new, or an ID and the entry under it. -/
def Added (key : Bytes) (sd : StreamData) (now : UInt64) (maxlen : Option (Bool × ℕ))
    (req : Option StreamId) (fields : List (Bytes × Bytes))
    (r : Except Halt (Reply F) × World F) : Prop :=
  match sd.generate_id now req with
  | .error _ => returned_id r.1 = none ∧ Holds r.2.store.keyspace key sd
  | .ok id => returned_id r.1 = some id ∧
      Holds r.2.store.keyspace key (trim maxlen (sd.add id fields))

theorem run_xadd_with (h : Holds w.store.keyspace key sd) (maxlen : Option (Bool × ℕ))
    (req : Option StreamId) (fields : List (Bytes × Bytes)) :
    Added key sd (World.now_ms w) maxlen req fields
      ((xadd_with key maxlen req fields).run World.step w) := by
  have hrun (k : StreamId → StoreM F (Reply F)) :
      (do k (← sd.generate_id (← now_ms) req)).run World.step w =
        (liftM (sd.generate_id (World.now_ms w) req) >>= k).run World.step
          { w with env := w.env.tick_wall } := rfl
  unfold xadd_with Added
  rw [run_get_stream h, hrun]
  cases sd.generate_id (World.now_ms w) req with
  | error e => exact ⟨rfl, h⟩
  | ok id => exact ⟨returned_id_bytes id, holds_saved h _ rfl rfl⟩

/-- Where XADD is given arguments that can be read, it comes to that, unless it was not to make a
stream and there is none. -/
theorem run_xadd (h : Holds w.store.keyspace key sd) (args : List Bytes) :
    let r := (xadd (key :: args)).run World.step w
    (returned_id r.1 = none ∧ Holds r.2.store.keyspace key sd) ∨
      ∃ opts req fields, xadd_args args = .ok (opts, req, fields) ∧
        Added key sd (World.now_ms w) opts.maxlen req fields r := by
  match args with
  | [] | [_] => exact .inl ⟨rfl, h⟩
  | a :: b :: rest =>
    cases hargs : xadd_args (a :: b :: rest) with
    | error e =>
      have hrun : (xadd (key :: a :: b :: rest) : StoreM F (Reply F)).run World.step w =
          (.error e, w) := by
        unfold xadd
        dsimp only
        rw [hargs]
        rfl
      rw [hrun]
      exact .inl ⟨rfl, h⟩
    | ok request =>
      obtain ⟨opts, req, fields⟩ := request
      have hrun : (xadd (key :: a :: b :: rest) : StoreM F (Reply F)) =
          if opts.nomk then do
            if ← Store.exists_key key then xadd_with key opts.maxlen req fields
            else return null_bulk
          else xadd_with key opts.maxlen req fields := by
        unfold xadd
        dsimp only
        rw [hargs]
        rfl
      rw [hrun]
      by_cases hnomk : opts.nomk
      · unfold Store.exists_key
        rw [if_pos hnomk, Prog.bind_assoc, run_get_holds h, Prog.pure'_bind]
        by_cases hexists : (w.store.keyspace[key]?).isSome
        · rw [if_pos hexists]
          exact .inr ⟨opts, req, fields, rfl, run_xadd_with h _ _ _⟩
        · rw [if_neg hexists]
          exact .inl ⟨rfl, h⟩
      · rw [if_neg hnomk]
        exact .inr ⟨opts, req, fields, rfl, run_xadd_with h _ _ _⟩

end Worlds

/-! ## The other commands -/

/-- The stream has lost entries at most. -/
structure Thinned (sd sd' : StreamData) : Prop where
  last_id : sd'.last_id = sd.last_id
  groups : sd'.groups = sd.groups
  entries : ∀ id, sd'.entries.contains id → sd.entries.contains id

theorem Thinned.refl (sd : StreamData) : Thinned sd sd := ⟨rfl, rfl, fun _ h => h⟩

theorem Thinned.trans {sd sd' sd'' : StreamData} (h : Thinned sd sd') (h' : Thinned sd' sd'') :
    Thinned sd sd'' :=
  ⟨h'.last_id.trans h.last_id, h'.groups.trans h.groups, fun id hid => h.entries id (h'.entries id hid)⟩

theorem thinned_erase (sd : StreamData) (id : StreamId) :
    Thinned sd { sd with entries := sd.entries.erase id } := by
  refine ⟨rfl, rfl, fun id' hid' => ?_⟩
  rw [Std.ExtTreeMap.contains_erase, Bool.and_eq_true] at hid'
  exact hid'.2

theorem thinned_remove_all (sd : StreamData) (ids : List StreamId) :
    Thinned sd (sd.remove_all ids) := by
  induction ids generalizing sd with
  | nil => exact .refl sd
  | cons id ids ih => exact (thinned_erase sd id).trans (ih _)

theorem thinned_trim (maxlen : Option (Bool × ℕ)) (sd : StreamData) : Thinned sd (trim maxlen sd) := by
  unfold trim
  split
  · exact .refl sd
  · exact thinned_remove_all _ _
  · exact thinned_remove_all _ _

theorem thinned_xdel_ids {ids : List Bytes} {sd : StreamData} {c : ℕ} {r : StreamData × ℕ}
    (h : xdel_ids ids sd c = .ok r) : Thinned sd r.1 := by
  induction ids generalizing sd c with
  | nil =>
    cases h
    exact .refl sd
  | cons a ids ih =>
    obtain ⟨text, -, h⟩ := Prog.bind_eq_ok h
    obtain ⟨id, -, h⟩ := Prog.bind_eq_ok h
    exact (thinned_erase sd id).trans (ih h)

section Removals

variable {C : Instant → Prop} {m : HashMap Bytes (Entry F)} {key : Bytes} {sd : StreamData}

theorem xdel_leads (h : Holds m key sd) (args : List Bytes) :
    Leads C m key (xdel (key :: args)) fun _ sd' => Thinned sd sd' := by
  match args with
  | [] => exact .fail h (.refl sd)
  | a :: rest =>
    refine .get_stream h (.lift h (fun _ _ => .refl sd) fun r hr => ?_)
    exact .save h (thinned_xdel_ids hr)

theorem xtrim_with_leads (h : Holds m key sd) (strat : String) (threshold : Bytes) :
    Leads C m key (xtrim_with key strat threshold)
      fun _ sd' => Thinned sd sd' := by
  refine .get_stream h (.lift h (fun _ _ => .refl sd) fun ids _ => ?_)
  exact .save h (thinned_remove_all sd ids)

theorem xtrim_leads (h : Holds m key sd) (args : List Bytes) :
    Leads C m key (xtrim (key :: args)) fun _ sd' => Thinned sd sd' := by
  match args with
  | [] | [_] => exact .fail h (.refl sd)
  | strat :: a :: rest =>
    refine .lift h (fun _ _ => .refl sd) fun strat _ => ?_
    refine .lift h (fun _ _ => .refl sd) fun text _ => ?_
    refine .ite (fun _ => ?_) fun _ => xtrim_with_leads h _ _
    cases rest with
    | nil => exact Leads.fail h (Thinned.refl sd)
    | cons threshold rest => exact xtrim_with_leads h _ _

/-- The ID XSETID is given. -/
def xsetid_id (args : List Bytes) : Option StreamId :=
  match args with
  | id :: _ => (s id >>= parse_id).toOption
  | [] => none

/-- XSETID changes the last ID to the one it is given, or nothing. -/
theorem xsetid_leads (h : Holds m key sd) (args : List Bytes) :
    Leads C m key (xsetid (key :: args)) fun _ sd' =>
      sd' = sd ∨ ∃ id, xsetid_id args = some id ∧ sd' = { sd with last_id := id } := by
  match args with
  | [] => exact .fail h (.inl rfl)
  | a :: opts =>
    refine .lift h (fun _ _ => .inl rfl) fun text htext => ?_
    refine .lift h (fun _ _ => .inl rfl) fun id hid => ?_
    refine .lift h (fun _ _ => .inl rfl) fun _ _ => wp_exists_stream h fun b => ?_
    refine Prog.Wp.ite (fun _ => Leads.get_stream h ?_) fun _ => Leads.fail h (.inl rfl)
    refine Prog.Wp.ite (fun _ => Leads.fail h (.inl rfl)) fun _ => ?_
    refine Leads.save h (.inr ⟨id, ?_, rfl⟩)
    show (s a >>= parse_id).toOption = some id
    rw [htext]
    show (parse_id text).toOption = some id
    rw [hid]
    rfl

end Removals

/-! ## Histories -/

/-- The commands that add to a stream, take from it or set its last ID, behind the key. -/
inductive IdCommand where
  | XADD (args : List Bytes)
  | XDEL (args : List Bytes)
  | XTRIM (args : List Bytes)
  | XSETID (args : List Bytes)
  deriving Repr, DecidableEq

def IdCommand.handler (key : Bytes) : IdCommand → StoreM F (Reply F)
  | .XADD args => xadd (key :: args)
  | .XDEL args => xdel (key :: args)
  | .XTRIM args => xtrim (key :: args)
  | .XSETID args => xsetid (key :: args)

def IdCommand.added : IdCommand → Except Halt (Reply F) → Option StreamId
  | .XADD _, r => returned_id r
  | _, _ => none

/-- The world, and the IDs XADD has returned. -/
structure History (F : Type) [LinearOrder F] where
  world : World F
  returned : List StreamId

def History.step (key : Bytes) (h : History F) (c : IdCommand) : History F :=
  let r := (c.handler key : StoreM F (Reply F)).run World.step h.world
  ⟨r.2, h.returned ++ (c.added r.1).toList⟩

/-- XADD returns an ID that is not greater than all before, or replaces an entry. -/
def Violates (key : Bytes) (h : History F) (c : IdCommand) : Prop :=
  ∃ id, c.added ((c.handler key : StoreM F (Reply F)).run World.step h.world).1 = some id ∧
    ((∃ id' ∈ h.returned, id ≤ id') ∨
      (stream_of h.world.store.keyspace key).entries.contains id = true)

/-- Nothing takes the IDs back: the clock is not behind the last ID, no sequence number is the last
one, and XSETID does not go below the last ID. -/
def Orderly (key : Bytes) (h : History F) (c : IdCommand) : Prop :=
  let last := (stream_of h.world.store.keyspace key).last_id
  match c with
  | .XADD args =>
    match xadd_args args with
    | .ok (_, none, _) =>
      last.ms ≤ World.now_ms h.world ∧
        (World.now_ms h.world = last.ms → last.seq ≠ seq_max)
    | .ok (_, some id, _) => id.seq ≠ seq_max
    | .error _ => True
  | .XSETID args => ∀ id, xsetid_id args = some id → last ≤ id
  | _ => True

/-- The last ID is behind every ID there has been. -/
structure History.Ordered (key : Bytes) (h : History F) (sd : StreamData) : Prop where
  holds : Holds h.world.store.keyspace key sd
  returned : ∀ id ∈ h.returned, id < sd.last_id
  entries : ∀ id, sd.entries.contains id → id < sd.last_id

/-- The ID XADD comes to is not in front of the last ID, and has a successor. -/
theorem generated_ge {sd : StreamData} {now : UInt64} {req : Option StreamId} {id : StreamId}
    (h : sd.generate_id now req = .ok id)
    (hauto : req = none → sd.last_id.ms ≤ now ∧
      (now = sd.last_id.ms → sd.last_id.seq ≠ seq_max))
    (hgiven : ∀ id, req = some id → id.seq ≠ seq_max) :
    sd.last_id ≤ id ∧ id.seq ≠ seq_max := by
  cases req with
  | none =>
    obtain ⟨hclock, hseq⟩ := hauto rfl
    cases h
    by_cases hnow : now = sd.last_id.ms
    · rw [if_pos hnow]
      exact ⟨le_iff.mpr (.inr ⟨hnow.symm, UInt64.le_refl _⟩), hseq hnow⟩
    · rw [if_neg hnow]
      have hzero : (0 : UInt64) ≠ seq_max := by decide
      exact ⟨le_iff.mpr (.inl (UInt64.lt_of_le_of_ne hclock (Ne.symm hnow))), hzero⟩
  | some id' =>
    rw [StreamData.generate_id] at h
    split at h
    · cases h
    · split at h
      · cases h
      · rename_i hbehind
        cases h
        refine ⟨le_of_not_gt fun hlt => hbehind ?_, hgiven id rfl⟩
        rcases lt_iff.mp hlt with hms | ⟨hms, hseq⟩
        · exact .inl hms
        · exact .inr ⟨hms, UInt64.le_of_lt hseq⟩

theorem last_id_add {sd : StreamData} {id : StreamId} (hge : sd.last_id ≤ id)
    (hseq : id.seq ≠ seq_max) (fields : List (Bytes × Bytes)) :
    (sd.add id fields).last_id = ⟨id.ms, id.seq + 1⟩ ∧ id < (sd.add id fields).last_id := by
  have hlast : (sd.add id fields).last_id = ⟨id.ms, id.seq + 1⟩ := by
    refine if_pos ?_
    rcases le_iff.mp hge with hms | ⟨hms, hle⟩
    · exact .inl hms
    · exact .inr ⟨hms.symm, hle⟩
  rw [hlast]
  exact ⟨rfl, lt_next hseq⟩

section Steps

variable {key : Bytes} {h : History F} {sd : StreamData}

theorem step_returned (c : IdCommand) : (h.step key c).returned = h.returned ++
    (c.added ((c.handler key).run World.step h.world).1).toList := rfl

/-- A command that returns no ID leaves the stream in order if the last ID is not taken back. -/
theorem quiet_step (hord : h.Ordered key sd) {c : IdCommand}
    (hnone : c.added ((c.handler key).run World.step h.world).1 = none)
    {sd' : StreamData} (hholds : Holds ((c.handler key).run World.step
      h.world).2.store.keyspace key sd')
    (hlast : sd.last_id ≤ sd'.last_id)
    (hentries : ∀ id, sd'.entries.contains id → sd.entries.contains id) :
    ¬ Violates key h c ∧ ∃ sd', (h.step key c).Ordered key sd' := by
  refine ⟨?_, sd', hholds, ?_, ?_⟩
  · rintro ⟨id, hid, -⟩
    rw [hnone] at hid
    cases hid
  · intro id hid
    rw [step_returned, hnone, Option.toList_none, List.append_nil] at hid
    exact (hord.returned id hid).trans_le hlast
  · intro id hid
    exact (hord.entries id (hentries id hid)).trans_le hlast

/-- **One XADD.** In order, it returns an ID behind all others, and leaves the stream in order. -/
theorem xadd_step (hord : h.Ordered key sd) {args : List Bytes}
    (hcond : Orderly key h (.XADD args)) :
    ¬ Violates key h (.XADD args) ∧ ∃ sd', (h.step key (.XADD args)).Ordered key sd' := by
  have hsd : stream_of h.world.store.keyspace key = sd := hord.holds.stream_of_eq
  unfold Orderly at hcond
  rw [hsd] at hcond
  rcases run_xadd hord.holds args with ⟨hnone, hholds⟩ | ⟨opts, req, fields, hargs, hadded⟩
  · exact quiet_step hord hnone hholds (le_refl _) fun _ hid => hid
  dsimp only at hcond
  rw [hargs] at hcond
  unfold Added at hadded
  cases hid : sd.generate_id (World.now_ms h.world) req with
  | error e =>
    rw [hid] at hadded
    exact quiet_step hord hadded.1 hadded.2 (le_refl _) fun _ hid => hid
  | ok id =>
    rw [hid] at hadded
    have hreturned : (IdCommand.XADD args).added ((IdCommand.handler key (.XADD args) :
        StoreM F (Reply F)).run World.step h.world).1 = some id := hadded.1
    obtain ⟨hge, hseq⟩ : sd.last_id ≤ id ∧ id.seq ≠ seq_max := by
      refine generated_ge hid (fun hreq => ?_) fun id' hreq => ?_
      · rw [hreq] at hcond
        exact hcond
      · rw [hreq] at hcond
        exact hcond
    obtain ⟨-, hlt⟩ := last_id_add hge hseq fields
    have hthin := thinned_trim opts.maxlen (sd.add id fields)
    refine ⟨?_, trim opts.maxlen (sd.add id fields), hadded.2, ?_, ?_⟩
    · -- everything there has been is in front of the last ID, and so of the new one
      rintro ⟨id', hid', hbad⟩
      rw [hreturned] at hid'
      cases hid'
      rcases hbad with ⟨id'', hmem, hle⟩ | hmem
      · exact absurd (hord.returned id'' hmem) (not_lt.mpr (hge.trans hle))
      · rw [hsd] at hmem
        exact absurd (hord.entries id hmem) (not_lt.mpr hge)
    · intro id' hid'
      rw [hthin.last_id]
      rw [step_returned, hreturned, Option.toList_some, List.mem_append, List.mem_singleton] at hid'
      rcases hid' with hold | rfl
      · exact (hord.returned id' hold).trans_le (hge.trans hlt.le)
      · exact hlt
    · intro id' hid'
      rw [hthin.last_id]
      have hmem := hthin.entries id' hid'
      unfold StreamData.add at hmem
      rw [Std.ExtTreeMap.contains_insert, Bool.or_eq_true] at hmem
      rcases hmem with heq | hold
      · rw [← Std.LawfulEqCmp.eq_of_compare (beq_iff_eq.mp heq)]
        exact hlt
      · exact (hord.entries id' hold).trans_le (hge.trans hlt.le)

theorem orderly_step (hord : ∃ sd, h.Ordered key sd) {c : IdCommand} (hcond : Orderly key h c) :
    ¬ Violates key h c ∧ ∃ sd', (h.step key c).Ordered key sd' := by
  obtain ⟨sd, hord⟩ := hord
  have hwithin : h.world.Within fun _ => True := fun _ => trivial
  cases c with
  | XADD args => exact xadd_step hord hcond
  | XDEL args =>
    obtain ⟨-, sd', hholds, hthin⟩ := run_of_wp (xdel_leads hord.holds args) hwithin
    exact quiet_step hord rfl hholds hthin.last_id.ge hthin.entries
  | XTRIM args =>
    obtain ⟨-, sd', hholds, hthin⟩ := run_of_wp (xtrim_leads hord.holds args) hwithin
    exact quiet_step hord rfl hholds hthin.last_id.ge hthin.entries
  | XSETID args =>
    obtain ⟨-, sd', hholds, hsd'⟩ := run_of_wp (xsetid_leads hord.holds args) hwithin
    have hlast : sd.last_id ≤ sd'.last_id ∧ sd'.entries = sd.entries := by
      rcases hsd' with rfl | ⟨id, hid, rfl⟩
      · exact ⟨le_refl _, rfl⟩
      · have hle := hcond id hid
        rw [hord.holds.stream_of_eq] at hle
        exact ⟨hle, rfl⟩
    refine quiet_step hord rfl hholds hlast.1 fun id hid => ?_
    rwa [hlast.2] at hid

end Steps

/-- **Stream IDs.** In every run on a stream, from its beginning, in which nothing takes the IDs
back, every ID that XADD returns is greater than all it has returned before, and no entry is
replaced. -/
theorem stream_ids_increase (key : Bytes) (w : World F) (cs : List IdCommand)
    (habsent : w.store.keyspace[key]? = none)
    (h : Along (History.step key) (Orderly key) ⟨w, []⟩ cs) :
    ¬ Occurs (History.step key) (Violates key) ⟨w, []⟩ cs := by
  have hinit : ∃ sd, (⟨w, []⟩ : History F).Ordered key sd :=
    ⟨.new, holds_of_absent habsent, nofun, by
      intro id hid
      unfold StreamData.new at hid
      rw [Std.ExtTreeMap.contains_empty] at hid
      cases hid⟩
  exact h.not_occurs (fun s c hs hord => orderly_step hord hs) hinit

/-- An empty store, in which the clock shows the given milliseconds. -/
def timed_world (readings : ℕ → ℕ) : World Resp.Infinity :=
  .new { Env.still with wall := fun n => readings n * 10 ^ 6 }

def plain_xadd : IdCommand := .XADD [as_bytes "*", as_bytes "f", as_bytes "v"]

/-- Two entries in one millisecond. -/
theorem stream_ids_increase_twice :
    ¬ Occurs (History.step (as_bytes "k")) (Violates (as_bytes "k"))
      ⟨timed_world fun _ => 5, []⟩ [plain_xadd, plain_xadd] := by
  refine stream_ids_increase _ _ _ rfl ⟨?_, ?_, trivial⟩
  · show (0 : UInt64) ≤ 5 ∧ ((5 : UInt64) = 0 → (0 : UInt64) ≠ seq_max)
    decide
  · show (5 : UInt64) ≤ 5 ∧ ((5 : UInt64) = 5 → (1 : UInt64) ≠ seq_max)
    decide

/-- When the clock goes back from 5 ms to 3 ms, so do the IDs; and behind `XSETID k 5-1` a new entry
replaces the one with this ID. -/
theorem stream_ids_go_back :
    Occurs (History.step (as_bytes "k")) (Violates (as_bytes "k"))
        ⟨timed_world fun n => if n = 0 then 5 else 3, []⟩ [plain_xadd, plain_xadd] ∧
      Occurs (History.step (as_bytes "k")) (Violates (as_bytes "k"))
        ⟨timed_world fun _ => 5, []⟩
        [.XADD [as_bytes "5-1", as_bytes "f", as_bytes "v"], .XSETID [as_bytes "5-1"], plain_xadd] := by
  refine ⟨.inr (.inl ⟨⟨3, 0⟩, by decide, .inl ⟨⟨5, 0⟩, by decide, by decide⟩⟩), ?_⟩
  exact .inr (.inr (.inl ⟨⟨5, 1⟩, by decide, .inr (by decide)⟩))

end ValkeyRs.Streams
