/-
Loading a snapshot, through what the file contains.

`load` decodes and inserts in one loop. Here the two are taken apart: `parse` goes over the bytes
alone and gives the entries of the file and how their sequence ends, and `insert_all` puts entries
into the store.

Since the insertions come before the end of the file is seen, a file that is refused has left its
entries in the store. `load_unchanged_iff` makes this exact.
-/
import ValkeyRs.Maps
import ValkeyRs.Rdb

set_option autoImplicit false

open ValkeyRs Text Resp Storage Codec Codec.Decoder Maps World

namespace ValkeyRs.Rdb

variable {F : Type} [LinearOrder F]

section Parsing

variable [FloatBits F]

/-! ## The decoders go forward -/

theorem next_byte_forward : Forward next_byte := Forward.byte _

theorem number_forward (w : ℕ) : Forward (number w) :=
  (Forward.bytes _ w).bind fun _ => Forward.pure _

theorem decode_length_forward : Forward decode_length := by
  refine next_byte_forward.bind fun first => ?_
  refine .ite (.pure _) (.ite ?_ (.ite ?_ ?_))
  · exact next_byte_forward.bind fun _ => .pure _
  · exact .ite (number_forward 4) (.fail _)
  · exact .ite (number_forward 1)
      (.ite (number_forward 2) (.ite (number_forward 4) (.fail _)))

theorem decode_string_forward : Forward decode_string :=
  decode_length_forward.bind fun len => .bytes _ len

theorem decode_id_forward : Forward decode_id :=
  (number_forward 8).bind fun _ => (number_forward 8).bind fun _ => .pure _

theorem decode_pair_forward : Forward decode_pair :=
  decode_string_forward.bind fun _ => decode_string_forward.bind fun _ => .pure _

theorem decode_stream_entry_forward : Forward decode_stream_entry := by
  refine decode_id_forward.bind fun _ => decode_length_forward.bind fun n => ?_
  refine (Forward.times (fun _ => ?_) n _).bind fun _ => Forward.pure _
  exact decode_pair_forward.bind fun _ => Forward.pure _

theorem decode_zset_member_forward (zset : ZSetData F) : Forward (decode_zset_member zset) := by
  refine decode_string_forward.bind fun _ => ?_
  refine ((number_forward 8).bind fun _ => .pure _).bind fun _ => .pure _

theorem decode_value_forward (t : UInt8) : Forward (decode_value (F := F) t) := by
  -- one branch for each type, and the unknown ones
  refine .ite ?_ (.ite ?_ (.ite ?_ (.ite ?_ (.ite ?_
    (.ite ?_ (.fail _))))))
  · exact decode_string_forward.bind fun _ => .pure _
  · refine decode_length_forward.bind fun n => (Forward.times (fun _ => ?_) n _).bind fun _ =>
      Forward.pure _
    exact decode_string_forward.bind fun _ => Forward.pure _
  · refine decode_length_forward.bind fun n => (Forward.times (fun _ => ?_) n _).bind fun _ =>
      Forward.pure _
    exact decode_string_forward.bind fun _ => Forward.pure _
  · exact decode_length_forward.bind fun n =>
      (Forward.times decode_zset_member_forward n _).bind fun _ => Forward.pure _
  · refine decode_length_forward.bind fun n => (Forward.times (fun _ => ?_) n _).bind fun _ =>
      Forward.pure _
    exact decode_pair_forward.bind fun _ => Forward.pure _
  · refine decode_length_forward.bind fun n => decode_length_forward.bind fun _ => ?_
    refine (Forward.times (fun _ => ?_) n _).bind fun _ => ?_
    · exact decode_stream_entry_forward.bind fun _ => Forward.pure _
    · exact decode_id_forward.bind fun _ => .pure _

theorem decode_stamp_forward (opcode : UInt8) : Forward (decode_stamp opcode) := by
  refine .ite ?_ (.ite ?_ (.pure _))
  · exact next_byte_forward.bind fun _ => (number_forward 8).bind fun _ => .pure _
  · exact next_byte_forward.bind fun _ => (number_forward 4).bind fun _ => .pure _

theorem decode_entry_lt {buf : Bytes} {pos pos' : ℕ} {entry : Bytes × DataType F}
    (h : decode_entry buf pos = .ok (entry, pos')) : pos < pos' := by
  obtain ⟨t, mid, htype, hrest⟩ := bind_eq_ok h
  have hmid : mid = pos + 1 := byte_eq_ok htype
  have hforward : Forward (do
      let key ← decode_string
      let data ← decode_value (F := F) t
      return (key, data)) :=
    decode_string_forward.bind fun _ => (decode_value_forward t).bind fun _ => .pure _
  have hle := hforward _ _ _ _ hrest
  omega

/-! ## What a file contains -/

/-- An entry of the file. -/
structure Record (F : Type) [LinearOrder F] where
  stamp : Stamp
  key : Bytes
  data : DataType F

/-- How the entries end: with the end mark, with an error, or with an error behind an expiry time,
in which case the clocks have been read once more. -/
inductive Ending where
  | eof
  | broken (e : RdbError)
  | torn (stamp : Stamp) (e : RdbError)
  deriving Repr, DecidableEq

/-- The loop of `load` on the bytes alone. -/
def parse (buf : Bytes) : ℕ → ℕ → List (Record F) × Ending
  | 0, _ => ([], .broken .UnexpectedEof)
  | turns + 1, pos =>
    match buf[pos]? with
    | none => ([], .broken .UnexpectedEof)
    | some opcode =>
      if opcode = RDB_OPCODE_EOF then ([], .eof)
      else match decode_stamp opcode buf pos with
        | .error e => ([], .broken e)
        | .ok (stamp, pos) =>
          match decode_entry buf pos with
          | .error e => ([], .torn stamp e)
          | .ok ((key, data), pos) =>
            (⟨stamp, key, data⟩ :: (parse buf turns pos).1, (parse buf turns pos).2)

theorem parse_succ (buf : Bytes) (turns pos : ℕ) (h : buf.length ≤ pos + turns) :
    (parse buf (turns + 1) pos : List (Record F) × Ending) = parse buf turns pos := by
  induction turns generalizing pos with
  | zero =>
    have hnone : buf[pos]? = none := List.getElem?_eq_none (by omega)
    simp only [parse, hnone]
  | succ turns ih =>
    rw [parse, parse]
    cases buf[pos]? with
    | none => rfl
    | some opcode =>
      dsimp only
      split
      · rfl
      cases hstamp : decode_stamp opcode buf pos with
      | error e => rfl
      | ok r =>
        obtain ⟨stamp, mid⟩ := r
        dsimp only
        cases hentry : decode_entry (F := F) buf mid with
        | error e => rfl
        | ok r =>
          obtain ⟨⟨key, data⟩, pos'⟩ := r
          dsimp only
          have hle := decode_stamp_forward opcode _ _ _ _ hstamp
          have hlt := decode_entry_lt hentry
          rw [ih pos' (by omega)]

/-! ## Loading is parsing and inserting -/

def make (r : Record F) : StoreM F (Entry F) := do
  let expires_at ← load_expiry r.stamp
  new_entry r.data expires_at

def insert_all : List (Record F) → StoreM F Unit
  | [] => return ()
  | r :: rs => do
    let entry ← make r
    let _ ← Store.access r.key fun _ => some entry
    insert_all rs

def conclude : Ending → StoreM F (Except RdbError Unit)
  | .eof => return .ok ()
  | .broken e => return .error e
  | .torn stamp e => do
    let _ ← load_expiry stamp
    return .error e

theorem load_entries_eq (buf : Bytes) (turns pos : ℕ) :
    (load_entries buf turns pos : StoreM F _) =
      (do insert_all (parse buf turns pos).1; conclude (parse (F := F) buf turns pos).2) := by
  induction turns generalizing pos with
  | zero => rfl
  | succ turns ih =>
    rw [load_entries, parse]
    cases buf[pos]? with
    | none => rfl
    | some opcode =>
      dsimp only
      split
      · rfl
      cases decode_stamp opcode buf pos with
      | error e => rfl
      | ok r =>
        obtain ⟨stamp, mid⟩ := r
        dsimp only
        cases decode_entry (F := F) buf mid with
        | error e => rfl
        | ok r =>
          obtain ⟨⟨key, data⟩, pos'⟩ := r
          rw [insert_all, make]
          simp only [Prog.bind_assoc, ih]

/-- The entries of a file. Without the magic number there are none. -/
def contents (buf : Bytes) : List (Record F) :=
  if buf.take 9 = RDB_MAGIC then (parse buf buf.length 9).1 else []

def ending (F : Type) [LinearOrder F] [FloatBits F] (buf : Bytes) : Ending :=
  if buf.take 9 = RDB_MAGIC then (parse (F := F) buf buf.length 9).2 else .broken .InvalidMagic

theorem load_eq (crc64 : Bytes → UInt64) (buf : Bytes) :
    (load crc64 buf : StoreM F _) = do
      insert_all (contents buf)
      match ← conclude (ending F buf) with
      | .error e => return .error e
      | .ok () => return verify crc64 buf := by
  unfold load contents ending
  by_cases hmagic : buf.take 9 = RDB_MAGIC
  · have hlen : ¬ buf.length < 9 := by
      intro h
      have hlen := congrArg List.length hmagic
      rw [List.length_take, min_eq_right h.le] at hlen
      rw [hlen] at h
      exact absurd h (by decide)
    rw [if_neg hlen, if_neg (not_not.mpr hmagic), if_pos hmagic, if_pos hmagic, load_entries_eq]
    exact Prog.bind_assoc _ _ _
  · rw [if_pos hmagic, if_neg hmagic, if_neg hmagic]
    exact ite_self _

end Parsing

/-! ## Inserting -/

def put (w : World F) (entries : List (Bytes × Entry F)) (env : Env) : World F :=
  { w with
    store := { w.store with keyspace := fill w.store.keyspace entries }
    env := env }

theorem access_put (w : World F) (key : Bytes) (entry : Entry F) :
    (step (.access key fun _ => some entry) w).2 = put w [(key, entry)] w.env := by
  have hmap : w.store.keyspace.alter key (fun _ => some entry) =
      w.store.keyspace.insert key entry := by
    refine Std.ExtTreeMap.ext_getElem? fun k => ?_
    rw [Std.ExtTreeMap.getElem?_alter, Std.ExtTreeMap.getElem?_insert]
  show { w with store := { w.store with keyspace := _ } } = _
  rw [hmap]
  rfl

section Meets

variable {C : Prog.Contract (StoreOp F) StoreOp.Res} (hnow : C.asks .now)
  (hunix : C.asks .unix_time)

include hnow hunix

theorem load_expiry_meets (stamp : Stamp) : (load_expiry (F := F) stamp).Meets C fun _ => True := by
  have hadd : ∀ t d, (add_instant (F := F) t d).Meets C fun _ => True := fun t d =>
    .ite (fun _ => trivial) fun _ => trivial
  cases stamp with
  | none => trivial
  | ms t =>
    refine .bind (call_meets hunix) fun _ _ => ?_
    refine .ite (fun _ => ?_) fun _ => trivial
    refine .bind (call_meets hnow) fun now _ => ?_
    exact .bind (hadd now _) fun _ _ => trivial
  | sec t =>
    refine .bind (call_meets hunix) fun _ _ => ?_
    refine .ite (fun _ => ?_) fun _ => trivial
    refine .bind (call_meets hnow) fun now _ => ?_
    exact .bind (hadd now _) fun _ _ => trivial

theorem make_meets (r : Record F) : (make r).Meets C fun e => e.data = r.data := by
  refine .bind (load_expiry_meets hnow hunix r.stamp) fun expires_at _ => ?_
  have hleft : (time_left (F := F) expires_at).Meets C fun _ => True := by
    cases expires_at with
    | none => trivial
    | some t => exact .bind (call_meets hnow) fun _ _ => trivial
  refine .bind hleft fun ttl _ => ?_
  refine .bind (call_meets hnow) fun now _ => ?_
  cases hentry : Entry.new r.data ttl now with
  | error e => trivial
  | ok e =>
    unfold Entry.new at hentry
    split at hentry
    · cases hentry
      rfl
    · split at hentry
      · cases hentry
      · cases hentry
        rfl

theorem conclude_meets (ending : Ending) : (conclude (F := F) ending).Meets C fun _ => True := by
  cases ending with
  | eof => trivial
  | broken e => trivial
  | torn stamp e => exact (load_expiry_meets hnow hunix stamp).bind fun _ _ => trivial

end Meets

theorem make_data {r : Record F} {w : World F} {e : Entry F}
    (h : ((make r).run step w).1 = .ok e) : e.data = r.data :=
  ((make_meets (C := clocks) trivial trivial r).run (I := fun _ => True) (fun _ h => h) (fun _ _ _ _ => ⟨trivial, trivial⟩)
    trivial).2 e h

/-- Whether the insertions succeed, and what they insert, depends on the surroundings alone. `I` is
a property that the passing of time keeps: it holds whenever an entry is made. -/
theorem insert_all_run (rs : List (Record F)) {I : Env → Prop}
    (hI : ∀ env, I env → I env.tick ∧ I env.tick_wall) {env : Env} (henv : I env) :
    (∃ halt, (∃ r ∈ rs, ∃ env', I env' ∧ ∀ w, w.env = env' →
        ((make r).run step w).1 = .error halt) ∧
      ∀ w, w.env = env → ((insert_all rs).run step w).1 = .error halt) ∨
    ∃ entries env', I env' ∧
      List.Forall₂ (fun r p => p.1 = r.key ∧ ∃ env', I env' ∧ ∀ w, w.env = env' →
        ((make r).run step w).1 = .ok p.2) rs entries ∧
      ∀ w, w.env = env → (insert_all rs).run step w = (.ok (), put w entries env') := by
  induction rs generalizing env with
  | nil =>
    refine .inr ⟨[], env, henv, .nil, fun w hw => ?_⟩
    rw [← hw]
    rfl
  | cons r rs ih =>
    obtain ⟨made, env₁, henv₁, hmake⟩ := clocked_run ((make_meets trivial trivial r).mono fun _ _ => trivial) hI henv
    have hrun : ∀ w, w.env = env → (insert_all (r :: rs)).run step w =
        match made with
        | .ok entry => (insert_all rs).run step (put w [(r.key, entry)] env₁)
        | .error halt => (.error halt, { w with env := env₁ }) := by
      intro w hw
      rw [insert_all, Prog.run_bind, hmake w hw]
      cases made with
      | error halt => rfl
      | ok entry =>
        have hput := access_put { w with env := env₁ } r.key entry
        exact congrArg ((insert_all rs).run step) hput
    cases made with
    | error halt =>
      refine .inl ⟨halt, ⟨r, List.mem_cons_self, env, henv, fun w hw => ?_⟩, fun w hw => ?_⟩
      · rw [hmake w hw]
      · rw [hrun w hw]
    | ok entry =>
      rcases ih henv₁ with ⟨halt, ⟨r', hr', hfail⟩, hrest⟩ | ⟨entries, env₂, henv₂, hall, hrest⟩
      · refine .inl ⟨halt, ⟨r', List.mem_cons_of_mem _ hr', hfail⟩, fun w hw => ?_⟩
        rw [hrun w hw]
        exact hrest _ rfl
      · refine .inr ⟨(r.key, entry) :: entries, env₂, henv₂, .cons ⟨rfl, env, henv, ?_⟩ hall, ?_⟩
        · intro w hw
          rw [hmake w hw]
        · intro w hw
          rw [hrun w hw]
          exact hrest _ rfl

/-! ## All or nothing -/

section Failure

variable [FloatBits F]

theorem conclude_run (crc64 : Bytes → UInt64) (buf : Bytes) (env : Env) :
    ∃ r env', ∀ w : World F, w.env = env →
      (do match ← conclude (ending F buf) with
        | .error e => return .error e
        | .ok () => return verify crc64 buf : StoreM F (Except RdbError Unit)).run step w =
        (r, { w with env := env' }) := by
  have hmeets : (do match ← conclude (ending F buf) with
        | .error e => return .error e
        | .ok () => return verify crc64 buf : StoreM F (Except RdbError Unit)).Meets clocks
      fun _ => True := by
    refine (conclude_meets trivial trivial (ending F buf)).bind fun r _ => ?_
    cases r <;> trivial
  obtain ⟨r, env', -, hrun⟩ :=
    clocked_run hmeets anywhen_ticks (trivial : Anywhen env)
  exact ⟨r, env', hrun⟩

/-- The entries that a file is loaded as: those of its records, one for each and in their order. -/
def Loads (buf : Bytes) (entries : List (Bytes × Entry F)) : Prop :=
  List.Forall₂ (fun r p => p.1 = r.key ∧ p.2.data = r.data) (contents buf) entries

/-- A run of the loader that does not panic on an entry has inserted all of them, whatever it
returns, and on any other store the same would have happened. -/
theorem load_run (crc64 : Bytes → UInt64) (buf : Bytes) (env : Env) :
    (∃ halt, ∀ w : World F, w.env = env → ((load crc64 buf).run step w).1 = .error halt) ∨
      ∃ entries env' r, Loads buf entries ∧ ∀ w : World F, w.env = env →
        (load crc64 buf).run step w = (r, put w entries env') := by
  rcases insert_all_run (contents (F := F) buf) anywhen_ticks (trivial : Anywhen env) with
    ⟨halt, -, hrun⟩ | ⟨entries, env₁, -, hall, hrun⟩
  · refine .inl ⟨halt, fun w hw => ?_⟩
    have hhalt := hrun w hw
    rw [load_eq, Prog.run_bind]
    generalize (insert_all (contents buf)).run step w = result at hhalt
    obtain ⟨r, w'⟩ := result
    subst hhalt
    rfl
  · obtain ⟨r, env₂, hend⟩ := conclude_run (F := F) crc64 buf env₁
    refine .inr ⟨entries, env₂, r, hall.imp ?_, fun w hw => ?_⟩
    · rintro record p ⟨hkey, env', -, hmake⟩
      exact ⟨hkey, make_data (hmake (new env') rfl)⟩
    · rw [load_eq, Prog.run_bind, hrun w hw]
      exact hend (put w entries env₁) rfl

/-- A refused file has been loaded all the same: its entries are in the store. -/
theorem load_error {crc64 : Bytes → UInt64} {buf : Bytes} {w : World F} {e : RdbError}
    (h : ((load crc64 buf).run step w).1 = .ok (.error e)) :
    ∃ entries env', entries.length = (contents (F := F) buf).length ∧
      ∀ w' : World F, w'.env = w.env →
        (load crc64 buf).run step w' = (.ok (.error e), put w' entries env') := by
  rcases load_run (F := F) crc64 buf w.env with ⟨halt, hhalt⟩ | ⟨entries, env', r, hall, hrun⟩
  · rw [hhalt w rfl] at h
    cases h
  · rw [hrun w rfl] at h
    subst h
    exact ⟨entries, env', hall.length_eq.symm, hrun⟩

theorem load_unchanged_iff {crc64 : Bytes → UInt64} {buf : Bytes} {w₀ : World F} {e₀ : RdbError}
    (hrefused : ((load crc64 buf).run step w₀).1 = .ok (.error e₀)) :
    (∀ (w : World F) e, ((load crc64 buf).run step w).1 = .ok (.error e) →
      ((load crc64 buf).run step w).2.store = w.store) ↔
    contents (F := F) buf = [] := by
  constructor
  · intro hunchanged
    -- the same surroundings with an empty store
    obtain ⟨entries, env', hlen, hload⟩ := load_error hrefused
    have hempty := hload { w₀ with store := .new } rfl
    have hsame := hunchanged { w₀ with store := .new } e₀ (by rw [hempty])
    rw [hempty] at hsame
    by_contra hne
    cases entries with
    | nil => exact hne (List.eq_nil_of_length_eq_zero hlen.symm)
    | cons p entries =>
      have hkeyspace : fill ∅ (p :: entries) = (∅ : HashMap Bytes (Entry F)) :=
        congrArg Store.keyspace hsame
      have hkey := (mem_fill ∅ (p :: entries) p.1).mpr (.inr List.mem_cons_self)
      rw [hkeyspace] at hkey
      exact Std.ExtTreeMap.not_mem_empty hkey
  · intro hnone w e hw
    obtain ⟨entries, env', hlen, hload⟩ := load_error hw
    rw [hnone] at hlen
    rw [hload w rfl, List.eq_nil_of_length_eq_zero hlen]
    rfl

end Failure

/-- A file that begins with one entry, `a` with the value `b`, and ends behind it. -/
def cut_file : Bytes := RDB_MAGIC ++ (encode_entry .sorted (as_bytes "a")
  (.String (as_bytes "b") : DataType Infinity))

theorem load_unchanged_iff_empty_file :
    (∀ (w : World Infinity) e,
      ((load (fun _ => 0) RDB_MAGIC).run step w).1 = .ok (.error e) →
        ((load (fun _ => 0) RDB_MAGIC).run step w).2.store = w.store) ↔
    contents (F := Infinity) RDB_MAGIC = [] :=
  load_unchanged_iff (show ((load (fun _ => 0) RDB_MAGIC).run step
    (new .still : World Infinity)).1 = .ok (.error .UnexpectedEof) by decide)

/-- The file is refused and the key is there. -/
theorem load_cut_file_inserts :
    let w : World Infinity := .new .still
    ((load (fun _ => 0) cut_file).run step w).1 = .ok (.error .UnexpectedEof) ∧
      w.store.keyspace[as_bytes "a"]?.isSome = false ∧
      ((load (fun _ => 0) cut_file).run step w).2.store.keyspace[as_bytes "a"]?.isSome =
        true := by
  decide

end ValkeyRs.Rdb
