/-
The loader's cursor, `crates/persistence/src/rdb.rs`: no file takes it out of the buffer.

The decoders of the snapshot format are written out once more, with every bound check where the
source has it and with accesses that panic out of range (`Cursor`). The counts in a file are what
the file says, up to 2^32, and drive five loops, two of them nested; what stops the loops is that
each turn reads a length or an id behind a check.

`walk` is the loop over the entries. It has no count, and is given a number of turns here; any
number greater than the bytes behind the magic is enough.
-/
import ValkeyRs.Cursor
import ValkeyRs.RdbContents

set_option autoImplicit false

open ValkeyRs Text Resp Storage Codec List Cursor

namespace ValkeyRs.Rdb

def Ending.error : Ending → Option RdbError
  | .eof => none
  | .broken e | .torn _ e => some e

namespace Walk

open Codec.Cursor

/-! ## The decoders, check by check -/

/-- A number of `w` bytes, behind its check. -/
def number (w : ℕ) : Cursor RdbError ℕ := do
  return of_le_bytes (← block .UnexpectedEof w)

def decode_length : Cursor RdbError ℕ := do
  let first ← next .UnexpectedEof
  if first.toNat / 64 = 0 then return first.toNat
  else if first.toNat / 64 = 1 then do
    let second ← next .UnexpectedEof
    return first.toNat % 64 * 256 + second.toNat
  else if first.toNat / 64 = 2 then
    if first = 0x80 then number 4 else throw .InvalidMagic
  else if first.toNat % 64 = 0 then number 1
  else if first.toNat % 64 = 1 then number 2
  else if first.toNat % 64 = 2 then number 4
  else throw .InvalidMagic

def decode_string : Cursor RdbError Bytes := do
  let len ← decode_length
  block .UnexpectedEof len

def decode_pair : Cursor RdbError (Bytes × Bytes) := do
  let field ← decode_string
  let value ← decode_string
  return (field, value)

def decode_id : Cursor RdbError StreamId := do
  need .UnexpectedEof (8 + 8)
  let ms ← take 8
  let seq ← take 8
  return ⟨UInt64.ofNat (of_le_bytes ms), UInt64.ofNat (of_le_bytes seq)⟩

def decode_stream_entry : Cursor RdbError (StreamId × List (Bytes × Bytes)) := do
  let id ← decode_id
  let num_fields ← decode_length
  let fields ← times (fun fields => do return fields ++ [← decode_pair]) num_fields []
  return (id, fields)

section Values

variable {F : Type} [LinearOrder F] [FloatBits F]

def decode_score : Cursor RdbError F := do
  return FloatBits.from_bits (UInt64.ofNat (← number 8))

def decode_zset_member (zset : ZSetData F) : Cursor RdbError (ZSetData F) := do
  let member ← decode_string
  let score ← decode_score
  return ⟨ZSetData.link zset.scores member score, zset.members.insert member score⟩

def decode_value (type_byte : UInt8) : Cursor RdbError (DataType F) :=
  if type_byte = RDB_TYPE_STRING then do
    return .String (← decode_string)
  else if type_byte = RDB_TYPE_LIST then do
    let len ← decode_length
    return .List (← times (fun list => do return list ++ [← decode_string]) len [])
  else if type_byte = RDB_TYPE_SET then do
    let len ← decode_length
    return .Set (← times (fun set => do return set.insert (← decode_string)) len ∅)
  else if type_byte = RDB_TYPE_ZSET then do
    let len ← decode_length
    return .ZSet (← times decode_zset_member len .new)
  else if type_byte = RDB_TYPE_HASH then do
    let len ← decode_length
    return .Hash (← times (fun hash => do
      let p ← decode_pair
      return hash.insert p.1 p.2) len ∅)
  else if type_byte = RDB_TYPE_STREAM then do
    let num_ids ← decode_length
    let _total_pairs ← decode_length
    let entries ← times (fun entries => do
      let e ← decode_stream_entry
      return entries.insert e.1 e.2) num_ids ∅
    let last_id ← decode_id
    return .Stream ⟨entries, ∅, last_id, ∅⟩
  else throw (.UnknownType type_byte)

/-- The expiry time, if there is one, and the type. Without an opcode the byte that was looked at
is the type. -/
def header (type_byte : UInt8) : Cursor RdbError (Stamp × UInt8) :=
  if type_byte = RDB_OPCODE_EXPIRETIME_MS then do
    skip 1
    let expire_ms ← number 8
    let t ← next .UnexpectedEof
    return (.ms expire_ms, t)
  else if type_byte = RDB_OPCODE_EXPIRETIME then do
    skip 1
    let expire_sec ← number 4
    let t ← next .UnexpectedEof
    return (.sec expire_sec, t)
  else do
    skip 1
    return (.none, type_byte)

def entry (type_byte : UInt8) : Cursor RdbError (Record F) := do
  let (stamp, actual_type) ← header type_byte
  let key ← decode_string
  let data ← decode_value actual_type
  return ⟨stamp, key, data⟩

def walk : ℕ → Cursor RdbError (List (Record F))
  | 0 => fun _ _ => ([], .unfinished)
  | fuel + 1 => do
    need .UnexpectedEof 1
    let type_byte ← peek
    if type_byte = RDB_OPCODE_EOF then do
      skip 1
      return []
    else do
      let r ← turn (entry type_byte)
      return r :: (← walk fuel)

def verify (crc64 : Bytes → UInt64) : Cursor RdbError Unit := fun input =>
  if input.length < 8 then throw RdbError.UnexpectedEof input
  else
    let data_end := input.length - 8
    (do
      let data ← range 0 data_end
      let crc_bytes ← range data_end input.length
      if of_le_bytes crc_bytes ≠ (crc64 data).toNat then throw RdbError.CrcMismatch else return ())
      input

/-- `load`, as far as the buffer is concerned. -/
def load (crc64 : Bytes → UInt64) (fuel : ℕ) : Cursor RdbError (List (Record F)) := do
  need .InvalidMagic 9
  let magic ← slice 9
  if magic ≠ RDB_MAGIC then throw .InvalidMagic
  else do
    skip 9
    let records ← walk fuel
    verify crc64
    return records

end Values

/-! ## What each decoder is sure to consume -/

theorem number_tracks (w : ℕ) : Tracks (number w) (Rdb.number w) w :=
  (Tracks.block _ w).bind fun _ => Tracks.pure _

theorem decode_length_tracks : Tracks decode_length Rdb.decode_length 1 := by
  refine (Tracks.next _).bind (t := 0) fun first => ?_
  have hnumber : ∀ w, Tracks (number w) (Rdb.number w) 0 := fun w =>
    (number_tracks w).weaken (Nat.zero_le w)
  refine .ite (fun _ => .pure _) fun _ => ?_
  refine .ite (fun _ => ?_) fun _ => ?_
  · exact ((Tracks.next _).bind fun _ => Tracks.pure _).weaken (Nat.zero_le _)
  refine .ite (fun _ => .ite (fun _ => hnumber 4) fun _ => .throw _ _) fun _ => ?_
  refine .ite (fun _ => hnumber 1) fun _ => ?_
  exact .ite (fun _ => hnumber 2) fun _ =>
    .ite (fun _ => hnumber 4) fun _ => .throw _ _

theorem decode_string_tracks : Tracks decode_string Rdb.decode_string 1 :=
  decode_length_tracks.bind fun len => (Tracks.block _ len).weaken (Nat.zero_le len)

theorem decode_pair_tracks : Tracks decode_pair Rdb.decode_pair 1 :=
  (decode_string_tracks.bind fun _ => decode_string_tracks.bind fun _ => .pure _).weaken
    (by decide)

theorem decode_id_tracks : Tracks decode_id Rdb.decode_id 16 := by
  have hid : Rdb.decode_id = do
      let ms ← Decoder.bytes .UnexpectedEof 8
      let seq ← Decoder.bytes .UnexpectedEof 8
      return ⟨UInt64.ofNat (of_le_bytes ms), UInt64.ofNat (of_le_bytes seq)⟩ := by
    funext input pos
    unfold Rdb.decode_id Rdb.number
    simp only [Bind.bind, Pure.pure]
    cases Decoder.bytes RdbError.UnexpectedEof 8 input pos with
    | error e => rfl
    | ok r =>
      dsimp only
      cases Decoder.bytes RdbError.UnexpectedEof 8 input r.2 <;> rfl
  rw [hid]
  exact .block_pair RdbError.UnexpectedEof 8 8 fun ms seq =>
    StreamId.mk (UInt64.ofNat (of_le_bytes ms)) (UInt64.ofNat (of_le_bytes seq))

theorem decode_stream_entry_tracks : Tracks decode_stream_entry Rdb.decode_stream_entry 1 := by
  refine .weaken (decode_id_tracks.bind (t := 1) fun _ =>
    decode_length_tracks.bind (t := 0) fun n => ?_) (by decide)
  refine (Tracks.times (fun _ => ?_) n _).bind (t := 0) fun _ => Tracks.pure _
  exact decode_pair_tracks.bind fun _ => Tracks.pure _

section Values

variable {F : Type} [LinearOrder F] [FloatBits F]

theorem decode_zset_member_tracks (zset : ZSetData F) :
    Tracks (decode_zset_member zset) (Rdb.decode_zset_member zset) 1 :=
  (decode_string_tracks.bind fun _ =>
    ((number_tracks 8).bind fun _ => .pure _).bind fun _ => .pure _).weaken (by decide)

theorem counted_tracks {α β : Type} {body : α → Cursor RdbError α}
    {d : α → Decoder RdbError α} (h : ∀ a, Tracks (body a) (d a) 1) (a : α) (f : α → β) :
    Tracks (do let len ← decode_length; return f (← times body len a))
      (do let len ← Rdb.decode_length; return f (← Decoder.times d len a)) 0 := by
  refine .weaken (decode_length_tracks.bind (t := 0) fun len => ?_) (Nat.zero_le _)
  exact (Tracks.times h len a).bind fun _ => Tracks.pure _

theorem decode_value_tracks (t : UInt8) :
    Tracks (decode_value (F := F) t) (Rdb.decode_value t) 0 := by
  refine .ite (fun _ => ?_) fun _ => .ite (fun _ => ?_) fun _ =>
    .ite (fun _ => ?_) fun _ => .ite (fun _ => ?_) fun _ =>
    .ite (fun _ => ?_) fun _ => .ite (fun _ => ?_) fun _ => .throw _ _
  · exact (decode_string_tracks.bind fun _ => .pure _).weaken (Nat.zero_le _)
  · exact counted_tracks (fun _ => decode_string_tracks.bind fun _ => .pure _) _ _
  · exact counted_tracks (fun _ => decode_string_tracks.bind fun _ => .pure _) _ _
  · exact counted_tracks decode_zset_member_tracks _ _
  · exact counted_tracks (fun _ => decode_pair_tracks.bind fun _ => .pure _) _ _
  · refine .weaken (decode_length_tracks.bind (t := 17) fun n =>
      decode_length_tracks.bind (t := 16) fun _ => ?_) (Nat.zero_le _)
    refine (Tracks.times (fun _ => ?_) n _).bind (t := 16) fun _ => ?_
    · exact decode_stream_entry_tracks.bind fun _ => Tracks.pure _
    · exact decode_id_tracks.bind fun _ => .pure _

/-! ## The loop over the entries -/

theorem body_tracks (stamp : Stamp) (t : UInt8) :
    Tracks (do
        let key ← decode_string
        let data ← decode_value t
        return (⟨stamp, key, data⟩ : Record F))
      (do
        let key ← Rdb.decode_string
        let data ← Rdb.decode_value t
        return (⟨stamp, key, data⟩ : Record F)) 0 :=
  (decode_string_tracks.bind fun _ =>
    (decode_value_tracks t).bind fun _ => .pure _).weaken (Nat.zero_le _)

/-- An entry, as `parse` decodes it. -/
def record (opcode : UInt8) : Decoder RdbError (Record F) := do
  let stamp ← decode_stamp opcode
  let e ← decode_entry
  return ⟨stamp, e.1, e.2⟩

theorem record_eq (stamp : Decoder RdbError Stamp) :
    (do let stamp ← stamp; let e ← decode_entry; return ⟨stamp, e.1, e.2⟩ :
      Decoder RdbError (Record F)) = do
      let stamp ← stamp
      let t ← next_byte
      let key ← Rdb.decode_string
      let data ← Rdb.decode_value t
      return ⟨stamp, key, data⟩ := by
  refine congrArg (stamp >>= ·) (funext fun s => ?_)
  unfold decode_entry
  rw [Decoder.bind_assoc]
  refine congrArg (next_byte >>= ·) (funext fun t => ?_)
  rw [Decoder.bind_assoc]
  refine congrArg (Rdb.decode_string >>= ·) (funext fun key => ?_)
  rw [Decoder.bind_assoc]
  rfl

theorem entry_matches {input : Bytes} {pos : ℕ} {opcode : UInt8} (hget : input[pos]? = some opcode) :
    Inside input (entry (F := F) opcode input pos).1 ∧
      Matches input pos 1 (entry (F := F) opcode input pos) (record opcode input pos) := by
  unfold record entry header
  rw [record_eq]
  unfold decode_stamp
  -- the opcode is followed by a time and the type, or is the type itself
  by_cases hms : opcode = RDB_OPCODE_EXPIRETIME_MS
  · rw [if_pos hms, if_pos hms]
    simp only [bind_assoc, Decoder.bind_assoc]
    refine skip_matches ?_ hget
    refine .weaken ((number_tracks 8).bind (t := 1) fun t => ?_) (Nat.zero_le _)
    exact (Tracks.next _).bind fun b => body_tracks (.ms t) b
  · rw [if_neg hms, if_neg hms]
    by_cases hsec : opcode = RDB_OPCODE_EXPIRETIME
    · rw [if_pos hsec, if_pos hsec]
      simp only [bind_assoc, Decoder.bind_assoc]
      refine skip_matches ?_ hget
      refine .weaken ((number_tracks 4).bind (t := 1) fun t => ?_) (Nat.zero_le _)
      exact (Tracks.next _).bind fun b => body_tracks (.sec t) b
    · rw [if_neg hsec, if_neg hsec]
      simp only [bind_assoc]
      exact skip_matches (body_tracks .none opcode) hget

section Parsing

variable {input : Bytes} {pos : ℕ} {opcode : UInt8} (hget : input[pos]? = some opcode)
  (hopcode : opcode ≠ RDB_OPCODE_EOF) (fuel : ℕ)

include hget hopcode

theorem parse_of_error {e : RdbError} (h : record (F := F) opcode input pos = .error e) :
    (parse (F := F) input (fuel + 1) pos).2.error = some e := by
  rw [parse, hget]
  dsimp only
  rw [if_neg hopcode]
  simp only [record, Bind.bind, Pure.pure] at h
  cases hstamp : decode_stamp opcode input pos with
  | error e' =>
    rw [hstamp] at h
    cases h
    rfl
  | ok r =>
    rw [hstamp] at h
    dsimp only at h ⊢
    cases hentry : decode_entry (F := F) input r.2 with
    | error e' =>
      rw [hentry] at h
      cases h
      rfl
    | ok r' =>
      rw [hentry] at h
      cases h

theorem parse_of_ok {r : Record F} {pos' : ℕ} (h : record opcode input pos = .ok (r, pos')) :
    parse input (fuel + 1) pos =
        (r :: (parse (F := F) input fuel pos').1, (parse (F := F) input fuel pos').2) ∧
      pos < pos' := by
  obtain ⟨stamp, mid, hstamp, hrest⟩ := Decoder.bind_eq_ok h
  obtain ⟨⟨key, data⟩, last, hentry, hlast⟩ := Decoder.bind_eq_ok hrest
  cases hlast
  have hle := decode_stamp_forward opcode _ _ _ _ hstamp
  have hlt := decode_entry_lt hentry
  refine ⟨?_, by omega⟩
  rw [parse, hget]
  dsimp only
  rw [if_neg hopcode, hstamp]
  dsimp only
  rw [hentry]

end Parsing

/-- The walk ends as the parsing does. Each turn of the loop has moved the cursor, so the turns
that are left are more than the bytes that are left. -/
theorem walk_matches {input : Bytes} (fuel : ℕ) {pos : ℕ} (hpos : pos ≤ input.length)
    (hfuel : input.length < pos + fuel) :
    ∃ log, Inside input log ∧ pos + turns log ≤ input.length ∧
      ((∃ e, (parse (F := F) input fuel pos).2.error = some e ∧
          walk (F := F) fuel input pos = (log, .err e)) ∨
        ∃ pos', (parse (F := F) input fuel pos).2.error = none ∧ pos' ≤ input.length ∧
          walk fuel input pos = (log, .ok (parse (F := F) input fuel pos).1 pos')) := by
  induction fuel generalizing pos with
  | zero => omega
  | succ fuel ih =>
    rw [walk]
    by_cases hlt : pos < input.length
    · have hget : input[pos]? = some input[pos] := List.getElem?_eq_getElem hlt
      have hread : Inside input [.read pos (pos + 1)] := inside_read ⟨by omega, hlt⟩
      rw [bind_of_ok (need_ok hlt), bind_of_ok (peek_ok hlt)]
      generalize input[pos] = opcode at hget
      by_cases heof : opcode = RDB_OPCODE_EOF
      · rw [if_pos heof, parse, hget]
        dsimp only
        rw [if_pos heof]
        exact ⟨_, hread, hpos, .inr ⟨pos + 1, rfl, hlt, rfl⟩⟩
      · rw [if_neg heof]
        obtain ⟨hinside, hmatch⟩ := turn_matches (entry_matches (F := F) hget)
        rcases hrun : turn (entry (F := F) opcode) input pos with ⟨log, outcome⟩
        rw [hrun] at hinside hmatch
        cases hrecord : record (F := F) opcode input pos with
        | error e =>
          rw [hrecord] at hmatch
          obtain ⟨rfl, hturns⟩ := hmatch
          rw [bind_of_err hrun]
          refine ⟨_, hread.append hinside, ?_, .inl ⟨e, parse_of_error hget heof fuel hrecord, rfl⟩⟩
          simpa using hturns
        | ok r =>
          obtain ⟨r, mid⟩ := r
          rw [hrecord] at hmatch
          obtain ⟨rfl, hmid, hturns⟩ := hmatch
          obtain ⟨hparse, hmoved⟩ := parse_of_ok hget heof fuel hrecord
          dsimp only [Nat.add_zero] at hturns
          rw [bind_of_ok hrun, hparse]
          obtain ⟨log', hlog', hturns', ⟨e, herr, hwalk⟩ | ⟨pos', herr, hpos', hwalk⟩⟩ :=
            ih hmid (by omega)
          · rw [bind_of_err hwalk]
            refine ⟨_, hread.append (hinside.append hlog'), ?_, .inl ⟨e, herr, rfl⟩⟩
            rw [singleton_append, turns_read, turns_append]
            dsimp only
            omega
          · rw [bind_of_ok hwalk]
            refine ⟨_, hread.append (hinside.append (hlog'.append (inside_nil _))), ?_,
              .inr ⟨pos', herr, hpos', rfl⟩⟩
            rw [singleton_append, turns_read, turns_append, append_nil]
            dsimp only
            omega
    · rw [bind_of_err (need_err (by omega)), parse, List.getElem?_eq_none (by omega)]
      exact ⟨[], inside_nil _, hpos, .inl ⟨_, rfl, rfl⟩⟩

/-! ## The loader -/

theorem verify_run (crc64 : Bytes → UInt64) (input : Bytes) (pos : ℕ) :
    ∃ log, Inside input log ∧ turns log = 0 ∧
      verify crc64 input pos = (log, match Rdb.verify crc64 input with
        | .error e => .err e
        | .ok () => .ok () pos) := by
  unfold verify Rdb.verify
  by_cases hshort : input.length < 8
  · rw [if_pos hshort, if_pos hshort]
    exact ⟨[], inside_nil _, rfl, rfl⟩
  · have hdata : 0 ≤ input.length - 8 ∧ input.length - 8 ≤ input.length :=
      ⟨Nat.zero_le _, Nat.sub_le _ _⟩
    have hcrc : input.length - 8 ≤ input.length ∧ input.length ≤ input.length :=
      ⟨Nat.sub_le _ _, le_rfl⟩
    rw [if_neg hshort, if_neg hshort]
    rw [bind_of_ok (range_ok hdata), bind_of_ok (range_ok hcrc), drop_zero, take_length]
    by_cases hcrc' : of_le_bytes (input.drop (input.length - 8)) ≠
        (crc64 (input.take (input.length - 8))).toNat
    · rw [if_pos hcrc', if_pos hcrc']
      exact ⟨_, (inside_read hdata).append (inside_read hcrc), rfl, rfl⟩
    · rw [if_neg hcrc', if_neg hcrc']
      exact ⟨_, (inside_read hdata).append (inside_read hcrc), rfl, rfl⟩

end Values

end Walk

section Loader

variable {F : Type} [LinearOrder F] [FloatBits F]

/-- What loading a file comes to, when the clocks do not stop it: the entries, or the error. -/
def loaded (crc64 : Bytes → UInt64) (buf : Bytes) : Except RdbError (List (Record F)) :=
  match (ending F buf).error with
  | some e => .error e
  | none =>
    match verify crc64 buf with
    | .error e => .error e
    | .ok () => .ok (contents buf)

omit [FloatBits F] in
theorem conclude_returns {ending : Ending} {w : World F} {r : Except RdbError Unit}
    (h : ((conclude ending).run World.step w).1 = .ok r) :
    r = match ending.error with
      | some e => .error e
      | none => .ok () := by
  cases ending with
  | eof =>
    cases h
    rfl
  | broken e =>
    cases h
    rfl
  | torn stamp e =>
    rw [conclude, Prog.run_bind] at h
    rcases hrun : (load_expiry stamp).run World.step w with ⟨expires_at | halt, w'⟩ <;> rw [hrun] at h
    · cases h
    · cases h
      rfl

theorem load_returns {crc64 : Bytes → UInt64} {buf : Bytes} {w : World F}
    {r : Except RdbError Unit} (h : ((load crc64 buf).run World.step w).1 = .ok r) :
    r = (loaded (F := F) crc64 buf).map fun _ => () := by
  rw [load_eq, Prog.run_bind] at h
  rcases hput : (insert_all (contents buf)).run World.step w with ⟨halt | _, w'⟩ <;> rw [hput] at h
  · cases h
  · dsimp only at h
    rw [Prog.run_bind] at h
    rcases hend : (conclude (ending F buf)).run World.step w' with ⟨halt | r', w''⟩ <;>
      rw [hend] at h
    · cases h
    · have hr' := conclude_returns (congrArg Prod.fst hend)
      unfold loaded
      cases herror : (ending F buf).error with
      | some e =>
        rw [herror] at hr'
        subst hr'
        cases h
        rfl
      | none =>
        rw [herror] at hr'
        subst hr'
        cases h
        cases verify crc64 buf <;> rfl

theorem parse_add (buf : Bytes) (pos turns extra : ℕ) (h : buf.length ≤ pos + turns) :
    (parse buf (turns + extra) pos : List (Record F) × Ending) = parse buf turns pos := by
  induction extra with
  | zero => rfl
  | succ extra ih => rw [← Nat.add_assoc, parse_succ buf _ pos (by omega), ih]

theorem walk_load (crc64 : Bytes → UInt64) (buf : Bytes) (extra : ℕ) :
    ∃ log, Cursor.Inside buf log ∧ turns log ≤ buf.length ∧
      match loaded (F := F) crc64 buf with
      | .error e => Walk.load (F := F) crc64 (buf.length + extra) buf 0 = (log, .err e)
      | .ok records => ∃ pos, pos ≤ buf.length ∧
        Walk.load crc64 (buf.length + extra) buf 0 = (log, .ok records pos) := by
  have hrefused : buf.take 9 ≠ RDB_MAGIC → loaded (F := F) crc64 buf = .error .InvalidMagic := by
    intro hmagic
    unfold loaded ending
    rw [if_neg hmagic]
    rfl
  unfold Walk.load
  by_cases hlen : 0 + 9 ≤ buf.length
  · have hmagic_read : Cursor.Inside buf [.read 0 (0 + 9)] :=
      inside_read ⟨Nat.zero_le _, hlen⟩
    rw [bind_of_ok (need_ok hlen), bind_of_ok (slice_ok hlen),
      drop_zero]
    by_cases hmagic : buf.take 9 = RDB_MAGIC
    · rw [if_neg (not_not.mpr hmagic), bind_of_ok (c := skip 9) rfl]
      obtain ⟨log, hlog, hturns, hwalk⟩ := Walk.walk_matches (F := F)
        (buf.length + extra) hlen (by omega)
      rw [parse_add buf _ _ extra (by omega)] at hwalk
      unfold loaded ending contents
      rw [if_pos hmagic, if_pos hmagic]
      rcases hwalk with ⟨e, herror, hrun⟩ | ⟨pos, herror, hpos, hrun⟩
      · rw [herror, bind_of_err hrun]
        refine ⟨_, hmagic_read.append hlog, ?_, rfl⟩
        rw [singleton_append, turns_read]
        omega
      · obtain ⟨log', hlog', hturns', hverify⟩ := Walk.verify_run crc64 buf pos
        have hlogs : Cursor.Inside buf (.read 0 (0 + 9) :: (log ++ log')) :=
          hmagic_read.append (hlog.append hlog')
        have hcount : turns (.read 0 (0 + 9) :: (log ++ log')) ≤ buf.length := by
          rw [turns_read, turns_append, hturns']
          omega
        rw [herror, bind_of_ok hrun]
        cases hcrc : verify crc64 buf with
        | error e =>
          rw [hcrc] at hverify
          rw [bind_of_err hverify]
          exact ⟨_, hlogs, hcount, rfl⟩
        | ok _ =>
          rw [hcrc] at hverify
          rw [bind_of_ok hverify]
          refine ⟨_, hlogs, hcount, pos, hpos, ?_⟩
          simp only [Pure.pure, append_nil, nil_append, singleton_append]
    · rw [if_pos hmagic, hrefused hmagic]
      exact ⟨_, hmagic_read, Nat.zero_le _, rfl⟩
  · have hmagic : buf.take 9 ≠ RDB_MAGIC := by
      intro h
      have := congrArg List.length h
      rw [length_take, show RDB_MAGIC.length = 9 from rfl] at this
      omega
    rw [bind_of_err (need_err (by omega)), hrefused hmagic]
    exact ⟨[], inside_nil _, Nat.zero_le _, rfl⟩

/-- **The loader stays inside the file.** However many turns the loop over the entries is given
beyond the length of the file, the run ends, and it ends the same way. -/
theorem load_stays_inside (crc64 : Bytes → UInt64) (buf : Bytes) (extra : ℕ) :
    (∃ log, Cursor.Inside buf log ∧ turns log ≤ buf.length ∧
      match loaded (F := F) crc64 buf with
      | .error e => Walk.load (F := F) crc64 (buf.length + extra) buf 0 = (log, .err e)
      | .ok records => ∃ pos, pos ≤ buf.length ∧
        Walk.load crc64 (buf.length + extra) buf 0 = (log, .ok records pos)) ∧
    ∀ (w : World F) r, ((load crc64 buf).run World.step w).1 = .ok r →
      r = (loaded (F := F) crc64 buf).map fun _ => () :=
  ⟨walk_load crc64 buf extra, fun _ _ => load_returns⟩

end Loader

end ValkeyRs.Rdb
