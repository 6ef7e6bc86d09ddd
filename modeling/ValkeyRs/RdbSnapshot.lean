/-
What a snapshot keeps.

Three results about a store that is saved and then loaded into an empty one. Without expiry times
and streams the copy has the same keys with the same values, in whatever order the maps were
traversed (`load_save`). A stream comes back if and only if it has no consumer groups
(`load_save_stream_iff`). And an expiry time comes back if it lies far enough in the future when the
snapshot is loaded (`load_save_expiry_iff`).

Two clocks are involved: expiry times are instants of the monotonic clock, which means nothing to
another process, so the file has them by the wall clock, in milliseconds. On the way to the file
both the time of day and the time that is left are rounded down, on the way back the time of day is,
and a time that has passed is taken for none at all.
-/
import ValkeyRs.RdbRoundTrip

set_option autoImplicit false

open ValkeyRs Text Resp Storage Codec Codec.Decoder Maps World

namespace ValkeyRs.Rdb

variable {F : Type} [LinearOrder F]

/-! ## Without expiry times -/

theorem make_none (key : Bytes) (data : DataType F) (w : World F) :
    ((make ⟨.none, key, data⟩).run step w).1 = .ok ⟨data, none, w.env.clock 0, 1, 1⟩ := rfl

theorem Survives.expires_none {I I' : Env → Prop} {key : Bytes} {e e' : Entry F}
    (h : Survives I I' key e e') (hnone : e.expires_at = none) : e'.expires_at = none := by
  obtain ⟨-, env, env', data, -, -, hmake⟩ := h
  have hmade := hmake { new env' with env := env' } rfl
  rw [hnone, stamp_at, make_none] at hmade
  cases hmade
  rfl

theorem not_stalls_of_none {I I' : Env → Prop} {key : Bytes} {e : Entry F}
    (hnone : e.expires_at = none) : ¬ Stalls I I' key e := by
  rintro ⟨env, env', data, halt, -, -, hmake⟩
  have hmade := hmake { new env' with env := env' } rfl
  rw [hnone, stamp_at, make_none] at hmade
  cases hmade

section Data

variable [FloatBits F]

theorem load_save_of_none (crc64 : Bytes → UInt64) (inner : Bytes → Arrangement) {w w' : World F}
    (hempty : w'.store.keyspace = ∅)
    (h : ∀ (k : Bytes) (e : Entry F), w.store.keyspace[k]? = some e →
      e.expires_at = none ∧ k.length < 2 ^ 32 ∧ Fits e.data) :
    ∃ buf, ((save crc64 inner).run step w).1 = .ok buf ∧
      ((load crc64 buf).run step w').1 = .ok (.ok ()) ∧
      ∀ k : Bytes, Option.Rel
        (fun e e' => e'.data.value = ungrouped e.data.value ∧ e'.expires_at = none)
        w.store.keyspace[k]? ((load crc64 buf).run step w').2.store.keyspace[k]? := by
  obtain ⟨buf, hsave, ⟨halt, -, k, e, hk, hstalls⟩ | ⟨hload, hcopy⟩⟩ :=
    load_save_cases crc64 inner anywhen_ticks anywhen_ticks trivial trivial hempty
      fun k e hk => (h k e hk).2
  · exact absurd hstalls (not_stalls_of_none (h k e hk).1)
  · refine ⟨buf, hsave, hload, fun k => ?_⟩
    have hk := hcopy k
    cases hfound : w.store.keyspace[k]? with
    | none =>
      rw [hfound] at hk
      generalize ((load crc64 buf).run step w').2.store.keyspace[k]? = found at hk
      cases hk
      exact .none
    | some e =>
      rw [hfound] at hk
      generalize ((load crc64 buf).run step w').2.store.keyspace[k]? = found at hk
      cases hk with
      | some hsurvives =>
        exact .some ⟨hsurvives.1, hsurvives.expires_none (h k e hfound).1⟩

/-- **Snapshots keep the data.** -/
theorem load_save (crc64 : Bytes → UInt64) (inner : Bytes → Arrangement) {w w' : World F}
    (hempty : w'.store.keyspace = ∅)
    (h : ∀ (k : Bytes) (e : Entry F), w.store.keyspace[k]? = some e →
      e.expires_at = none ∧ (∀ stream, e.data ≠ .Stream stream) ∧ k.length < 2 ^ 32 ∧
        Fits e.data) :
    ∃ buf, ((save crc64 inner).run step w).1 = .ok buf ∧
      ((load crc64 buf).run step w').1 = .ok (.ok ()) ∧
      ∀ k : Bytes, ((load crc64 buf).run step w').2.store.keyspace[k]?.map Entry.view =
        w.store.keyspace[k]?.map Entry.view := by
  obtain ⟨buf, hsave, hload, hcopy⟩ := load_save_of_none crc64 inner hempty
    fun k e hk => ⟨(h k e hk).1, (h k e hk).2.2⟩
  refine ⟨buf, hsave, hload, fun k => ?_⟩
  have hk := hcopy k
  generalize ((load crc64 buf).run step w').2.store.keyspace[k]? = found at hk
  cases hfound : w.store.keyspace[k]? with
  | none =>
    rw [hfound] at hk
    cases hk
    rfl
  | some e =>
    obtain ⟨hnone, hstream, -⟩ := h k e hfound
    rw [hfound] at hk
    cases hk with
    | some hboth =>
      obtain ⟨hvalue, hexpires⟩ := hboth
      -- only streams have something to lose
      have hsame : ungrouped e.data.value = e.data.value := by
        cases hdata : e.data with
        | Stream stream => exact absurd hdata (hstream stream)
        | String | List | Hash | Set | ZSet | ListPack | IntSet => rfl
      rw [Option.map_some, Option.map_some, Entry.view, Entry.view, hvalue, hexpires, hnone, hsame]

def packed_entry : Entry Infinity :=
  ⟨.ListPack (ListPack.new.push_back (.String (as_bytes "x"))), none, 0, 1, 1⟩

theorem load_save_listpack :
    ∃ buf, ((save (fun _ => 0) fun _ => Arrangement.sorted).run step
        (.single (as_bytes "l") packed_entry .still)).1 = .ok buf ∧
      ((load (fun _ => 0) buf).run step
        (new .still : World Infinity)).1 = .ok (.ok ()) ∧
      ∀ k : Bytes, ((load (fun _ => 0) buf).run step
          (new .still : World Infinity)).2.store.keyspace[k]?.map Entry.view =
        (single (as_bytes "l") packed_entry .still).store.keyspace[k]?.map Entry.view := by
  refine load_save _ _ rfl fun k e hk => ?_
  obtain ⟨rfl, rfl⟩ := single_getElem? hk
  refine ⟨rfl, fun _ h => (by cases h), by decide, by decide, ?_⟩
  exact ⟨[.String (as_bytes "x")], rfl, rfl, by decide, trivial⟩

/-! ## Streams -/

/-- What can come out of a file: short keys, and streams without groups and with short lengths. -/
def Loadable (key : Bytes) (data : DataType F) : Prop :=
  key.length < 2 ^ 32 ∧ ∀ stream, data = .Stream stream → stream.groups = ∅ ∧ Fits data

theorem number_lt (w : ℕ) : Yields (number w) fun n => n < 256 ^ w :=
  (Yields.bytes _ w).bind fun b hb => Yields.pure (by
    have hlt := of_le_bytes_lt b
    rwa [hb] at hlt)

theorem decode_length_lt : Yields decode_length fun n => n < 2 ^ 32 := by
  have hnumber : ∀ w, w ≤ 4 → Yields (number w) fun n => n < 2 ^ 32 := by
    intro w hw input pos n pos' hrun
    have hlt := number_lt w input pos n pos' hrun
    calc n < 256 ^ w := hlt
      _ ≤ 256 ^ 4 := Nat.pow_le_pow_right (by norm_num) hw
      _ = 2 ^ 32 := by norm_num
  refine (Yields.any _).bind fun first _ => ?_
  refine Yields.ite (fun _ => Yields.pure (by omega)) fun _ => ?_
  refine .ite (fun _ => ?_) fun _ => ?_
  · refine (Yields.any _).bind fun second _ => Yields.pure ?_
    have hsecond : second.toNat < 256 := second.toNat_lt
    omega
  refine .ite (fun _ => ?_) fun _ => ?_
  · exact .ite (fun _ => hnumber 4 (by omega)) fun _ => .fail _ _
  refine .ite (fun _ => hnumber 1 (by omega)) fun _ => ?_
  refine .ite (fun _ => hnumber 2 (by omega)) fun _ => ?_
  exact .ite (fun _ => hnumber 4 (by omega)) fun _ => .fail _ _

theorem decode_string_short : Yields decode_string fun b => b.length < 2 ^ 32 := by
  refine decode_length_lt.bind fun len hlen => ?_
  intro input pos b pos' hrun
  have heq := Yields.bytes _ len input pos b pos' hrun
  omega

/-- A pair of short strings. -/
def ShortPair (p : Bytes × Bytes) : Prop := p.1.length < 2 ^ 32 ∧ p.2.length < 2 ^ 32

theorem decode_pair_short : Yields decode_pair ShortPair :=
  decode_string_short.bind fun _ hfield => decode_string_short.bind fun _ hvalue =>
    .pure ⟨hfield, hvalue⟩

theorem decode_stream_entry_short : Yields decode_stream_entry fun e =>
    e.2.length < 2 ^ 32 ∧ ∀ p ∈ e.2, ShortPair p := by
  refine (Yields.any _).bind fun id _ => decode_length_lt.bind fun num_fields hnum => ?_
  refine Yields.bind (P := fun fields : List (Bytes × Bytes) =>
    fields.length = 0 + num_fields ∧ ∀ p ∈ fields, ShortPair p) ?_ fun fields hfields =>
      Yields.pure ⟨by have hlen := hfields.1; dsimp only; omega, hfields.2⟩
  refine .times (P := fun i (fields : List (Bytes × Bytes)) => fields.length = i ∧ ∀ p ∈ fields, ShortPair p)
    (fun i fields hfields => ?_) ⟨rfl, fun _ h => by cases h⟩ num_fields
  refine decode_pair_short.bind fun p hp => .pure ⟨?_, fun q hq => ?_⟩
  · rw [List.length_append, hfields.1, List.length_singleton]
  · rcases List.mem_append.mp hq with hq | hq
    · exact hfields.2 q hq
    · rw [List.mem_singleton.mp hq]
      exact hp

/-- What is said about the entries of a stream while they are being read. -/
def ShortEntries (n : ℕ) (entries : BTreeMap StreamId (List (Bytes × Bytes))) : Prop :=
  entries.size ≤ n ∧ ∀ (id : StreamId) (fields : List (Bytes × Bytes)),
    entries[id]? = some fields → fields.length < 2 ^ 32 ∧ ∀ p ∈ fields, ShortPair p

theorem ShortEntries.insert {n : ℕ} {entries : BTreeMap StreamId (List (Bytes × Bytes))}
    (h : ShortEntries n entries) {e : StreamId × List (Bytes × Bytes)}
    (he : e.2.length < 2 ^ 32 ∧ ∀ p ∈ e.2, ShortPair p) :
    ShortEntries (n + 1) (entries.insert e.1 e.2) := by
  refine ⟨Std.ExtTreeMap.size_insert_le.trans (Nat.add_le_add_right h.1 1), fun id fields hid => ?_⟩
  obtain ⟨-, rfl⟩ | hid := Maps.of_insert hid
  · exact he
  · exact h.2 id fields hid

theorem decode_value_loadable (t : UInt8) : Yields (decode_value (F := F) t) fun data =>
    ∀ stream, data = .Stream stream → stream.groups = ∅ ∧ Fits data := by
  -- the other types are no streams
  have hother : ∀ {α : Type} (d : Decoder RdbError α) (mk : α → DataType F),
      (∀ a stream, mk a ≠ .Stream stream) → Yields (d >>= fun a => pure (mk a)) fun data =>
        ∀ stream, data = .Stream stream → stream.groups = ∅ ∧ Fits data :=
    fun d mk hmk => (Yields.any d).bind fun a _ => Yields.pure fun stream h =>
      absurd h (hmk a stream)
  refine .ite (fun _ => hother _ _ fun _ _ h => by cases h) fun _ => ?_
  refine Yields.ite (fun _ => (Yields.any _).bind fun _ _ => hother _ _ fun _ _ h => by cases h)
    fun _ => ?_
  refine Yields.ite (fun _ => (Yields.any _).bind fun _ _ => hother _ _ fun _ _ h => by cases h)
    fun _ => ?_
  refine Yields.ite (fun _ => (Yields.any _).bind fun _ _ => hother _ _ fun _ _ h => by cases h)
    fun _ => ?_
  refine Yields.ite (fun _ => (Yields.any _).bind fun _ _ => hother _ _ fun _ _ h => by cases h)
    fun _ => ?_
  refine .ite (fun _ => ?_) fun _ => .fail _ _
  refine decode_length_lt.bind fun num_ids hnum => (Yields.any _).bind fun _ _ => ?_
  refine Yields.bind (P := ShortEntries (0 + num_ids)) ?_ fun entries hentries => ?_
  · refine .times (P := ShortEntries) (fun i entries hentries => ?_) ⟨?_, fun id fields h => ?_⟩
      num_ids
    · exact decode_stream_entry_short.bind fun e he => .pure (hentries.insert he)
    · rw [Std.ExtTreeMap.size_empty]
    · cases h
  · refine (Yields.any _).bind fun last_id _ => Yields.pure fun stream h => ?_
    cases h
    have hsize := hentries.1
    exact ⟨rfl, by dsimp only; omega, hentries.2⟩

theorem decode_entry_loadable : Yields (decode_entry (F := F)) fun p => Loadable p.1 p.2 :=
  (Yields.any _).bind fun t _ => decode_string_short.bind fun _ hkey =>
    (decode_value_loadable t).bind fun _ hdata => Yields.pure ⟨hkey, hdata⟩

theorem parse_loadable (buf : Bytes) (turns pos : ℕ) :
    ∀ r ∈ (parse (F := F) buf turns pos).1, Loadable r.key r.data := by
  induction turns generalizing pos with
  | zero =>
    intro r hr
    cases hr
  | succ turns ih =>
    intro r hr
    rw [parse] at hr
    split at hr
    · cases hr
    split at hr
    · cases hr
    split at hr
    · cases hr
    split at hr
    · cases hr
    rename_i hentry
    rcases List.mem_cons.mp hr with rfl | hr
    · exact decode_entry_loadable _ _ _ _ hentry
    · exact ih _ r hr

theorem load_holds (crc64 : Bytes → UInt64) (buf : Bytes) {w : World F}
    (hempty : w.store.keyspace = ∅) :
    ((load crc64 buf).run step w).2.Holds fun k e => Loadable k e.data := by
  let C := puts fun k (e : Entry F) => Loadable k e.data
  have hinsert : ∀ rs : List (Record F), (∀ r ∈ rs, Loadable r.key r.data) →
      (insert_all rs).Meets C fun _ => True := by
    intro rs hrs
    induction rs with
    | nil => trivial
    | cons r rs ih =>
      refine (make_meets trivial trivial r).bind fun entry hentry => ?_
      have hput : C.asks (.access r.key fun _ => some entry) := by
        rintro e x ⟨⟩
        rw [hentry]
        exact hrs r List.mem_cons_self
      exact (call_meets hput).bind fun _ _ => ih fun r hr => hrs r (List.mem_cons_of_mem _ hr)
  have hcontents : ∀ r ∈ contents (F := F) buf, Loadable r.key r.data := by
    intro r hr
    unfold contents at hr
    split at hr
    · exact parse_loadable buf buf.length 9 r hr
    · cases hr
  have hload : (load crc64 buf : StoreM F _).Meets C fun _ => True := by
    rw [load_eq]
    refine (hinsert _ hcontents).bind fun _ _ => ?_
    refine (conclude_meets trivial trivial (ending F buf)).bind fun r _ => ?_
    cases r <;> trivial
  have hstart : w.Holds fun k e => Loadable k e.data := by
    intro k x hx
    rw [hempty, Std.ExtTreeMap.getElem?_empty] at hx
    cases hx
  exact (hload.run (fun _ h => h) (step_puts _) hstart).1

/-- **Streams.** The other keys may be anything that can be written. -/
theorem load_save_stream_iff (crc64 : Bytes → UInt64) (inner : Bytes → Arrangement) {w w' : World F}
    (hempty : w'.store.keyspace = ∅) {key : Bytes} {entry : Entry F} {stream : StreamData}
    (hkey : w.store.keyspace[key]? = some entry) (hdata : entry.data = .Stream stream)
    (h : ∀ (k : Bytes) (e : Entry F), w.store.keyspace[k]? = some e →
      e.expires_at = none ∧ (k ≠ key → k.length < 2 ^ 32 ∧ Fits e.data)) :
    (∃ buf, ((save crc64 inner).run step w).1 = .ok buf ∧
      ((load crc64 buf).run step w').1 = .ok (.ok ()) ∧
      ∃ entry' stream',
        ((load crc64 buf).run step w').2.store.keyspace[key]? = some entry' ∧
        entry'.data = .Stream stream' ∧ stream'.entries = stream.entries ∧
        stream'.last_id = stream.last_id ∧ stream'.groups = stream.groups) ↔
    stream.groups = ∅ ∧ key.length < 2 ^ 32 ∧ Fits (.Stream stream : DataType F) := by
  constructor
  · rintro ⟨buf, -, -, entry', stream', hfound, hdata', hentries, -, hgroups⟩
    obtain ⟨hlen, hloadable⟩ := load_holds crc64 buf hempty key entry' hfound
    obtain ⟨hnone, hfits⟩ := hloadable stream' hdata'
    rw [hdata'] at hfits
    refine ⟨by rw [← hgroups, hnone], hlen, ?_⟩
    -- the lengths are those of the entries, which are the same
    rw [Fits, hentries] at hfits
    rwa [Fits]
  · rintro ⟨hgroups, hlen, hfits⟩
    have hall : ∀ (k : Bytes) (e : Entry F), w.store.keyspace[k]? = some e →
        e.expires_at = none ∧ k.length < 2 ^ 32 ∧ Fits e.data := by
      intro k e hk
      by_cases heq : k = key
      · rw [heq, hkey] at hk
        cases hk
        rw [heq, hdata]
        exact ⟨(h key entry hkey).1, hlen, hfits⟩
      · exact ⟨(h k e hk).1, (h k e hk).2 heq⟩
    obtain ⟨buf, hsave, hload, hcopy⟩ := load_save_of_none crc64 inner hempty hall
    have hk := hcopy key
    rw [hkey] at hk
    refine ⟨buf, hsave, hload, ?_⟩
    generalize ((load crc64 buf).run step w').2.store.keyspace[key]? = found at hk
    cases hk with
    | @some _ entry' hcopied =>
      obtain ⟨hvalue, -⟩ := hcopied
      rw [hdata, DataType.value, ungrouped] at hvalue
      cases hdata' : entry'.data with
      | Stream stream' =>
        rw [hdata', DataType.value] at hvalue
        injection hvalue with hentries hnone hlast
        exact ⟨entry', stream', rfl, hdata', hentries, hlast, by rw [hgroups, hnone]⟩
      | String | List | Hash | Set | ZSet | ListPack | IntSet =>
        rw [hdata'] at hvalue
        cases hvalue

/-- A stream without entries, with one consumer group or none. -/
def stream_entry (grouped : Bool) : Entry Infinity :=
  let group : ConsumerGroup := ⟨"g", ⟨0, 0⟩, ∅, ∅, 0⟩
  ⟨.Stream ⟨∅, if grouped then (∅ : HashMap _ _).insert "g" group else ∅, ⟨0, 0⟩, ∅⟩, none, 0, 1, 1⟩

def group_names (w : World Infinity) (key : Bytes) : List String :=
  match w.store.keyspace[key]? with
  | some ⟨.Stream stream, _, _, _, _⟩ => stream.groups.keys
  | _ => []

theorem load_save_stream_iff_ungrouped :
    (∃ buf, ((save (fun _ => 0) fun _ => Arrangement.sorted).run step
        (single (as_bytes "s") (stream_entry false) .still)).1 = .ok buf ∧
      ((load (fun _ => 0) buf).run step
        (new .still : World Infinity)).1 = .ok (.ok ()) ∧
      ∃ entry' stream', ((load (fun _ => 0) buf).run step
          (new .still : World Infinity)).2.store.keyspace[as_bytes "s"]? = some entry' ∧
        entry'.data = .Stream stream' ∧ stream'.entries = ∅ ∧ stream'.last_id = ⟨0, 0⟩ ∧
        stream'.groups = ∅) ↔
    (∅ : HashMap String ConsumerGroup) = ∅ ∧ (as_bytes "s").length < 2 ^ 32 ∧
      Fits (.Stream ⟨∅, ∅, ⟨0, 0⟩, ∅⟩ : DataType Infinity) :=
  load_save_stream_iff _ _ rfl (single_self _ _ _)
    (show (stream_entry false).data = .Stream ⟨∅, ∅, ⟨0, 0⟩, ∅⟩ from rfl) fun k e hk => by
      obtain ⟨rfl, rfl⟩ := single_getElem? hk
      exact ⟨rfl, fun h => absurd rfl h⟩

def snapshot (w : World Infinity) : Bytes :=
  match ((save (fun _ => 0) fun _ => Arrangement.sorted).run step w).1 with
  | .ok buf => buf
  | .error _ => []

/-- The group is not there any more. -/
theorem load_forgets_group :
    let w := single (as_bytes "s") (stream_entry true) .still
    let loaded := (load (fun _ => 0) (snapshot w)).run step (new .still : World Infinity)
    ((save (fun _ => 0) fun _ => Arrangement.sorted).run step w).1 = .ok (snapshot w) ∧
      loaded.1 = .ok (.ok ()) ∧ group_names w (as_bytes "s") = ["g"] ∧
      group_names loaded.2 (as_bytes "s") = [] := by
  decide

end Data

/-! ## Expiry times -/

/-- Surroundings in which both clocks stand still. -/
def Steady (now wall : ℕ) (env : Env) : Prop := ∀ n, env.clock n = now ∧ env.wall n = wall

theorem steady_ticks {now wall : ℕ} :
    ∀ env, Steady now wall env → Steady now wall env.tick ∧ Steady now wall env.tick_wall :=
  fun _ h => ⟨fun n => ⟨(h (n + 1)).1, (h n).2⟩, fun n => ⟨(h n).1, (h (n + 1)).2⟩⟩

theorem new_entry_some {now wall : ℕ} {w : World F} (h : Steady now wall w.env) (data : DataType F)
    {expires_at : Instant} (hle : now ≤ expires_at) (hmax : expires_at ≤ instant_max) :
    ((new_entry data (some expires_at)).run step w).1 =
      .ok ⟨data, some expires_at, now, 1, 1⟩ := by
  have hrun : (new_entry data (some expires_at)).run step w =
      (Prog.ofExcept (Entry.new data (if w.env.clock 0 ≤ expires_at
          then some (expires_at - w.env.clock 0) else none) (w.env.clock 1)) : StoreM F _).run
        step { w with env := w.env.tick.tick } := rfl
  rw [hrun, (h 0).1, (h 1).1, if_pos hle, Entry.new, Nat.add_sub_cancel' hle,
    if_neg (not_lt.mpr hmax)]
  rfl

theorem new_entry_later {now wall : ℕ} {w : World F} (h : Steady now wall w.env) (d : ℕ)
    (data : DataType F) :
    (((Store.now >>= fun now => add_instant now d >>= fun x => pure (some x) :
        StoreM F (Option Instant)) >>= new_entry data).run step w).1 =
      if now + d > instant_max then .error .Panic else .ok ⟨data, some (now + d), now, 1, 1⟩ := by
  have hadd : ((Store.now >>= fun now => add_instant now d >>= fun x => pure (some x) :
        StoreM F (Option Instant)) >>= new_entry data).run step w =
      ((add_instant (w.env.clock 0) d >>= fun x => pure (some x) :
        StoreM F (Option Instant)) >>= new_entry data).run step
        { w with env := w.env.tick } := rfl
  rw [hadd, (h 0).1, add_instant]
  by_cases hmax : now + d > instant_max
  · rw [if_pos hmax, if_pos hmax]
    rfl
  · rw [if_neg hmax, if_neg hmax]
    exact new_entry_some (w := { w with env := w.env.tick }) (steady_ticks _ h).1 data
      (Nat.le_add_right now d) (not_lt.mp hmax)

theorem make_ms {now wall : ℕ} {w : World F} (h : Steady now wall w.env) (t : ℕ) (key : Bytes)
    (data : DataType F) :
    ((make ⟨.ms t, key, data⟩).run step w).1 =
      if t > millis wall % 2 ^ 64 then
        if now + (t - millis wall % 2 ^ 64) * 10 ^ 6 > instant_max then .error .Panic
        else .ok ⟨data, some (now + (t - millis wall % 2 ^ 64) * 10 ^ 6), now, 1, 1⟩
      else .ok ⟨data, none, now, 1, 1⟩ := by
  have hrun : (make ⟨.ms t, key, data⟩).run step w =
      ((if t > millis (w.env.wall 0) % 2 ^ 64 then
          Store.now >>= fun now =>
            add_instant now ((t - millis (w.env.wall 0) % 2 ^ 64) * 10 ^ 6) >>= fun x => pure (some x)
        else pure none : StoreM F (Option Instant)) >>= new_entry data).run step
        { w with env := w.env.tick_wall } := rfl
  rw [hrun, (h 0).2]
  by_cases ht : t > millis wall % 2 ^ 64
  · rw [if_pos ht, if_pos ht]
    exact new_entry_later (w := { w with env := w.env.tick_wall }) (steady_ticks _ h).2 _ data
  · rw [if_neg ht, if_neg ht]
    show Except.ok (⟨data, none, w.env.clock 0, 1, 1⟩ : Entry F) = _
    rw [(h 0).1]

/-- What is asked of a key with an expiry time when the snapshot is loaded at `t2`: it is live with
its expiry time, up to a millisecond, or if that has passed it is gone. Times are those of the clock
at the saving; `now` is what the clock says at the loading, which may be in another process. -/
def Kept (expires_at t2 now : ℕ) (found : Option (Entry F)) : Prop :=
  (t2 < expires_at → ∃ entry t, found = some entry ∧ entry.expires_at = some t ∧ now ≤ t ∧
    |((t : ℤ) - now) - ((expires_at : ℤ) - t2)| ≤ 10 ^ 6) ∧
  (expires_at ≤ t2 → ∀ entry, found = some entry → ∃ t, entry.expires_at = some t ∧ t < now) ∧
  ∀ entry, found = some entry → entry.expires_at ≠ none

/-- The expiry time in the file is later than the time of day at the loading, neither has been cut
to its lowest 64 bits, what the roundings lose is at most a millisecond, and the sum is an instant. -/
def Lasts (t1 wall d now expires_at : ℕ) : Prop :=
  let expire_ms := millis wall + millis (expires_at - t1)
  let now_ms := millis (wall + d)
  now_ms < expire_ms ∧ expire_ms / 2 ^ 64 = now_ms / 2 ^ 64 ∧
    wall % 10 ^ 6 + (expires_at - t1) % 10 ^ 6 ≤ 10 ^ 6 + (wall + d) % 10 ^ 6 ∧
    now + (expire_ms - now_ms) * 10 ^ 6 ≤ instant_max

section Expiry

variable {t1 wall d now : ℕ} {key : Bytes} {e e' : Entry F} {t : ℕ}

theorem Survives.expires (h : Survives (Steady t1 wall) (Steady now (wall + d)) key e e')
    (ht : e.expires_at = some t) :
    let expire_ms := (millis wall + millis (t - t1)) % 2 ^ 64
    let now_ms := millis (wall + d) % 2 ^ 64
    (now_ms < expire_ms ∧ now + (expire_ms - now_ms) * 10 ^ 6 ≤ instant_max ∧
      e'.expires_at = some (now + (expire_ms - now_ms) * 10 ^ 6)) ∨
    (expire_ms ≤ now_ms ∧ e'.expires_at = none) := by
  intro expire_ms now_ms
  obtain ⟨-, env, env', data, henv, henv', hmake⟩ := h
  have hmade := hmake { new env' with env := env' } rfl
  have hstamp : stamp_at env e.expires_at = .ms expire_ms := by
    rw [ht, stamp_at, (henv 0).1, (henv 0).2]
  rw [hstamp, make_ms henv'] at hmade
  split at hmade
  · rename_i hlt
    split at hmade
    · cases hmade
    · rename_i hmax
      cases hmade
      exact .inl ⟨hlt, not_lt.mp hmax, rfl⟩
  · rename_i hle
    cases hmade
    exact .inr ⟨not_lt.mp hle, rfl⟩

theorem Lasts.not_stalls (h : Lasts t1 wall d now t) (ht : e.expires_at = some t) :
    ¬ Stalls (Steady t1 wall) (Steady now (wall + d)) key e := by
  rintro ⟨env, env', data, halt, henv, henv', hmake⟩
  have hmade := hmake { new env' with env := env' } rfl
  obtain ⟨hlt, hquot, -, hmax⟩ := h
  rw [ht, stamp_at, (henv 0).1, (henv 0).2, make_ms henv'] at hmade
  generalize millis wall + millis (t - t1) = expire_ms at *
  generalize millis (wall + d) = now_ms at *
  have hdiff : expire_ms % 2 ^ 64 - now_ms % 2 ^ 64 = expire_ms - now_ms := by omega
  rw [if_pos (by omega), hdiff, if_neg (not_lt.mpr hmax)] at hmade
  cases hmade

theorem lasts_round (wall d : ℕ) (hlt : t1 ≤ t) :
    ((millis wall + millis (t - t1) : ℕ) : ℤ) * 10 ^ 6 - (millis (wall + d) : ℕ) * 10 ^ 6 =
      ((t : ℤ) - (t1 + d)) +
      (((wall + d) % 10 ^ 6 : ℕ) - (wall % 10 ^ 6 : ℕ) - ((t - t1) % 10 ^ 6 : ℕ)) := by
  have hwall := Nat.div_add_mod wall (10 ^ 6)
  have hrest := Nat.div_add_mod (t - t1) (10 ^ 6)
  have hload := Nat.div_add_mod (wall + d) (10 ^ 6)
  unfold millis
  zify [hlt] at hwall hrest hload ⊢
  linarith

theorem Lasts.kept (h : Lasts t1 wall d now t) (ht : e.expires_at = some t)
    (hsurvives : Survives (Steady t1 wall) (Steady now (wall + d)) key e e') :
    Kept t (t1 + d) now (some e') := by
  obtain ⟨hlt, hquot, hround, -⟩ := h
  have hcases := hsurvives.expires ht
  have hstart : t1 ≤ t := by
    unfold millis at hlt
    omega
  have hoff := lasts_round wall d hstart
  generalize millis wall + millis (t - t1) = X at hlt hquot hcases hoff
  generalize millis (wall + d) = Y at hlt hquot hcases hoff
  have hdiff : X % 2 ^ 64 - Y % 2 ^ 64 = X - Y := by omega
  rcases hcases with ⟨-, -, hexpires⟩ | ⟨hle, -⟩
  · refine ⟨fun _ => ⟨e', _, rfl, hexpires, Nat.le_add_right _ _, ?_⟩, fun hle => ?_, ?_⟩
    · rw [abs_le]
      push_cast [hlt.le]
      constructor <;> omega
    · -- rounding down does not make it later
      exfalso
      omega
    · rintro entry ⟨⟩
      rw [hexpires]
      exact Option.some_ne_none _
  · exfalso
    omega

theorem lasts_of_kept (ht : e.expires_at = some t)
    (hsurvives : Survives (Steady t1 wall) (Steady now (wall + d)) key e e')
    (h : Kept t (t1 + d) now (some e')) : Lasts t1 wall d now t := by
  obtain ⟨hbefore, hafter, hnever⟩ := h
  rcases hsurvives.expires ht with ⟨hlt, hmax, hexpires⟩ | ⟨-, hnone⟩
  · by_cases hlate : t1 + d < t
    · obtain ⟨entry, t', hentry, ht', -, hoff⟩ := hbefore hlate
      cases hentry
      rw [hexpires] at ht'
      cases ht'
      have hround := lasts_round wall d (by omega : t1 ≤ t)
      unfold Lasts
      generalize millis wall + millis (t - t1) = X at *
      generalize millis (wall + d) = Y at *
      rw [abs_le] at hoff
      push_cast [hlt.le] at hoff
      -- the error is too small for another multiple of `2 ^ 64`
      have hquot : X / 2 ^ 64 = Y / 2 ^ 64 := by omega
      have hdiff : X % 2 ^ 64 - Y % 2 ^ 64 = X - Y := by omega
      rw [hdiff] at hmax
      exact ⟨by omega, hquot, by omega, hmax⟩
    · obtain ⟨t', ht', hpast⟩ := hafter (not_lt.mp hlate) e' rfl
      rw [hexpires] at ht'
      cases ht'
      exact absurd hpast (not_lt.mpr (Nat.le_add_right _ _))
  · exact absurd hnone (hnever e' rfl)

/-- **Expiry times.** The snapshot is saved at `t1`, when the wall clock says `wall`, and loaded
`d` later. -/
theorem load_save_expiry_iff [FloatBits F] (crc64 : Bytes → UInt64) (inner : Bytes → Arrangement)
    {w w' : World F} (hw : Steady t1 wall w.env) (hw' : Steady now (wall + d) w'.env)
    (hempty : w'.store.keyspace = ∅)
    (hfits : ∀ (k : Bytes) (e : Entry F), w.store.keyspace[k]? = some e →
      k.length < 2 ^ 32 ∧ Fits e.data) :
    (∃ buf, ((save crc64 inner).run step w).1 = .ok buf ∧
      ((load crc64 buf).run step w').1 = .ok (.ok ()) ∧
      ∀ (k : Bytes) (e : Entry F) (t : ℕ), w.store.keyspace[k]? = some e →
        e.expires_at = some t →
        Kept t (t1 + d) now ((load crc64 buf).run step w').2.store.keyspace[k]?) ↔
    ∀ (k : Bytes) (e : Entry F) (t : ℕ), w.store.keyspace[k]? = some e → e.expires_at = some t →
      Lasts t1 wall d now t := by
  obtain ⟨buf, hsave, hcases⟩ := load_save_cases crc64 inner steady_ticks steady_ticks
    (show Steady t1 wall w.env.rearrange from hw) hw' hempty hfits
  constructor
  · rintro ⟨buf', hsave', hload, hkept⟩ k e t hk ht
    rw [hsave] at hsave'
    cases hsave'
    rcases hcases with ⟨halt, hstalled, -⟩ | ⟨-, hcopy⟩
    · rw [hload] at hstalled
      cases hstalled
    · have hkept' := hkept k e t hk ht
      have hcopy' := hcopy k
      rw [hk] at hcopy'
      generalize ((load crc64 buf).run step w').2.store.keyspace[k]? = found at hkept' hcopy'
      cases hcopy' with
      | some hsurvives => exact lasts_of_kept ht hsurvives hkept'
  · intro hlasts
    rcases hcases with ⟨halt, -, k, e, hk, hstalls⟩ | ⟨hload, hcopy⟩
    · -- what cannot be loaded has an expiry time, and then it does not last
      exfalso
      cases ht : e.expires_at with
      | none => exact not_stalls_of_none ht hstalls
      | some t => exact (hlasts k e t hk ht).not_stalls ht hstalls
    · refine ⟨buf, hsave, hload, fun k e t hk ht => ?_⟩
      have hcopy' := hcopy k
      rw [hk] at hcopy'
      generalize ((load crc64 buf).run step w').2.store.keyspace[k]? = found at hcopy'
      cases hcopy' with
      | some hsurvives => exact (hlasts k e t hk ht).kept ht hsurvives

end Expiry

def Env.fixed (now wall : ℕ) : Env := ⟨fun _ => now, fun _ => wall, fun _ => 0, fun _ => .sorted⟩

/-- A string that expires after five seconds. -/
def fleeting : Entry Infinity := ⟨.String (as_bytes "v"), some (5 * 10 ^ 9), 0, 1, 1⟩

theorem load_save_expiry_iff_fleeting :
    (∃ buf, ((save (fun _ => 0) fun _ => Arrangement.sorted).run step
        (single (as_bytes "k") fleeting (Env.fixed 0 0))).1 = .ok buf ∧
      ((load (fun _ => 0) buf).run step
        (new (Env.fixed (10 ^ 9) (10 ^ 9)) : World Infinity)).1 = .ok (.ok ()) ∧
      ∀ (k : Bytes) (e : Entry Infinity) (t : ℕ),
        (single (as_bytes "k") fleeting (Env.fixed 0 0)).store.keyspace[k]? = some e →
        e.expires_at = some t →
        Kept t (0 + 10 ^ 9) (10 ^ 9) ((load (fun _ => 0) buf).run step
          (new (Env.fixed (10 ^ 9) (10 ^ 9)) : World Infinity)).2.store.keyspace[k]?) ↔
    ∀ (k : Bytes) (e : Entry Infinity) (t : ℕ),
      (single (as_bytes "k") fleeting (Env.fixed 0 0)).store.keyspace[k]? = some e →
      e.expires_at = some t → Lasts 0 0 (10 ^ 9) (10 ^ 9) t :=
  load_save_expiry_iff _ _ (show Steady 0 0 (Env.fixed 0 0) from fun _ => ⟨rfl, rfl⟩)
    (show Steady (10 ^ 9) (0 + 10 ^ 9) (Env.fixed (10 ^ 9) (10 ^ 9)) from fun _ =>
      ⟨rfl, (Nat.zero_add _).symm⟩) rfl fun k e hk => by
      obtain ⟨rfl, rfl⟩ := single_getElem? hk
      exact ⟨by decide, show (as_bytes "v").length < 2 ^ 32 by decide⟩

/-- Saved at time zero, loaded ten seconds later: the key is live and has no expiry time. -/
theorem load_revives_expired :
    let w := single (as_bytes "k") fleeting (Env.fixed 0 0)
    let loaded := (load (fun _ => 0) (snapshot w)).run step
      (new (Env.fixed (10 ^ 10) (10 ^ 10)) : World Infinity)
    ((save (fun _ => 0) fun _ => Arrangement.sorted).run step w).1 = .ok (snapshot w) ∧
      loaded.1 = .ok (.ok ()) ∧
      loaded.2.store.keyspace[as_bytes "k"]?.map Entry.expires_at = some none := by
  decide

end ValkeyRs.Rdb
