/-
Sorted sets from a file, `decode_value` of `crates/persistence/src/rdb.rs`.

The loader does not go through `ZSetData::add`: for every pair of the file it sets the score in the
member map and puts the member into the bucket of that score. The second pair of one member
overwrites the first in the member map, and leaves it in its bucket. So the indexes agree exactly
when the file lists no member under two scores.

`listings` is what the file lists: the loop of the loader once more, which keeps the pairs of the
sorted sets and skips everything else.
-/
import ValkeyRs.RdbRoundTrip
import ValkeyRs.ZsetIndex

set_option autoImplicit false

open ValkeyRs Text Resp Storage Codec Codec.Decoder Maps

namespace ValkeyRs.Codec.Decoder

theorem times_image {ε α β : Type} {d : α → Decoder ε α} {d' : β → Decoder ε β} {g : β → α}
    (h : ∀ b, d (g b) = d' b >>= fun b' => pure (g b')) (n : ℕ) (b : β) :
    times d n (g b) = times d' n b >>= fun b' => pure (g b') := by
  induction n generalizing b with
  | zero => rfl
  | succ n ih =>
    rw [times, times, h, bind_assoc, bind_assoc]
    refine congrArg (d' b >>= ·) (funext fun b' => ?_)
    exact ih b'

end ValkeyRs.Codec.Decoder

namespace ValkeyRs.Rdb

open ValkeyRs.Zset (InBucket NoEmptyBucket Consistent)

variable {F : Type} [LinearOrder F]

/-! ## A sorted set from pairs -/

/-- The sorted set that the loader makes of a list of pairs. -/
def zset_of (pairs : List (Bytes × F)) : ZSetData F := pairs.foldl with_member .new

/-- No member has two scores. -/
def Single (pairs : List (Bytes × F)) : Prop :=
  ∀ (m : Bytes) (s s' : F), (m, s) ∈ pairs → (m, s') ∈ pairs → s = s'

variable (pairs : List (Bytes × F))

theorem scores_foldl_with_member (z : ZSetData F) :
    (pairs.foldl with_member z).scores =
      pairs.foldl (fun ns (m, s) => ZSetData.link ns m s) z.scores := by
  induction pairs generalizing z with
  | nil => rfl
  | cons p pairs ih => exact ih (with_member z p)

theorem inBucket_zset_of (m : Bytes) (s : F) :
    InBucket (zset_of pairs).scores s m ↔ (m, s) ∈ pairs := by
  rw [zset_of, scores_foldl_with_member, Zset.inBucket_foldl_link]
  constructor
  · rintro (h | ⟨b, hb, -⟩)
    · exact h
    · simp [ZSetData.new] at hb
  · exact .inl

theorem mem_of_getElem?_fill {κ α : Type} [Ord κ] [Std.TransOrd κ] [Std.LawfulEqOrd κ]
    {m : Std.ExtTreeMap κ α} {pairs : List (κ × α)} {k : κ} {v : α}
    (h : (fill m pairs)[k]? = some v) : (k, v) ∈ pairs ∨ m[k]? = some v := by
  induction pairs generalizing m with
  | nil => exact .inr h
  | cons p pairs ih =>
    rcases ih h with hmem | hget
    · exact .inl (List.mem_cons_of_mem _ hmem)
    · obtain ⟨rfl, rfl⟩ | hget := Maps.of_insert hget
      · exact .inl List.mem_cons_self
      · exact .inr hget

theorem members_zset_of {pairs : List (Bytes × F)} (hsingle : Single pairs) (m : Bytes) (s : F) :
    (zset_of pairs).members[m]? = some s ↔ (m, s) ∈ pairs := by
  have hmembers : (zset_of pairs).members = fill ∅ pairs := members_foldl_with_member pairs .new
  have hlisted : ∀ s', (fill ∅ pairs)[m]? = some s' → (m, s') ∈ pairs := by
    intro s' h
    rcases mem_of_getElem?_fill h with hmem | hnone
    · exact hmem
    · simp at hnone
  rw [hmembers]
  refine ⟨hlisted s, fun hmem => ?_⟩
  have hkey : m ∈ fill ∅ pairs :=
    (mem_fill ∅ pairs m).mpr (.inr (List.mem_map.mpr ⟨(m, s), hmem, rfl⟩))
  obtain ⟨s', hs'⟩ := Option.isSome_iff_exists.mp (Std.ExtTreeMap.isSome_getElem?_iff_mem.mpr hkey)
  rw [hs', hsingle m s' s (hlisted s' hs') hmem]

theorem consistent_zset_of_iff : Consistent (zset_of pairs) ↔ Single pairs := by
  constructor
  · intro h m s s' hs hs'
    have hm := (h.index m s).mp ((inBucket_zset_of pairs m s).mpr hs)
    have hm' := (h.index m s').mp ((inBucket_zset_of pairs m s').mpr hs')
    rw [hm] at hm'
    exact Option.some.inj hm'
  · intro h
    refine ⟨fun m s => ?_, ?_⟩
    · rw [inBucket_zset_of, members_zset_of h]
    · rw [zset_of, scores_foldl_with_member]
      refine Zset.noEmptyBucket_foldl_link pairs fun s b hb => ?_
      simp [ZSetData.new] at hb

/-! ## What a file lists -/

section Listings

variable [FloatBits F]

def decode_pairs : Decoder RdbError (List (Bytes × F)) := do
  let len ← decode_length
  times (fun pairs => do
    let member ← decode_string
    let score ← decode_score
    return pairs ++ [(member, score)]) len []

def skip_value (type_byte : UInt8) : Decoder RdbError (Option (List (Bytes × F))) :=
  if type_byte = RDB_TYPE_ZSET then do
    return some (← decode_pairs)
  else do
    let _ ← decode_value (F := F) type_byte
    return none

def decode_listing : Decoder RdbError (Option (List (Bytes × F))) := do
  let actual_type ← next_byte
  let _ ← decode_string
  skip_value actual_type

def list_zsets (buf : Bytes) : ℕ → ℕ → List (List (Bytes × F))
  | 0, _ => []
  | turns + 1, pos =>
    match buf[pos]? with
    | none => []
    | some opcode =>
      if opcode = RDB_OPCODE_EOF then []
      else match decode_stamp opcode buf pos with
        | .error _ => []
        | .ok (_, pos) =>
          match decode_listing buf pos with
          | .error _ => []
          | .ok (listing, pos) => listing.toList ++ list_zsets buf turns pos

def listings (F : Type) [LinearOrder F] [FloatBits F] (buf : Bytes) : List (List (Bytes × F)) :=
  if buf.take 9 = RDB_MAGIC then list_zsets buf buf.length 9 else []

theorem decode_value_zset :
    (decode_value RDB_TYPE_ZSET : Decoder RdbError (DataType F)) = do
      return .ZSet (zset_of (← decode_pairs)) := by
  have hmember : ∀ pairs : List (Bytes × F), decode_zset_member (zset_of pairs) = (do
      let member ← decode_string
      let score ← decode_score
      return pairs ++ [(member, score)]) >>= fun pairs => pure (zset_of pairs) := by
    intro pairs
    rw [decode_zset_member, bind_assoc]
    refine congrArg (decode_string >>= ·) (funext fun member => ?_)
    rw [bind_assoc]
    refine congrArg (decode_score >>= ·) (funext fun score => ?_)
    have hstep : zset_of (pairs ++ [(member, score)]) = with_member (zset_of pairs) (member, score) :=
      List.foldl_append
    show pure _ = pure (zset_of (pairs ++ [(member, score)]))
    rw [hstep]
    rfl
  rw [decode_pairs, bind_assoc]
  refine congrArg (decode_length >>= ·) (funext fun len => ?_)
  have htimes := times_image hmember len []
  rw [show zset_of ([] : List (Bytes × F)) = .new from rfl] at htimes
  rw [htimes, bind_assoc]
  rfl

/-- What the loader makes of a listing. -/
def Lists (data : DataType F) (listing : Option (List (Bytes × F))) : Prop :=
  match listing with
  | some pairs => data = .ZSet (zset_of pairs)
  | none => ∀ z, data ≠ .ZSet z

theorem decode_value_ne_zset {t : UInt8} (ht : t ≠ RDB_TYPE_ZSET) :
    Yields (decode_value (F := F) t) fun data => ∀ z, data ≠ .ZSet z := by
  refine .ite (fun _ => ?_) fun _ => .ite (fun _ => ?_) fun _ =>
    .ite (fun _ => ?_) fun _ => .ite (fun h => absurd h ht) fun _ =>
    .ite (fun _ => ?_) fun _ => .ite (fun _ => ?_) fun _ => .fail _ _
  · exact (Yields.any _).bind fun _ _ => Yields.pure fun _ h => by cases h
  · exact (Yields.any _).bind fun _ _ => (Yields.any _).bind fun _ _ =>
      Yields.pure fun _ h => by cases h
  · exact (Yields.any _).bind fun _ _ => (Yields.any _).bind fun _ _ =>
      Yields.pure fun _ h => by cases h
  · exact (Yields.any _).bind fun _ _ => (Yields.any _).bind fun _ _ =>
      Yields.pure fun _ h => by cases h
  · exact (Yields.any _).bind fun _ _ => (Yields.any _).bind fun _ _ => (Yields.any _).bind fun _ _ =>
      (Yields.any _).bind fun _ _ => Yields.pure fun _ h => by cases h

theorem skip_value_run (t : UInt8) (buf : Bytes) (pos : ℕ) :
    match decode_value (F := F) t buf pos with
    | .error e => skip_value (F := F) t buf pos = .error e
    | .ok (data, pos') => ∃ listing, skip_value t buf pos = .ok (listing, pos') ∧
        Lists data listing := by
  by_cases ht : t = RDB_TYPE_ZSET
  · rw [skip_value, if_pos ht, ht, decode_value_zset]
    simp only [Bind.bind, Pure.pure]
    cases decode_pairs (F := F) buf pos with
    | error e => rfl
    | ok r => exact ⟨some r.1, rfl, rfl⟩
  · rw [skip_value, if_neg ht]
    simp only [Bind.bind, Pure.pure]
    cases hvalue : decode_value (F := F) t buf pos with
    | error e => rfl
    | ok r => exact ⟨none, rfl, decode_value_ne_zset ht _ _ _ _ hvalue⟩

theorem decode_listing_run (buf : Bytes) (pos : ℕ) :
    match decode_entry (F := F) buf pos with
    | .error e => decode_listing (F := F) buf pos = .error e
    | .ok (entry, pos') => ∃ listing, decode_listing buf pos = .ok (listing, pos') ∧
        Lists entry.2 listing := by
  simp only [decode_entry, decode_listing, Bind.bind, Pure.pure]
  cases next_byte buf pos with
  | error e => rfl
  | ok r =>
    dsimp only
    cases decode_string buf r.2 with
    | error e => rfl
    | ok r' =>
      have hvalue := skip_value_run (F := F) r.1 buf r'.2
      dsimp only
      cases hdata : decode_value (F := F) r.1 buf r'.2 with
      | error e =>
        rw [hdata] at hvalue
        exact hvalue
      | ok r'' =>
        rw [hdata] at hvalue
        exact hvalue

theorem parse_zsets_iff (P : ZSetData F → Prop) (buf : Bytes) (turns pos : ℕ) :
    (∀ r ∈ (parse buf turns pos).1, ∀ z, r.data = .ZSet z → P z) ↔
      ∀ pairs ∈ list_zsets buf turns pos, P (zset_of pairs) := by
  induction turns generalizing pos with
  | zero => simp [parse, list_zsets]
  | succ turns ih =>
    rw [parse, list_zsets]
    cases buf[pos]? with
    | none => simp
    | some opcode =>
      dsimp only
      by_cases heof : opcode = RDB_OPCODE_EOF
      · simp [heof]
      rw [if_neg heof, if_neg heof]
      cases decode_stamp opcode buf pos with
      | error e => simp
      | ok r =>
        obtain ⟨stamp, mid⟩ := r
        have hrun := decode_listing_run (F := F) buf mid
        dsimp only
        cases hentry : decode_entry (F := F) buf mid with
        | error e =>
          rw [hentry] at hrun
          rw [hrun]
          simp
        | ok r =>
          obtain ⟨⟨key, data⟩, pos'⟩ := r
          rw [hentry] at hrun
          obtain ⟨listing, hlisting, hlists⟩ := hrun
          rw [hlisting]
          rw [List.forall_mem_cons, List.forall_mem_append, ih pos']
          refine and_congr_left fun _ => ?_
          cases listing with
          | none => exact ⟨fun _ => by simp, fun _ z hz => absurd hz (hlists z)⟩
          | some pairs =>
            have hdata : data = .ZSet (zset_of pairs) := hlists
            subst hdata
            simp

theorem contents_zsets_iff (P : ZSetData F → Prop) (buf : Bytes) :
    (∀ r ∈ contents buf, ∀ z, r.data = .ZSet z → P z) ↔
      ∀ pairs ∈ listings F buf, P (zset_of pairs) := by
  unfold contents listings
  split
  · exact parse_zsets_iff P buf _ _
  · simp

/-! ## What the loader puts in the store -/

/-- The indexes agree: a member is in bucket `s` exactly when the member map gives it score `s`,
and it is in one bucket. -/
def Agreeing (z : ZSetData F) : Prop :=
  Consistent z ∧ ∀ m ∈ z.members, ∃! s, InBucket z.scores s m

/-- **Loaded sorted sets.** A file that is accepted has its entries inserted in order; all its
sorted sets have agreeing indexes if and only if it lists no member under two scores. -/
theorem load_agreeing_iff {crc64 : Bytes → UInt64} {buf : Bytes} {w : World F}
    (h : ((load crc64 buf).run World.step w).1 = .ok (.ok ())) :
    ∃ entries env', Loads buf entries ∧
      ((load crc64 buf).run World.step w).2 = put w entries env' ∧
      ((∀ p ∈ entries, ∀ z, p.2.data = .ZSet z → Agreeing z) ↔
        ∀ pairs ∈ listings F buf, Single pairs) := by
  rcases load_run (F := F) crc64 buf w.env with ⟨halt, hhalt⟩ | ⟨entries, env', r, hall, hrun⟩
  · rw [hhalt w rfl] at h
    cases h
  refine ⟨entries, env', hall, by rw [hrun w rfl], ?_⟩
  have hrecords : (∀ p ∈ entries, ∀ z, p.2.data = .ZSet z → Agreeing z) ↔
      ∀ r ∈ contents (F := F) buf, ∀ z, r.data = .ZSet z → Agreeing z := by
    constructor
    · intro hentries r hr z hz
      obtain ⟨p, hp, -, hdata⟩ := forall₂_mem_left hall hr
      exact hentries p hp z (hdata.trans hz)
    · intro hrecords p hp z hz
      obtain ⟨r, hr, -, hdata⟩ := forall₂_mem_right hall hp
      exact hrecords r hr z (hdata.symm.trans hz)
  rw [hrecords, contents_zsets_iff]
  refine forall₂_congr fun pairs _ => ?_
  rw [← consistent_zset_of_iff]
  exact ⟨fun hz => hz.1, fun hz => ⟨hz, fun m hm => hz.existsUnique hm⟩⟩

end Listings

/-- A file with one sorted set, `z`, and a checksum of zero. -/
def zset_file (pairs : List (Bytes × Infinity)) : Bytes :=
  finish (fun _ => 0) (RDB_TYPE_ZSET :: (encode_string (as_bytes "z") ++
    (encode_length pairs.length ++
      pairs.flatMap fun p => encode_string p.1 ++ encode_score p.2)))

def repeated : List (Bytes × Infinity) := [(as_bytes "a", .pos), (as_bytes "a", .neg)]

theorem load_agreeing_iff_single :
    let buf := zset_file [(as_bytes "a", .pos), (as_bytes "b", .pos)]
    ∃ entries env', Loads buf entries ∧
      ((load (fun _ => 0) buf).run World.step (World.new .still : World Infinity)).2 =
        put (.new .still) entries env' ∧
      ((∀ p ∈ entries, ∀ z, p.2.data = .ZSet z → Agreeing z) ↔
        ∀ pairs ∈ listings Infinity buf, Single pairs) :=
  load_agreeing_iff (by decide)

/-- The file is accepted; the member is in both buckets, and the member map knows one of them. -/
theorem load_repeated_disagrees :
    let w := (load (fun _ => 0) (zset_file repeated)).run World.step (World.new .still : World Infinity)
    w.1 = .ok (.ok ()) ∧ ∃ e z, w.2.store.keyspace[as_bytes "z"]? = some e ∧ e.data = .ZSet z ∧
      ¬ Agreeing z := by
  refine ⟨by decide, _, zset_of repeated, rfl, rfl, fun hagreeing => ?_⟩
  have hsingle := (consistent_zset_of_iff repeated).mp hagreeing.1
  have hsame := hsingle (as_bytes "a") .pos .neg (by decide) (by decide)
  exact absurd hsame (by decide)

end ValkeyRs.Rdb
