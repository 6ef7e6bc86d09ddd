/-
Encoding and decoding a RESP value.

Two things can go wrong between `encode_value` and `parse_value`. A text that is sent as a line may
contain a line end of its own, and then the line is cut short; and the two forms that split a
payload at a fixed place, blob errors and verbatim strings, split it at the third byte whatever the
encoder joined. `Plain` rules these out, and doubles with them, and for the rest decoding gives back
the value and stops exactly behind it, with anything at all in the buffer after it.
-/
import ValkeyRs.RespChunks

set_option autoImplicit false

open ValkeyRs Text Incremental List

namespace ValkeyRs.Resp

variable {F : Type}

/-! ## Values that survive the wire -/

mutual

/-- How deep aggregates are nested. An aggregate without elements needs no further level
and counts as flat. -/
def depth : RespValue F → ℕ
  | .Array (some items) => depth_items items
  | .Map entries => depth_entries entries
  | _ => 0

def depth_items : List (RespValue F) → ℕ
  | [] => 0
  | v :: vs => max (depth v + 1) (depth_items vs)

def depth_entries : List (RespValue F × RespValue F) → ℕ
  | [] => 0
  | (k, v) :: es => max (max (depth k + 1) (depth v + 1)) (depth_entries es)

end

mutual

/-- No doubles, no line end inside a line, and three bytes where the decoder splits after
three. -/
def Plain : RespValue F → Prop
  | .SimpleString s => ¬ crlf <:+: as_bytes s
  | .Error s => ¬ crlf <:+: as_bytes s
  | .Array (some items) => PlainItems items
  | .Map entries => PlainEntries entries
  | .Double _ => False
  | .BlobError type_desc _ => type_desc.length = 3
  | .VerbatimString tag _ => (as_bytes tag).length = 3
  | _ => True

def PlainItems : List (RespValue F) → Prop
  | [] => True
  | v :: vs => Plain v ∧ PlainItems vs

def PlainEntries : List (RespValue F × RespValue F) → Prop
  | [] => True
  | (k, v) :: es => (Plain k ∧ Plain v) ∧ PlainEntries es

end

/-! ## Reading back a line and a payload -/

theorem find_window_line {line : Bytes} (h : ¬ crlf <:+: line) (r : Bytes) :
    find_window (line ++ (crlf ++ r)) = some line.length := by
  induction line with
  | nil => rfl
  | cons a line ih =>
    have hline : ¬ crlf <:+: line := fun hi => h (hi.trans (suffix_cons a line).isInfix)
    -- the window that starts at `a` is inside the line or ends in the `\r` after it
    have hwin : ∃ b tl, line ++ (crlf ++ r) = b :: tl ∧ ¬ (a = 13 ∧ b = 10) := by
      cases line with
      | nil => exact ⟨13, 10 :: r, rfl, fun hw => absurd hw.2 (by decide)⟩
      | cons b line =>
        refine ⟨b, line ++ (crlf ++ r), rfl, ?_⟩
        rintro ⟨rfl, rfl⟩
        exact h ⟨[], line, rfl⟩
    obtain ⟨b, tl, htl, hw⟩ := hwin
    have ih := ih hline
    rw [htl] at ih
    rw [cons_append, htl, find_window, if_neg hw, ih]
    rfl

variable (c : UInt8)

theorem header_line {s : String} (h : ¬ crlf <:+: as_bytes s) (r : Bytes) :
    header (c :: (as_bytes s ++ (crlf ++ r))) = .ok (s, (as_bytes s).length + 3) := by
  rw [header_cons, find_window_line h]
  simp only [take_left, from_utf8_as_bytes]
  rfl

theorem not_crlf_of_no_cr {b : Bytes} (h : (13 : UInt8) ∉ b) : ¬ crlf <:+: b :=
  fun hi => h (hi.subset (by simp [crlf]))

theorem header_int (n : ℤ) (r : Bytes) :
    header (c :: (as_bytes (toString n) ++ (crlf ++ r)))
      = .ok (toString n, (as_bytes (toString n)).length + 3) :=
  header_line c (not_crlf_of_no_cr (cr_notMem_toString n)) r

theorem header_nat (n : ℕ) (r : Bytes) :
    header (c :: (as_bytes (toString n) ++ (crlf ++ r)))
      = .ok (toString n, (as_bytes (toString n)).length + 3) := by
  rw [← toString_natCast]
  exact header_int c n r

theorem parse_int_length (n : ℕ) :
    parse_int Mach.unbounded.len_bits (toString n) = .ok (n : ℤ) := by
  rw [← toString_natCast]
  exact parse_signed_repr _ _ _ (fun _ => rfl) (fun _ => rfl)

theorem parse_nat_length (n : ℕ) :
    parse_nat Mach.unbounded.len_bits (toString n) = .ok n :=
  parse_unsigned_repr _ _ rfl

theorem payload_append {hd data tl : Bytes} {n : ℕ} (hn : hd.length = n) (htl : 2 ≤ tl.length) :
    payload Mach.unbounded (hd ++ (data ++ tl)) n data.length
      = .ok (data, n + data.length + 2) := by
  have hfit : fits (unsigned_max Mach.unbounded.add_bits) (n + data.length + 2) = true := rfl
  rw [payload_eq, if_pos hfit, if_neg (by simp only [length_append]; omega),
    drop_left' hn, take_left]

/-! ## Reading back a value

One lemma for the parsers of a line and one for each parser of a payload. They are stated
over any buffer of the encoder's shape, with the part after the value left open. -/

theorem parse_line_encode {value : String → Parse (RespValue F)} {v : RespValue F} (c : UInt8)
    {s : String} (hs : ¬ crlf <:+: as_bytes s) (hv : value s = .ok v) (r : Bytes) :
    parse_line value (c :: (as_bytes s ++ crlf) ++ r)
      = .ok ((c :: (as_bytes s ++ crlf)).length, v) := by
  rw [cons_append, append_assoc, parse_line, header_line c hs]
  change (value s >>= _) = _
  rw [hv]
  simp [crlf]

/-- The shape of a payload on the wire, as the parsers see it: everything up to the line
end of the length, the payload, and the rest. -/
theorem encode_payload_eq (s : String) (data r : Bytes) :
    c :: (as_bytes s ++ crlf ++ data ++ crlf) ++ r
      = (c :: (as_bytes s ++ crlf)) ++ (data ++ (crlf ++ r)) := by
  simp

theorem payload_encode (s : String) (data r : Bytes) :
    payload Mach.unbounded (c :: (as_bytes s ++ crlf ++ data ++ crlf) ++ r)
        ((as_bytes s).length + 3) data.length
      = .ok (data, (c :: (as_bytes s ++ crlf ++ data ++ crlf)).length) := by
  rw [encode_payload_eq, payload_append (by simp [crlf]) (by simp [crlf])]
  simp [crlf]
  omega

theorem header_encode (n : ℕ) (data r : Bytes) :
    header (c :: (as_bytes (toString n) ++ crlf ++ data ++ crlf) ++ r)
      = .ok (toString n, (as_bytes (toString n)).length + 3) := by
  have hassoc : c :: (as_bytes (toString n) ++ crlf ++ data ++ crlf) ++ r
      = c :: (as_bytes (toString n) ++ (crlf ++ (data ++ crlf ++ r))) := by simp
  rw [hassoc, header_nat]

theorem parse_bulk_string_encode (b r : Bytes) :
    (parse_bulk_string Mach.unbounded
        (c :: (as_bytes (toString b.length) ++ crlf ++ b ++ crlf) ++ r) : Parse (Parsed F))
      = .ok ((c :: (as_bytes (toString b.length) ++ crlf ++ b ++ crlf)).length,
          .BulkString (some b)) := by
  rw [parse_bulk_string, header_encode, ok_bind]
  simp only [parse_int_length, lift_err_ok, ok_bind]
  rw [if_neg (by omega), Int.toNat_natCast, payload_encode]
  rfl

theorem parse_blob_error_encode {type_desc : Bytes} (h3 : type_desc.length = 3)
    (load r : Bytes) :
    (parse_blob_error Mach.unbounded
        (c :: (as_bytes (toString (type_desc ++ load).length) ++ crlf ++ (type_desc ++ load)
          ++ crlf) ++ r) : Parse (Parsed F))
      = .ok ((c :: (as_bytes (toString (type_desc ++ load).length) ++ crlf
          ++ (type_desc ++ load) ++ crlf)).length, .BlobError type_desc load) := by
  rw [parse_blob_error, header_encode, ok_bind]
  simp only [parse_int_length, lift_err_ok, ok_bind]
  rw [if_neg (by omega), Int.toNat_natCast, payload_encode, ok_bind]
  simp only
  rw [if_pos (by rw [length_append]; omega), take_left' h3, drop_left' h3]
  rfl

theorem parse_verbatim_encode {tag : String} (h3 : (as_bytes tag).length = 3)
    (content r : Bytes) :
    (parse_verbatim Mach.unbounded
        (c :: (as_bytes (toString (as_bytes tag ++ [58] ++ content).length) ++ crlf
          ++ (as_bytes tag ++ [58] ++ content) ++ crlf) ++ r) : Parse (Parsed F))
      = .ok ((c :: (as_bytes (toString (as_bytes tag ++ [58] ++ content).length) ++ crlf
          ++ (as_bytes tag ++ [58] ++ content) ++ crlf)).length,
          .VerbatimString tag content) := by
  rw [parse_verbatim, header_encode, ok_bind]
  simp only [parse_nat_length, lift_err_ok, ok_bind]
  rw [payload_encode, ok_bind]
  -- the colon the encoder put behind the three bytes of the tag is the one looked for
  have hcolon : 4 ≤ (as_bytes tag ++ [58] ++ content).length ∧
      (as_bytes tag ++ [58] ++ content)[3]? = some 58 := by
    refine ⟨by simp only [length_append, length_singleton]; omega, ?_⟩
    rw [append_assoc, List.getElem?_append_right (by omega), h3]
    rfl
  have htag : (as_bytes tag ++ [58] ++ content).take 3 = as_bytes tag := by
    rw [append_assoc, take_left' h3]
  have hcontent : (as_bytes tag ++ [58] ++ content).drop 4 = content :=
    drop_left' (by rw [length_append, h3]; rfl)
  simp only
  rw [if_pos hcolon, htag, hcontent, from_utf8_as_bytes]
  rfl

theorem encode_aggregate_eq (s : String) (body r : Bytes) :
    c :: (as_bytes s ++ crlf ++ body) ++ r = c :: (as_bytes s ++ crlf) ++ (body ++ r) := by
  simp

theorem header_aggregate (n : ℕ) (body r : Bytes) :
    header (c :: (as_bytes (toString n) ++ crlf ++ body) ++ r)
      = .ok (toString n, (c :: (as_bytes (toString n) ++ crlf)).length) := by
  have hassoc : c :: (as_bytes (toString n) ++ crlf ++ body) ++ r
      = c :: (as_bytes (toString n) ++ (crlf ++ (body ++ r))) := by simp
  rw [hassoc, header_nat]
  simp [crlf]

theorem parse_array_encode {p : Bytes → Parse (Parsed F)} (c : UInt8)
    {items : List (RespValue F)} {body r : Bytes}
    (h : parse_items p (c :: (as_bytes (toString items.length) ++ crlf) ++ (body ++ r)) items.length
        (c :: (as_bytes (toString items.length) ++ crlf)).length []
      = .ok ((c :: (as_bytes (toString items.length) ++ crlf)).length + body.length, [] ++ items)) :
    parse_array Mach.unbounded p (c :: (as_bytes (toString items.length) ++ crlf ++ body) ++ r)
      = .ok ((c :: (as_bytes (toString items.length) ++ crlf ++ body)).length,
          .Array (some items)) := by
  rw [← encode_aggregate_eq] at h
  rw [parse_array, header_aggregate, ok_bind]
  simp only [parse_int_length, lift_err_ok, ok_bind]
  rw [if_neg (by omega), Int.toNat_natCast, h]
  simp only [with_capacity, fits, Mach.unbounded, if_true, ok_bind, nil_append]
  rw [← length_append, cons_append]
  rfl

theorem parse_map_encode {p : Bytes → Parse (Parsed F)} (c : UInt8)
    {entries : List (RespValue F × RespValue F)} {body r : Bytes}
    (h : parse_entries p (c :: (as_bytes (toString entries.length) ++ crlf) ++ (body ++ r))
        entries.length (c :: (as_bytes (toString entries.length) ++ crlf)).length []
      = .ok ((c :: (as_bytes (toString entries.length) ++ crlf)).length + body.length,
          [] ++ entries)) :
    parse_map Mach.unbounded p (c :: (as_bytes (toString entries.length) ++ crlf ++ body) ++ r)
      = .ok ((c :: (as_bytes (toString entries.length) ++ crlf ++ body)).length,
          .Map entries) := by
  rw [← encode_aggregate_eq] at h
  rw [parse_map, header_aggregate, ok_bind]
  simp only [parse_nat_length, lift_err_ok, ok_bind]
  rw [h]
  simp only [with_capacity, fits, Mach.unbounded, if_true, ok_bind, nil_append]
  rw [← length_append, cons_append]
  rfl

theorem encode_value_ne_nil [FloatText F] (v : RespValue F) : encode_value v ≠ [] := by
  match v with
  | .BulkString none | .Array none => exact cons_ne_nil _ _
  | .BulkString (some _) | .Array (some _) | .SimpleString _ | .Error _ | .Integer _ | .Map _
  | .Double _ | .Boolean _ | .BigNumber _ | .BlobError _ _ | .VerbatimString _ _ =>
    exact cons_ne_nil _ _

theorem parse_int_toInt64 (n : Int64) : parse_int (some 64) (toString n.toInt) = .ok n.toInt := by
  have hlo := n.le_toInt
  have hhi := n.toInt_lt
  refine parse_signed_repr _ _ _ (fun _ => ?_) (fun _ => ?_)
  · exact decide_eq_true (by simp only [Nat.reduceSub]; omega)
  · exact decide_eq_true (by simp only [Nat.reduceSub]; omega)

theorem parse_int_toInt128 (n : BitVec 128) :
    parse_int (some 128) (toString n.toInt) = .ok n.toInt := by
  have hlo := n.le_toInt
  have hhi := n.toInt_lt
  refine parse_signed_repr _ _ _ (fun _ => ?_) (fun _ => ?_)
  · exact decide_eq_true (by simp only [Nat.reduceSub] at hlo hhi ⊢; omega)
  · exact decide_eq_true (by simp only [Nat.reduceSub] at hlo hhi ⊢; omega)

mutual

theorem parse_levels_encode [FloatText F] : (v : RespValue F) → Plain v → (n : ℕ) →
    depth v < n → (r : Bytes) →
    parse_levels Mach.unbounded n (encode_value v ++ r) = .ok ((encode_value v).length, v)
  | v, hplain, 0, hn, r => absurd hn (Nat.not_lt_zero _)
  | .SimpleString s, hplain, n + 1, hn, r => by
    change parse_simple_string (43 :: (as_bytes s ++ crlf) ++ r) = _
    exact parse_line_encode 43 hplain rfl r
  | .Error s, hplain, n + 1, hn, r => by
    change parse_error (45 :: (as_bytes s ++ crlf) ++ r) = _
    exact parse_line_encode 45 hplain rfl r
  | .Integer i, hplain, n + 1, hn, r => by
    change parse_integer (58 :: (as_bytes (toString i.toInt) ++ crlf) ++ r) = _
    refine parse_line_encode 58 (not_crlf_of_no_cr (cr_notMem_toString _)) ?_ r
    rw [parse_int_toInt64, lift_err_ok, ok_bind, Int64.ofInt_toInt]
    rfl
  | .BulkString none, hplain, n + 1, hn, r => by
    change parse_bulk_string Mach.unbounded (36 :: (as_bytes (toString (-1 : ℤ)) ++ (crlf ++ r))) = _
    rw [parse_bulk_string, header_int]
    rfl
  | .BulkString (some b), hplain, n + 1, hn, r => parse_bulk_string_encode 36 b r
  | .Array none, hplain, n + 1, hn, r => by
    change parse_array Mach.unbounded _ (42 :: (as_bytes (toString (-1 : ℤ)) ++ (crlf ++ r))) = _
    rw [parse_array, header_int]
    rfl
  | .Array (some items), hplain, n + 1, hn, r => by
    exact parse_array_encode 42 (parse_items_encode items hplain n (by rw [depth] at hn; omega) r _ [])
  | .Map entries, hplain, n + 1, hn, r => by
    exact parse_map_encode 37 (parse_entries_encode entries hplain n (by rw [depth] at hn; omega) r _ [])
  | .Double d, hplain, n + 1, hn, r => absurd hplain id
  | .Boolean b, hplain, n + 1, hn, r => by cases b <;> rfl
  | .BigNumber i, hplain, n + 1, hn, r => by
    change parse_bignumber (40 :: (as_bytes (toString i.toInt) ++ crlf) ++ r) = _
    refine parse_line_encode 40 (not_crlf_of_no_cr (cr_notMem_toString _)) ?_ r
    rw [parse_int_toInt128, lift_err_ok, ok_bind, BitVec.ofInt_toInt]
    rfl
  | .BlobError type_desc load, hplain, n + 1, hn, r => by
    rw [encode_value, ← length_append]
    exact parse_blob_error_encode 33 hplain load r
  | .VerbatimString tag content, hplain, n + 1, hn, r => by
    have hlen : (as_bytes tag).length + 1 + content.length
        = (as_bytes tag ++ [58] ++ content).length := by
      rw [length_append, length_append, length_singleton]
    rw [encode_value, hlen]
    exact parse_verbatim_encode 61 hplain content r

theorem parse_items_encode [FloatText F] : (vs : List (RespValue F)) → PlainItems vs → (n : ℕ) →
    depth_items vs ≤ n → (r hd : Bytes) → (acc : List (RespValue F)) →
    parse_items (parse_levels Mach.unbounded n) (hd ++ (encode_items vs ++ r)) vs.length
        hd.length acc
      = .ok (hd.length + (encode_items vs).length, acc ++ vs)
  | [], hplain, n, hn, r, hd, acc => by simp [parse_items, encode_items]
  | v :: vs, hplain, n, hn, r, hd, acc => by
    rw [depth_items, Nat.max_le] at hn
    have hv := parse_levels_encode v hplain.1 n (by omega) (encode_items vs ++ r)
    have hvs := parse_items_encode vs hplain.2 n hn.2 r (hd ++ encode_value v) (acc ++ [v])
    have hpos := length_pos_of_ne_nil (encode_value_ne_nil v)
    rw [encode_items, append_assoc, length_cons, parse_items,
      if_neg (by simp only [length_append]; omega), drop_left, hv, ok_bind]
    simp only [append_assoc, length_append] at hvs ⊢
    rw [hvs]
    simp [Nat.add_assoc]

theorem parse_entries_encode [FloatText F] : (es : List (RespValue F × RespValue F)) →
    PlainEntries es → (n : ℕ) → depth_entries es ≤ n → (r hd : Bytes) →
    (acc : List (RespValue F × RespValue F)) →
    parse_entries (parse_levels Mach.unbounded n) (hd ++ (encode_entries es ++ r)) es.length
        hd.length acc
      = .ok (hd.length + (encode_entries es).length, acc ++ es)
  | [], hplain, n, hn, r, hd, acc => by simp [parse_entries, encode_entries]
  | (k, v) :: es, hplain, n, hn, r, hd, acc => by
    rw [depth_entries, Nat.max_le, Nat.max_le] at hn
    have hk := parse_levels_encode k hplain.1.1 n (by omega)
      (encode_value v ++ (encode_entries es ++ r))
    have hv := parse_levels_encode v hplain.1.2 n (by omega) (encode_entries es ++ r)
    have hes := parse_entries_encode es hplain.2 n hn.2 r (hd ++ encode_value k ++ encode_value v)
      (acc ++ [(k, v)])
    have hkpos := length_pos_of_ne_nil (encode_value_ne_nil k)
    have hvpos := length_pos_of_ne_nil (encode_value_ne_nil v)
    rw [encode_entries, append_assoc, append_assoc, length_cons, parse_entries,
      if_neg (by simp only [length_append]; omega), drop_left, hk, ok_bind]
    simp only
    rw [if_neg (by simp only [length_append]; omega), ← append_assoc hd,
      drop_left' length_append, hv, ok_bind]
    simp only [append_assoc, length_append, Nat.add_assoc] at hes ⊢
    rw [hes]
    simp

end

/-! ## Main results -/

theorem parse_value_encode [FloatText F] {v : RespValue F} (hplain : Plain v)
    (hdepth : depth v ≤ MAX_DEPTH) (r : Bytes) :
    parse_value Mach.unbounded (encode_value v ++ r) 0 = .ok ((encode_value v).length, v) :=
  parse_levels_encode v hplain _ (by omega) r

theorem parse_value_prefix_encode [FloatText F] {v : RespValue F} (hplain : Plain v)
    (hdepth : depth v ≤ MAX_DEPTH) {b : Bytes} (hb : b <+: encode_value v)
    (hne : b ≠ encode_value v) :
    (parse_value Mach.unbounded b 0 : Parse (Parsed F)) = .error .incomplete := by
  obtain ⟨q, hq⟩ := hb
  have hlt : b.length < (encode_value v).length := by
    have hq0 : q ≠ [] := by
      rintro rfl
      exact hne (by rw [← hq, append_nil])
    have := length_pos_of_ne_nil hq0
    rw [← hq, length_append]
    omega
  by_contra hfinal
  -- any other answer would also be the answer on the whole encoding
  have hwhole := parse_value_encode hplain hdepth []
  rw [append_nil, ← hq, parse_value_append q hfinal, hq] at hwhole
  obtain ⟨-, hle⟩ := parse_value_progress Mach.unbounded 0 _ _ _ hwhole
  omega

/-- **Round trip.** A plain value of depth at most `MAX_DEPTH`, encoded and followed by any
bytes, decodes to itself and leaves exactly those bytes; and on a strict prefix of its
encoding the decoder waits and leaves the buffer as it is. -/
theorem decode_encode [FloatText F] (v : RespValue F) (hplain : Plain v)
    (hdepth : depth v ≤ MAX_DEPTH) (self : RespDecoder) :
    (∀ r : Bytes,
      parse_value Mach.unbounded (encode_value v ++ r) 0 = .ok ((encode_value v).length, v) ∧
      RespDecoder.decode Mach.unbounded self (encode_value v ++ r)
        = (.ok (some v), self.note v, r)) ∧
    (∀ b : Bytes, b <+: encode_value v → b ≠ encode_value v →
      RespDecoder.decode Mach.unbounded self b
        = (.ok (none : Option (RespValue F)), self, b)) := by
  refine ⟨fun r => ?_, fun b hb hne => ?_⟩
  · have hv := parse_value_encode hplain hdepth r
    refine ⟨hv, ?_⟩
    rw [decode_eq_ofParser, ofParser, hv]
    simp only [drop_left]
  · rw [decode_eq_ofParser, ofParser, parse_value_prefix_encode hplain hdepth hb hne]

/-- A command with a line end inside one of its arguments, and one byte less of it. -/
theorem decode_encode_set :
    let v : RespValue Infinity := .Array (some [.BulkString (some (as_bytes "SET")),
      .BulkString (some (as_bytes "k")), .BulkString (some [13, 10, 36])])
    Plain v ∧ depth v ≤ MAX_DEPTH ∧
      RespDecoder.decode Mach.unbounded .new (encode_value v ++ [42]) = (.ok (some v), .new, [42]) ∧
      RespDecoder.decode Mach.unbounded .new (encode_value v).dropLast
        = (.ok (none : Option (RespValue Infinity)), .new, (encode_value v).dropLast) := by
  intro v
  have hplain : Plain v := ⟨trivial, trivial, trivial, trivial⟩
  have hdepth : depth v ≤ MAX_DEPTH := by decide
  have h := decode_encode v hplain hdepth .new
  refine ⟨hplain, hdepth, (h.1 [42]).2, h.2 _ ( dropLast_prefix _) ?_⟩
  intro heq
  have := congrArg List.length heq
  rw [length_dropLast] at this
  have := length_pos_of_ne_nil (encode_value_ne_nil v)
  omega

/-! ## Pipelining -/

theorem pump_encodings [FloatText F] {vs : List (RespValue F)}
    (hvs : ∀ v ∈ vs, Plain v ∧ depth v ≤ MAX_DEPTH) {n : ℕ}
    (hn : (vs.flatMap encode_value).length < n) (st : RespDecoder) (out : List (RespValue F))
    (offset : ℕ) : pump (RespDecoder.decode Mach.unbounded) n
        ⟨vs.flatMap encode_value, st, out, offset, none⟩ =
      ⟨[], vs.foldl .note st, out ++ vs, offset + (vs.flatMap encode_value).length, none⟩ := by
  rw [decode_eq_ofParser]
  induction vs generalizing n st out offset with
  | nil =>
    obtain ⟨n, rfl⟩ := Nat.exists_eq_add_of_lt hn
    rw [pump_incomplete rfl rfl, append_nil]
    rfl
  | cons v vs ih =>
    obtain ⟨⟨hplain, hdepth⟩, hvs⟩ := forall_mem_cons.mp hvs
    obtain ⟨n, rfl⟩ := Nat.exists_eq_add_of_lt hn
    have hpos := length_pos_of_ne_nil (encode_value_ne_nil v)
    simp only [flatMap_cons, length_append]
    rw [pump_value rfl (parse_value_encode hplain hdepth _)]
    simp only [drop_left, length_append, Nat.add_sub_cancel]
    rw [ih hvs (by omega), append_assoc, Nat.add_assoc]
    rfl

/-- **Pipelining.** The encodings of any number of values one behind the other, cut anywhere, are
decoded to these values, and all bytes are taken. -/
theorem decode_pipelined [FloatText F] {vs : List (RespValue F)}
    (hvs : ∀ v ∈ vs, Plain v ∧ depth v ≤ MAX_DEPTH) (self : RespDecoder) {chunks : List Bytes}
    (hchunks : chunks.flatten = vs.flatMap encode_value) :
    feedAll (RespDecoder.decode Mach.unbounded) (Driver.start self) chunks =
      ⟨[], vs.foldl .note self, vs, chunks.flatten.length, none⟩ := by
  rw [feedAll_decode, hchunks, feed]
  refine (pump_encodings hvs ?_ self [] 0).trans (by rw [Nat.zero_add]; rfl)
  exact Nat.lt_succ_of_le (Nat.le_add_left _ _)

/-- Two values, cut inside the first. -/
theorem decode_pipelined_pair :
    feedAll (RespDecoder.decode Mach.unbounded) (Driver.start .new)
        [[58, 55], [13, 10, 58, 56, 13, 10]] =
      ⟨[], .new, ([.Integer 7, .Integer 8] : List (RespValue Infinity)), 8, none⟩ :=
  @decode_pipelined Infinity _ [.Integer 7, .Integer 8] (by simp [Plain, depth]) .new _ rfl

end ValkeyRs.Resp
