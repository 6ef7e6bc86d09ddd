/-
Chunk independence of the RESP decoder.

Each of the twelve parsers is stable: once it has answered with a value or an error, more input does
not change the answer. For most of them this is `Stable.bind` along the body. What needs an argument
is where a parser looks at the end of what it has: the search for a line end (`find_window_spec`),
the length test before a payload (`payload_eq`), and the tests between the elements of an aggregate.

With progress (`parse_levels_progress`) the general theorem about drivers applies, and two ways of
cutting a stream into chunks give the same values, the same error and the same offset.
-/
import ValkeyRs.Resp

set_option autoImplicit false

open ValkeyRs Text Incremental List

namespace ValkeyRs.Resp

variable {F : Type}

/-! ## Line ends -/

variable {b : Bytes}

theorem find_window_spec {i : ℕ} (h : find_window b = some i) :
    i + 2 ≤ b.length ∧ ∀ r, find_window (b ++ r) = some i := by
  induction b using find_window.induct generalizing i with
  | case1 a c rest hw =>
    rw [find_window, if_pos hw] at h
    cases h
    refine ⟨by simp only [length_cons]; omega, fun r => ?_⟩
    rw [cons_append, cons_append, find_window, if_pos hw]
  | case2 a c rest hw ih =>
    rw [find_window, if_neg hw] at h
    obtain ⟨j, hj, rfl⟩ := Option.map_eq_some_iff.mp h
    obtain ⟨hlt, happ⟩ := ih hj
    refine ⟨by simp only [length_cons] at hlt ⊢; omega, fun r => ?_⟩
    rw [cons_append, cons_append, find_window, if_neg hw, ← cons_append, happ]
    rfl
  | case3 b hb =>
    rw [find_window.eq_2 b hb] at h
    cases h

/-- The test for a line end at the very end of the buffer is never met: a window has two
bytes. -/
theorem read_line_eq (b : Bytes) :
    read_line b = match find_window b with
      | some i => .ok (i, i + 2)
      | none => .error .incomplete := by
  have hz : find_crlf b 0 = find_window b := by
    simp [find_crlf]
  rw [read_line, hz]
  cases h : find_window b with
  | none => rfl
  | some i =>
    have hlt := (find_window_spec h).1
    simp only
    rw [if_neg (by omega)]

/-! ## The shared prelude and the shared tail

The two places where the parsers slice the buffer. Neither slice is ever out of range, so
the equations below have no panic in them but the one of the `usize` sum. -/

theorem header_cons (c : UInt8) (rest : Bytes) :
    header (c :: rest) = match find_window rest with
      | some i => do
        let s ← lift_err .Utf8 (from_utf8 (rest.take i))
        return (s, i + 3)
      | none => .error .incomplete := by
  have hrest : slice (c :: rest) 1 (c :: rest).length = .ok rest := by
    rw [slice, if_pos ⟨by simp, le_refl _⟩]
    simp
  rw [header, hrest]
  change (read_line rest >>= _) = _
  rw [read_line_eq]
  cases h : find_window rest with
  | none => rfl
  | some i =>
    have hlt := (find_window_spec h).1
    have hline : slice (c :: rest) 1 (1 + i) = .ok (rest.take i) := by
      rw [slice, if_pos ⟨by omega, by simp only [length_cons]; omega⟩]
      simp
    change (slice (c :: rest) 1 (1 + i) >>= _) = _
    rw [hline]
    rfl

theorem header_stable (c : UInt8) : Stable (fun rest => header (c :: rest)) := by
  intro b r h
  dsimp only at h ⊢
  rw [header_cons] at h
  rw [header_cons, header_cons]
  cases hw : find_window b with
  | none =>
    rw [hw] at h
    exact absurd rfl h
  | some i =>
    have hlt := (find_window_spec hw).1
    rw [(find_window_spec hw).2 r]
    simp only
    rw [take_append_of_le_length (by omega)]

theorem header_bounds {c : UInt8} {s : String} {k : ℕ}
    (h : header (c :: b) = .ok (s, k)) : 3 ≤ k ∧ k ≤ (c :: b).length := by
  rw [header_cons] at h
  cases hw : find_window b with
  | none =>
    rw [hw] at h
    cases h
  | some i =>
    have hlt := (find_window_spec hw).1
    simp only [hw] at h
    cases hs : from_utf8 (b.take i) with
    | error e =>
      rw [hs] at h
      cases h
    | ok t =>
      rw [hs] at h
      cases h
      simp only [length_cons]
      omega

theorem payload_eq (M : Mach) (buf : Bytes) (line_consumed len : ℕ) :
    payload M buf line_consumed len =
      if fits (unsigned_max M.add_bits) (line_consumed + len + 2) then
        if buf.length < line_consumed + len + 2 then .error .incomplete
        else .ok ((buf.drop line_consumed).take len, line_consumed + len + 2)
      else .error (.fail (.Panic .Overflow)) := by
  rw [payload, checked_sum]
  split
  · change (if buf.length < line_consumed + len + 2 then _ else _) = _
    split
    · rfl
    · have hs : slice buf line_consumed (line_consumed + len)
          = .ok ((buf.drop line_consumed).take len) := by
        rw [slice, if_pos ⟨by omega, by omega⟩, Nat.add_sub_cancel_left]
      rw [hs]
      rfl
  · rfl

theorem payload_stable (M : Mach) (line_consumed len : ℕ) :
    Stable (fun buf => payload M buf line_consumed len) := by
  intro b r h
  dsimp only at h ⊢
  rw [payload_eq] at h
  rw [payload_eq, payload_eq]
  by_cases hfit : fits (unsigned_max M.add_bits) (line_consumed + len + 2) = true
  · rw [if_pos hfit] at h
    rw [if_pos hfit, if_pos hfit]
    by_cases hlen : b.length < line_consumed + len + 2
    · rw [if_pos hlen] at h
      exact absurd rfl h
    · rw [if_neg hlen, if_neg (by rw [length_append]; omega),
        drop_append_of_le_length (by omega),
        take_append_of_le_length (by rw [length_drop]; omega)]
  · rw [if_neg hfit, if_neg hfit]

theorem payload_bounds {M : Mach} {buf data : Bytes} {line_consumed len total : ℕ}
    (h : payload M buf line_consumed len = .ok (data, total)) :
    total = line_consumed + len + 2 ∧ total ≤ buf.length := by
  rw [payload_eq] at h
  split at h
  · split at h
    · cases h
    · cases h
      exact ⟨rfl, by omega⟩
  · cases h

/-! ## Stability of the parsers -/

theorem parse_line_stable (value : String → Parse (RespValue F)) (c : UInt8) :
    Stable (fun rest => parse_line value (c :: rest)) := by
  refine .bind (header_stable c) ?_
  rintro ⟨s, consumed⟩
  exact .const _

theorem parse_bulk_string_stable (M : Mach) (c : UInt8) :
    Stable (fun rest => (parse_bulk_string M (c :: rest) : Parse (Parsed F))) := by
  refine .bind (header_stable c) ?_
  rintro ⟨s, line_consumed⟩
  refine .bind (.const _) fun len => .ite (.const _) ?_
  refine .bind ((payload_stable M line_consumed _).cons c) ?_
  rintro ⟨data, total⟩
  exact .const _

theorem parse_blob_error_stable (M : Mach) (c : UInt8) :
    Stable (fun rest => (parse_blob_error M (c :: rest) : Parse (Parsed F))) := by
  refine .bind (header_stable c) ?_
  rintro ⟨s, line_consumed⟩
  refine .bind (.const _) fun len => .ite (.const _) ?_
  refine .bind ((payload_stable M line_consumed _).cons c) ?_
  rintro ⟨data, total⟩
  exact .const _

theorem parse_verbatim_stable (M : Mach) (c : UInt8) :
    Stable (fun rest => (parse_verbatim M (c :: rest) : Parse (Parsed F))) := by
  refine .bind (header_stable c) ?_
  rintro ⟨s, line_consumed⟩
  refine .bind (.const _) fun len => ?_
  refine .bind ((payload_stable M line_consumed _).cons c) ?_
  rintro ⟨data, total⟩
  exact .const _

/-- The only parser that looks at fixed positions. Four bytes decide everything, and with
fewer it waits. -/
theorem parse_boolean_stable : Stable (parse_boolean : Bytes → Parse (Parsed F)) := by
  intro b r h
  match b with
  | [] | [_] | [_, _] | [_, _, _] => exact absurd rfl h
  | _ :: _ :: _ :: _ :: _ => rfl

theorem parse_inline_stable : Stable (parse_inline : Bytes → Parse (Parsed F)) := by
  intro b r h
  rw [parse_inline, read_line_eq] at h
  rw [parse_inline, parse_inline, read_line_eq, read_line_eq]
  cases hw : find_window b with
  | none =>
    rw [hw] at h
    exact absurd rfl h
  | some i =>
    have hlt := (find_window_spec hw).1
    have hslice : slice (b ++ r) 0 i = slice b 0 i := by
      rw [slice, slice, if_pos ⟨by omega, by rw [length_append]; omega⟩,
        if_pos ⟨by omega, by omega⟩, drop_zero, drop_zero,
        take_append_of_le_length (by omega)]
    rw [(find_window_spec hw).2 r]
    change (slice (b ++ r) 0 i >>= _) = (slice b 0 i >>= _)
    rw [hslice]

/-- A buffer that ends before an element asks for more input, and does not once it has
been extended past that point. -/
theorem not_length_append_le {offset : ℕ} (b r : Bytes) (h : ¬ b.length ≤ offset) :
    ¬ (b ++ r).length ≤ offset := by
  rw [length_append]
  omega

variable {p : Bytes → Parse (Parsed F)}

theorem parse_items_stable (hp : Stable p) (count offset : ℕ)
    (items : List (RespValue F)) : Stable (fun buf => parse_items p buf count offset items) := by
  induction count generalizing offset items with
  | zero => exact .const _
  | succ count ih =>
    refine .guard not_length_append_le (.bind (hp.drop offset) ?_)
    rintro ⟨consumed, value⟩
    exact ih _ _

theorem parse_entries_stable (hp : Stable p) (count offset : ℕ)
    (entries : List (RespValue F × RespValue F)) :
    Stable (fun buf => parse_entries p buf count offset entries) := by
  induction count generalizing offset entries with
  | zero => exact .const _
  | succ count ih =>
    refine .guard not_length_append_le (.bind (hp.drop offset) ?_)
    rintro ⟨consumed, key⟩
    refine .guard not_length_append_le (.bind (hp.drop _) ?_)
    rintro ⟨consumed', val⟩
    exact ih _ _

theorem parse_array_stable (M : Mach) {p : Bytes → Parse (Parsed F)} (hp : Stable p) (c : UInt8) :
    Stable (fun rest => parse_array M p (c :: rest)) := by
  refine .bind (header_stable c) ?_
  rintro ⟨s, line_consumed⟩
  refine .bind (.const _) fun count => .ite (.const _) ?_
  refine .bind (.const _) fun _ => ?_
  refine .bind ((parse_items_stable hp _ line_consumed []).cons c) ?_
  rintro ⟨offset, items⟩
  exact .const _

theorem parse_map_stable (M : Mach) {p : Bytes → Parse (Parsed F)} (hp : Stable p) (c : UInt8) :
    Stable (fun rest => parse_map M p (c :: rest)) := by
  refine .bind (header_stable c) ?_
  rintro ⟨s, line_consumed⟩
  refine .bind (.const _) fun count => .bind (.const _) fun _ => ?_
  refine .bind ((parse_entries_stable hp _ line_consumed []).cons c) ?_
  rintro ⟨offset, entries⟩
  exact .const _

theorem parse_prefixed_stable [FloatText F] (M : Mach) {p : Bytes → Parse (Parsed F)}
    (hp : Stable p) (c : UInt8) : Stable (fun rest => parse_prefixed M p c (c :: rest)) := by
  unfold parse_prefixed
  split
  · exact parse_line_stable _ _
  · exact parse_line_stable _ _
  · exact parse_line_stable _ _
  · exact parse_bulk_string_stable M _
  · exact parse_array_stable M hp _
  · exact parse_map_stable M hp _
  · exact parse_line_stable _ _
  · exact parse_boolean_stable.cons _
  · exact parse_line_stable _ _
  · exact parse_blob_error_stable M _
  · exact parse_verbatim_stable M _
  · exact parse_inline_stable.cons _

/-- The induction is on the levels left: the elements of an aggregate have one less. -/
theorem parse_levels_stable [FloatText F] (M : Mach) (n : ℕ) :
    Stable (parse_levels M n : Bytes → Parse (Parsed F)) := by
  induction n with
  | zero => exact .const _
  | succ n ih =>
    intro b r h
    cases b with
    | nil => exact absurd rfl h
    | cons c rest => exact parse_prefixed_stable M ih c rest r h

/-! ## Progress

A value takes at least one byte and no more than the buffer has. For the elements of an
aggregate the bound is carried along the loop: the offset starts and stays within the
buffer. -/

variable {c : UInt8} {rest : Bytes} {k : ℕ} {v : RespValue F} {M : Mach}

theorem parse_line_progress {value : String → Parse (RespValue F)}
    (h : parse_line value (c :: rest) = .ok (k, v)) :
    0 < k ∧ k ≤ (c :: rest).length := by
  obtain ⟨⟨s, k'⟩, hh, h⟩ := exists_of_bind_eq_ok h
  obtain ⟨w, hw, h⟩ := exists_of_bind_eq_ok h
  cases h
  have hb := header_bounds hh
  exact ⟨by omega, hb.2⟩

theorem parse_bulk_string_progress (h : parse_bulk_string M (c :: rest) = .ok (k, v)) :
    0 < k ∧ k ≤ (c :: rest).length := by
  obtain ⟨⟨s, k'⟩, hh, h⟩ := exists_of_bind_eq_ok h
  obtain ⟨len, hl, h⟩ := exists_of_bind_eq_ok h
  have hb := header_bounds hh
  split at h
  · cases h
    exact ⟨by omega, hb.2⟩
  · obtain ⟨⟨data, total⟩, hp, h⟩ := exists_of_bind_eq_ok h
    obtain ⟨ht, hle⟩ := payload_bounds hp
    cases h
    exact ⟨by omega, hle⟩

theorem parse_blob_error_progress (h : parse_blob_error M (c :: rest) = .ok (k, v)) :
    0 < k ∧ k ≤ (c :: rest).length := by
  obtain ⟨⟨s, k'⟩, hh, h⟩ := exists_of_bind_eq_ok h
  obtain ⟨len, hl, h⟩ := exists_of_bind_eq_ok h
  split at h
  · cases h
  · obtain ⟨⟨data, total⟩, hp, h⟩ := exists_of_bind_eq_ok h
    obtain ⟨ht, hle⟩ := payload_bounds hp
    have hk : k = total := by
      dsimp only at h
      split at h <;> cases h <;> rfl
    exact ⟨by omega, by omega⟩

theorem parse_verbatim_progress (h : parse_verbatim M (c :: rest) = .ok (k, v)) :
    0 < k ∧ k ≤ (c :: rest).length := by
  obtain ⟨⟨s, k'⟩, hh, h⟩ := exists_of_bind_eq_ok h
  obtain ⟨len, hl, h⟩ := exists_of_bind_eq_ok h
  obtain ⟨⟨data, total⟩, hp, h⟩ := exists_of_bind_eq_ok h
  obtain ⟨ht, hle⟩ := payload_bounds hp
  have hk : k = total := by
    dsimp only at h
    split at h <;> obtain ⟨tag, -, h⟩ := exists_of_bind_eq_ok h <;> cases h <;> rfl
  exact ⟨by omega, by omega⟩

theorem parse_boolean_progress : Progress (parse_boolean : Bytes → Parse (Parsed F)) := by
  intro b k v h
  match b with
  | [] | [_] | [_, _] | [_, _, _] => cases h
  | _ :: _ :: _ :: _ :: _ =>
    have hk : k = 4 := by
      simp only [parse_boolean] at h
      split_ifs at h <;> cases h <;> rfl
    simp only [length_cons]
    omega

theorem parse_inline_progress : Progress (parse_inline : Bytes → Parse (Parsed F)) := by
  intro b k v h
  obtain ⟨⟨e, k'⟩, hl, h⟩ := exists_of_bind_eq_ok h
  obtain ⟨line, -, h⟩ := exists_of_bind_eq_ok h
  obtain ⟨s, -, h⟩ := exists_of_bind_eq_ok h
  cases h
  rw [read_line_eq] at hl
  cases hw : find_window b with
  | none =>
    rw [hw] at hl
    cases hl
  | some i =>
    rw [hw] at hl
    cases hl
    exact ⟨by omega, (find_window_spec hw).1⟩

theorem parse_items_bounds (hp : Progress p) {buf : Bytes}
    {count offset offset' : ℕ} {items items' : List (RespValue F)} (hle : offset ≤ buf.length)
    (h : parse_items p buf count offset items = .ok (offset', items')) :
    offset ≤ offset' ∧ offset' ≤ buf.length := by
  induction count generalizing offset items with
  | zero =>
    cases h
    exact ⟨le_refl _, hle⟩
  | succ count ih =>
    rw [parse_items] at h
    split at h
    · cases h
    · obtain ⟨⟨consumed, value⟩, hv, h⟩ := exists_of_bind_eq_ok h
      obtain ⟨-, hc⟩ := hp _ _ _ hv
      rw [length_drop] at hc
      have hb := ih (by omega) h
      omega

theorem parse_entries_bounds (hp : Progress p) {buf : Bytes}
    {count offset offset' : ℕ} {entries entries' : List (RespValue F × RespValue F)}
    (hle : offset ≤ buf.length)
    (h : parse_entries p buf count offset entries = .ok (offset', entries')) :
    offset ≤ offset' ∧ offset' ≤ buf.length := by
  induction count generalizing offset entries with
  | zero =>
    cases h
    exact ⟨le_refl _, hle⟩
  | succ count ih =>
    rw [parse_entries] at h
    split at h
    · cases h
    · obtain ⟨⟨consumed, key⟩, hk, h⟩ := exists_of_bind_eq_ok h
      obtain ⟨-, hc⟩ := hp _ _ _ hk
      rw [length_drop] at hc
      dsimp only at h
      split at h
      · cases h
      · obtain ⟨⟨consumed', val⟩, hv, h⟩ := exists_of_bind_eq_ok h
        obtain ⟨-, hc'⟩ := hp _ _ _ hv
        rw [length_drop] at hc'
        have hb := ih (by omega) h
        omega

theorem parse_array_progress {p : Bytes → Parse (Parsed F)} (hp : Progress p)
    (h : parse_array M p (c :: rest) = .ok (k, v)) : 0 < k ∧ k ≤ (c :: rest).length := by
  obtain ⟨⟨s, k'⟩, hh, h⟩ := exists_of_bind_eq_ok h
  obtain ⟨count, -, h⟩ := exists_of_bind_eq_ok h
  have hb := header_bounds hh
  split at h
  · cases h
    exact ⟨by omega, hb.2⟩
  · obtain ⟨-, -, h⟩ := exists_of_bind_eq_ok h
    obtain ⟨⟨offset, items⟩, hi, h⟩ := exists_of_bind_eq_ok h
    have hi' := parse_items_bounds hp hb.2 hi
    cases h
    exact ⟨by omega, hi'.2⟩

theorem parse_map_progress {p : Bytes → Parse (Parsed F)} (hp : Progress p)
    (h : parse_map M p (c :: rest) = .ok (k, v)) : 0 < k ∧ k ≤ (c :: rest).length := by
  obtain ⟨⟨s, k'⟩, hh, h⟩ := exists_of_bind_eq_ok h
  obtain ⟨count, -, h⟩ := exists_of_bind_eq_ok h
  obtain ⟨-, -, h⟩ := exists_of_bind_eq_ok h
  obtain ⟨⟨offset, entries⟩, he, h⟩ := exists_of_bind_eq_ok h
  have hb := header_bounds hh
  have he' := parse_entries_bounds hp hb.2 he
  cases h
  exact ⟨by omega, he'.2⟩

theorem parse_prefixed_progress [FloatText F] {p : Bytes → Parse (Parsed F)} (hp : Progress p)
    (h : parse_prefixed M p c (c :: rest) = .ok (k, v)) : 0 < k ∧ k ≤ (c :: rest).length := by
  unfold parse_prefixed at h
  split at h
  · exact parse_line_progress h
  · exact parse_line_progress h
  · exact parse_line_progress h
  · exact parse_bulk_string_progress h
  · exact parse_array_progress hp h
  · exact parse_map_progress hp h
  · exact parse_line_progress h
  · exact parse_boolean_progress _ _ _ h
  · exact parse_line_progress h
  · exact parse_blob_error_progress h
  · exact parse_verbatim_progress h
  · exact parse_inline_progress _ _ _ h

theorem parse_levels_progress [FloatText F] (M : Mach) (n : ℕ) :
    Progress (parse_levels M n : Bytes → Parse (Parsed F)) := by
  induction n with
  | zero =>
    intro b k v h
    cases h
  | succ n ih =>
    intro b k v h
    cases b with
    | nil => cases h
    | cons c rest => exact parse_prefixed_progress ih h

/-! ## The decoder -/

section Decoder

variable [FloatText F] (M : Mach) (depth : ℕ)

theorem parse_value_stable : Stable (fun buf => (parse_value M buf depth : Parse (Parsed F))) :=
  parse_levels_stable M _

theorem parse_value_progress :
    Progress (fun buf => (parse_value M buf depth : Parse (Parsed F))) :=
  parse_levels_progress M _

theorem parse_value_append {M : Mach} {depth : ℕ} {buf : Bytes} (r : Bytes)
    (h : (parse_value M buf depth : Parse (Parsed F)) ≠ .error .incomplete) :
    (parse_value M (buf ++ r) depth : Parse (Parsed F)) = parse_value M buf depth :=
  parse_value_stable M depth buf r h

theorem feedAll_decode (self : RespDecoder) (chunks : List Bytes) :
    feedAll (RespDecoder.decode M) (Driver.start self : Driver UInt8 Fault (RespValue F) _) chunks
      = feed (RespDecoder.decode M) (Driver.start self) chunks.flatten := by
  rw [decode_eq_ofParser]
  exact feedAll_flatten (parse_value_stable M 0) (parse_value_progress M 0) rfl rfl chunks

/-- A decoder that has read a chunk and not failed is waiting: another call on what is left
changes nothing and asks for more. -/
theorem decode_waiting (self : RespDecoder) (chunk : Bytes) :
    let d := feed (RespDecoder.decode M) (Driver.start self : Driver UInt8 Fault (RespValue F) _) chunk
    d.failed = none → RespDecoder.decode M d.st d.buf = (.ok (none : Option (RespValue F)), d.st, d.buf) := by
  intro d hf
  have hd : d = feed (ofParser (fun src => (parse_value M src 0 : Parse (Parsed F)))
      RespDecoder.note)
      (Driver.start self) chunk := by
    rw [← decode_eq_ofParser]
  have hprog : Progress (fun src => (parse_value M src 0 : Parse (Parsed F))) :=
    parse_value_progress M 0
  rcases feed_settled hprog (Driver.start self) chunk with h | h
  · rw [hd] at hf
    exact absurd hf h
  · rw [← hd] at h
    rw [decode_eq_ofParser, ofParser, h]

end Decoder

/-- **Chunk independence.** Two ways of cutting a stream leave the decoder in the same
state: the same values decoded, the same number of bytes taken for them, the same error if
there was one, and if there was none, a decoder that waits for more. The second and third
part say the same of the parser itself: a value or an error is final, and a value uses at
least one byte of the buffer it was read from. -/
theorem decode_chunk_independent [FloatText F] (M : Mach) :
    (∀ (self : RespDecoder) (chunks chunks' : List Bytes), chunks.flatten = chunks'.flatten →
      let d : Driver UInt8 Fault (RespValue F) _ :=
        feedAll (RespDecoder.decode M) (Driver.start self) chunks
      feedAll (RespDecoder.decode M) (Driver.start self) chunks' = d ∧
        (d.failed = none → RespDecoder.decode M d.st d.buf
          = (.ok (none : Option (RespValue F)), d.st, d.buf))) ∧
    (∀ (buf r : Bytes) (consumed : ℕ) (value : RespValue F),
      parse_value M buf 0 = .ok (consumed, value) →
        parse_value M (buf ++ r) 0 = .ok (consumed, value) ∧
          0 < consumed ∧ consumed ≤ buf.length) ∧
    (∀ (buf r : Bytes) (e : Fault), (parse_value M buf 0 : Parse (Parsed F)) = .error (.fail e) →
      (parse_value M (buf ++ r) 0 : Parse (Parsed F)) = .error (.fail e)) := by
  refine ⟨?_, ?_, ?_⟩
  · intro self chunks chunks' hcat
    rw [feedAll_decode, feedAll_decode, hcat]
    exact ⟨rfl, decode_waiting M self _⟩
  · intro buf r consumed value h
    refine ⟨?_, parse_value_progress M 0 _ _ _ h⟩
    rw [parse_value_append r (by rw [h]; exact nofun), h]
  · intro buf r e h
    rw [parse_value_append r (by rw [h]; exact nofun), h]

/-- `+OK\r\n`, cut in the middle of its line end and after its first byte. -/
theorem decode_chunk_independent_simple_string :
    [[43, 79, 75, 13], [10]].flatten = [[43], [79, 75, 13, 10]].flatten ∧
      feedAll (RespDecoder.decode Mach.unbounded)
          (Driver.start .new : Driver UInt8 Fault (RespValue Infinity) _) [[43], [79, 75, 13, 10]]
        = feedAll (RespDecoder.decode Mach.unbounded) (Driver.start .new)
          [[43, 79, 75, 13], [10]] := by
  refine ⟨rfl, ?_⟩
  exact ((decode_chunk_independent Mach.unbounded).1 .new _ _ rfl).1

end ValkeyRs.Resp
