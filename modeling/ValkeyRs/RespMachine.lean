/-
The RESP parser on a real machine.

A client declares lengths and counts before it has sent anything, and the parser uses them at once:
it adds a declared length to an offset and allocates for a declared count. This module says exactly
when that goes well. `demand` is what a header asks of the machine, a sum that must fit or a number
of bytes that must be allocated, and `Reached` the places of a buffer at which the parser meets a
header. The result is that the parser runs as it would on an ideal machine if every demand it meets
can be served, and panics if one cannot (`parse_levels_runs`).
-/
import ValkeyRs.RespRoundTrip

set_option autoImplicit false

open ValkeyRs Text Incremental

namespace ValkeyRs.Resp

variable {F : Type} {α β : Type}

/-! ## Refused computations -/

/-- The two panics the machine can cause. -/
inductive Refused : Parse α → Prop where
  | overflow : Refused (.error (.fail (.Panic .Overflow)))
  | alloc : Refused (.error (.fail (.Panic .Alloc)))

theorem Refused.bind {x : Parse α} (h : Refused x) (f : α → Parse β) : Refused (x >>= f) := by
  cases h with
  | overflow => exact .overflow
  | alloc => exact .alloc

/-- `x` runs as `y` does under the condition `c`, and is refused otherwise. -/
def Runs (c : Prop) (x y : Parse α) : Prop :=
  (c → x = y) ∧ (¬ c → Refused x)

theorem Runs.same {c : Prop} (hc : c) (x : Parse α) : Runs c x x :=
  ⟨fun _ => rfl, fun h => absurd hc h⟩

theorem Runs.congr {c c' : Prop} {x y : Parse α} (h : Runs c x y) (hc : c' ↔ c) : Runs c' x y := by
  rw [Runs, hc]
  exact h

theorem Runs.bind {c : Prop} {d : α → Prop} {x y : Parse α} {f g : α → Parse β} (h : Runs c x y)
    (hf : ∀ a, y = .ok a → Runs (d a) (f a) (g a)) :
    Runs (c ∧ ∀ a, y = .ok a → d a) (x >>= f) (y >>= g) := by
  refine ⟨?_, fun hn => ?_⟩
  · rintro ⟨hc, hd⟩
    rw [h.1 hc]
    cases hy : y with
    | error e => rfl
    | ok a => exact (hf a hy).1 (hd a hy)
  · by_cases hc : c
    · rw [h.1 hc]
      obtain ⟨a, ha⟩ := not_forall.mp (fun hd => hn ⟨hc, hd⟩)
      obtain ⟨hy, hd⟩ := Classical.not_imp.mp ha
      rw [hy]
      exact (hf a hy).2 hd
    · exact (h.2 hc).bind f

theorem Runs.map {c : Prop} {x y : Parse α} (h : Runs c x y) (f : α → Parse β) :
    Runs c (x >>= f) (y >>= f) :=
  (h.bind (fun a _ => .same trivial (f a))).congr (by simp)

theorem Runs.guard {c t : Prop} [Decidable t] {x y : Parse α} (h : ¬ t → Runs c x y) :
    Runs (¬ t → c) (if t then .error .incomplete else x) (if t then .error .incomplete else y) := by
  by_cases ht : t
  · rw [if_pos ht, if_pos ht]
    exact .same (fun hn => absurd ht hn) _
  · rw [if_neg ht, if_neg ht]
    exact (h ht).congr (by simp [ht])

/-! ## Demands -/

/-- The same code on a machine that serves every sum and every allocation. -/
def Mach.ideal (M : Mach) : Mach := { M with add_bits := none, max_alloc := none }

/-- What is asked of the machine: that a sum fits, or that so many bytes are allocated. -/
inductive Demand where
  | extent (n : ℕ)
  | alloc (bytes : ℕ)
  deriving Repr, DecidableEq

def Demand.Served (M : Mach) : Demand → Prop
  | .extent n => fits (unsigned_max M.add_bits) n = true
  | .alloc bytes => fits M.max_alloc bytes = true

/-- The demand of a header of the given kind whose line is `s` and ends before `n`. -/
def line_demand (M : Mach) (tag : UInt8) (s : String) (n : ℕ) : Option Demand :=
  match tag with
  | 36 | 33 =>
    match parse_int M.len_bits s with
    | .ok len => if len < 0 then none else some (.extent (n + len.toNat + 2))
    | .error _ => none
  | 61 =>
    match parse_nat M.len_bits s with
    | .ok len => some (.extent (n + len + 2))
    | .error _ => none
  | 42 =>
    match parse_int M.len_bits s with
    | .ok count => if count < 0 then none else some (.alloc (M.value_size * count.toNat))
    | .error _ => none
  | 37 =>
    match parse_nat M.len_bits s with
    | .ok count => some (.alloc (2 * M.value_size * count))
    | .error _ => none
  | _ => none

/-- What the header at the start of a buffer asks for, if there is one. -/
def demand (M : Mach) : Bytes → Option Demand
  | [] => none
  | tag :: rest =>
    match header (tag :: rest) with
    | .ok (s, n) => line_demand M tag s n
    | .error _ => none

/-- The machine can do what the header of `b` asks for. -/
def HeaderServed (M : Mach) (b : Bytes) : Prop := ∀ d, demand M b = some d → d.Served M

variable (M : Mach)

theorem payload_runs (buf : Bytes) (n len : ℕ) :
    Runs (Demand.Served M (.extent (n + len + 2))) (payload M buf n len)
      (payload M.ideal buf n len) := by
  have hideal : fits (unsigned_max M.ideal.add_bits) (n + len + 2) = true := rfl
  rw [Runs, Demand.Served]
  refine ⟨fun h => ?_, fun h => ?_⟩
  · rw [payload_eq, payload_eq, if_pos h, if_pos hideal]
  · rw [payload_eq, if_neg h]
    exact .overflow

theorem with_capacity_runs (bytes : ℕ) :
    Runs (Demand.Served M (.alloc bytes)) (with_capacity M bytes) (with_capacity M.ideal bytes) := by
  have hideal : fits M.ideal.max_alloc bytes = true := rfl
  rw [Runs, Demand.Served]
  refine ⟨fun h => ?_, fun h => ?_⟩
  · rw [with_capacity, with_capacity, if_pos h, if_pos hideal]
  · rw [with_capacity, if_neg h]
    exact .alloc

/-! ## Parsers of one header

A header that cannot be read asks for nothing, and neither does a negative length. -/

theorem header_served_cons {M : Mach} {tag : UInt8} {rest : Bytes} {s : String} {n : ℕ}
    (h : header (tag :: rest) = .ok (s, n)) :
    HeaderServed M (tag :: rest) ↔ ∀ d, line_demand M tag s n = some d → d.Served M := by
  rw [HeaderServed, demand, h]

theorem header_served_of_error {M : Mach} {tag : UInt8} {rest : Bytes} {e : Stop Fault}
    (h : header (tag :: rest) = .error e) : HeaderServed M (tag :: rest) := by
  intro d hd
  rw [demand, h] at hd
  cases hd

theorem parse_bulk_string_runs (rest : Bytes) :
    Runs (HeaderServed M (36 :: rest)) (parse_bulk_string M (36 :: rest) : Parse (Parsed F))
      (parse_bulk_string M.ideal (36 :: rest)) := by
  rw [parse_bulk_string, parse_bulk_string]
  cases hh : header (36 :: rest) with
  | error e => exact .same (header_served_of_error hh) _
  | ok a =>
    obtain ⟨s, n⟩ := a
    simp only [ok_bind, header_served_cons hh, line_demand, Mach.ideal]
    cases hl : parse_int M.len_bits s with
    | error e => exact .same (by simp) _
    | ok len =>
      simp only [lift_err_ok, ok_bind]
      by_cases hneg : len < 0
      · simp only [if_pos hneg]
        exact .same (by simp) _
      · simp only [if_neg hneg, Option.some.injEq, forall_eq']
        exact (payload_runs M _ n len.toNat).map _

theorem parse_blob_error_runs (rest : Bytes) :
    Runs (HeaderServed M (33 :: rest)) (parse_blob_error M (33 :: rest) : Parse (Parsed F))
      (parse_blob_error M.ideal (33 :: rest)) := by
  rw [parse_blob_error, parse_blob_error]
  cases hh : header (33 :: rest) with
  | error e => exact .same (header_served_of_error hh) _
  | ok a =>
    obtain ⟨s, n⟩ := a
    simp only [ok_bind, header_served_cons hh, line_demand, Mach.ideal]
    cases hl : parse_int M.len_bits s with
    | error e => exact .same (by simp) _
    | ok len =>
      simp only [lift_err_ok, ok_bind]
      by_cases hneg : len < 0
      · simp only [if_pos hneg]
        exact .same (by simp) _
      · simp only [if_neg hneg, Option.some.injEq, forall_eq']
        exact (payload_runs M _ n len.toNat).map _

theorem parse_verbatim_runs (rest : Bytes) :
    Runs (HeaderServed M (61 :: rest)) (parse_verbatim M (61 :: rest) : Parse (Parsed F))
      (parse_verbatim M.ideal (61 :: rest)) := by
  rw [parse_verbatim, parse_verbatim]
  cases hh : header (61 :: rest) with
  | error e => exact .same (header_served_of_error hh) _
  | ok a =>
    obtain ⟨s, n⟩ := a
    simp only [ok_bind, header_served_cons hh, line_demand, Mach.ideal]
    cases hl : parse_nat M.len_bits s with
    | error e => exact .same (by simp) _
    | ok len =>
      simp only [lift_err_ok, ok_bind, Option.some.injEq, forall_eq']
      exact (payload_runs M _ n len).map _

/-! ## Aggregates -/

/-- The places at which the loop of `parse_array` looks for an item: `count` of them from
`offset` on, as far as the items before are complete. -/
inductive ItemAt (p : Bytes → Parse (Parsed F)) (buf : Bytes) : ℕ → ℕ → Bytes → Prop where
  | here {count offset : ℕ} (hlt : ¬ buf.length ≤ offset) :
      ItemAt p buf (count + 1) offset (buf.drop offset)
  | next {count offset consumed : ℕ} {v : RespValue F} {b : Bytes} (hlt : ¬ buf.length ≤ offset)
      (hp : p (buf.drop offset) = .ok (consumed, v)) (h : ItemAt p buf count (offset + consumed) b) :
      ItemAt p buf (count + 1) offset b

/-- The places at which the loop of `parse_map` looks for a key or a value. -/
inductive EntryAt (p : Bytes → Parse (Parsed F)) (buf : Bytes) : ℕ → ℕ → Bytes → Prop where
  | key {count offset : ℕ} (hlt : ¬ buf.length ≤ offset) :
      EntryAt p buf (count + 1) offset (buf.drop offset)
  | value {count offset consumed : ℕ} {k : RespValue F} (hlt : ¬ buf.length ≤ offset)
      (hp : p (buf.drop offset) = .ok (consumed, k)) (hlt' : ¬ buf.length ≤ offset + consumed) :
      EntryAt p buf (count + 1) offset (buf.drop (offset + consumed))
  | next {count offset consumed consumed' : ℕ} {k v : RespValue F} {b : Bytes}
      (hlt : ¬ buf.length ≤ offset) (hp : p (buf.drop offset) = .ok (consumed, k))
      (hlt' : ¬ buf.length ≤ offset + consumed)
      (hp' : p (buf.drop (offset + consumed)) = .ok (consumed', v))
      (h : EntryAt p buf count (offset + consumed + consumed') b) :
      EntryAt p buf (count + 1) offset b

/-- The places at which the elements of the aggregate in `buf` are looked for. -/
inductive ChildAt (M : Mach) (p : Bytes → Parse (Parsed F)) : Bytes → Bytes → Prop where
  | item {rest b : Bytes} {s : String} {n : ℕ} {count : ℤ} (hh : header (42 :: rest) = .ok (s, n))
      (hc : parse_int M.len_bits s = .ok count) (hpos : ¬ count < 0)
      (h : ItemAt p (42 :: rest) count.toNat n b) : ChildAt M p (42 :: rest) b
  | entry {rest b : Bytes} {s : String} {n count : ℕ} (hh : header (37 :: rest) = .ok (s, n))
      (hc : parse_nat M.len_bits s = .ok count) (h : EntryAt p (37 :: rest) count n b) :
      ChildAt M p (37 :: rest) b

section Loops

variable {p q : Bytes → Parse (Parsed F)} {ok : Bytes → Prop}
  (hpq : ∀ b, Runs (ok b) (p b) (q b)) (buf : Bytes)

include hpq

theorem parse_items_runs (count offset : ℕ) (items : List (RespValue F)) :
    Runs (∀ b, ItemAt q buf count offset b → ok b) (parse_items p buf count offset items)
      (parse_items q buf count offset items) := by
  induction count generalizing offset items with
  | zero => exact .same (fun b hb => by cases hb) _
  | succ count ih =>
    have hstep := Runs.guard (t := buf.length ≤ offset) fun _ =>
      (hpq (buf.drop offset)).bind fun a _ => ih (offset + a.1) (items ++ [a.2])
    refine hstep.congr ⟨fun h hlt => ⟨h _ (.here hlt), ?_⟩, fun h b hb => ?_⟩
    · rintro ⟨consumed, v⟩ hp b hb
      exact h b (.next hlt hp hb)
    · cases hb with
      | here hlt => exact (h hlt).1
      | next hlt hp hb => exact (h hlt).2 _ hp b hb

theorem parse_entries_runs (count offset : ℕ) (entries : List (RespValue F × RespValue F)) :
    Runs (∀ b, EntryAt q buf count offset b → ok b) (parse_entries p buf count offset entries)
      (parse_entries q buf count offset entries) := by
  induction count generalizing offset entries with
  | zero => exact .same (fun b hb => by cases hb) _
  | succ count ih =>
    have hstep := Runs.guard (t := buf.length ≤ offset) fun _ =>
      (hpq (buf.drop offset)).bind fun k _ =>
        .guard (t := buf.length ≤ offset + k.1) fun _ =>
          (hpq (buf.drop (offset + k.1))).bind fun v _ =>
            ih (offset + k.1 + v.1) (entries ++ [(k.2, v.2)])
    refine hstep.congr ⟨fun h hlt => ⟨h _ (.key hlt), ?_⟩, fun h b hb => ?_⟩
    · rintro ⟨consumed, k⟩ hp hlt'
      refine ⟨h _ (.value hlt hp hlt'), ?_⟩
      rintro ⟨consumed', v⟩ hp' b hb
      exact h b (.next hlt hp hlt' hp' hb)
    · cases hb with
      | key hlt => exact (h hlt).1
      | value hlt hp hlt' => exact ((h hlt).2 _ hp hlt').1
      | next hlt hp hlt' hp' hb => exact ((h hlt).2 _ hp hlt').2 _ hp' b hb

omit buf in
theorem parse_array_runs (M : Mach) (rest : Bytes) :
    Runs (HeaderServed M (42 :: rest) ∧ ∀ b, ChildAt M q (42 :: rest) b → ok b)
      (parse_array M p (42 :: rest)) (parse_array M.ideal q (42 :: rest)) := by
  rw [parse_array, parse_array]
  cases hh : header (42 :: rest) with
  | error e =>
    refine .same ⟨header_served_of_error hh, fun b hb => ?_⟩ _
    cases hb
    simp_all
  | ok a =>
    obtain ⟨s, n⟩ := a
    simp only [ok_bind, header_served_cons hh, line_demand]
    cases hl : parse_int M.len_bits s with
    | error e =>
      have hnone : ∀ b, ChildAt M q (42 :: rest) b → ok b := by
        intro b hb
        cases hb
        simp_all
      simp only [Mach.ideal, hl]
      exact .same ⟨by simp, hnone⟩ _
    | ok count =>
      -- in this branch the children are the items, and nothing else
      have hchild : ∀ b, ChildAt M q (42 :: rest) b ↔
          ¬ count < 0 ∧ ItemAt q (42 :: rest) count.toNat n b := by
        intro b
        refine ⟨fun hb => ?_, fun hb => .item hh hl hb.1 hb.2⟩
        cases hb with
        | item hh' hc hpos hb =>
          rw [hh] at hh'; cases hh'; rw [hl] at hc; cases hc
          exact ⟨hpos, hb⟩
      have hideal : parse_int M.ideal.len_bits s = .ok count := hl
      simp only [hideal, lift_err_ok, ok_bind, hchild]
      by_cases hneg : count < 0
      · simp only [if_pos hneg]
        exact .same (by simp [hneg]) _
      · simp only [hneg, not_false_eq_true, true_and]
        refine ((with_capacity_runs M _).bind fun u _ =>
          (parse_items_runs hpq (42 :: rest) count.toNat n []).map _).congr ?_
        simp [with_capacity, Mach.ideal, fits]

omit buf in
theorem parse_map_runs (M : Mach) (rest : Bytes) :
    Runs (HeaderServed M (37 :: rest) ∧ ∀ b, ChildAt M q (37 :: rest) b → ok b)
      (parse_map M p (37 :: rest)) (parse_map M.ideal q (37 :: rest)) := by
  rw [parse_map, parse_map]
  cases hh : header (37 :: rest) with
  | error e =>
    refine .same ⟨header_served_of_error hh, fun b hb => ?_⟩ _
    cases hb
    simp_all
  | ok a =>
    obtain ⟨s, n⟩ := a
    simp only [ok_bind, header_served_cons hh, line_demand]
    cases hl : parse_nat M.len_bits s with
    | error e =>
      have hnone : ∀ b, ChildAt M q (37 :: rest) b → ok b := by
        intro b hb
        cases hb
        simp_all
      simp only [Mach.ideal, hl]
      exact .same ⟨by simp, hnone⟩ _
    | ok count =>
      have hchild : ∀ b, ChildAt M q (37 :: rest) b ↔ EntryAt q (37 :: rest) count n b := by
        intro b
        refine ⟨fun hb => ?_, fun hb => .entry hh hl hb⟩
        cases hb with
        | entry hh' hc hb =>
          rw [hh] at hh'; cases hh'; rw [hl] at hc; cases hc
          exact hb
      have hideal : parse_nat M.ideal.len_bits s = .ok count := hl
      simp only [hideal, lift_err_ok, ok_bind, hchild, Option.some.injEq, forall_eq']
      refine ((with_capacity_runs M _).bind fun u _ =>
        (parse_entries_runs hpq (37 :: rest) count n []).map _).congr ?_
      simp [with_capacity, Mach.ideal, fits]

omit buf in
theorem parse_prefixed_runs [FloatText F] (M : Mach) (tag : UInt8) (rest : Bytes) :
    Runs (HeaderServed M (tag :: rest) ∧ ∀ b, ChildAt M q (tag :: rest) b → ok b)
      (parse_prefixed M p tag (tag :: rest)) (parse_prefixed M.ideal q tag (tag :: rest)) := by
  have hleaf : tag ≠ 42 → tag ≠ 37 → ∀ b, ChildAt M q (tag :: rest) b → ok b := by
    intro ha hm b hb
    cases hb with
    | item => exact absurd rfl ha
    | entry => exact absurd rfl hm
  -- a tag other than the five that declare something asks for nothing and has no elements
  have hquiet : (∀ s n, line_demand M tag s n = none) → tag ≠ 42 → tag ≠ 37 →
      HeaderServed M (tag :: rest) ∧ ∀ b, ChildAt M q (tag :: rest) b → ok b := by
    intro hd ha hm
    refine ⟨?_, hleaf ha hm⟩
    cases hh : header (tag :: rest) with
    | error e => exact header_served_of_error hh
    | ok a => rw [header_served_cons hh, hd]; exact nofun
  unfold parse_prefixed
  split
  case h_4 =>
    exact (parse_bulk_string_runs M rest).congr (and_iff_left (hleaf (by decide) (by decide)))
  case h_5 => exact parse_array_runs hpq M rest
  case h_6 => exact parse_map_runs hpq M rest
  case h_10 =>
    exact (parse_blob_error_runs M rest).congr (and_iff_left (hleaf (by decide) (by decide)))
  case h_11 =>
    exact (parse_verbatim_runs M rest).congr (and_iff_left (hleaf (by decide) (by decide)))
  case h_12 =>
    refine .same (hquiet (fun s n => ?_) (by assumption) (by assumption)) _
    unfold line_demand
    split <;> first | contradiction | rfl
  all_goals exact .same (hquiet (fun _ _ => rfl) (by decide) (by decide)) _

end Loops

/-! ## The whole buffer -/

/-- `Reached F M n buf b`: parsing `buf` with `n` levels left comes to a value that starts
where `b` does. Where the elements of an aggregate start is decided by the ideal machine. -/
inductive Reached (F : Type) [FloatText F] (M : Mach) : ℕ → Bytes → Bytes → Prop where
  | here {n : ℕ} {buf : Bytes} : Reached F M (n + 1) buf buf
  | child {n : ℕ} {buf b b' : Bytes}
      (h : ChildAt M (parse_levels M.ideal n : Bytes → Parse (Parsed F)) buf b)
      (h' : Reached F M n b b') : Reached F M (n + 1) buf b'

/-- The parser runs as on the ideal machine if every header it reaches is served, and is
refused otherwise. -/
theorem parse_levels_runs [FloatText F] (M : Mach) (n : ℕ) (buf : Bytes) :
    Runs (∀ b, Reached F M n buf b → HeaderServed M b) (parse_levels M n buf : Parse (Parsed F))
      (parse_levels M.ideal n buf) := by
  induction n generalizing buf with
  | zero => exact .same (fun b hb => by cases hb) _
  | succ n ih =>
    cases buf with
    | nil =>
      refine .same (fun b hb => ?_) _
      cases hb with
      | here => exact nofun
      | child h => cases h
    | cons tag rest =>
      refine (parse_prefixed_runs ih M tag rest).congr ⟨fun h => ⟨h _ .here, ?_⟩, fun h b hb => ?_⟩
      · exact fun b hb b' hb' => h b' (.child hb hb')
      · cases hb with
        | here => exact h.1
        | child hc hb => exact h.2 _ hc _ hb

/-! ## The ideal machine never panics -/

/-- Anything but a panic. -/
def Calm (x : Parse α) : Prop := ∀ p, x ≠ .error (.fail (.Panic p))

theorem Calm.ok (a : α) : Calm (.ok a) := fun _ => nofun

theorem Calm.incomplete : Calm (.error .incomplete : Parse α) := fun _ => nofun

theorem Calm.bind {x : Parse α} {f : α → Parse β} (hx : Calm x) (hf : ∀ a, Calm (f a)) :
    Calm (x >>= f) := by
  cases x with
  | error e => exact fun p h => hx p (by cases h; rfl)
  | ok a => exact hf a

theorem Calm.lift_err {ε : Type} (f : ε → RespError) (x : Except ε α) : Calm (lift_err f x) := by
  cases x with
  | error e => exact fun _ => nofun
  | ok a => exact .ok a

theorem header_calm (c : UInt8) (rest : Bytes) : Calm (header (c :: rest)) := by
  rw [header_cons]
  cases find_window rest with
  | none => exact .incomplete
  | some i => exact (Calm.lift_err _ _).bind fun s => Calm.ok _

theorem payload_calm (buf : Bytes) (n len : ℕ) : Calm (payload M.ideal buf n len) := by
  have hideal : fits (unsigned_max M.ideal.add_bits) (n + len + 2) = true := rfl
  rw [payload_eq, if_pos hideal]
  split
  · exact .incomplete
  · exact .ok _

theorem parse_line_calm {value : String → Parse (RespValue F)} (h : ∀ s, Calm (value s)) (c : UInt8)
    (rest : Bytes) : Calm (parse_line value (c :: rest)) :=
  (header_calm c rest).bind fun a => (h a.1).bind fun _ => .ok _

theorem parse_items_calm {p : Bytes → Parse (Parsed F)} (hp : ∀ b, Calm (p b)) (buf : Bytes)
    (count offset : ℕ) (items : List (RespValue F)) :
    Calm (parse_items p buf count offset items) := by
  induction count generalizing offset items with
  | zero => exact .ok _
  | succ count ih =>
    rw [parse_items]
    split
    · exact .incomplete
    · exact (hp _).bind fun a => ih _ _

theorem parse_entries_calm {p : Bytes → Parse (Parsed F)} (hp : ∀ b, Calm (p b)) (buf : Bytes)
    (count offset : ℕ) (entries : List (RespValue F × RespValue F)) :
    Calm (parse_entries p buf count offset entries) := by
  induction count generalizing offset entries with
  | zero => exact .ok _
  | succ count ih =>
    rw [parse_entries]
    split
    · exact .incomplete
    · refine (hp _).bind fun k => ?_
      dsimp only
      split
      · exact .incomplete
      · exact (hp _).bind fun v => ih _ _

theorem parse_inline_calm (buf : Bytes) : Calm (parse_inline buf : Parse (Parsed F)) := by
  rw [parse_inline, read_line_eq]
  cases h : find_window buf with
  | none => exact .incomplete
  | some i =>
    have hlt := (find_window_spec h).1
    have hslice : slice buf 0 i = .ok (buf.take i) := by
      rw [slice, if_pos ⟨by omega, by omega⟩]
      simp
    simp only [ok_bind, hslice]
    exact (Calm.lift_err _ _).bind fun s => Calm.ok _

theorem parse_boolean_calm (buf : Bytes) : Calm (parse_boolean buf : Parse (Parsed F)) := by
  obtain _ | ⟨_, _ | ⟨_, _ | ⟨_, _ | _⟩⟩⟩ := buf
  · exact .incomplete
  · exact .incomplete
  · exact .incomplete
  · exact .incomplete
  · rw [parse_boolean]
    split_ifs <;> exact fun _ h => by cases h

theorem parse_prefixed_calm [FloatText F] (M : Mach) {p : Bytes → Parse (Parsed F)}
    (hp : ∀ b, Calm (p b)) (tag : UInt8) (rest : Bytes) :
    Calm (parse_prefixed M.ideal p tag (tag :: rest)) := by
  unfold parse_prefixed
  split
  · exact parse_line_calm (fun s => .ok _) _ _
  · exact parse_line_calm (fun s => .ok _) _ _
  · exact parse_line_calm (fun s => (Calm.lift_err _ _).bind fun n => Calm.ok _) _ _
  · refine (header_calm _ _).bind fun a => (Calm.lift_err _ _).bind fun len => ?_
    split
    · exact Calm.ok _
    · exact (payload_calm M _ _ _).bind fun d => Calm.ok _
  · refine (header_calm _ _).bind fun a => (Calm.lift_err _ _).bind fun count => ?_
    split
    · exact Calm.ok _
    · exact (Calm.ok ()).bind fun _ => (parse_items_calm hp _ _ _ _).bind fun i => Calm.ok _
  · refine (header_calm _ _).bind fun a => (Calm.lift_err _ _).bind fun count => ?_
    exact (Calm.ok ()).bind fun _ => (parse_entries_calm hp _ _ _ _).bind fun e => Calm.ok _
  · refine parse_line_calm (fun s => ?_) _ _
    split_ifs
    · exact .ok _
    · exact .ok _
    · exact (Calm.lift_err _ _).bind fun d => Calm.ok _
  · exact parse_boolean_calm _
  · exact parse_line_calm (fun s => (Calm.lift_err _ _).bind fun n => Calm.ok _) _ _
  · refine (header_calm _ _).bind fun a => (Calm.lift_err _ _).bind fun len => ?_
    split
    · exact fun _ => nofun
    · refine (payload_calm M _ _ _).bind fun d => ?_
      dsimp only
      split <;> exact Calm.ok _
  · refine (header_calm _ _).bind fun a => (Calm.lift_err _ _).bind fun len => ?_
    refine (payload_calm M _ _ _).bind fun d => ?_
    dsimp only
    split <;> exact (Calm.lift_err _ _).bind fun t => Calm.ok _
  · exact parse_inline_calm _

theorem parse_levels_calm [FloatText F] (M : Mach) (n : ℕ) (buf : Bytes) :
    Calm (parse_levels M.ideal n buf : Parse (Parsed F)) := by
  induction n generalizing buf with
  | zero => exact fun _ => nofun
  | succ n ih =>
    cases buf with
    | nil => exact .incomplete
    | cons tag rest => exact parse_prefixed_calm M ih tag rest

/-! ## Main results -/

/-- **When the parser panics.** On the 64-bit machine, with allocations of up to `K` times
the length of the buffer served, the parser returns a value, an error or `Incomplete` if
and only if every header it reaches is served: the declared lengths add up below `2 ^ 64`
and the declared counts stay within the allocation limit. -/
theorem parse_value_calm_iff [FloatText F] (value_size K : ℕ) (buf : Bytes) :
    Calm (parse_value (Mach.bits64 value_size (K * buf.length)) buf 0 : Parse (Parsed F)) ↔
      ∀ b, Reached F (Mach.bits64 value_size (K * buf.length)) (MAX_DEPTH + 1) buf b →
        HeaderServed (Mach.bits64 value_size (K * buf.length)) b := by
  have hruns := parse_levels_runs (F := F) (Mach.bits64 value_size (K * buf.length))
    (MAX_DEPTH + 1) buf
  refine ⟨fun hcalm => ?_, fun h => ?_⟩
  · by_contra hn
    have hrefused := hruns.2 hn
    rw [parse_value, Nat.sub_zero] at hcalm
    generalize hx : (parse_levels _ _ buf : Parse (Parsed F)) = x at hcalm hrefused
    cases hrefused with
    | overflow => exact hcalm _ rfl
    | alloc => exact hcalm _ rfl
  · rw [parse_value, Nat.sub_zero, hruns.1 h]
    exact parse_levels_calm _ _ _

/-- The largest length a `usize` holds, declared by a verbatim string: the sum that ends its
payload overflows, whatever may be allocated. -/
theorem parse_value_verbatim_overflow :
    ¬ ∃ value_size K : ℕ, Calm (parse_value (Mach.bits64 value_size
      (K * (as_bytes "=18446744073709551615\r\n").length))
      (as_bytes "=18446744073709551615\r\n") 0 : Parse (Parsed Infinity)) := by
  rintro ⟨value_size, K, hcalm⟩
  exact hcalm .Overflow (by rfl)

end ValkeyRs.Resp
