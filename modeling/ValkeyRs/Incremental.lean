/-
Incremental parsers: what it takes for a parser over a growing buffer to be insensitive to how its
input is cut into pieces.

A parser looks at the buffer it has and answers with a value and the number of items it used, with
an error, or with `incomplete`, which asks for more input. The property that makes it safe to run
such a parser on partial input is `Stable`: an answer other than `incomplete` does not change when
the buffer is extended.

`Driver` is the loop around it: append a chunk, decode until the decoder asks for more, wait for the
next chunk. `feedAll_flatten` is the result: for a stable parser that always makes progress, a
driver that has read a sequence of chunks is in the state it would be in had it read their
concatenation in one go.
-/
import Mathlib

set_option autoImplicit false

open List

namespace ValkeyRs.Incremental

universe u v w x y

variable {β : Type u} {ε : Type v} {α : Type w} {σ : Type x} {γ δ : Type y}

/-- Why a parser returned no value. -/
inductive Stop (ε : Type v) where
  | incomplete
  | fail (e : ε)
  deriving Repr, DecidableEq

@[simp] theorem ok_bind (a : γ) (f : γ → Except (Stop ε) δ) : (Except.ok a >>= f) = f a := rfl

@[simp] theorem error_bind (s : Stop ε) (f : γ → Except (Stop ε) δ) :
    ((Except.error s : Except (Stop ε) γ) >>= f) = .error s := rfl

/-! ## Stable parsers -/

/-- An answer other than `incomplete` survives any extension of the buffer. -/
def Stable (p : List β → Except (Stop ε) γ) : Prop :=
  ∀ b r, p b ≠ .error .incomplete → p (b ++ r) = p b

theorem Stable.const (x : Except (Stop ε) γ) : Stable (fun _ : List β => x) :=
  fun _ _ _ => rfl

variable {p : List β → Except (Stop ε) γ}

/-- Sequencing: the second parser may depend on what the first one returned, and sees the
same buffer. -/
theorem Stable.bind {q : γ → List β → Except (Stop ε) δ}
    (hp : Stable p) (hq : ∀ a, Stable (q a)) : Stable (fun b => p b >>= fun a => q a b) := by
  intro b r h
  dsimp only at h ⊢
  cases hb : p b with
  | error s =>
    have hs : p b ≠ .error .incomplete := by
      intro hi
      rw [hi] at h
      exact h rfl
    rw [hp b r hs, hb]
    rfl
  | ok a =>
    have hs : p b ≠ .error .incomplete := by rw [hb]; exact fun hi => by cases hi
    rw [hb] at h
    rw [hp b r hs, hb]
    exact hq a b r h

/-- A guard on the buffer may ask for more input, as long as it stops asking once it has
stopped. -/
theorem Stable.guard {c : List β → Prop} [DecidablePred c] {p : List β → Except (Stop ε) γ}
    (hc : ∀ b r, ¬ c b → ¬ c (b ++ r)) (hp : Stable p) :
    Stable (fun b => if c b then .error .incomplete else p b) := by
  intro b r h
  dsimp only at h ⊢
  by_cases hb : c b
  · rw [if_pos hb] at h
    exact absurd rfl h
  · rw [if_neg hb] at h ⊢
    rw [if_neg (hc b r hb)]
    exact hp b r h

theorem Stable.ite {c : Prop} [Decidable c] {p q : List β → Except (Stop ε) γ}
    (hp : Stable p) (hq : Stable q) : Stable (fun b => if c then p b else q b) := by
  by_cases hc : c
  · simpa only [if_pos hc] using hp
  · simpa only [if_neg hc] using hq

theorem Stable.cons (hp : Stable p) (x : β) : Stable (fun b => p (x :: b)) :=
  fun b r h => hp (x :: b) r h

/-- A parser may start later in the buffer, even past its end: appended input then only
extends what it sees. -/
theorem Stable.drop (hp : Stable p) (n : ℕ) : Stable (fun b => p (b.drop n)) := by
  intro b r h
  dsimp only
  rw [drop_append]
  exact hp _ _ h

theorem exists_of_bind_eq_ok {x : Except (Stop ε) γ} {f : γ → Except (Stop ε) δ} {r : δ}
    (h : x >>= f = .ok r) : ∃ a, x = .ok a ∧ f a = .ok r := by
  cases x with
  | error e => cases h
  | ok a => exact ⟨a, rfl, h⟩

/-- A value uses at least one item and no more than there are. -/
def Progress (p : List β → Except (Stop ε) (ℕ × α)) : Prop :=
  ∀ b c v, p b = .ok (c, v) → 0 < c ∧ c ≤ b.length

/-! ## Decoding from a buffer

A decoder owns the buffer: it takes the items it has used out of it. `ofParser` is the
decoder a parser gives rise to, with a state that is updated by each value and that the
parser never reads. -/

/-- One call of a decoder: its answer, the next state and what is left in the buffer. -/
abbrev Decode (β : Type u) (ε : Type v) (α : Type w) (σ : Type x) :=
  σ → List β → Except ε (Option α) × σ × List β

def ofParser (p : List β → Except (Stop ε) (ℕ × α)) (upd : σ → α → σ) : Decode β ε α σ :=
  fun s b =>
    match p b with
    | .ok (c, v) => (.ok (some v), upd s v, b.drop c)
    | .error .incomplete => (.ok none, s, b)
    | .error (.fail e) => (.error e, s, b)

/-- The reading side of a connection: the buffer, the decoder's state, the values decoded
so far, how many items of the stream they took, and the error that ended it, if any. -/
@[ext] structure Driver (β : Type u) (ε : Type v) (α : Type w) (σ : Type x) where
  buf : List β
  st : σ
  out : List α
  offset : ℕ
  failed : Option ε

def Driver.start (st : σ) : Driver β ε α σ := ⟨[], st, [], 0, none⟩

def Driver.push (d : Driver β ε α σ) (chunk : List β) : Driver β ε α σ :=
  { d with buf := d.buf ++ chunk }

/-- Call the decoder until it asks for more input or fails, at most `n` times. -/
def pump (dec : Decode β ε α σ) : ℕ → Driver β ε α σ → Driver β ε α σ
  | 0, d => d
  | n + 1, d =>
    match d.failed with
    | some _ => d
    | none =>
      match dec d.st d.buf with
      | (.ok (some v), s, b) =>
        pump dec n ⟨b, s, d.out ++ [v], d.offset + (d.buf.length - b.length), none⟩
      | (.ok none, s, b) => { d with st := s, buf := b }
      | (.error e, s, b) => { d with st := s, buf := b, failed := some e }

/-- Receive one chunk. Each call that yields a value shortens the buffer, so one call more
than the buffer is long is enough; `feed_settled` says so. -/
def feed (dec : Decode β ε α σ) (d : Driver β ε α σ) (chunk : List β) : Driver β ε α σ :=
  pump dec (d.buf.length + chunk.length + 1) (d.push chunk)

def feedAll (dec : Decode β ε α σ) (d : Driver β ε α σ) (chunks : List (List β)) :
    Driver β ε α σ :=
  chunks.foldl (feed dec) d

/-! ## Chunk independence -/

section Chunks

variable {p : List β → Except (Stop ε) (ℕ × α)} {upd : σ → α → σ}

variable {d : Driver β ε α σ}

theorem pump_failed (dec : Decode β ε α σ) (n : ℕ) {e : ε}
    (h : d.failed = some e) : pump dec n d = d := by
  cases n with
  | zero => rfl
  | succ n => rw [pump, h]

theorem pump_value {n : ℕ} {c : ℕ} {v : α} (hf : d.failed = none) (hp : p d.buf = .ok (c, v)) :
    pump (ofParser p upd) (n + 1) d
      = pump (ofParser p upd) n ⟨d.buf.drop c, upd d.st v, d.out ++ [v],
          d.offset + (d.buf.length - (d.buf.drop c).length), none⟩ := by
  rw [pump, hf]
  simp only [ofParser, hp]

theorem pump_incomplete {n : ℕ} (hf : d.failed = none)
    (hp : p d.buf = .error .incomplete) : pump (ofParser p upd) (n + 1) d = d := by
  rw [pump, hf]
  simp only [ofParser, hp]
  rw [← hf]

theorem pump_error {n : ℕ} {e : ε} (hf : d.failed = none) (hp : p d.buf = .error (.fail e)) :
    pump (ofParser p upd) (n + 1) d = { d with failed := some e } := by
  rw [pump, hf]
  simp only [ofParser, hp]

/-- Past the length of the buffer the number of calls allowed does not matter. The
induction is on that number; a call that yields a value leaves a shorter buffer. -/
theorem pump_fuel (hprog : Progress p) (n : ℕ) (d : Driver β ε α σ) (hn : d.buf.length < n) :
    ∀ m, d.buf.length < m → pump (ofParser p upd) n d = pump (ofParser p upd) m d := by
  induction n generalizing d with
  | zero => omega
  | succ n ih =>
    intro m hm
    obtain ⟨m, rfl⟩ : ∃ k, m = k + 1 := ⟨m - 1, by omega⟩
    cases hf : d.failed with
    | some e => rw [pump_failed _ _ hf, pump_failed _ _ hf]
    | none =>
      cases hp : p d.buf with
      | ok cv =>
        obtain ⟨c, v⟩ := cv
        obtain ⟨hc, hcl⟩ := hprog _ _ _ hp
        rw [pump_value hf hp, pump_value hf hp]
        have hlen : (d.buf.drop c).length < n ∧ (d.buf.drop c).length < m := by
          rw [length_drop]
          omega
        exact ih _ hlen.1 m hlen.2
      | error s =>
        cases s with
        | incomplete => rw [pump_incomplete hf hp, pump_incomplete hf hp]
        | fail e => rw [pump_error hf hp, pump_error hf hp]

variable (upd) in
/-- **Input may arrive late.** Decoding what is there and then decoding with more input
appended ends where decoding everything at once ends. -/
theorem pump_push (hst : Stable p) (hprog : Progress p) (r : List β) (n : ℕ)
    (d : Driver β ε α σ) (hn : d.buf.length < n) :
    ∀ m, (pump (ofParser p upd) n d).buf.length + r.length < m →
      pump (ofParser p upd) m ((pump (ofParser p upd) n d).push r)
        = pump (ofParser p upd) (n + r.length) (d.push r) := by
  induction n generalizing d with
  | zero => omega
  | succ n ih =>
    intro m hm
    have hlen : (d.push r).buf.length = d.buf.length + r.length := length_append
    cases hf : d.failed with
    | some e =>
      rw [pump_failed _ _ hf]
      rw [pump_failed _ _ (d := d.push r) hf, pump_failed _ _ (d := d.push r) hf]
    | none =>
      cases hp : p d.buf with
      | ok cv =>
        obtain ⟨c, v⟩ := cv
        obtain ⟨hc, hcl⟩ := hprog _ _ _ hp
        have hp' : p (d.push r).buf = .ok (c, v) := by
          rw [Driver.push, hst _ _ (by rw [hp]; exact fun h => by cases h), hp]
        rw [pump_value hf hp] at hm ⊢
        rw [show n + 1 + r.length = n + r.length + 1 by omega,
          pump_value (d := d.push r) hf hp', ih _ (by rw [length_drop]; omega) m hm]
        -- both sides consumed the same `c` items, so the buffers differ by `r` only
        congr 1
        ext1
        · exact (drop_append_of_le_length hcl).symm
        · rfl
        · rfl
        · simp only [Driver.push, length_append, length_drop]
          omega
        · rfl
      | error s =>
        cases s with
        | incomplete =>
          rw [pump_incomplete hf hp] at hm ⊢
          exact pump_fuel hprog _ _ (by omega) _ (by omega)
        | fail e =>
          have hp' : p (d.push r).buf = .error (.fail e) := by
            rw [Driver.push, hst _ _ (by rw [hp]; exact fun h => by cases h), hp]
          rw [pump_error hf hp]
          rw [show n + 1 + r.length = n + r.length + 1 by omega, pump_error (d := d.push r) hf hp']
          exact pump_failed _ _ rfl

theorem feed_feed (hst : Stable p) (hprog : Progress p) (d : Driver β ε α σ) (c₁ c₂ : List β) :
    feed (ofParser p upd) (feed (ofParser p upd) d c₁) c₂ = feed (ofParser p upd) d (c₁ ++ c₂) := by
  have hlen : (d.push c₁).buf.length < d.buf.length + c₁.length + 1 := by
    simp only [Driver.push, length_append]
    omega
  have h := pump_push upd hst hprog c₂ _ (d.push c₁) hlen _ (Nat.lt_succ_self _)
  have hpush : (d.push c₁).push c₂ = d.push (c₁ ++ c₂) := by
    simp only [Driver.push, append_assoc]
  rw [hpush] at h
  unfold feed
  rw [h, length_append]
  congr 1
  omega

/-- After a chunk the driver has failed or is waiting: the decoder asked for more input on
exactly the buffer that is left. -/
theorem pump_settled (hprog : Progress p) (n : ℕ) (d : Driver β ε α σ) (hn : d.buf.length < n) :
    (pump (ofParser p upd) n d).failed ≠ none ∨
      p (pump (ofParser p upd) n d).buf = .error .incomplete := by
  induction n generalizing d with
  | zero => omega
  | succ n ih =>
    cases hf : d.failed with
    | some e => exact .inl (by rw [pump_failed _ _ hf, hf]; exact fun h => by cases h)
    | none =>
      cases hp : p d.buf with
      | ok cv =>
        obtain ⟨c, v⟩ := cv
        obtain ⟨hc, hcl⟩ := hprog _ _ _ hp
        rw [pump_value hf hp]
        exact ih _ (by rw [length_drop]; omega)
      | error s =>
        cases s with
        | incomplete => exact .inr (by rw [pump_incomplete hf hp, hp])
        | fail e => exact .inl (by rw [pump_error hf hp]; exact fun h => by cases h)

theorem feed_settled (hprog : Progress p) (d : Driver β ε α σ) (chunk : List β) :
    (feed (ofParser p upd) d chunk).failed ≠ none ∨
      p (feed (ofParser p upd) d chunk).buf = .error .incomplete := by
  refine pump_settled hprog _ _ ?_
  simp only [Driver.push, length_append]
  omega

theorem feed_nil {d : Driver β ε α σ} (hf : d.failed = none)
    (hp : p d.buf = .error .incomplete) : feed (ofParser p upd) d [] = d := by
  have hpush : d.push [] = d := by simp only [Driver.push, append_nil]
  rw [feed, hpush, pump_incomplete hf hp]

/-- **Chunk independence.** From a waiting driver, a sequence of chunks has the effect of
their concatenation. -/
theorem feedAll_flatten (hst : Stable p) (hprog : Progress p) {d : Driver β ε α σ}
    (hf : d.failed = none) (hp : p d.buf = .error .incomplete) (chunks : List (List β)) :
    feedAll (ofParser p upd) d chunks = feed (ofParser p upd) d chunks.flatten := by
  induction chunks using List.reverseRecOn with
  | nil => rw [flatten_nil, feed_nil hf hp, feedAll, foldl_nil]
  | append_singleton cs c ih =>
    rw [feedAll, foldl_append, foldl_cons, foldl_nil, ← feedAll, ih,
      feed_feed hst hprog, flatten_append, flatten_cons, flatten_nil,
      append_nil]

end Chunks

end ValkeyRs.Incremental
