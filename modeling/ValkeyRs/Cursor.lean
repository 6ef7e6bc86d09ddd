/-
Decoders as the machine runs them: a buffer, a cursor, and indexing that panics outside.

A `Decoder` says which value a decoder returns. It cannot say that the cursor stays inside the
buffer, since nothing in it can go wrong there. A `Cursor` can: `index` and `slice` are the
unchecked accesses, with their own outcome when they are out of range, and every run leaves a log of
what it has read and of the loop turns it has completed. `Cursor.Tracks c d slack` says that `c`
does what `d` says, stays inside, and has moved at least one byte for every loop turn in the log,
with `slack` bytes to spare.
-/
import ValkeyRs.Codec

set_option autoImplicit false

open ValkeyRs.Text

namespace ValkeyRs.Codec

/-- What a run leaves in the log: the bytes from `start` to `stop` were read, or a turn of a loop
took the cursor from `start` to `stop`. -/
inductive Event where
  | read (start stop : ℕ)
  | turn (start stop : ℕ)
  deriving Repr, DecidableEq

/-- How a run ends: with a value and a position, with an error, with an access out of range, or not
at all within the turns it was given. -/
inductive Outcome (ε α : Type) where
  | ok (a : α) (pos : ℕ)
  | err (e : ε)
  | outside
  | unfinished

def Cursor (ε α : Type) := Bytes → ℕ → List Event × Outcome ε α

namespace Cursor

variable {ε α β : Type}

instance : Monad (Cursor ε) where
  pure a := fun _ pos => ([], .ok a pos)
  bind c f := fun input pos =>
    match c input pos with
    | (log, .ok a pos) => (log ++ (f a input pos).1, (f a input pos).2)
    | (log, .err e) => (log, .err e)
    | (log, .outside) => (log, .outside)
    | (log, .unfinished) => (log, .unfinished)

def throw (e : ε) : Cursor ε α := fun _ _ => ([], .err e)

/-- `input[*pos]`. -/
def peek : Cursor ε UInt8 := fun input pos =>
  match input[pos]? with
  | some b => ([.read pos (pos + 1)], .ok b pos)
  | none => ([.read pos (pos + 1)], .outside)

/-- `*pos += n`. -/
def skip (n : ℕ) : Cursor ε Unit := fun _ pos => ([], .ok () (pos + n))

/-- `input[*pos..*pos + n]`. -/
def slice (n : ℕ) : Cursor ε Bytes := fun input pos =>
  if pos + n ≤ input.length then ([.read pos (pos + n)], .ok ((input.drop pos).take n) pos)
  else ([.read pos (pos + n)], .outside)

/-- `input[start..stop]`, wherever the cursor is. -/
def range (start stop : ℕ) : Cursor ε Bytes := fun input pos =>
  if start ≤ stop ∧ stop ≤ input.length then
    ([.read start stop], .ok ((input.take stop).drop start) pos)
  else ([.read start stop], .outside)

/-- `if *pos + n > input.len() { return Err(eof) }`. -/
def need (eof : ε) (n : ℕ) : Cursor ε Unit := fun input pos =>
  if pos + n > input.length then ([], .err eof) else ([], .ok () pos)

def turn (c : Cursor ε α) : Cursor ε α := fun input pos =>
  match c input pos with
  | (log, .ok a pos') => (log ++ [.turn pos pos'], .ok a pos')
  | r => r

/-- The loop `for _ in 0..n`, with what it builds up. -/
def times (body : α → Cursor ε α) : ℕ → α → Cursor ε α
  | 0, a => pure a
  | n + 1, a => do times body n (← turn (body a))

/-! ## Sequencing -/

section Sequencing

variable {c : Cursor ε α} {f : α → Cursor ε β} {input : Bytes} {pos : ℕ} {log : List Event}

theorem bind_of_ok {a : α} {mid : ℕ} (h : c input pos = (log, .ok a mid)) :
    (c >>= f) input pos = (log ++ (f a input mid).1, (f a input mid).2) := by
  simp only [Bind.bind, h]

theorem bind_of_err {e : ε} (h : c input pos = (log, .err e)) :
    (c >>= f) input pos = (log, .err e) := by
  simp only [Bind.bind, h]

theorem bind_assoc {γ : Type} (c : Cursor ε α) (f : α → Cursor ε β) (g : β → Cursor ε γ) :
    (c >>= f) >>= g = c >>= fun a => f a >>= g := by
  funext input pos
  simp only [Bind.bind]
  rcases c input pos with ⟨log, ⟨a, mid⟩ | e | _ | _⟩
  · dsimp only
    rcases f a input mid with ⟨log', ⟨b, pos'⟩ | e | _ | _⟩
    · dsimp only
      rw [List.append_assoc]
    · rfl
    · rfl
    · rfl
  · rfl
  · rfl
  · rfl

theorem need_ok {eof : ε} {n : ℕ} (h : pos + n ≤ input.length) :
    need eof n input pos = ([], .ok () pos) := if_neg (Nat.not_lt.mpr h)

theorem need_err {eof : ε} {n : ℕ} (h : input.length < pos + n) :
    need eof n input pos = ([], .err eof) := if_pos h

theorem peek_ok (h : pos < input.length) :
    (peek input pos : List Event × Outcome ε UInt8) =
      ([.read pos (pos + 1)], .ok input[pos] pos) := by
  unfold peek
  rw [List.getElem?_eq_getElem h]

theorem slice_ok {n : ℕ} (h : pos + n ≤ input.length) :
    (slice n input pos : List Event × Outcome ε Bytes) =
      ([.read pos (pos + n)], .ok ((input.drop pos).take n) pos) := if_pos h

theorem range_ok {start stop : ℕ} (h : start ≤ stop ∧ stop ≤ input.length) :
    (range start stop input pos : List Event × Outcome ε Bytes) =
      ([.read start stop], .ok ((input.take stop).drop start) pos) := if_pos h

end Sequencing

/-! ## Logs -/

/-- What is read lies inside the buffer, and each turn moves the cursor forward inside it. -/
def Inside (input : Bytes) (log : List Event) : Prop :=
  ∀ e ∈ log, match e with
    | .read start stop => start ≤ stop ∧ stop ≤ input.length
    | .turn start stop => start < stop ∧ stop ≤ input.length

theorem inside_nil (input : Bytes) : Inside input [] := fun _ h => absurd h List.not_mem_nil

theorem Inside.append {input : Bytes} {log log' : List Event} (h : Inside input log)
    (h' : Inside input log') : Inside input (log ++ log') := by
  intro e he
  rcases List.mem_append.mp he with he | he
  · exact h e he
  · exact h' e he

theorem inside_read {input : Bytes} {start stop : ℕ} (h : start ≤ stop ∧ stop ≤ input.length) :
    Inside input [.read start stop] := by
  intro e he
  rw [List.mem_singleton.mp he]
  exact h

theorem inside_turn {input : Bytes} {start stop : ℕ} (h : start < stop ∧ stop ≤ input.length) :
    Inside input [.turn start stop] := by
  intro e he
  rw [List.mem_singleton.mp he]
  exact h

def Event.is_turn : Event → Bool
  | .read _ _ => false
  | .turn _ _ => true

def turns (log : List Event) : ℕ := log.countP Event.is_turn

@[simp] theorem turns_read (start stop : ℕ) (log : List Event) :
    turns (.read start stop :: log) = turns log := by
  rw [turns, List.countP_cons_of_neg Bool.false_ne_true]
  rfl

theorem turns_append (log log' : List Event) : turns (log ++ log') = turns log + turns log' :=
  List.countP_append

/-! ## Tracking a decoder -/

/-- The run of a cursor against the result of a decoder. -/
def Matches (input : Bytes) (pos slack : ℕ) (run : List Event × Outcome ε α) :
    Except ε (α × ℕ) → Prop
  | .ok (a, pos') => run.2 = .ok a pos' ∧ pos' ≤ input.length ∧ pos + turns run.1 + slack ≤ pos'
  | .error e => run.2 = .err e ∧ pos + turns run.1 ≤ input.length

/-- From inside the buffer, `c` stays inside, and ends as `d` does. -/
def Tracks (c : Cursor ε α) (d : Decoder ε α) (slack : ℕ) : Prop :=
  ∀ input pos, pos ≤ input.length →
    Inside input (c input pos).1 ∧ Matches input pos slack (c input pos) (d input pos)

theorem Tracks.pure (a : α) : Tracks (Pure.pure a : Cursor ε α) (Pure.pure a) 0 :=
  fun input _ hpos => ⟨inside_nil input, rfl, hpos, le_rfl⟩

theorem Tracks.throw (e : ε) (slack : ℕ) :
    Tracks (throw e : Cursor ε α) (Decoder.fail e) slack :=
  fun input _ hpos => ⟨inside_nil input, rfl, hpos⟩

variable {c : Cursor ε α}

variable {d : Decoder ε α} {slack : ℕ}

theorem Tracks.weaken {slack' : ℕ}
    (h : Tracks c d slack) (hle : slack' ≤ slack) : Tracks c d slack' := by
  intro input pos hpos
  obtain ⟨hinside, hmatch⟩ := h input pos hpos
  refine ⟨hinside, ?_⟩
  cases hd : d input pos with
  | error e =>
    rw [hd] at hmatch
    exact hmatch
  | ok r =>
    rw [hd] at hmatch
    obtain ⟨hok, hlen, hturns⟩ := hmatch
    exact ⟨hok, hlen, by omega⟩

theorem Tracks.run (h : Tracks c d slack) {input : Bytes} {pos : ℕ} (hpos : pos ≤ input.length) :
    ∃ log, Inside input log ∧ ((∃ e, d input pos = .error e ∧ c input pos = (log, .err e) ∧
          pos + turns log ≤ input.length) ∨
        ∃ a pos', d input pos = .ok (a, pos') ∧ c input pos = (log, .ok a pos') ∧
          pos' ≤ input.length ∧ pos + turns log + slack ≤ pos') := by
  obtain ⟨hinside, hmatch⟩ := h input pos hpos
  refine ⟨(c input pos).1, hinside, ?_⟩
  cases hd : d input pos with
  | error e =>
    rw [hd] at hmatch
    exact .inl ⟨e, rfl, Prod.ext rfl hmatch.1, hmatch.2⟩
  | ok r =>
    rw [hd] at hmatch
    exact .inr ⟨r.1, r.2, rfl, Prod.ext rfl hmatch.1, hmatch.2⟩

theorem Tracks.bind {f : α → Cursor ε β} {g : α → Decoder ε β}
    {s t : ℕ} (h : Tracks c d s) (hf : ∀ a, Tracks (f a) (g a) t) :
    Tracks (c >>= f) (d >>= g) (s + t) := by
  intro input pos hpos
  have hd_eq : (d >>= g) input pos = match d input pos with
    | .ok (a, pos) => g a input pos
    | .error e => .error e := rfl
  rw [hd_eq]
  obtain ⟨log, hlog, ⟨e, hd, hc, hturns⟩ | ⟨a, mid, hd, hc, hmid, hturns⟩⟩ := h.run hpos
  · rw [hd, bind_of_err hc]
    exact ⟨hlog, rfl, hturns⟩
  · rw [hd, bind_of_ok hc]
    dsimp only
    obtain ⟨log', hlog', ⟨e, hg, hf', hturns'⟩ | ⟨b, pos', hg, hf', hpos', hturns'⟩⟩ :=
      (hf a).run hmid
    · rw [hg, hf']
      refine ⟨hlog.append hlog', rfl, ?_⟩
      dsimp only
      rw [turns_append]
      omega
    · rw [hg, hf']
      refine ⟨hlog.append hlog', rfl, hpos', ?_⟩
      dsimp only
      rw [turns_append]
      omega

theorem Tracks.ite {p : Prop} [Decidable p] {c c' : Cursor ε α} {d' : Decoder ε α}
    (h : p → Tracks c d slack) (h' : ¬ p → Tracks c' d' slack) :
    Tracks (if p then c else c') (if p then d else d') slack := by
  split
  · exact h ‹_›
  · exact h' ‹_›

theorem skip_matches {eof : ε} {f : Unit → Cursor ε α} {g : UInt8 → Decoder ε α} {b : UInt8}
    (h : Tracks (f ()) (g b) slack) {input : Bytes} {pos : ℕ}
    (hget : input[pos]? = some b) :
    Inside input ((skip 1 >>= f) input pos).1 ∧ Matches input pos (slack + 1)
      ((skip 1 >>= f) input pos) ((Decoder.byte eof >>= g) input pos) := by
  have hlt : pos < input.length := (List.getElem?_eq_some_iff.mp hget).1
  have hbyte : (Decoder.byte eof >>= g) input pos = g b input (pos + 1) := by
    simp only [Bind.bind, Decoder.byte, hget]
  rw [hbyte, bind_of_ok (c := skip 1) rfl, List.nil_append]
  obtain ⟨log, hlog, ⟨e, hd, hc, hturns⟩ | ⟨a, pos', hd, hc, hpos', hturns⟩⟩ := h.run hlt
  · rw [hd, hc]
    exact ⟨hlog, rfl, by dsimp only; omega⟩
  · rw [hd, hc]
    exact ⟨hlog, rfl, hpos', by dsimp only; omega⟩

theorem turn_matches {r : Except ε (α × ℕ)} {input : Bytes} {pos : ℕ}
    (h : Inside input (c input pos).1 ∧ Matches input pos 1 (c input pos) r) :
    Inside input (turn c input pos).1 ∧ Matches input pos 0 (turn c input pos) r := by
  obtain ⟨hlog, hmatch⟩ := h
  unfold Cursor.turn
  rcases hrun : c input pos with ⟨log, outcome⟩
  rw [hrun] at hlog hmatch
  match r with
  | .error e =>
    obtain ⟨rfl, hturns⟩ := hmatch
    exact ⟨hlog, rfl, hturns⟩
  | .ok (a, pos') =>
    obtain ⟨rfl, hpos', hturns⟩ := hmatch
    have hone : turns [.turn pos pos'] = 1 := rfl
    refine ⟨hlog.append (inside_turn ⟨by omega, hpos'⟩), rfl, hpos', ?_⟩
    rw [turns_append, hone]
    omega

theorem Tracks.turn {c : Cursor ε α} {d : Decoder ε α} (h : Tracks c d 1) :
    Tracks (turn c) d 0 := fun input pos hpos => turn_matches (h input pos hpos)

theorem Tracks.times {body : α → Cursor ε α} {d : α → Decoder ε α} (h : ∀ a, Tracks (body a) (d a) 1)
    (n : ℕ) (a : α) : Tracks (times body n a) (Decoder.times d n a) 0 := by
  induction n generalizing a with
  | zero => exact Tracks.pure a
  | succ n ih => exact (h a).turn.bind ih

/-! ## The checked accesses -/

def next (eof : ε) : Cursor ε UInt8 := do
  need eof 1
  let b ← peek
  skip 1
  return b

def take (n : ℕ) : Cursor ε Bytes := do
  let b ← slice n
  skip n
  return b

def block (eof : ε) (n : ℕ) : Cursor ε Bytes := do
  need eof n
  take n

theorem take_ok {input : Bytes} {pos n : ℕ} (h : pos + n ≤ input.length) :
    (take n input pos : List Event × Outcome ε Bytes) =
      ([.read pos (pos + n)], .ok ((input.drop pos).take n) (pos + n)) := by
  unfold take
  rw [bind_of_ok (slice_ok h)]
  rfl

theorem Tracks.next (eof : ε) : Tracks (next eof) (Decoder.byte eof) 1 := by
  intro input pos hpos
  unfold Decoder.byte Cursor.next
  by_cases hlt : pos < input.length
  · rw [bind_of_ok (need_ok hlt), bind_of_ok (peek_ok hlt), List.getElem?_eq_getElem hlt]
    exact ⟨inside_read ⟨by omega, hlt⟩, rfl, hlt, le_rfl⟩
  · rw [bind_of_err (need_err (by omega)), List.getElem?_eq_none (by omega)]
    exact ⟨inside_nil input, rfl, hpos⟩

theorem Tracks.block (eof : ε) (n : ℕ) : Tracks (block eof n) (Decoder.bytes eof n) n := by
  intro input pos hpos
  unfold Decoder.bytes Cursor.block
  by_cases hgt : pos + n > input.length
  · rw [bind_of_err (need_err hgt), if_pos hgt]
    exact ⟨inside_nil input, rfl, hpos⟩
  · have hle : pos + n ≤ input.length := Nat.not_lt.mp hgt
    rw [bind_of_ok (need_ok hle), take_ok hle, if_neg hgt]
    exact ⟨inside_read ⟨Nat.le_add_right _ _, hle⟩, rfl, hle, le_rfl⟩

theorem Tracks.block_pair (eof : ε) (n m : ℕ) (f : Bytes → Bytes → α) :
    Tracks (do need eof (n + m); let b ← take n; let b' ← take m; return f b b')
      (do let b ← Decoder.bytes eof n; let b' ← Decoder.bytes eof m; return f b b') (n + m) := by
  intro input pos hpos
  by_cases hle : pos + (n + m) ≤ input.length
  · have hsecond : (Decoder.bytes eof n >>= fun b => Decoder.bytes eof m >>= fun b' =>
        (Pure.pure (f b b') : Decoder ε α)) input pos =
        .ok (f ((input.drop pos).take n) ((input.drop (pos + n)).take m), pos + n + m) := by
      simp only [Bind.bind, Pure.pure, Decoder.bytes]
      rw [if_neg (by omega)]
      dsimp only
      rw [if_neg (by omega)]
    rw [hsecond, bind_of_ok (need_ok hle), bind_of_ok (take_ok (by omega)),
      bind_of_ok (take_ok (by omega))]
    refine ⟨?_, rfl, by omega, ?_⟩
    · exact (inside_read ⟨by omega, by omega⟩).append (inside_read ⟨by omega, by omega⟩)
    · show pos + 0 + (n + m) ≤ pos + n + m
      omega
  · rw [bind_of_err (need_err (by omega))]
    have herr : (Decoder.bytes eof n >>= fun b => Decoder.bytes eof m >>= fun b' =>
        (Pure.pure (f b b') : Decoder ε α)) input pos = .error eof := by
      simp only [Bind.bind, Pure.pure, Decoder.bytes]
      -- either the first read fails, or it ends too far on for the second
      by_cases hfirst : pos + n > input.length
      · rw [if_pos hfirst]
      · rw [if_neg hfirst]
        dsimp only
        rw [if_pos (by omega)]
    rw [herr]
    exact ⟨inside_nil input, rfl, hpos⟩

end Cursor

end ValkeyRs.Codec
