/-
Bytes on disk: numbers in little-endian order, and decoders that move a cursor over a buffer.

A `Decoder` gets a buffer and a position, and returns a value and the position behind it, or an
error. It is a monad, so the decoders of the source can be written the way the source does. What one
needs to know of a decoder is on which bytes it gives which value: `Encodes d b a` says that `d`
reads `b` as `a` wherever `b` stands in a buffer, and stops right behind it.
-/
import ValkeyRs.Text

set_option autoImplicit false

open ValkeyRs.Text List

namespace ValkeyRs.Codec

/-! ## Little-endian numbers -/

/-- The `w` lowest bytes of a number, the least significant first. -/
def le_bytes : ℕ → ℕ → Bytes
  | 0, _ => []
  | w + 1, n => UInt8.ofNat n :: le_bytes w (n / 256)

def of_le_bytes : Bytes → ℕ
  | [] => 0
  | b :: bs => b.toNat + 256 * of_le_bytes bs

@[simp] theorem length_le_bytes (w n : ℕ) : (le_bytes w n).length = w := by
  induction w generalizing n with
  | zero => rfl
  | succ w ih => rw [le_bytes, length_cons, ih]

theorem of_le_bytes_le_bytes (w n : ℕ) : of_le_bytes (le_bytes w n) = n % 256 ^ w := by
  induction w generalizing n with
  | zero =>
    rw [pow_zero, Nat.mod_one]
    rfl
  | succ w ih =>
    have hbyte : (UInt8.ofNat n).toNat = n % 256 := UInt8.toNat_ofNat'
    rw [le_bytes, of_le_bytes, ih, hbyte, pow_succ, Nat.mul_comm (256 ^ w), Nat.mod_mul]

theorem of_le_bytes_le_bytes_of_lt {w n : ℕ} (h : n < 256 ^ w) :
    of_le_bytes (le_bytes w n) = n := by
  rw [of_le_bytes_le_bytes, Nat.mod_eq_of_lt h]

theorem le_bytes_mod (w n : ℕ) : le_bytes w (n % 256 ^ w) = le_bytes w n := by
  induction w generalizing n with
  | zero => rfl
  | succ w ih =>
    have hbyte : UInt8.ofNat (n % 256 ^ (w + 1)) = UInt8.ofNat n := by
      refine UInt8.toNat_inj.mp ?_
      rw [UInt8.toNat_ofNat', UInt8.toNat_ofNat', pow_succ]
      exact Nat.mod_mod_of_dvd n (Nat.dvd_mul_left 256 (256 ^ w))
    have hrest : n % 256 ^ (w + 1) / 256 = n / 256 % 256 ^ w := by
      rw [pow_succ, Nat.mul_comm, Nat.mod_mul_right_div_self]
    rw [le_bytes, le_bytes, hbyte, hrest, ih]

theorem of_le_bytes_lt (bs : Bytes) : of_le_bytes bs < 256 ^ bs.length := by
  induction bs with
  | nil => exact Nat.one_pos
  | cons b bs ih =>
    have hb : b.toNat < 256 := b.toNat_lt
    rw [of_le_bytes, length_cons, pow_succ]
    omega

/-- `to_le_bytes` of a signed number of `w` bytes, in two's complement. -/
def le_bytes_int (w : ℕ) (v : ℤ) : Bytes := le_bytes w (v % 256 ^ w).toNat

def of_le_bytes_int (bs : Bytes) : ℤ := (of_le_bytes bs : ℤ).bmod (256 ^ bs.length)

@[simp] theorem length_le_bytes_int (w : ℕ) (v : ℤ) : (le_bytes_int w v).length = w :=
  length_le_bytes w _

theorem of_le_bytes_int_le_bytes_int {w : ℕ} {v : ℤ} (hlo : -(256 ^ w : ℤ) ≤ 2 * v)
    (hhi : 2 * v < 256 ^ w) : of_le_bytes_int (le_bytes_int w v) = v := by
  have hpos : (0 : ℤ) < 256 ^ w := by positivity
  have hnonneg : 0 ≤ v % 256 ^ w := Int.emod_nonneg v hpos.ne'
  have hlt : (v % 256 ^ w).toNat < 256 ^ w := by
    have h := Int.emod_lt_of_pos v hpos
    zify
    rw [Int.toNat_of_nonneg hnonneg]
    exact_mod_cast h
  unfold of_le_bytes_int le_bytes_int
  rw [length_le_bytes, of_le_bytes_le_bytes_of_lt hlt, Int.toNat_of_nonneg hnonneg]
  have hcast : ((256 ^ w : ℕ) : ℤ) = 256 ^ w := by push_cast; rfl
  rw [← hcast, Int.emod_bmod]
  refine Int.bmod_eq_of_le ?_ ?_
  · rw [hcast]
    omega
  · rw [hcast]
    omega

/-! ## Codes of one width -/

section Width

variable {γ : Type} {enc : γ → Bytes} {w : ℕ}

theorem take_flatMap_width (hw : ∀ x, (enc x).length = w) (xs : List γ) (n : ℕ) :
    (xs.flatMap enc).take (n * w) = (xs.take n).flatMap enc := by
  induction xs generalizing n with
  | nil => simp
  | cons x xs ih =>
    cases n with
    | zero => simp
    | succ n =>
      rw [flatMap_cons, take_succ_cons, flatMap_cons, Nat.succ_mul, Nat.add_comm,
        ← hw x, take_length_add_append, hw x, ih]

theorem drop_flatMap_width (hw : ∀ x, (enc x).length = w) (xs : List γ) (n : ℕ) :
    (xs.flatMap enc).drop (n * w) = (xs.drop n).flatMap enc := by
  induction xs generalizing n with
  | nil => simp
  | cons x xs ih =>
    cases n with
    | zero => simp
    | succ n =>
      rw [flatMap_cons, drop_succ_cons, Nat.succ_mul, Nat.add_comm, ← hw x,
        drop_length_add_append, hw x, ih]

end Width

/-! ## Decoders -/

/-- A decoder over a buffer: the value, and the position behind it. -/
def Decoder (ε α : Type) := Bytes → ℕ → Except ε (α × ℕ)

namespace Decoder

variable {ε α β : Type}

instance : Monad (Decoder ε) where
  pure a := fun _ pos => .ok (a, pos)
  bind d f := fun input pos =>
    match d input pos with
    | .ok (a, pos) => f a input pos
    | .error e => .error e

def fail (e : ε) : Decoder ε α := fun _ _ => .error e

def byte (eof : ε) : Decoder ε UInt8 := fun input pos =>
  match input[pos]? with
  | some b => .ok (b, pos + 1)
  | none => .error eof

/-- The next `n` bytes. -/
def bytes (eof : ε) (n : ℕ) : Decoder ε Bytes := fun input pos =>
  if pos + n > input.length then .error eof else .ok ((input.drop pos).take n, pos + n)

/-- The loop `for _ in 0..n`, with what it builds up. -/
def times (d : α → Decoder ε α) : ℕ → α → Decoder ε α
  | 0, a => pure a
  | n + 1, a => do times d n (← d a)

theorem bind_assoc {γ : Type} (d : Decoder ε α) (f : α → Decoder ε β) (g : β → Decoder ε γ) :
    (d >>= f) >>= g = d >>= fun a => f a >>= g := by
  funext input pos
  simp only [Bind.bind]
  cases d input pos <;> rfl

/-! ### Values and their bytes -/

/-- The decoder reads these bytes as this value, wherever they stand, and stops behind them. -/
def Encodes (d : Decoder ε α) (b : Bytes) (a : α) : Prop :=
  ∀ before after : Bytes,
    d (before ++ (b ++ after)) before.length = .ok (a, before.length + b.length)

theorem Encodes.pure (a : α) : Encodes (Pure.pure a : Decoder ε α) [] a := fun _ _ => rfl

variable {d : Decoder ε α}
variable {f : α → Decoder ε β}

theorem Encodes.bind {b c : Bytes} {a : α} {a' : β}
    (h : Encodes d b a) (hf : Encodes (f a) c a') : Encodes (d >>= f) (b ++ c) a' := by
  intro before after
  have hfirst := h before (c ++ after)
  have hsecond := hf (before ++ b) after
  rw [append_assoc, length_append] at hsecond
  show (match d (before ++ (b ++ c ++ after)) before.length with
    | .ok (a, pos) => f a (before ++ (b ++ c ++ after)) pos
    | .error e => .error e) = _
  rw [append_assoc, hfirst]
  dsimp only
  rw [hsecond, length_append, Nat.add_assoc]

theorem Encodes.map {b : Bytes} {a : α} {a' : β}
    (h : Encodes d b a) (hf : Encodes (f a) [] a') : Encodes (d >>= f) b a' := by
  have hbind := h.bind hf
  rwa [append_nil] at hbind

theorem Encodes.byte (eof : ε) (x : UInt8) : Encodes (byte eof) [x] x := by
  intro before after
  have hget : (before ++ ([x] ++ after))[before.length]? = some x := by simp
  unfold Decoder.byte
  rw [hget]
  rfl

theorem Encodes.bytes (eof : ε) (b : Bytes) : Encodes (bytes eof b.length) b b := by
  intro before after
  have hlen : ¬ before.length + b.length > (before ++ (b ++ after)).length := by
    simp only [length_append]
    omega
  unfold Decoder.bytes
  rw [if_neg hlen, drop_left, take_left]

theorem Encodes.times {γ : Type} {d : α → Decoder ε α} {enc : γ → Bytes} {f : α → γ → α}
    {xs : List γ} (h : ∀ x ∈ xs, ∀ a, Encodes (d a) (enc x) (f a x)) (a : α) :
    Encodes (times d xs.length a) (xs.flatMap enc) (xs.foldl f a) := by
  induction xs generalizing a with
  | nil => exact Encodes.pure a
  | cons x xs ih =>
    have hx := h x mem_cons_self a
    have hxs := ih (fun y hy => h y (mem_cons_of_mem _ hy)) (f a x)
    rw [flatMap_cons]
    exact hx.bind hxs

/-! ### What a decoder returns -/

theorem bind_eq_ok {input : Bytes} {pos pos' : ℕ} {b : β}
    (h : (d >>= f) input pos = .ok (b, pos')) :
    ∃ a mid, d input pos = .ok (a, mid) ∧ f a input mid = .ok (b, pos') := by
  have hbind : (d >>= f) input pos = match d input pos with
    | .ok (a, pos) => f a input pos
    | .error e => .error e := rfl
  rw [hbind] at h
  cases hd : d input pos with
  | error e =>
    rw [hd] at h
    cases h
  | ok r =>
    obtain ⟨a, mid⟩ := r
    rw [hd] at h
    exact ⟨a, mid, rfl, h⟩

/-- Whatever the decoder returns, on whatever input, has the property. -/
def Yields (d : Decoder ε α) (P : α → Prop) : Prop :=
  ∀ input pos a pos', d input pos = .ok (a, pos') → P a

theorem Yields.pure {P : α → Prop} {a : α} (h : P a) : Yields (Pure.pure a : Decoder ε α) P := by
  intro input pos a' pos' hrun
  cases hrun
  exact h

theorem Yields.fail (e : ε) (P : α → Prop) : Yields (fail e : Decoder ε α) P := by
  intro input pos a pos' hrun
  cases hrun

theorem Yields.bind {P : α → Prop} {Q : β → Prop}
    (h : Yields d P) (hf : ∀ a, P a → Yields (f a) Q) : Yields (d >>= f) Q := by
  intro input pos b pos' hrun
  obtain ⟨a, mid, hfirst, hsecond⟩ := bind_eq_ok hrun
  exact hf a (h _ _ _ _ hfirst) _ _ _ _ hsecond

theorem Yields.any (d : Decoder ε α) : Yields d fun _ => True := fun _ _ _ _ _ => trivial

theorem Yields.ite {c : Prop} [Decidable c] {d d' : Decoder ε α} {P : α → Prop}
    (h : c → Yields d P) (h' : ¬ c → Yields d' P) : Yields (if c then d else d') P := by
  split
  · exact h ‹_›
  · exact h' ‹_›

theorem Yields.bytes (eof : ε) (n : ℕ) : Yields (bytes eof n) fun b => b.length = n := by
  intro input pos b pos' h
  unfold Decoder.bytes at h
  split at h
  · cases h
  · cases h
    rw [length_take, length_drop]
    omega

theorem Yields.times {d : α → Decoder ε α} {P : ℕ → α → Prop}
    (h : ∀ i a, P i a → Yields (d a) (P (i + 1))) {i : ℕ} {a : α} (ha : P i a) (n : ℕ) :
    Yields (times d n a) (P (i + n)) := by
  induction n generalizing i a with
  | zero => exact Yields.pure ha
  | succ n ih =>
    refine (h i a ha).bind fun b hb => ?_
    rw [Nat.add_comm n, ← Nat.add_assoc]
    exact ih hb

/-! ### Getting on -/

/-- The decoder never goes back. -/
def Forward (d : Decoder ε α) : Prop :=
  ∀ input pos a pos', d input pos = .ok (a, pos') → pos ≤ pos'

theorem Forward.pure (a : α) : Forward (Pure.pure a : Decoder ε α) := by
  intro input pos a' pos' h
  cases h
  exact le_rfl

theorem Forward.fail (e : ε) : Forward (fail e : Decoder ε α) := by
  intro input pos a pos' h
  cases h

theorem Forward.bind (h : Forward d) (hf : ∀ a, Forward (f a)) : Forward (d >>= f) := by
  intro input pos b pos' hrun
  obtain ⟨a, mid, hfirst, hsecond⟩ := bind_eq_ok hrun
  exact (h _ _ _ _ hfirst).trans (hf a _ _ _ _ hsecond)

theorem byte_eq_ok {eof : ε} {input : Bytes} {pos pos' : ℕ} {b : UInt8}
    (h : byte eof input pos = .ok (b, pos')) : pos' = pos + 1 := by
  unfold byte at h
  cases hget : input[pos]? with
  | none =>
    rw [hget] at h
    cases h
  | some x =>
    rw [hget] at h
    cases h
    rfl

theorem Forward.byte (eof : ε) : Forward (byte eof) := by
  intro input pos b pos' h
  have hpos := byte_eq_ok h
  omega

theorem Forward.bytes (eof : ε) (n : ℕ) : Forward (bytes eof n) := by
  intro input pos b pos' h
  unfold Decoder.bytes at h
  split at h
  · cases h
  · cases h
    exact Nat.le_add_right _ _

theorem Forward.ite {c : Prop} [Decidable c] {d d' : Decoder ε α} (h : Forward d)
    (h' : Forward d') : Forward (if c then d else d') := by
  split
  · exact h
  · exact h'

theorem Forward.times {d : α → Decoder ε α} (h : ∀ a, Forward (d a)) (n : ℕ) (a : α) :
    Forward (times d n a) := by
  induction n generalizing a with
  | zero => exact Forward.pure a
  | succ n ih => exact (h a).bind ih

end Decoder

end ValkeyRs.Codec
