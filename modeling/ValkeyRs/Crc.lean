/-
Cyclic redundancy checks over an arbitrary register width and polynomial.

A check is a register that takes in one bit at a time: it is shifted up, and when a one falls
out at the top the polynomial is added. An implementation with a table takes in several bits at
once, and what makes that right is that the shift step is linear in exclusive or
(`bit_xor`, `bits_xor`). The register is then the sum of what is in the window of the topmost
`n` bits, for which a table has the answer, and of what is below it, which nothing falls out of
and which `n` steps only shift (`bits_of_clear`). `bits_eq_table` is that sum.
-/
import Mathlib

set_option autoImplicit false

namespace ValkeyRs.Crc

variable {w : ℕ} (poly : BitVec w)

/-- One step of the register. -/
def bit (c : BitVec w) : BitVec w := if c.msb then (c <<< 1) ^^^ poly else c <<< 1

/-- Several steps of the register. -/
def bits (n : ℕ) : BitVec w → BitVec w := (bit poly)^[n]

theorem bits_succ (n : ℕ) (c : BitVec w) : bits poly (n + 1) c = bits poly n (bit poly c) := rfl

theorem bit_xor (a b : BitVec w) : bit poly (a ^^^ b) = bit poly a ^^^ bit poly b := by
  unfold bit
  rw [BitVec.msb_xor, BitVec.shiftLeft_xor_distrib]
  by_cases ha : a.msb <;> by_cases hb : b.msb <;> simp only [ha, hb]
  · -- a one falls out of both, and the polynomial cancels
    have hswap : a <<< 1 ^^^ poly ^^^ (b <<< 1 ^^^ poly)
        = a <<< 1 ^^^ b <<< 1 ^^^ (poly ^^^ poly) := by ac_rfl
    simpa using hswap.symm
  · simp only [Bool.xor_false, if_true, Bool.false_eq_true, if_false]
    ac_rfl
  · simp only [Bool.false_xor, if_true, Bool.false_eq_true, if_false]
    ac_rfl
  · simp

theorem bits_xor (n : ℕ) (a b : BitVec w) :
    bits poly n (a ^^^ b) = bits poly n a ^^^ bits poly n b := by
  induction n generalizing a b with
  | zero => rfl
  | succ n ih => rw [bits_succ, bit_xor, ih, ← bits_succ, ← bits_succ]

theorem bits_of_clear (n : ℕ) (c : BitVec w) (hc : ∀ i < n, c.getMsbD i = false) :
    bits poly n c = c <<< n := by
  induction n generalizing c with
  | zero => simp [bits]
  | succ n ih =>
    have htop : c.msb = false := hc 0 (Nat.succ_pos n)
    have hbit : bit poly c = c <<< 1 := by simp [bit, htop]
    have hrest : ∀ i < n, (c <<< 1).getMsbD i = false := by
      intro i hi
      rw [BitVec.getMsbD_shiftLeft, Nat.add_comm]
      simpa [Nat.add_comm] using hc (i + 1) (Nat.succ_lt_succ hi)
    rw [bits_succ, hbit, ih _ hrest, ← BitVec.shiftLeft_add, Nat.add_comm]

/-- The register is what is in its topmost `n` bits and what is below them. -/
theorem window_xor_rest (n : ℕ) (c : BitVec w) :
    (c >>> (w - n)) <<< (w - n) ^^^ (c <<< n) >>> n = c := by
  ext i hi
  simp only [BitVec.getElem_xor, BitVec.getElem_shiftLeft, BitVec.getElem_ushiftRight,
    BitVec.getLsbD_shiftLeft]
  by_cases hlow : i < w - n
  · -- below the window: only the second part has the bit
    have hin : n + i < w := by omega
    simp [hlow, hin, BitVec.getLsbD_eq_getElem hi]
  · -- in the window: the bit has been shifted out of the second part
    have hout : ¬ n + i < w := by omega
    have hback : w - n + (i - (w - n)) = i := by omega
    simp [hlow, hout, hback, BitVec.getLsbD_eq_getElem hi]

/-- **The table.** The steps of `n` bits at once: the answer for the topmost `n` bits, which a
table can have, and the rest of the register shifted. -/
theorem bits_eq_table (n : ℕ) (c : BitVec w) :
    bits poly n c = bits poly n ((c >>> (w - n)) <<< (w - n)) ^^^ c <<< n := by
  have hclear : ∀ i < n, ((c <<< n) >>> n).getMsbD i = false := by
    intro i hi
    simp [BitVec.getMsbD_ushiftRight, hi]
  have hshift : ((c <<< n) >>> n) <<< n = c <<< n := by
    ext i hi
    simp only [BitVec.getElem_shiftLeft]
    by_cases hlow : i < n
    · simp [hlow]
    · have hback : n + (i - n) = i := by omega
      simp [hlow, hback, hi]
  calc bits poly n c
      = bits poly n ((c >>> (w - n)) <<< (w - n) ^^^ (c <<< n) >>> n) := by rw [window_xor_rest]
    _ = bits poly n ((c >>> (w - n)) <<< (w - n)) ^^^ bits poly n ((c <<< n) >>> n) :=
        bits_xor poly n _ _
    _ = bits poly n ((c >>> (w - n)) <<< (w - n)) ^^^ c <<< n := by
        rw [bits_of_clear poly n _ hclear, hshift]

end ValkeyRs.Crc
