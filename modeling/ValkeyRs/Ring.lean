/-
A ring of fixed capacity that keeps the end of a stream.

The elements are in an array, from a start position on and around its end. Appending writes behind
the last element and, when the ring is full, over the oldest ones; the start then moves on by what
has been lost. A block that is as long as the ring replaces everything. The ring holds the last
elements of everything that has been appended (`data_append`, `data_foldl_append`), and the two
facts about indices that it rests on are that a block shorter than the ring never writes twice to
one place, and never to a place that is still to be read.
-/
import Mathlib

set_option autoImplicit false

open List

namespace ValkeyRs

/-- The array, where the oldest element is, and how many there are. -/
structure Ring (α : Type) where
  buf : List α
  start : ℕ
  len : ℕ
  len_le : len ≤ buf.length

namespace Ring

variable {α : Type}

def capacity (r : Ring α) : ℕ := r.buf.length

/-- A ring with nothing in it; the elements of the array do not count. -/
def new (capacity : ℕ) (fill : α) : Ring α := ⟨List.replicate capacity fill, 0, 0, Nat.zero_le _⟩

/-- Write a block into an array, from a position on and around the end. -/
def write (buf : List α) (pos : ℕ) : List α → List α
  | [] => buf
  | a :: block => write (buf.set (pos % buf.length) a) (pos + 1) block

theorem length_write (buf : List α) (pos : ℕ) (block : List α) :
    (write buf pos block).length = buf.length := by
  induction block generalizing buf pos with
  | nil => rfl
  | cons a block ih => rw [write, ih, length_set]

variable (r : Ring α)

theorem index_lt (i : Fin r.len) : (r.start + i) % r.buf.length < r.buf.length :=
  Nat.mod_lt _ (Nat.lt_of_lt_of_le i.pos r.len_le)

def data (r : Ring α) : List α :=
  List.ofFn fun i : Fin r.len => r.buf.get ⟨(r.start + i) % r.buf.length, r.index_lt i⟩

def append (r : Ring α) (block : List α) : Ring α :=
  if block.length = 0 then r
  else if block.length ≥ r.capacity then
    ⟨block.drop (block.length - r.capacity), 0, (block.drop (block.length - r.capacity)).length,
      le_rfl⟩
  else if hover : r.len + block.length > r.capacity then
    ⟨write r.buf (r.start + r.len) block,
      (r.start + (r.len + block.length - r.capacity)) % r.capacity, r.capacity,
      (length_write _ _ _).ge⟩
  else
    ⟨write r.buf (r.start + r.len) block, r.start, r.len + block.length, by
      rw [length_write]
      exact Nat.not_lt.mp hover⟩

/-! ## Places -/

theorem mod_ne {n i j : ℕ} (hij : i < j) (hlt : j < i + n) : j % n ≠ i % n := by
  intro h
  have hdvd : n ∣ j - i := (Nat.modEq_iff_dvd' hij.le).mp h.symm
  exact absurd (Nat.le_of_dvd (by omega) hdvd) (by omega)

theorem getElem?_write_of_ne {buf : List α} {pos : ℕ} {block : List α} {p : ℕ}
    (h : ∀ t < block.length, p ≠ (pos + t) % buf.length) : (write buf pos block)[p]? = buf[p]? := by
  induction block generalizing buf pos with
  | nil => rfl
  | cons a block ih =>
    have hfirst : p ≠ pos % buf.length := h 0 (Nat.succ_pos _)
    rw [write, ih, List.getElem?_set_ne hfirst.symm]
    intro t ht
    rw [length_set, Nat.add_assoc, Nat.add_comm 1 t]
    exact h (t + 1) (Nat.succ_lt_succ ht)

theorem getElem?_write {buf : List α} {pos : ℕ} {block : List α} (hfit : block.length ≤ buf.length)
    {t : ℕ} (ht : t < block.length) : (write buf pos block)[(pos + t) % buf.length]? = block[t]? := by
  induction block generalizing buf pos t with
  | nil => exact absurd ht (Nat.not_lt_zero t)
  | cons a block ih =>
    rw [length_cons] at hfit ht
    rw [write]
    cases t with
    | zero =>
      -- the rest of the block stays away from the first place
      have hlt : pos % buf.length < buf.length := Nat.mod_lt _ (by omega)
      rw [getElem?_write_of_ne]
      · simp only [Nat.add_zero, List.getElem?_set_self hlt, List.getElem?_cons_zero]
      · intro t' ht'
        rw [length_set, Nat.add_assoc]
        exact (mod_ne (by omega) (by omega)).symm
    | succ t =>
      have hrest := @ih (buf.set (pos % buf.length) a) (pos + 1) (by rw [length_set]; omega) _
        (Nat.lt_of_succ_lt_succ ht)
      rw [length_set, Nat.add_assoc, Nat.add_comm 1 t] at hrest
      exact hrest

/-! ## The elements -/

theorem length_data : r.data.length = r.len := length_ofFn

theorem getElem?_data {i : ℕ} (hi : i < r.len) :
    r.data[i]? = r.buf[(r.start + i) % r.capacity]? := by
  have hlt := r.index_lt ⟨i, hi⟩
  rw [data, List.getElem?_ofFn, dif_pos hi, capacity, List.getElem?_eq_getElem hlt]
  rfl

theorem data_eq {r : Ring α} {l : List α} (hlen : l.length = r.len)
    (h : ∀ i < r.len, r.buf[(r.start + i) % r.capacity]? = l[i]?) : r.data = l := by
  refine ext_getElem? fun i => ?_
  by_cases hi : i < r.len
  · rw [getElem?_data r hi, h i hi]
  · rw [List.getElem?_eq_none (by rw [length_data]; omega), List.getElem?_eq_none (by omega)]

theorem data_new (capacity : ℕ) (fill : α) : (new capacity fill).data = [] :=
  eq_nil_of_length_eq_zero (length_data _)

@[simp] theorem capacity_append (block : List α) : (r.append block).capacity = r.capacity := by
  unfold append
  split
  · rfl
  · split
    · simp only [capacity, length_drop] at *
      omega
    · split
      · exact length_write _ _ _
      · exact length_write _ _ _

theorem start_append_lt {r : Ring α} (h : r.start < r.capacity) (block : List α) :
    (r.append block).start < (r.append block).capacity := by
  rw [capacity_append]
  unfold append
  split
  · exact h
  · split
    · exact Nat.zero_lt_of_lt h
    · split
      · exact Nat.mod_lt _ (Nat.zero_lt_of_lt h)
      · exact h

theorem start_foldl_append_lt {r : Ring α} (h : r.start < r.capacity) (blocks : List (List α)) :
    (blocks.foldl append r).start < r.capacity ∧ (blocks.foldl append r).capacity = r.capacity := by
  induction blocks generalizing r with
  | nil => exact ⟨h, rfl⟩
  | cons block blocks ih => simpa using ih (start_append_lt h block)

/-- What is read behind the start after a block has been written: what was there, and then the
block. -/
theorem getElem?_written {r : Ring α} {block : List α} (hblock : block.length < r.capacity) {k : ℕ}
    (hlo : r.len + block.length ≤ k + r.capacity) (hhi : k < r.len + block.length) :
    (write r.buf (r.start + r.len) block)[(r.start + k) % r.capacity]? = (r.data ++ block)[k]? := by
  unfold capacity at *
  by_cases hk : k < r.len
  · rw [List.getElem?_append_left (by rwa [length_data]), getElem?_data r hk]
    refine getElem?_write_of_ne fun t ht => ?_
    exact (mod_ne (by omega) (by omega)).symm
  · have hplace : r.start + k = r.start + r.len + (k - r.len) := by omega
    rw [List.getElem?_append_right (by rw [length_data]; omega), length_data, hplace]
    exact getElem?_write (by omega) (by omega)

theorem data_append_long {r : Ring α} {block : List α} (hlong : r.capacity ≤ block.length) :
    block.drop (block.length - r.capacity) = (r.data ++ block).rtake r.capacity := by
  have hcut : (r.data ++ block).length - r.capacity - r.data.length = block.length - r.capacity := by
    rw [length_append, length_data]
    omega
  have hold : r.data.drop ((r.data ++ block).length - r.capacity) = [] := by
    rw [drop_eq_nil_iff, length_append, length_data]
    omega
  rw [List.rtake, drop_append, hold, nil_append, hcut]

/-- **Appending.** The ring has the last elements of what it had and the block. -/
theorem data_append (block : List α) :
    (r.append block).data = (r.data ++ block).rtake r.capacity := by
  have hlen : r.len ≤ r.capacity := r.len_le
  have htotal : (r.data ++ block).length = r.len + block.length := by
    rw [length_append, length_data]
  unfold append
  by_cases hnil : block.length = 0
  · rw [if_pos hnil, length_eq_zero_iff.mp hnil, append_nil, List.rtake, length_data,
      Nat.sub_eq_zero_of_le hlen, drop_zero]
  · rw [if_neg hnil]
    by_cases hlong : block.length ≥ r.capacity
    · rw [if_pos hlong, ← data_append_long hlong]
      refine data_eq rfl fun i hi => ?_
      dsimp only [capacity] at hi ⊢
      rw [Nat.zero_add, Nat.mod_eq_of_lt hi]
    · rw [if_neg hlong]
      have hshort : block.length < r.capacity := Nat.not_le.mp hlong
      by_cases hover : r.len + block.length > r.capacity
      · -- the oldest elements have been written over, and the start is behind them
        rw [dif_pos hover]
        have hkept : ((r.data ++ block).rtake r.capacity).length = r.capacity := by
          rw [List.rtake, length_drop, htotal]
          omega
        refine data_eq hkept fun i hi => ?_
        dsimp only [capacity] at hi ⊢
        rw [length_write, Nat.mod_add_mod, Nat.add_assoc, List.rtake, List.getElem?_drop, htotal]
        exact getElem?_written hshort (by unfold capacity at *; omega) (by unfold capacity at *; omega)
      · rw [dif_neg hover, List.rtake, htotal, Nat.sub_eq_zero_of_le (Nat.not_lt.mp hover),
          drop_zero]
        refine data_eq htotal fun i hi => ?_
        dsimp only [capacity] at hi ⊢
        rw [length_write]
        exact getElem?_written hshort (by omega) hi

theorem rtake_rtake_append (n : ℕ) (l l' : List α) :
    (l.rtake n ++ l').rtake n = (l ++ l').rtake n := by
  have hfront : l.rtake n ++ l' = (l ++ l').drop (l.length - n) :=
    (drop_append_of_le_length (Nat.sub_le _ _)).symm
  rw [hfront, List.rtake, List.rtake, drop_drop, length_drop, length_append]
  congr 1
  omega

/-- **The end of a stream.** A ring that has the end of a stream has it after every further
block. -/
theorem data_foldl_append {r : Ring α} {stream : List α} (hr : r.data = stream.rtake r.capacity)
    (blocks : List (List α)) :
    (blocks.foldl append r).data = (stream ++ blocks.flatten).rtake r.capacity := by
  induction blocks generalizing r stream with
  | nil => rw [foldl_nil, flatten_nil, append_nil, hr]
  | cons block blocks ih =>
    have hnext : (r.append block).data = (stream ++ block).rtake (r.append block).capacity := by
      rw [capacity_append, data_append, hr, rtake_rtake_append]
    rw [foldl_cons, ih hnext, capacity_append, flatten_cons, append_assoc]

theorem data_foldl_new (capacity : ℕ) (fill : α) (blocks : List (List α)) :
    (blocks.foldl append (new capacity fill)).data = blocks.flatten.rtake capacity := by
  have hempty : (new capacity fill).data = [].rtake (new capacity fill).capacity := by
    rw [data_new, rtake_nil]
  have hcapacity : (new capacity fill).capacity = capacity := length_replicate
  rw [data_foldl_append hempty, nil_append, hcapacity]

end Ring

end ValkeyRs
