/-
The intset as a set of 64-bit numbers, over every sequence of calls.

`remove` takes the bytes of one number out and never narrows the width, `from_sorted_slice` writes
all numbers in one width. Both keep the numbers increasing, and with that everything the type says
of its bytes; so an intset is known by its members (`Faithful.of_mem`), and what is left to show of
a call is which members it leaves.
-/
import ValkeyRs.Intset
import ValkeyRs.Simulation

set_option autoImplicit false

open ValkeyRs Text Codec List

namespace ValkeyRs.Storage

namespace Intset

theorem Codes.eraseIdx {data : Bytes} {length : ℕ} {enc : IntSetEncoding} {vs : List ℤ}
    (h : Codes data length enc vs) {pos : ℕ} (hpos : pos < vs.length) :
    Codes (data.take (pos * enc.width) ++ data.drop ((pos + 1) * enc.width)) (length - 1) enc
      (vs.eraseIdx pos) where
  length := by rw [length_eraseIdx_of_lt hpos, h.length]
  data := by
    rw [h.data, encode, encode, take_flatMap_width (length_le_bytes_int _),
      drop_flatMap_width (length_le_bytes_int _), eraseIdx_eq_take_drop_succ,
      flatMap_append]
  fits v hv := h.fits v (mem_of_mem_eraseIdx hv)
  sorted := h.sorted.sublist (eraseIdx_sublist vs pos)

/-- The loop of `from_sorted_slice` that looks for the width. -/
def max_enc (enc : IntSetEncoding) : List Int64 → IntSetEncoding
  | [] => enc
  | v :: values =>
    max_enc (if (encoding_for v.toInt).width > enc.width then encoding_for v.toInt else enc) values

theorem width_le_max_enc (enc : IntSetEncoding) (values : List Int64) :
    enc.width ≤ (max_enc enc values).width ∧
      ∀ v ∈ values, (encoding_for v.toInt).width ≤ (max_enc enc values).width := by
  induction values generalizing enc with
  | nil => simp [max_enc]
  | cons x values ih =>
    rw [max_enc, forall_mem_cons]
    by_cases hwider : (encoding_for x.toInt).width > enc.width
    · rw [if_pos hwider]
      exact ⟨hwider.le.trans (ih _).1, ih _⟩
    · rw [if_neg hwider]
      exact ⟨(ih _).1, (not_lt.mp hwider).trans (ih _).1, (ih _).2⟩

theorem codes_slice {values : List Int64} (h : (values.map Int64.toInt).Pairwise (· < ·)) :
    Codes (encode (max_enc .Int16 values) (values.map Int64.toInt)) values.length
      (max_enc .Int16 values) (values.map Int64.toInt) where
  length := length_map _
  data := rfl
  fits := by
    rw [forall_mem_map]
    exact fun v hv => (encoding_for_fits v.le_toInt v.toInt_lt).mono ((width_le_max_enc _ _).2 v hv)
  sorted := h

end Intset

namespace IntSet

def remove (self : IntSet) (val : Int64) : IntSet × Bool :=
  let pos := self.iter.idxOf val.toInt
  if h : pos < self.iter.length then
    ({ data := self.data.take (pos * self.encoding.width) ++
          self.data.drop ((pos + 1) * self.encoding.width)
       length := self.length - 1
       encoding := self.encoding
       coded := ⟨_, self.codes_iter.eraseIdx h⟩ }, true)
  else (self, false)

/-- `IntSet::from_sorted_slice`, of a slice as its comment asks for. -/
def from_sorted_slice (values : List Int64) (h : (values.map Int64.toInt).Pairwise (· < ·)) :
    IntSet :=
  if values.isEmpty then new
  else
    { data := Intset.encode (Intset.max_enc .Int16 values) (values.map Int64.toInt)
      length := values.length
      encoding := Intset.max_enc .Int16 values
      coded := ⟨_, Intset.codes_slice h⟩ }

theorem iter_remove (self : IntSet) (val : Int64) :
    (self.remove val).1.iter = self.iter.erase val.toInt := by
  unfold remove
  by_cases h : self.iter.idxOf val.toInt < self.iter.length
  · rw [dif_pos h, erase_eq_eraseIdx_of_idxOf rfl]
    exact (self.codes_iter.eraseIdx h).values_eq
  · rw [dif_neg h]
    exact (erase_of_not_mem fun hmem => h (idxOf_lt_length_of_mem hmem)).symm

theorem iter_from_sorted_slice {values : List Int64}
    (h : (values.map Int64.toInt).Pairwise (· < ·)) :
    (from_sorted_slice values h).iter = values.map Int64.toInt := by
  unfold from_sorted_slice
  split
  · rename_i hempty
    rw [List.isEmpty_iff.mp hempty]
    rfl
  · exact (Intset.codes_slice h).values_eq

end IntSet

/-! ## Calls -/

inductive IntSetCall where
  | add (val : Int64)
  | remove (val : Int64)
  deriving Repr, DecidableEq

namespace IntSetCall

def exec (s : IntSet) : IntSetCall → Bool × IntSet
  | .add val => ((s.add val).2, (s.add val).1)
  | .remove val => ((s.remove val).2, (s.remove val).1)

/-- What the call does to a finite set, and whether that is a change. -/
def apply (S : Finset ℤ) (call : IntSetCall) : Bool × Finset ℤ :=
  let S' := match call with
    | .add val => insert val.toInt S
    | .remove val => S.erase val.toInt
  (S' ≠ S, S')

end IntSetCall

/-- The intset is the set, in every way it can be looked at. -/
structure Faithful (s : IntSet) (S : Finset ℤ) : Prop where
  bytes : s.data.length = s.len * s.encoding.width
  sorted : s.iter.Pairwise (· < ·)
  fits : ∀ v ∈ s.iter, s.encoding.Fits v
  iter : ∀ v, v ∈ s.iter ↔ v ∈ S
  contains : ∀ val : Int64, s.contains val.toInt = true ↔ val.toInt ∈ S

theorem Faithful.of_mem {s : IntSet} {S : Finset ℤ} (h : ∀ v, v ∈ s.iter ↔ v ∈ S) :
    Faithful s S where
  bytes := by
    have hcodes := s.codes_iter
    rw [hcodes.data, Intset.encode, IntSet.len, ← hcodes.length]
    simp [length_flatMap]
  sorted := s.codes_iter.sorted
  fits := s.codes_iter.fits
  iter := h
  contains val := (s.contains_iff _).trans (h _)

theorem Faithful.step {s : IntSet} {S : Finset ℤ} (h : Faithful s S) (call : IntSetCall) :
    (call.exec s).1 = (call.apply S).1 ∧ Faithful (call.exec s).2 (call.apply S).2 := by
  cases call with
  | add val =>
    refine ⟨?_, .of_mem fun v => ?_⟩
    · have hcontains := h.contains val
      simp only [IntSetCall.exec, IntSetCall.apply, IntSet.add, ne_eq, Finset.insert_eq_self]
      split <;> simp_all
    · simp only [IntSetCall.exec, IntSetCall.apply, IntSet.mem_add, Finset.mem_insert, h.iter]
  | remove val =>
    refine ⟨?_, .of_mem fun v => ?_⟩
    · simp only [IntSetCall.exec, IntSetCall.apply, IntSet.remove, ne_eq, Finset.erase_eq_self,
        idxOf_lt_length_iff, h.iter]
      split <;> simp_all
    · have hnodup : s.iter.Nodup := h.sorted.imp ne_of_lt
      simp only [IntSetCall.exec, IntSetCall.apply, IntSet.iter_remove, hnodup.mem_erase_iff,
        Finset.mem_erase, h.iter]

/-- **A set of 64-bit numbers.** Through every sequence of additions and removals the intset is the
finite set that the same calls make, and each call reports whether it has changed that set; a
strictly increasing slice gives the intset of its elements. -/
theorem intset_is_finite_set :
    (∀ calls : List IntSetCall,
      Simulation.replies IntSetCall.exec .new calls = Simulation.replies IntSetCall.apply ∅ calls ∧
      Faithful (Simulation.final IntSetCall.exec .new calls)
        (Simulation.final IntSetCall.apply ∅ calls)) ∧
    ∀ (values : List Int64) (h : (values.map Int64.toInt).Pairwise (· < ·)),
      Faithful (IntSet.from_sorted_slice values h) (values.map Int64.toInt).toFinset := by
  constructor
  · intro calls
    have hnew : Faithful .new ∅ := .of_mem (by simp [IntSet.new, IntSet.iter, Intset.values])
    obtain ⟨hreplies, hfinal⟩ := Simulation.simulates (R := Faithful) (A := Eq)
      (fun s S call _ h => Faithful.step h call) hnew
      (Runs.along_of_forall (P := fun _ => True) fun _ _ => trivial)
    exact ⟨forall₂_eq_eq_eq ▸ hreplies, hfinal⟩
  · intro values h
    refine .of_mem fun v => ?_
    rw [IntSet.iter_from_sorted_slice, mem_toFinset]

/-- A number that needs the full width between two that do not, and a slice. -/
theorem intset_is_finite_set_wide :
    Simulation.replies IntSetCall.exec .new [.add 7, .add (2 ^ 40), .add 7, .remove 7] =
      Simulation.replies IntSetCall.apply ∅ [.add 7, .add (2 ^ 40), .add 7, .remove 7] ∧
    Faithful (IntSet.from_sorted_slice [7, 2 ^ 40] (by decide)) ([7, 2 ^ 40].map Int64.toInt).toFinset :=
  ⟨(intset_is_finite_set.1 _).1, intset_is_finite_set.2 _ _⟩

end ValkeyRs.Storage
