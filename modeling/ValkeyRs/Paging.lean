/-
Pages of a listing that is made anew for each page.

A client goes through a listing page by page: a cursor is a position, a page is what stands from
that position to another, and the next cursor is that other position, or zero at the end. Nothing is
kept between two pages, so the listings may differ. What is left of "every element comes up" is a
statement about one page: an element that stands at the cursor or behind it is on the page, or
stands at the next cursor or behind it (`Serves`), and on the last page only the first is possible
(`Serves.returns`).
-/
import Mathlib

set_option autoImplicit false

open List

namespace ValkeyRs.Paging

variable {α : Type}

/-- The page has what the listing has from the cursor to some other place; the next cursor does
not go beyond that place, and is zero only if that place is the end. -/
def Serves (listing : List α) (cursor : ℕ) (page : List α) (next : ℕ) : Prop :=
  ∃ stop, (∀ x ∈ (listing.take stop).drop cursor, x ∈ page) ∧
    next ≤ stop ∧ (next = 0 → listing.length ≤ stop)

/-- The end of a page that ends at `stop`. -/
def next_cursor (stop length : ℕ) : ℕ := if stop ≥ length then 0 else stop

variable {listing page : List α} {cursor next : ℕ}

theorem serves_slice {stop : ℕ} (hstop : 0 < stop) :
    Serves listing cursor ((listing.take stop).drop cursor) (next_cursor stop listing.length) := by
  refine ⟨stop, fun x hx => hx, ?_, ?_⟩
  · unfold next_cursor
    split <;> omega
  · unfold next_cursor
    split <;> omega

theorem serves_rest (hnext : next ≤ listing.length) :
    Serves listing cursor (listing.drop cursor) next := by
  refine ⟨listing.length, fun x hx => ?_, hnext, fun _ => le_rfl⟩
  rwa [take_length] at hx

theorem serves_end (hcursor : listing.length ≤ cursor) : Serves listing cursor [] 0 := by
  refine ⟨listing.length, fun x hx => ?_, Nat.zero_le _, fun _ => le_rfl⟩
  rw [take_length, drop_eq_nil_of_le hcursor] at hx
  exact hx

theorem Serves.map {β : Type} (f : α → β) (h : Serves listing cursor page next) :
    Serves (listing.map f) cursor (page.map f) next := by
  obtain ⟨stop, hpage, hle, hend⟩ := h
  refine ⟨stop, fun y hy => ?_, hle, fun hzero => (length_map f).trans_le (hend hzero)⟩
  rw [← map_take, ← map_drop] at hy
  obtain ⟨x, hx, rfl⟩ := mem_map.mp hy
  exact mem_map_of_mem (hpage x hx)

variable [DecidableEq α]

/-- **The last page.** An element that has not been passed over is on it. -/
theorem Serves.returns {x : α} (h : Serves listing cursor page 0) (hx : x ∈ listing)
    (hcursor : cursor ≤ listing.idxOf x) : x ∈ page := by
  obtain ⟨stop, hpage, -, hend⟩ := h
  refine hpage x ?_
  rw [take_of_length_le (hend rfl)]
  have hlt : listing.idxOf x < listing.length := idxOf_lt_length_iff.mpr hx
  have hat : (listing.drop cursor)[listing.idxOf x - cursor]? = some x := by
    rw [List.getElem?_drop, Nat.add_sub_cancel' hcursor, List.getElem?_eq_getElem hlt,
      getElem_idxOf hlt]
  exact mem_of_getElem? hat

theorem length_le_idxOf {r : α → α → Prop} (hr : ∀ a b, r a b → ¬ r b a)
    (hsorted : listing.Pairwise r) {x : α} (hx : x ∈ listing) {before : List α}
    (hnodup : before.Nodup) (hbefore : ∀ y ∈ before, y ∈ listing ∧ r y x) :
    before.length ≤ listing.idxOf x := by
  have hsub : before ⊆ listing.take (listing.idxOf x) := by
    intro y hy
    obtain ⟨hmem, hyx⟩ := hbefore y hy
    have hsplit := take_append_drop (listing.idxOf x) listing
    rw [← hsplit] at hmem
    refine (mem_append.mp hmem).resolve_right fun hlate => ?_
    -- behind `x`, or at its place, nothing is before it
    have hlt : listing.idxOf x < listing.length := idxOf_lt_length_iff.mpr hx
    rw [drop_eq_getElem_cons hlt, getElem_idxOf hlt] at hlate
    rcases mem_cons.mp hlate with rfl | hbehind
    · exact hr y y hyx hyx
    · have hx_front : x ∈ listing.take (listing.idxOf x + 1) := by
        rw [take_succ_eq_append_getElem hlt, getElem_idxOf hlt]
        exact mem_append_right _ mem_cons_self
      rw [← take_append_drop (listing.idxOf x + 1) listing] at hsorted
      exact hr y x hyx ((pairwise_append.mp hsorted).2.2 x hx_front y hbehind)
  calc before.length ≤ (listing.take (listing.idxOf x)).length := (hnodup.subperm hsub).length_le
    _ ≤ listing.idxOf x := length_take_le _ _

end ValkeyRs.Paging
