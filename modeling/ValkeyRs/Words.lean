/-
Words between separators.

The words of a list are its longest parts without a separator, the empty ones left out. So they do
not change when separators are dropped at either end, they are put together when lists are put
together with a separator between them (`words_append_cons`), and so are those of any number of
pieces that are joined by a separator (`words_intercalate`).
-/
import Mathlib

set_option autoImplicit false

open List

namespace ValkeyRs.Words

variable {α : Type} {p : α → Bool}

def words (p : α → Bool) (l : List α) : List (List α) := (l.splitOnP p).filter (· ≠ [])

@[simp] theorem words_nil : words p [] = [] := by simp [words]

theorem not_sep_of_mem_splitOnP {l w : List α} (hw : w ∈ l.splitOnP p) : ∀ a ∈ w, p a = false := by
  induction l generalizing w with
  | nil =>
    rw [splitOnP_nil, mem_singleton] at hw
    simp [hw]
  | cons a l ih =>
    rw [splitOnP_cons_eq_if_modifyHead] at hw
    by_cases ha : p a = true
    · rw [if_pos ha, mem_cons] at hw
      rcases hw with rfl | hw
      · simp
      · exact ih hw
    · rw [if_neg ha] at hw
      -- the first part of the rest is the one that `a` is put in front of
      cases hsplit : l.splitOnP p with
      | nil => simp [hsplit] at hw
      | cons w' ws =>
        rw [hsplit, modifyHead_cons, mem_cons] at hw
        rcases hw with rfl | hw
        · intro b hb
          rcases mem_cons.mp hb with rfl | hb
          · exact Bool.eq_false_iff.mpr ha
          · exact ih (by rw [hsplit]; exact mem_cons_self) b hb
        · exact ih (by rw [hsplit]; exact mem_cons_of_mem _ hw)

/-- A list that is a word. -/
structure Word (p : α → Bool) (w : List α) : Prop where
  ne_nil : w ≠ []
  no_sep : ∀ a ∈ w, p a = false

theorem word_of_mem_words {l w : List α} (hw : w ∈ words p l) : Word p w := by
  obtain ⟨hmem, hne⟩ := List.mem_filter.mp hw
  exact ⟨of_decide_eq_true hne, not_sep_of_mem_splitOnP hmem⟩

theorem words_append_cons (l l' : List α) {sep : α} (hsep : p sep = true) :
    words p (l ++ sep :: l') = words p l ++ words p l' := by
  rw [words, splitOnP_append_cons _ _ hsep, filter_append]
  rfl

theorem words_cons_sep (l : List α) {sep : α} (hsep : p sep = true) :
    words p (sep :: l) = words p l := words_append_cons [] l hsep

theorem words_append_sep (l : List α) {sep : α} (hsep : p sep = true) :
    words p (l ++ [sep]) = words p l := by
  rw [words_append_cons l [] hsep, words_nil, append_nil]

theorem words_of_no_sep {l : List α} (h : ∀ a ∈ l, p a = false) :
    words p l = [l].filter (· ≠ []) := by
  rw [words, splitOnP_eq_singleton h]

theorem words_of_word {w : List α} (hw : Word p w) : words p w = [w] := by
  rw [words_of_no_sep hw.no_sep]
  simp [hw.ne_nil]

theorem exists_words_cons {a : α} (ha : p a = false) (l : List α) :
    ∃ w ws, words p (a :: l) = (a :: w) :: ws := by
  unfold words
  rw [splitOnP_cons_eq_if_modifyHead, if_neg (Bool.eq_false_iff.mp ha)]
  cases hsplit : l.splitOnP p with
  | nil => exact absurd hsplit (splitOnP_ne_nil p l)
  | cons w ws => exact ⟨w, ws.filter (· ≠ []), by simp⟩

theorem words_dropWhile (l : List α) : words p (l.dropWhile p) = words p l := by
  induction l with
  | nil => rfl
  | cons a l ih =>
    by_cases ha : p a = true
    · rw [dropWhile_cons_of_pos ha, ih, words_cons_sep l ha]
    · rw [dropWhile_cons_of_neg ha]

theorem words_rdropWhile (l : List α) : words p (l.rdropWhile p) = words p l := by
  induction l using List.reverseRecOn with
  | nil => rfl
  | append_singleton l a ih =>
    by_cases ha : p a = true
    · rw [rdropWhile_concat_pos p l a ha, ih, words_append_sep l ha]
    · rw [rdropWhile_concat_neg p l a ha]

theorem words_intercalate {sep : α} (hsep : p sep = true) (pieces : List (List α)) :
    words p ([sep].intercalate pieces) = pieces.flatMap (words p) := by
  induction pieces with
  | nil => simp
  | cons w pieces ih =>
    cases pieces with
    | nil => simp
    | cons w' rest =>
      rw [intercalate_cons_cons, append_assoc, singleton_append,
        words_append_cons _ _ hsep, ih]
      rfl

theorem mem_intercalate {sep a : α} {pieces : List (List α)} (h : a ∈ [sep].intercalate pieces) :
    a = sep ∨ ∃ w ∈ pieces, a ∈ w := by
  induction pieces with
  | nil => simp at h
  | cons w pieces ih =>
    cases pieces with
    | nil => exact .inr ⟨w, mem_cons_self, by simpa using h⟩
    | cons w' rest =>
      rw [intercalate_cons_cons, append_assoc, mem_append, singleton_append,
        mem_cons] at h
      rcases h with hw | hsep | hrest
      · exact .inr ⟨w, mem_cons_self, hw⟩
      · exact .inl hsep
      · rcases ih hrest with hsep | ⟨v, hv, ha⟩
        · exact .inl hsep
        · exact .inr ⟨v, mem_cons_of_mem _ hv, ha⟩

/-! ## Lines -/

theorem splitOn_flatMap_concat [DecidableEq α] {sep : α} {lines : List (List α)}
    (h : ∀ l ∈ lines, sep ∉ l) :
    (lines.flatMap fun l => l ++ [sep]).splitOn sep = lines ++ [[]] := by
  induction lines with
  | nil => simp
  | cons l lines ih =>
    rw [flatMap_cons, append_assoc, singleton_append,
      splitOn_append_cons_self_of_not_mem (h l mem_cons_self),
      ih fun v hv => h v (mem_cons_of_mem _ hv)]
    rfl

end ValkeyRs.Words
