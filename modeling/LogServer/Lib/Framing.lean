import Mathlib

/-!
# Delimited frames

A stream of symbols in which a separator ends a frame.  `frames sep s` are the frames that end in
`s`, without their separators, and `remainder sep s` is what follows the last separator.

* `framing_induction` is the induction rule: a stream without a separator, or a frame, its
  separator, and a stream.
* `frames_append` and `remainder_append` say how a stream that arrives in parts is read: the frames
  of the second part are those of what remained of the first part followed by the second.
-/

universe u

namespace Framing

variable {α : Type u} [DecidableEq α] {sep : α} {s t x y : List α}

def frames (sep : α) (s : List α) : List (List α) := (s.splitOn sep).dropLast

def remainder (sep : α) (s : List α) : List α :=
  (s.splitOn sep).getLast (List.splitOn_ne_nil sep s)

/-- **Induction on the frames of a stream.** -/
theorem framing_induction (sep : α) {P : List α → Prop} (last : ∀ s, sep ∉ s → P s)
    (frame : ∀ x y, sep ∉ x → P y → P (x ++ sep :: y)) (s : List α) : P s := by
  induction hn : s.length using Nat.strongRecOn generalizing s with
  | ind n ih =>
      by_cases hmem : sep ∈ s
      · obtain ⟨x, y, rfl, hx⟩ := List.eq_append_cons_of_mem hmem
        refine frame x y hx (ih y.length ?_ y rfl)
        rw [← hn, List.length_append, List.length_cons]
        omega
      · exact last s hmem

/-- The place of the first separator. -/
theorem idxOf?_append_cons (h : sep ∉ x) : (x ++ sep :: y).idxOf? sep = some x.length := by
  induction x with
  | nil => simp [List.idxOf?_cons]
  | cons a x ih =>
      rw [List.mem_cons, not_or] at h
      have hne : (a == sep) = false := beq_eq_false_iff_ne.mpr (Ne.symm h.1)
      rw [List.cons_append, List.idxOf?_cons, hne, ih h.2]
      rfl

/-! ## The frames of a stream -/

theorem frames_of_notMem (h : sep ∉ s) : frames sep s = [] := by
  rw [frames, List.splitOn_eq_singleton h]
  rfl

theorem remainder_of_notMem (h : sep ∉ s) : remainder sep s = s := by
  simp only [remainder, List.splitOn_eq_singleton h, List.getLast_singleton]

theorem frames_append_cons (h : sep ∉ x) : frames sep (x ++ sep :: y) = x :: frames sep y := by
  rw [frames, List.splitOn_append_cons_self_of_not_mem h,
    List.dropLast_cons_of_ne_nil (List.splitOn_ne_nil sep y)]
  rfl

theorem remainder_append_cons (h : sep ∉ x) :
    remainder sep (x ++ sep :: y) = remainder sep y := by
  simp only [remainder, List.splitOn_append_cons_self_of_not_mem h,
    List.getLast_cons (List.splitOn_ne_nil sep y)]

theorem notMem_remainder (sep : α) (s : List α) : sep ∉ remainder sep s := by
  induction s using framing_induction sep with
  | last s hs => rwa [remainder_of_notMem hs]
  | frame x y hx ih => rwa [remainder_append_cons hx]

/-- **The frames of a stream that arrives in two parts.** -/
theorem frames_append (s t : List α) :
    frames sep (s ++ t) = frames sep s ++ frames sep (remainder sep s ++ t) := by
  induction s using framing_induction sep with
  | last s hs => rw [frames_of_notMem hs, remainder_of_notMem hs, List.nil_append]
  | frame x y hx ih =>
      rw [List.append_assoc, List.cons_append, frames_append_cons hx, frames_append_cons hx,
        remainder_append_cons hx, ih, List.cons_append]

/-- **What remains of a stream that arrives in two parts.** -/
theorem remainder_append (s t : List α) :
    remainder sep (s ++ t) = remainder sep (remainder sep s ++ t) := by
  induction s using framing_induction sep with
  | last s hs => rw [remainder_of_notMem hs]
  | frame x y hx ih =>
      rw [List.append_assoc, List.cons_append, remainder_append_cons hx, remainder_append_cons hx,
        ih]

/-- The remainder is the end of the stream. -/
theorem remainder_suffix (sep : α) (s : List α) : remainder sep s <:+ s := by
  induction s using framing_induction sep with
  | last s hs => rw [remainder_of_notMem hs]
  | frame x y hx ih =>
      rw [remainder_append_cons hx]
      exact ih.trans ((List.suffix_cons sep y).trans (List.suffix_append x _))

/-- A text without separators that ends a stream lies in the remainder. -/
theorem suffix_remainder (hs : t <:+ s) (ht : sep ∉ t) : t <:+ remainder sep s := by
  obtain ⟨p, rfl⟩ := hs
  have hmem : sep ∉ remainder sep p ++ t := by
    rw [List.mem_append, not_or]
    exact ⟨notMem_remainder sep p, ht⟩
  rw [remainder_append, remainder_of_notMem hmem]
  exact List.suffix_append _ t

/-- **The frames of the end of a stream** are ends of frames of the stream. -/
theorem sublistForall₂_frames (h : t <:+ s) :
    List.SublistForall₂ (· <:+ ·) (frames sep t) (frames sep s) := by
  obtain ⟨p, rfl⟩ := h
  have hlast : List.SublistForall₂ (· <:+ ·) (frames sep t) (frames sep (remainder sep p ++ t)) := by
    by_cases hmem : sep ∈ t
    · obtain ⟨x, y, rfl, hx⟩ := List.eq_append_cons_of_mem hmem
      have hpx : sep ∉ remainder sep p ++ x := by
        rw [List.mem_append, not_or]
        exact ⟨notMem_remainder sep p, hx⟩
      rw [frames_append_cons hx, ← List.append_assoc, frames_append_cons hpx]
      exact .cons (List.suffix_append _ x) (refl _)
    · rw [frames_of_notMem hmem]
      exact .nil
  rw [frames_append]
  induction frames sep p with
  | nil => exact hlast
  | cons x frames ih => exact .cons_right ih

end Framing
