import Mathlib

/-!
# Words inside texts

Finding the first occurrence of a word, and the two arguments by which one shows that there is
no earlier one.

* A word cannot straddle a symbol it does not contain: `infix_append_cons`, `prefix_of_notMem`.
* `NoStart w u s` says that no occurrence of `w` *starts* inside `u` where `u` is followed by
  `s`.  It is what `find` has to pass over (`find_append`), and it follows from `w` not occurring
  in `u` if the last symbol of `u` cannot stand inside `w` (`NoStart.of_getLast`), or if `w` cannot
  overlap itself and `s` starts with it (`NoStart.of_unbordered`).
* `append_cons_inj` reads a text up to the first symbol outside a class in only one way.
-/

universe u

namespace Substring

variable {α : Type u}

/-! ## Delimiters -/

/-- There is only one way to read symbols of a class up to one outside of it, or to the end. -/
theorem append_inj_of_head {p : α → Prop} {u u' s s' : List α} (h : u ++ s = u' ++ s')
    (hu : ∀ x ∈ u, p x) (hu' : ∀ x ∈ u', p x) (hs : ∀ a ∈ s.head?, ¬p a)
    (hs' : ∀ a ∈ s'.head?, ¬p a) : u = u' ∧ s = s' := by
  induction u generalizing u' with
  | nil =>
      cases u' with
      | nil => exact ⟨rfl, h⟩
      | cons x u' =>
          rw [List.nil_append] at h
          exact absurd (hu' x List.mem_cons_self) (hs x (by rw [h]; rfl))
  | cons x u ih =>
      cases u' with
      | nil =>
          rw [List.nil_append] at h
          exact absurd (hu x List.mem_cons_self) (hs' x (by rw [← h]; rfl))
      | cons y u' =>
          obtain ⟨rfl, htail⟩ := List.cons.inj h
          rw [List.forall_mem_cons] at hu hu'
          obtain ⟨rfl, rfl⟩ := ih htail hu.2 hu'.2
          exact ⟨rfl, rfl⟩

/-- There is only one way to read symbols of a class up to one outside of it. -/
theorem append_cons_inj {p : α → Prop} {u u' s s' : List α} {a a' : α}
    (h : u ++ a :: s = u' ++ a' :: s') (hu : ∀ x ∈ u, p x) (hu' : ∀ x ∈ u', p x)
    (ha : ¬p a) (ha' : ¬p a') : u = u' ∧ a = a' ∧ s = s' := by
  obtain ⟨rfl, htail⟩ := append_inj_of_head h hu hu' (by simpa using ha) (by simpa using ha')
  exact ⟨rfl, List.cons.inj htail⟩

/-- Taking symbols of a class stops at the first symbol outside of it. -/
theorem takeWhile_append {p : α → Bool} {u s : List α} (hu : ∀ x ∈ u, p x = true)
    (hs : ∀ a ∈ s.head?, p a = false) : (u ++ s).takeWhile p = u := by
  rw [List.takeWhile_append_of_pos hu]
  cases s with
  | nil => simp
  | cons a s => rw [List.takeWhile_cons_of_neg (by simp [hs a rfl]), List.append_nil]

/-- What is taken from a text that begins with a symbol of a class, if at most `n` symbols of the class are
taken. -/
theorem exists_run {p : α → Bool} {t : List α} {n : Nat} (hn : 1 ≤ n) (h : ∃ a ∈ t.head?, p a = true) :
    ∃ u rest, t = u ++ rest ∧ 1 ≤ u.length ∧ u.length ≤ n ∧ (∀ a ∈ u, p a = true) ∧
      (u.length = n ∨ ∀ a ∈ rest.head?, p a = false) := by
  have hall : ∀ a ∈ t.takeWhile p, p a = true := fun a ha ↦ List.mem_takeWhile_imp ha
  have hpos : 1 ≤ (t.takeWhile p).length := by
    obtain ⟨a, ha, hp⟩ := h
    obtain ⟨s, rfl⟩ := List.head?_eq_some_iff.mp ha
    rw [List.takeWhile_cons_of_pos hp]
    simp
  rcases Nat.lt_or_ge n (t.takeWhile p).length with hlong | hshort
  · refine ⟨(t.takeWhile p).take n, (t.takeWhile p).drop n ++ t.dropWhile p, ?_, ?_,
      List.length_take_le _ _, fun a ha ↦ hall a (List.mem_of_mem_take ha), .inl ?_⟩
    · rw [← List.append_assoc, List.take_append_drop, List.takeWhile_append_dropWhile]
    · rw [List.length_take]
      omega
    · rw [List.length_take]
      omega
  · refine ⟨t.takeWhile p, t.dropWhile p, List.takeWhile_append_dropWhile.symm, hpos, hshort, hall,
      .inr fun a ha ↦ ?_⟩
    have hnot := List.head?_dropWhile_not p t
    rw [Option.mem_def.mp ha] at hnot
    simpa using hnot

/-- A symbol at the beginning of a text, if it is there. -/
theorem exists_opt (c : α) (t : List α) : ∃ l rest, t = l ++ rest ∧
    (l = [c] ∨ l = [] ∧ ∀ a ∈ rest.head?, a ≠ c) := by
  by_cases h : ∃ a ∈ t.head?, a = c
  · obtain ⟨a, ha, rfl⟩ := h
    obtain ⟨rest, rfl⟩ := List.head?_eq_some_iff.mp ha
    exact ⟨[a], rest, rfl, .inl rfl⟩
  · exact ⟨[], t, rfl, .inr ⟨rfl, fun a ha heq ↦ h ⟨a, ha, heq⟩⟩⟩

/-- A prefix without the delimiter ends before the delimiter. -/
theorem prefix_of_notMem {a : α} {u v x y : List α} (h : u ++ v = x ++ a :: y) (hu : a ∉ u) :
    u <+: x := by
  rcases List.append_eq_append_iff.mp h with ⟨c, rfl, -⟩ | ⟨c, rfl, hc⟩
  · exact List.prefix_append u c
  · cases c with
    | nil => simp
    | cons z c =>
        obtain ⟨rfl, -⟩ := List.cons.inj hc
        exact absurd (List.mem_append_right x List.mem_cons_self) hu

/-- A word does not straddle a symbol it does not contain. -/
theorem infix_append_cons {a : α} {w x y : List α} (ha : a ∉ w) (h : w <:+: x ++ a :: y) :
    w <:+: x ∨ w <:+: y := by
  obtain ⟨u, v, h⟩ := h
  rw [List.append_assoc] at h
  rcases List.append_eq_append_iff.mp h with ⟨c, rfl, hc⟩ | ⟨c, rfl, hc⟩
  · exact .inl ((prefix_of_notMem hc ha).isInfix.trans (List.suffix_append u c).isInfix)
  · cases c with
    | nil =>
        cases w with
        | nil => exact .inl (List.nil_infix)
        | cons z w =>
            obtain ⟨rfl, -⟩ := List.cons.inj hc
            exact absurd List.mem_cons_self ha
    | cons z c =>
        obtain ⟨rfl, hy⟩ := List.cons.inj hc
        exact .inr ⟨c, v, (List.append_assoc c w v).trans hy.symm⟩

/-- A word does not straddle two texts if the second one starts with a symbol it does not
contain. -/
theorem infix_append_of_head {w x y : List α} (hy : ∀ a ∈ y.head?, a ∉ w) (h : w <:+: x ++ y) :
    w <:+: x ∨ w <:+: y := by
  cases y with
  | nil => exact .inl (by simpa using h)
  | cons a y =>
      rcases infix_append_cons (hy a rfl) h with h | h
      · exact .inl h
      · exact .inr (h.trans (List.suffix_cons a y).isInfix)

/-- A word does not straddle two texts if the first one ends with a symbol it does not contain. -/
theorem infix_append_of_getLast {w x y : List α} (hx : ∀ a ∈ x.getLast?, a ∉ w)
    (h : w <:+: x ++ y) : w <:+: x ∨ w <:+: y := by
  rcases List.eq_nil_or_concat' x with rfl | ⟨x, a, rfl⟩
  · exact .inr h
  · rw [List.append_assoc] at h
    rcases infix_append_cons (hx a (by simp)) h with h | h
    · exact .inl (h.trans (List.prefix_append x [a]).isInfix)
    · exact .inr h

/-! ## Occurrences that start in a given stretch -/

/-- No occurrence of `w` starts inside `u` where `s` follows. -/
def NoStart (w u s : List α) : Prop := ∀ u₁ u₂, u = u₁ ++ u₂ → u₂ ≠ [] → ¬w <+: u₂ ++ s

/-- Nothing starts in an empty stretch. -/
theorem NoStart.nil {w s : List α} : NoStart w [] s := by
  intro u₁ u₂ h hne
  exact absurd (List.append_eq_nil_iff.mp h.symm).2 hne

/-- Nothing starts in two stretches, one after the other. -/
theorem NoStart.append {w u v s : List α} (hu : NoStart w u (v ++ s)) (hv : NoStart w v s) :
    NoStart w (u ++ v) s := by
  intro x y h hne
  rcases List.append_eq_append_iff.mp h with ⟨c, -, hc⟩ | ⟨c, hc, rfl⟩
  · exact hv c y hc hne
  · cases c with
    | nil => exact hv [] v rfl hne
    | cons a c =>
        rw [List.append_assoc]
        exact hu x (a :: c) hc (by simp)

/-- If `w` does not occur in `u`, nor has it the last symbol of `u` before its own last one, then
no occurrence of `w` starts inside `u`. -/
theorem NoStart.of_getLast {w u s : List α} (hw : ¬w <:+: u)
    (hlast : ∀ a ∈ u.getLast?, a ∉ w.dropLast) : NoStart w u s := by
  rintro u₁ u₂ rfl hne ⟨v, hv⟩
  rcases List.append_eq_append_iff.mp hv with ⟨c, rfl, -⟩ | ⟨c, rfl, -⟩
  · exact hw ⟨u₁, c, by simp⟩
  · cases c with
    | nil => exact hw ⟨u₁, [], by simp⟩
    | cons z c =>
        have hmem : u₂.getLast hne ∈ (u₂ ++ z :: c).dropLast := by
          rw [List.dropLast_append_of_ne_nil (by simp)]
          exact List.mem_append_left _ (List.getLast_mem hne)
        refine hlast (u₂.getLast hne) ?_ hmem
        rw [List.getLast?_append, List.getLast?_eq_some_getLast hne]
        rfl

/-- No proper suffix of `w` is a prefix of it, so two occurrences of `w` cannot overlap. -/
def Unbordered (w : List α) : Prop := ∀ v ∈ w.tails, v ≠ [] → v <+: w → v = w

instance [DecidableEq α] (w : List α) : Decidable (Unbordered w) :=
  inferInstanceAs (Decidable (∀ v ∈ w.tails, v ≠ [] → v <+: w → v = w))

/-- If `w` does not occur in `u` and cannot overlap itself, then before an occurrence of `w` none
starts inside `u`. -/
theorem NoStart.of_unbordered {w u s : List α} (hw : Unbordered w) (hu : ¬w <:+: u) :
    NoStart w u (w ++ s) := by
  rintro u₁ u₂ rfl hne ⟨v, hv⟩
  rcases List.append_eq_append_iff.mp hv with ⟨c, rfl, -⟩ | ⟨c, rfl, hc⟩
  · exact hu ⟨u₁, c, by simp⟩
  · -- The occurrence ends inside the one after `u`, and what it has there is a border of `w`.
    have hprefix : c <+: u₂ ++ c := List.prefix_of_prefix_length_le ⟨v, hc.symm⟩ ⟨s, rfl⟩ (by simp)
    cases c with
    | nil => exact hu ⟨u₁, [], by simp⟩
    | cons a c =>
        have heq := hw (a :: c) (by simp) (by simp) hprefix
        exact hne (List.self_eq_append_left.mp heq)

/-- A word that cannot overlap itself is not completed by a part of it. -/
theorem not_infix_append_of_unbordered {w u v : List α} (hw : Unbordered w) (hu : ¬w <:+: u)
    (hv : v <+: w) (hne : v ≠ w) : ¬w <:+: u ++ v := by
  have hlong : ∀ y z, v ≠ y ++ (w ++ z) := by
    rintro y z rfl
    have hlen := hv.length_le
    simp only [List.length_append] at hlen
    exact hne (hv.eq_of_length (by simp only [List.length_append]; omega))
  rintro ⟨x, y, h⟩
  rw [List.append_assoc] at h
  rcases List.append_eq_append_iff.mp h with ⟨c, rfl, hc⟩ | ⟨c, -, hc⟩
  · cases c with
    | nil => exact hlong [] y hc.symm
    | cons a c =>
        have hstart := NoStart.of_unbordered (s := []) hw hu x (a :: c) rfl (by simp)
        rw [List.append_nil] at hstart
        exact hstart (List.IsPrefix.trans ⟨y, hc⟩ ((List.prefix_append_right_inj (a :: c)).mpr hv))
  · exact hlong c y hc

/-- A word that cannot overlap itself stands in one place only, if it stands neither before that
place nor behind. -/
theorem eq_of_unbordered {w u s u' s' : List α} (hw : Unbordered w)
    (h : u ++ (w ++ s) = u' ++ (w ++ s')) (hu : ¬w <:+: u) (hs : ¬w <:+: s) : u' = u := by
  rcases List.append_eq_append_iff.mp h with ⟨c, rfl, hc⟩ | ⟨c, rfl, hc⟩
  · rcases List.append_eq_append_iff.mp hc with ⟨d, rfl, hd⟩ | ⟨d, rfl, hd⟩
    · exact absurd ⟨d, s', by rw [hd, List.append_assoc]⟩ hs
    · cases d with
      | nil => exact absurd ⟨[], s', by simpa using hd⟩ hs
      | cons a d =>
          have hprefix : a :: d <+: c ++ a :: d :=
            List.prefix_of_prefix_length_le ⟨s, hd.symm⟩ (List.prefix_append _ s') (by simp)
          have heq := hw (a :: d) (by simp) (by simp) hprefix
          rw [List.self_eq_append_left.mp heq, List.append_nil]
  · cases c with
    | nil => rw [List.append_nil]
    | cons a c =>
        exact absurd ⟨s', hc⟩ (NoStart.of_unbordered (s := s) hw hu u' (a :: c) rfl (by simp))

/-- A word that does not start in a stretch does not stand in it. -/
theorem NoStart.not_infix {w u s : List α} (hw : w ≠ []) (h : NoStart w u s) : ¬w <:+: u := by
  rintro ⟨x, y, rfl⟩
  exact h x (w ++ y) (List.append_assoc x w y) (List.append_ne_nil_of_left_ne_nil hw y)
    ⟨y ++ s, by simp⟩

variable [DecidableEq α]

/-! ## Finding a word -/

/-- The place of the first occurrence of a word in a text. -/
def find (w : List α) : List α → Option Nat
  | [] => if w = [] then some 0 else none
  | a :: t => if w <+: a :: t then some 0 else (find w t).map (· + 1)

/-- A word is not found exactly where it does not occur. -/
theorem find_eq_none {w t : List α} : find w t = none ↔ ¬w <:+: t := by
  induction t with
  | nil => simp [find]
  | cons a t ih =>
      rw [find, List.infix_cons_iff]
      split
      · rename_i h; simp [h]
      · rename_i h; simp [h, ih]

theorem find_of_prefix {w t : List α} (h : w <+: t) : find w t = some 0 := by
  cases t with
  | nil => simp [find, List.prefix_nil.mp h]
  | cons a t => rw [find, if_pos h]

/-- **The first occurrence.**  If none starts inside `u`, the first one after `u` is found. -/
theorem find_append {w u s : List α} (h : NoStart w u s) :
    find w (u ++ s) = (find w s).map (u.length + ·) := by
  induction u with
  | nil => simp
  | cons a u ih =>
      have htail : NoStart w u s := fun u₁ u₂ hu hne ↦ h (a :: u₁) u₂ (by rw [hu]; rfl) hne
      have hhead : ¬w <+: a :: (u ++ s) := h [] (a :: u) rfl (by simp)
      rw [List.cons_append, find, if_neg hhead, ih htail, Option.map_map]
      congr 1
      funext n
      simp only [Function.comp, List.length_cons]
      omega

/-- Where a word is found it stands, and none starts earlier. -/
theorem find_eq_some_iff {w t : List α} {i : Nat} : find w t = some i ↔
    ∃ u s, t = u ++ (w ++ s) ∧ u.length = i ∧ NoStart w u (w ++ s) := by
  constructor
  · intro h
    induction t generalizing i with
    | nil =>
        rw [find] at h
        split at h
        · rename_i hw
          exact ⟨[], [], by simp [hw], by simpa using h, .nil⟩
        · cases h
    | cons a t ih =>
        rw [find] at h
        split at h
        · rename_i hw
          obtain ⟨s, hs⟩ := hw
          exact ⟨[], s, hs.symm, by simpa using h, .nil⟩
        · rename_i hw
          obtain ⟨j, hj, rfl⟩ := Option.map_eq_some_iff.mp h
          obtain ⟨u, s, rfl, rfl, hstart⟩ := ih hj
          refine ⟨a :: u, s, rfl, rfl, ?_⟩
          intro u₁ u₂ hu hne
          cases u₁ with
          | nil =>
              rw [List.nil_append] at hu
              rw [← hu]
              exact hw
          | cons b u₁ => exact hstart u₁ u₂ (List.cons.inj hu).2 hne
  · rintro ⟨u, s, rfl, rfl, hstart⟩
    rw [find_append hstart, find_of_prefix (List.prefix_append w s)]
    rfl

/-- A text in which a word occurs, cut at its first occurrence. -/
theorem exists_first {w t : List α} (hw : w ≠ []) (h : w <:+: t) :
    ∃ u s, t = u ++ (w ++ s) ∧ ¬w <:+: u := by
  obtain ⟨i, hi⟩ := Option.ne_none_iff_exists'.mp fun hnone ↦ find_eq_none.mp hnone h
  obtain ⟨u, s, rfl, -, hstart⟩ := find_eq_some_iff.mp hi
  exact ⟨u, s, rfl, hstart.not_infix hw⟩

/-- The first occurrence, where the word cannot overlap itself. -/
theorem find_of_unbordered {w u s : List α} (hw : Unbordered w) (hu : ¬w <:+: u) :
    find w (u ++ (w ++ s)) = some u.length :=
  find_eq_some_iff.mpr ⟨u, s, rfl, rfl, .of_unbordered hw hu⟩

end Substring
