import LogServer.Lib.Regex

/-!
# What a search depends on

A search reports the leftmost match (`search_eq_some_iff`), and it fails exactly where nothing
matches (`search_eq_none_iff`).  If matches begin with a symbol they do not hold again, another
occurrence of the symbol separates what is before it from what is behind
(`Re.OpenedBy.leftmost_append_iff`).

Beyond that, what an expression does at a place depends on little of the text around it.

* Of the text before, on what the assertions see of its last symbol: `run_congr_behind`.
* Of the text after, on nothing beyond a symbol that no class of the expression accepts:
  `run_congr_ahead`.

Together they give `search_groups_congr`: between such a symbol and one with which no match
starts, a stretch in which nothing starts to match can be exchanged for another one.
-/

universe u v

namespace Regex

variable {α : Type u} {γ : Type v} {r q : Re α γ}

/-! ## The leftmost match -/

section leftmost

variable {b s t u w : List α} {m : Caps α γ} {x : Found α γ}

/-- The expression matches somewhere in a text. -/
def Re.Occurs (r : Re α γ) (s : List α) : Prop :=
  ∃ u w t m, s = u ++ (w ++ t) ∧ Matches r u.reverse w t m

/-- Nothing matches from a place of `u` on, where `u` begins the text and `s` follows. -/
def Re.Passes (r : Re α γ) (u s : List α) : Prop :=
  ∀ u₁ u₂ w t m, u = u₁ ++ u₂ → u₂ ≠ [] → u₂ ++ s = w ++ t → ¬Matches r u₁.reverse w t m

/-- A search fails exactly where nothing matches. -/
theorem search_eq_none_iff : r.search s = none ↔ ¬r.Occurs s := by
  constructor
  · rintro h ⟨u, w, t, m, rfl, hm⟩
    suffices hall : ∀ b, Matches r (u.reverse ++ b) w t m → r.searchFrom b (u ++ (w ++ t)) ≠ none from
      hall [] (by simpa using hm) h
    clear h hm
    induction u with
    | nil =>
        intro b hm h
        have hfirst : r.first b (w ++ t) ≠ none := fun hnone ↦
          first_eq_none.mp hnone w t m rfl (by simpa using hm)
        obtain ⟨x, hx⟩ := Option.ne_none_iff_exists'.mp hfirst
        rw [List.nil_append, searchFrom_of_first hx] at h
        cases h
    | cons a u ih =>
        intro b hm h
        rw [List.cons_append, Re.searchFrom, Option.or_eq_none_iff] at h
        exact ih (a :: b) (by simpa using hm) h.2
  · exact fun h ↦ search_eq_none fun u w t m hs hm ↦ h ⟨u, w, t, m, hs, hm⟩

theorem searchFrom_eq_some_iff : r.searchFrom b s = some x ↔ ∃ u t, s = u ++ t ∧
    (∀ u₁ u₂ w t' m, u = u₁ ++ u₂ → u₂ ≠ [] → u₂ ++ t = w ++ t' →
      ¬Matches r (u₁.reverse ++ b) w t' m) ∧ r.first (u.reverse ++ b) t = some x := by
  induction s generalizing b with
  | nil =>
      constructor
      · intro h
        refine ⟨[], [], rfl, fun u₁ u₂ w t' m hu hne ↦ ?_, h⟩
        exact absurd (List.append_eq_nil_iff.mp hu.symm).2 hne
      · rintro ⟨u, t, hs, -, h⟩
        obtain ⟨rfl, rfl⟩ := List.append_eq_nil_iff.mp hs.symm
        exact h
  | cons a s ih =>
      rw [Re.searchFrom, Option.or_eq_some_iff, ih]
      constructor
      · rintro (h | ⟨hnone, u, t, rfl, hpass, h⟩)
        · refine ⟨[], a :: s, rfl, fun u₁ u₂ w t' m hu hne ↦ ?_, h⟩
          exact absurd (List.append_eq_nil_iff.mp hu.symm).2 hne
        · refine ⟨a :: u, t, rfl, ?_, by simpa using h⟩
          intro u₁ u₂ w t' m hu hne heq
          cases u₁ with
          | nil =>
              refine first_eq_none.mp hnone w t' m ?_
              rw [← heq, ← List.cons_append, hu, List.nil_append]
          | cons c u₁ =>
              obtain ⟨rfl, rfl⟩ := List.cons.inj hu
              simpa using hpass u₁ u₂ w t' m rfl hne heq
      · rintro ⟨u, t, hs, hpass, h⟩
        cases u with
        | nil =>
            rw [List.nil_append] at hs
            exact .inl (hs ▸ h)
        | cons c u =>
            obtain ⟨rfl, rfl⟩ := List.cons.inj hs
            refine .inr ⟨first_eq_none.mpr fun w t' m heq ↦ ?_, u, t, rfl, ?_, by simpa using h⟩
            · exact hpass [] (a :: u) w t' m rfl (by simp) heq
            · intro u₁ u₂ w t' m hu hne heq
              simpa using hpass (a :: u₁) u₂ w t' m (by rw [hu]; rfl) hne heq

/-- **A search reports the leftmost match.** -/
theorem search_eq_some_iff : r.search s = some x ↔
    ∃ u t, s = u ++ t ∧ r.Passes u t ∧ r.first u.reverse t = some x := by
  simpa only [Re.Passes, Re.search, List.append_nil] using
    searchFrom_eq_some_iff (r := r) (b := []) (s := s) (x := x)

/-- What a search reports does not lie behind another match. -/
theorem search_passes (h : r.search s = some x) : r.Passes x.before (x.word ++ x.after) := by
  obtain ⟨u, t, -, hpass, hfirst⟩ := search_eq_some_iff.mp h
  obtain ⟨hbefore, rfl, -⟩ := first_sound hfirst
  rwa [hbefore, List.reverse_reverse]

/-- What a search reports is what the engine finds at its place. -/
theorem search_first (h : r.search s = some x) :
    r.first x.before.reverse (x.word ++ x.after) = some x := by
  obtain ⟨u, t, -, -, hfirst⟩ := search_eq_some_iff.mp h
  obtain ⟨hbefore, rfl, -⟩ := first_sound hfirst
  rwa [hbefore, List.reverse_reverse]

/-- A match at the leftmost place that has one. -/
structure Re.Leftmost (r : Re α γ) (s : List α) (x : Found α γ) : Prop where
  eq : s = x.before ++ (x.word ++ x.after)
  matched : Matches r x.before.reverse x.word x.after x.groups
  passes : r.Passes x.before (x.word ++ x.after)

theorem search_leftmost (h : r.search s = some x) : r.Leftmost s x :=
  ⟨(search_sound h).1, (search_sound h).2, search_passes h⟩

/-- Where something matches, there is a leftmost match. -/
theorem occurs_iff_leftmost : r.Occurs s ↔ ∃ x, r.Leftmost s x := by
  constructor
  · intro h
    obtain ⟨x, hx⟩ := Option.ne_none_iff_exists'.mp fun hnone ↦ search_eq_none_iff.mp hnone h
    exact ⟨x, search_leftmost hx⟩
  · rintro ⟨x, hx⟩
    exact ⟨x.before, x.word, x.after, x.groups, hx.eq, hx.matched⟩

/-- At no place there are two ways to match. -/
def Re.Unambiguous (r : Re α γ) : Prop := ∀ b w t m w' t' m', Matches r b w t m →
  Matches r b w' t' m' → w ++ t = w' ++ t' → w' = w ∧ m' = m

/-- The leftmost match of an unambiguous expression is what a search reports. -/
theorem search_of_leftmost (hr : r.Unambiguous) (h : r.Leftmost s x) : r.search s = some x := by
  refine search_eq_some_iff.mpr ⟨x.before, _, h.eq, h.passes, ?_⟩
  have hhead := head_run_of_unique h.matched fun w' t' m' heq hm ↦
    hr _ _ _ _ _ _ _ h.matched hm heq
  rw [first_of_head hhead, List.reverse_reverse]

/-- A reading of a text at the first place that has one: what is read there depends on the text before and
behind. -/
def FirstPlace {ε : Type*} (reads : List α → List α → ε → Prop) (s : List α) (e : ε) : Prop :=
  ∃ u t, s = u ++ t ∧ reads u t e ∧
    ∀ u₁ u₂ e', u = u₁ ++ u₂ → u₂ ≠ [] → ¬reads u₁ (u₂ ++ t) e'

/-- No place of a text has a reading. -/
def NoPlace {ε : Type*} (reads : List α → List α → ε → Prop) (s : List α) : Prop :=
  ∀ u t e, s = u ++ t → ¬reads u t e

section reads

variable {ε : Type*} {f : Found α γ → ε} {reads : List α → List α → ε → Prop}
  (h : ∀ u t e, (r.first u.reverse t).map f = some e ↔ reads u t e)

include h

/-- Where the engine matches there is a reading. -/
theorem exists_reads_of_matches {t' : List α} (hm : Matches r u.reverse w t' m) :
    ∃ e, reads u (w ++ t') e := by
  obtain ⟨x, hx⟩ := Option.ne_none_iff_exists'.mp fun hnone ↦
    first_eq_none.mp hnone w t' m rfl hm
  exact ⟨f x, (h u (w ++ t') (f x)).mp (congrArg (Option.map f) hx)⟩

/-- **A search reads at the first place**, if the engine reads at every place what there is. -/
theorem search_reads_iff {e : ε} : (r.search s).map f = some e ↔ FirstPlace reads s e := by
  constructor
  · intro hsearch
    obtain ⟨x, hx, hf⟩ := Option.map_eq_some_iff.mp hsearch
    obtain ⟨u, t, rfl, hpass, hfirst⟩ := search_eq_some_iff.mp hx
    refine ⟨u, t, rfl, (h u t e).mp (hf ▸ congrArg (Option.map f) hfirst), ?_⟩
    intro u₁ u₂ e' hu hne hreads
    obtain ⟨y, hy, -⟩ := Option.map_eq_some_iff.mp ((h _ _ _).mpr hreads)
    obtain ⟨-, heq, hm⟩ := first_sound hy
    exact hpass u₁ u₂ _ _ _ hu hne heq hm
  · rintro ⟨u, t, rfl, hreads, hnone⟩
    obtain ⟨x, hx, hf⟩ := Option.map_eq_some_iff.mp ((h u t e).mpr hreads)
    refine Option.map_eq_some_iff.mpr ⟨x, search_eq_some_iff.mpr ⟨u, t, rfl, ?_, hx⟩, hf⟩
    intro u₁ u₂ w t' m hu hne heq hm
    obtain ⟨e', hreads'⟩ := exists_reads_of_matches h hm
    exact hnone u₁ u₂ e' hu hne (heq ▸ hreads')

/-- A search finds nothing if no place has a reading. -/
theorem search_reads_none_iff : r.search s = none ↔ NoPlace reads s := by
  rw [search_eq_none_iff]
  constructor
  · rintro hnone u t e rfl hreads
    obtain ⟨x, hx, -⟩ := Option.map_eq_some_iff.mp ((h u t e).mpr hreads)
    obtain ⟨-, rfl, hm⟩ := first_sound hx
    exact hnone ⟨u, _, _, _, rfl, hm⟩
  · rintro hnone ⟨u, w, t, m, rfl, hm⟩
    obtain ⟨e, hreads⟩ := exists_reads_of_matches h hm
    exact hnone u _ e rfl hreads

end reads

end leftmost

/-! ## Matches opened by a symbol

A match that begins with a symbol it does not hold again lies on one side of any other occurrence
of the symbol. -/

section opened

variable {c : α} {u s w t : List α} {m : Caps α γ}

/-- Matches begin with `c`, hold it nowhere else, and are not disturbed by one behind. -/
structure Re.OpenedBy (c : α) (r : Re α γ) : Prop where
  head : ∀ {b w t m}, Matches r b w t m → ∃ v, w = c :: v ∧ c ∉ v
  ext : ∀ {b w t s m}, Matches r b w (t ++ c :: s) m ↔ Matches r b w t m

/-- What begins with the symbol before another one ends before it. -/
theorem exists_append_of_opened {v y : List α} (hv : v ≠ []) (hy : c ∉ y)
    (h : v ++ c :: s = (c :: y) ++ t) : ∃ t₀, v = (c :: y) ++ t₀ ∧ t = t₀ ++ c :: s := by
  rcases List.append_eq_append_iff.mp h with ⟨z, hz, hs⟩ | ⟨z, rfl, ht⟩
  · cases z with
    | nil => exact ⟨[], by simpa using hz.symm, by simpa using hs.symm⟩
    | cons a z =>
        obtain ⟨rfl, -⟩ := List.cons.inj hs
        obtain ⟨b, v, rfl⟩ := List.exists_cons_of_ne_nil hv
        exact absurd ((List.cons.inj hz).2 ▸ by simp) hy
  · exact ⟨z, rfl, ht⟩

/-- Before the symbol a search passes over what does not match on its own. -/
theorem Re.OpenedBy.passes_iff (hr : r.OpenedBy c) : r.Passes u (c :: s) ↔ ¬r.Occurs u := by
  constructor
  · rintro h ⟨x, w, t, m, rfl, hm⟩
    obtain ⟨v, rfl, -⟩ := hr.head hm
    exact h x _ _ (t ++ c :: s) m rfl (by simp) (by simp) (hr.ext.mpr hm)
  · rintro h u₁ u₂ w t m rfl hne heq hm
    obtain ⟨v, rfl, hv⟩ := hr.head hm
    obtain ⟨t₀, rfl, rfl⟩ := exists_append_of_opened hne hv heq
    exact h ⟨u₁, _, t₀, m, rfl, hr.ext.mp hm⟩

/-- **Behind a text, the symbol without a match of its own adds nothing to what is found.** -/
theorem Re.OpenedBy.leftmost_append_iff (hr : r.OpenedBy c) (hs : c ∉ s)
    (hnone : ∀ w t m, c :: s = w ++ t → ¬Matches r u.reverse w t m) {g : Caps α γ} :
    (∃ x, r.Leftmost (u ++ c :: s) x ∧ x.groups = g) ↔ ∃ x, r.Leftmost u x ∧ x.groups = g := by
  constructor
  · rintro ⟨⟨x, w, t, m⟩, ⟨heq, hm, hpass⟩, rfl⟩
    dsimp only at heq hm hpass
    obtain ⟨v, rfl, hv⟩ := hr.head hm
    rcases List.append_eq_append_iff.mp heq with ⟨z, rfl, hz⟩ | ⟨z, rfl, hz⟩
    · cases z with
      | nil => exact absurd (by simpa using hm) (hnone _ t m (by simpa using hz))
      | cons a z =>
          have htail := (List.cons.inj hz).2
          exact absurd (by rw [htail]; simp) hs
    · cases z with
      | nil => exact absurd (by simpa using hm) (hnone _ t m (by simpa using hz.symm))
      | cons a z =>
          obtain ⟨t₀, hz₀, rfl⟩ := exists_append_of_opened (by simp) hv hz.symm
          refine ⟨⟨x, c :: v, t₀, m⟩, ⟨by rw [hz₀], hr.ext.mp hm, ?_⟩, rfl⟩
          intro u₁ u₂ w' t' m' hu hne heq' hm'
          refine hpass u₁ u₂ w' (t' ++ c :: s) m' hu hne ?_ (hr.ext.mpr hm')
          rw [← List.append_assoc w', ← heq']
          simp
  · rintro ⟨⟨x, w, t, m⟩, ⟨rfl, hm, hpass⟩, rfl⟩
    refine ⟨⟨x, w, t ++ c :: s, m⟩, ⟨by simp, hr.ext.mpr hm, ?_⟩, rfl⟩
    intro u₁ u₂ w' t' m' hu hne heq hm'
    obtain ⟨v, rfl, hv⟩ := hr.head hm'
    have heq' : (u₂ ++ (w ++ t)) ++ c :: s = (c :: v) ++ t' := by
      rw [← heq]
      simp
    obtain ⟨t₀, ht₀, rfl⟩ := exists_append_of_opened (by simp [hne]) hv heq'
    exact hpass u₁ u₂ _ t₀ m' hu hne ht₀ (hr.ext.mp hm')

theorem Re.OpenedBy.occurs_append_iff (hr : r.OpenedBy c) (hs : c ∉ s)
    (hnone : ∀ w t m, c :: s = w ++ t → ¬Matches r u.reverse w t m) :
    r.Occurs (u ++ c :: s) ↔ r.Occurs u := by
  rw [occurs_iff_leftmost, occurs_iff_leftmost]
  constructor
  · rintro ⟨x, hx⟩
    exact ((hr.leftmost_append_iff hs hnone).mp ⟨x, hx, rfl⟩).imp fun _ ↦ And.left
  · rintro ⟨x, hx⟩
    exact ((hr.leftmost_append_iff hs hnone).mpr ⟨x, hx, rfl⟩).imp fun _ ↦ And.left

end opened

/-! ## The text before -/

/-- The assertions of the expression see no difference between two texts before. -/
def Re.SeesAlike (b b' : List α) : Re α γ → Prop
  | .eps | .cls _ | .notAhead _ => True
  | .seq r q | .alt r q => r.SeesAlike b b' ∧ q.SeesAlike b b'
  | .star r | .group _ r => r.SeesAlike b b'
  | .notBehind p | .boundary p => b.head?.any p = b'.head?.any p

example (b b' : List α) : (Re.eps : Re α γ).SeesAlike b b' := by simp [Re.SeesAlike]

section behind

variable {b b' s s' w : List α}

/-- Of the text before, no more than the last symbol is seen. -/
theorem Re.SeesAlike.of_head (h : b.head? = b'.head?) : r.SeesAlike b b' := by
  induction r with
  | eps | cls p | notAhead p => trivial
  | seq r q ihr ihq | alt r q ihr ihq => exact ⟨ihr, ihq⟩
  | star r ih | group g r ih => exact ih
  | notBehind p | boundary p => exact congrArg (Option.any p) h

theorem Re.SeesAlike.append (h : r.SeesAlike b b') : r.SeesAlike (w ++ b) (w ++ b') := by
  cases w with
  | nil => exact h
  | cons a w => exact .of_head rfl

theorem runStar_congr_behind (hr : ∀ b b' s, r.SeesAlike b b' → r.run b s = r.run b' s) {n : ℕ}
    (h : r.SeesAlike b b') : runStar r.run n b s = runStar r.run n b' s := by
  induction n generalizing b b' s with
  | zero => rfl
  | succ n ih =>
      rw [runStar, runStar, hr b b' s h]
      congr 1
      apply List.flatMap_congr
      intro x _
      rw [ih h.append]

/-- **Of the text before, only what is seen of it matters.** -/
theorem run_congr_behind (h : r.SeesAlike b b') : r.run b s = r.run b' s := by
  induction r generalizing b b' s with
  | eps => rfl
  | cls p => cases s <;> rfl
  | seq r q ihr ihq =>
      rw [Re.run, Re.run, ihr h.1]
      apply List.flatMap_congr
      intro x _
      rw [ihq h.2.append]
  | alt r q ihr ihq => rw [Re.run, Re.run, ihr h.1, ihq h.2]
  | star r ih =>
      show runStar r.run _ b s = runStar r.run _ b' s
      exact runStar_congr_behind (fun _ _ _ h ↦ ih h) h
  | group g r ih => rw [Re.run, Re.run, ih h]
  | notAhead p => rfl
  | notBehind p | boundary p => rw [Re.run, Re.run, show b.head?.any p = b'.head?.any p from h]

theorem first_groups_congr_behind (h : r.SeesAlike b b') :
    (r.first b s).map (·.groups) = (r.first b' s).map (·.groups) := by
  rw [Re.first, Re.first, run_congr_behind h, Option.map_map, Option.map_map]
  rfl

/-- What a search finds further on does not depend on more of the text before. -/
theorem searchFrom_groups_congr_behind (h : r.SeesAlike b b') :
    (r.searchFrom b s).map (·.groups) = (r.searchFrom b' s).map (·.groups) := by
  induction s generalizing b b' with
  | nil => exact first_groups_congr_behind h
  | cons a s ih =>
      have hrest : r.SeesAlike (a :: b) (a :: b') := .of_head rfl
      rw [Re.searchFrom, Re.searchFrom, Option.map_or, Option.map_or, first_groups_congr_behind h,
        ih hrest]

/-- **A stretch in which nothing starts to match can be removed from the beginning of a text**, if the
assertions see no difference. -/
theorem search_groups_append (hw : Silent r w s) (h : r.SeesAlike w.reverse []) :
    (r.search (w ++ s)).map (·.groups) = (r.search s).map (·.groups) := by
  rw [search_skip hw]
  exact searchFrom_groups_congr_behind h

/-- Two searches that find the same groups both fail, or both succeed. -/
theorem search_cases [DecidableEq γ]
    (h : (r.search s).map (·.groups) = (r.search s').map (·.groups)) :
    r.search s = none ∧ r.search s' = none ∨
      ∃ x x', r.search s = some x ∧ r.search s' = some x' ∧ x.group = x'.group := by
  cases hx : r.search s with
  | none =>
      rw [hx, Option.map_none] at h
      exact .inl ⟨rfl, Option.map_eq_none_iff.mp h.symm⟩
  | some x =>
      rw [hx, Option.map_some] at h
      obtain ⟨x', hx', hgroups⟩ := Option.map_eq_some_iff.mp h.symm
      refine .inr ⟨x, x', rfl, hx', funext fun g ↦ ?_⟩
      rw [Found.group, Found.group, hgroups]

end behind

/-! ## The text after -/

/-- No class of the expression accepts `a`. -/
def Re.Avoids (a : α) : Re α γ → Prop
  | .eps => True
  | .cls p => p a = false
  | .seq r q | .alt r q => r.Avoids a ∧ q.Avoids a
  | .star r | .group _ r => r.Avoids a
  | .notAhead _ | .notBehind _ | .boundary _ => True

section ahead

variable {a : α}

/-- A symbol that no class accepts is in no match. -/
theorem notMem_of_avoids {b w t : List α} {m : Caps α γ} (h : Matches r b w t m)
    (ha : r.Avoids a) : a ∉ w := by
  induction h with
  | eps | notAhead _ | notBehind _ | boundary _ | starNil => simp
  | cls hp =>
      rintro hmem
      obtain rfl := List.mem_singleton.mp hmem
      exact Bool.false_ne_true (Eq.trans (Eq.symm ha) hp)
  | seq _ _ ihr ihq => simp [ihr ha.1, ihq ha.2]
  | altL _ ih => exact ih ha.1
  | altR _ ih => exact ih ha.2
  | starCons _ _ _ ihr ihs => simp [ihr ha, ihs ha]
  | group _ ih => exact ih ha

/-- What is found before such a symbol ends before it. -/
theorem drop_of_mem_run {b v t : List α} {x : List α × Caps α γ} (ha : r.Avoids a)
    (hx : x ∈ r.run b (v ++ a :: t)) : ∃ y, v = x.1 ++ y := by
  obtain ⟨t', heq, hm⟩ := mem_run.mp hx
  rcases List.append_eq_append_iff.mp heq with ⟨c, hc, ht⟩ | ⟨c, hc, -⟩
  · cases c with
    | nil => exact ⟨[], by simpa using hc.symm⟩
    | cons e c =>
        obtain ⟨rfl, -⟩ := List.cons.inj ht
        exact absurd (by simp [hc]) (notMem_of_avoids hm ha)
  · exact ⟨c, hc⟩

theorem head?_append_cons (v : List α) (t t' : List α) :
    (v ++ a :: t).head? = (v ++ a :: t').head? := by
  rw [List.head?_append, List.head?_append]
  rfl

/-- A repetition before such a symbol depends neither on what follows nor on its fuel. -/
theorem runStar_congr_ahead (ha : r.Avoids a)
    (hr : ∀ b v t t', r.run b (v ++ a :: t) = r.run b (v ++ a :: t')) {n n' : ℕ}
    {b v t t' : List α} (hn : v.length ≤ n) (hn' : v.length ≤ n') :
    runStar r.run n b (v ++ a :: t) = runStar r.run n' b (v ++ a :: t') := by
  -- With nothing left before the symbol there is no iteration that reads anything.
  have hnil : ∀ n b t, runStar r.run n b (a :: t) = [([], [])] := by
    intro n b t
    cases n with
    | zero => rfl
    | succ n =>
        have hempty : (r.run b (a :: t)).filter (fun x ↦ !x.1.isEmpty) = [] := by
          rw [List.filter_eq_nil_iff]
          intro x hx
          obtain ⟨y, hy⟩ := drop_of_mem_run (v := []) ha hx
          simp [(List.append_eq_nil_iff.mp hy.symm).1]
        rw [runStar, hempty]
        rfl
  induction n generalizing n' b v with
  | zero =>
      obtain rfl : v = [] := List.eq_nil_of_length_eq_zero (Nat.le_zero.mp hn)
      rw [List.nil_append, List.nil_append, hnil, hnil]
  | succ n ih =>
      cases v with
      | nil => rw [List.nil_append, List.nil_append, hnil, hnil]
      | cons e v =>
          rw [List.length_cons] at hn hn'
          obtain ⟨k, rfl⟩ := Nat.exists_eq_add_one.mpr (Nat.lt_of_lt_of_le (Nat.succ_pos _) hn')
          rw [runStar, runStar, hr b (e :: v) t t']
          congr 1
          apply List.flatMap_congr
          intro x hx
          obtain ⟨hmem, hne⟩ := List.mem_filter.mp hx
          obtain ⟨y, hy⟩ := drop_of_mem_run ha hmem
          have hlen : y.length ≤ v.length := by
            have hpos := List.length_pos_iff.mpr (show x.1 ≠ [] by simpa using hne)
            have hsum := congrArg List.length hy
            rw [List.length_cons, List.length_append] at hsum
            omega
          have hdrop : ∀ t, ((e :: v) ++ a :: t).drop x.1.length = y ++ a :: t := fun t ↦ by
            rw [hy, List.append_assoc, List.drop_left]
          rw [hdrop, hdrop, @ih k _ y (by omega) (by omega)]

/-- **Beyond a symbol that no class accepts, the text after does not matter.** -/
theorem run_congr_ahead (ha : r.Avoids a) (b v t t' : List α) :
    r.run b (v ++ a :: t) = r.run b (v ++ a :: t') := by
  induction r generalizing b v t t' with
  | eps => rfl
  | cls p => cases v <;> rfl
  | seq r q ihr ihq =>
      rw [Re.run, Re.run, ihr ha.1]
      apply List.flatMap_congr
      intro x hx
      obtain ⟨y, rfl⟩ := drop_of_mem_run ha.1 hx
      rw [List.append_assoc, List.append_assoc, List.drop_left, List.drop_left, ihq ha.2]
  | alt r q ihr ihq => rw [Re.run, Re.run, ihr ha.1, ihq ha.2]
  | star r ih =>
      show runStar r.run _ b (v ++ a :: t) = runStar r.run _ b (v ++ a :: t')
      exact runStar_congr_ahead (r := r) ha (fun b v t t' ↦ ih ha b v t t') (by simp) (by simp)
  | group g r ih => rw [Re.run, Re.run, ih ha]
  | notAhead p => rw [Re.run, Re.run, head?_append_cons v t t']
  | notBehind p => rfl
  | boundary p => rw [Re.run, Re.run, head?_append_cons v t t']

end ahead

/-! ## Exchanging a stretch of text -/

theorem first_groups_congr_ahead {a : α} (ha : r.Avoids a) (b v t t' : List α) :
    (r.first b (v ++ a :: t)).map (·.groups) = (r.first b (v ++ a :: t')).map (·.groups) := by
  rw [Re.first, Re.first, run_congr_ahead ha b v t t', Option.map_map, Option.map_map]
  rfl

/-- Where there is a match before such a symbol, what follows it can be exchanged. -/
theorem search_groups_congr_of_first {a : α} {x y t₀ : List α} (ha : r.Avoids a)
    (h : r.first x.reverse (y ++ a :: t₀) ≠ none) (t t' : List α) :
    (r.search (x ++ (y ++ a :: t))).map (·.groups) =
      (r.search (x ++ (y ++ a :: t'))).map (·.groups) := by
  suffices hall : ∀ b, r.first (x.reverse ++ b) (y ++ a :: t₀) ≠ none →
      (r.searchFrom b (x ++ (y ++ a :: t))).map (·.groups) =
        (r.searchFrom b (x ++ (y ++ a :: t'))).map (·.groups) from
    hall [] (by simpa using h)
  clear h
  induction x with
  | nil =>
      intro b h
      have hfirst : ∀ t, r.first b (y ++ a :: t) ≠ none := by
        intro t hnone
        have hgroups := first_groups_congr_ahead ha b y t₀ t
        rw [hnone, Option.map_none, Option.map_eq_none_iff] at hgroups
        exact h hgroups
      obtain ⟨z, hz⟩ := Option.ne_none_iff_exists'.mp (hfirst t)
      obtain ⟨z', hz'⟩ := Option.ne_none_iff_exists'.mp (hfirst t')
      rw [List.nil_append, List.nil_append, searchFrom_of_first hz, searchFrom_of_first hz', ← hz,
        ← hz']
      exact first_groups_congr_ahead ha b y t t'
  | cons e x ih =>
      intro b h
      rw [List.cons_append, List.cons_append, Re.searchFrom, Re.searchFrom, Option.map_or,
        Option.map_or, ih (e :: b) (by simpa using h)]
      congr 1
      have hgroups := first_groups_congr_ahead ha b (e :: (x ++ y)) t t'
      simpa only [List.cons_append, List.append_assoc] using hgroups

/-- **A stretch in which nothing starts to match can be exchanged for another one**, if it stands
after a symbol that no class accepts and before one with which no match starts. -/
theorem search_groups_congr {a c : α} {u s s' t : List α} (ha : r.Avoids a)
    (hhead : ∀ b w t m, Matches r b w t m → ∃ e v, w = e :: v ∧ e ≠ c)
    (hs : SilentAt r (u ++ [a]).reverse s (c :: t)) (hs' : SilentAt r (u ++ [a]).reverse s' (c :: t)) :
    (r.search (u ++ a :: (s ++ c :: t))).map (·.groups) =
      (r.search (u ++ a :: (s' ++ c :: t))).map (·.groups) := by
  have hnone : ∀ (e : α) (b x : List α), (e = a ∨ e = c) → r.first b (e :: x) = none := by
    intro e b x he
    refine first_eq_none.mpr fun w t m heq hm ↦ ?_
    obtain ⟨d, v, rfl, hd⟩ := hhead b w t m hm
    obtain ⟨rfl, -⟩ := List.cons.inj heq
    rcases he with rfl | rfl
    · exact notMem_of_avoids hm ha List.mem_cons_self
    · exact hd rfl
  -- Behind the stretch only the symbol after it can be seen.
  have hlast : ∀ {s b}, SilentAt r b s (c :: t) →
      (r.searchFrom b (s ++ c :: t)).map (·.groups) = (r.searchFrom [c] t).map (·.groups) := by
    intro s b hs
    rw [searchFrom_pass hs, Re.searchFrom, hnone c _ t (.inr rfl), Option.none_or]
    exact searchFrom_groups_congr_behind (.of_head rfl)
  suffices h : ∀ b, SilentAt r ((u ++ [a]).reverse ++ b) s (c :: t) →
      SilentAt r ((u ++ [a]).reverse ++ b) s' (c :: t) →
      (r.searchFrom b (u ++ a :: (s ++ c :: t))).map (·.groups) =
        (r.searchFrom b (u ++ a :: (s' ++ c :: t))).map (·.groups) from
    h [] (by rwa [List.append_nil]) (by rwa [List.append_nil])
  clear hs hs'
  induction u with
  | nil =>
      intro b hs hs'
      rw [List.nil_append, List.nil_append, Re.searchFrom, Re.searchFrom, hnone a _ _ (.inl rfl),
        hnone a _ _ (.inl rfl), Option.none_or, Option.none_or]
      exact (hlast hs).trans (hlast hs').symm
  | cons e u ih =>
      intro b hs hs'
      have hbehind : ((e :: u) ++ [a]).reverse ++ b = (u ++ [a]).reverse ++ e :: b := by simp
      rw [hbehind] at hs hs'
      rw [List.cons_append, List.cons_append, Re.searchFrom, Re.searchFrom, Option.map_or,
        Option.map_or, ih (e :: b) hs hs']
      congr 1
      exact first_groups_congr_ahead ha b (e :: u) _ _

end Regex
