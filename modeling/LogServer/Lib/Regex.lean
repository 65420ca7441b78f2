import Mathlib

/-!
# Backtracking regular expressions

Regular expressions as a backtracking engine runs them: ordered alternatives, greedy
repetition, capture groups, one-symbol lookaround, and a search for the leftmost match.

The engine is `Re.run`: all the words an expression can match at a place of a text, **in the
order a backtracking matcher tries them**.  The match an engine reports is the first of them
(`first`), at the first place where there is one (`search`).

What can match at all, in whatever order, is the relation `Matches r b w t m`: the expression
`r` matches the word `w` standing between `b` (the text before it, last symbol first) and `t`
(the text after it), capturing `m`.  `mem_run` says that `run` enumerates exactly this relation.
Most facts about a search need only the relation: that nothing matches earlier, that what was
matched has a certain form.  The order matters only where a match is ambiguous, and there
`head_run_of_unique`, `head_run_seq` and `head_run_rep_cls` say which one comes first.

Symbols and group names are arbitrary types.
-/

universe u v

namespace Regex

/-- Regular expressions over symbols `α` with groups named by `γ`. -/
inductive Re (α : Type u) (γ : Type v) where
  /-- The empty word. -/
  | eps
  /-- One symbol of a class. -/
  | cls (p : α → Bool)
  /-- One expression after another. -/
  | seq (r s : Re α γ)
  /-- The first alternative, or else the second. -/
  | alt (r s : Re α γ)
  /-- Greedy repetition; an iteration must read something. -/
  | star (r : Re α γ)
  /-- A capture group. -/
  | group (g : γ) (r : Re α γ)
  /-- Negative lookahead at one symbol, `(?!p)`. -/
  | notAhead (p : α → Bool)
  /-- Negative lookbehind at one symbol, `(?<!p)`. -/
  | notBehind (p : α → Bool)
  /-- A boundary between symbols inside and outside a class, `\b`. -/
  | boundary (p : α → Bool)

/-- The groups captured, in the order they were closed. -/
abbrev Caps (α : Type u) (γ : Type v) := List (γ × List α)

variable {α : Type u} {γ : Type v}

namespace Re

/-- `r?`, trying `r` first. -/
def opt (r : Re α γ) : Re α γ := .alt r .eps

/-- `r+`. -/
def plus (r : Re α γ) : Re α γ := .seq r (.star r)

/-- `r{n}`. -/
def times (r : Re α γ) : Nat → Re α γ
  | 0 => .eps
  | n + 1 => .seq r (times r n)

/-- `r{0,n}`, greedily. -/
def upTo (r : Re α γ) : Nat → Re α γ
  | 0 => .eps
  | n + 1 => .alt (.seq r (upTo r n)) .eps

/-- `r{m,n}`, greedily. -/
def rep (r : Re α γ) (m n : Nat) : Re α γ := .seq (times r m) (upTo r (n - m))

/-- One given symbol. -/
def sym [DecidableEq α] (a : α) : Re α γ := .cls fun x ↦ x = a

/-- A given word. -/
def lit [DecidableEq α] : List α → Re α γ
  | [] => .eps
  | a :: w => .seq (sym a) (lit w)

end Re

/-! ## The relation -/

/-- `Matches r b w t m`: `r` matches `w` between `b` (reversed) and `t`, capturing `m`. -/
inductive Matches : Re α γ → List α → List α → List α → Caps α γ → Prop
  | eps {b t : List α} : Matches .eps b [] t []
  | cls {p : α → Bool} {a : α} {b t : List α} : p a = true → Matches (.cls p) b [a] t []
  | seq {r s : Re α γ} {b u v t : List α} {m m' : Caps α γ} :
      Matches r b u (v ++ t) m → Matches s (u.reverse ++ b) v t m' →
        Matches (.seq r s) b (u ++ v) t (m ++ m')
  | altL {r s : Re α γ} {b w t : List α} {m : Caps α γ} :
      Matches r b w t m → Matches (.alt r s) b w t m
  | altR {r s : Re α γ} {b w t : List α} {m : Caps α γ} :
      Matches s b w t m → Matches (.alt r s) b w t m
  | starNil {r : Re α γ} {b t : List α} : Matches (.star r) b [] t []
  | starCons {r : Re α γ} {b u v t : List α} {m m' : Caps α γ} : u ≠ [] →
      Matches r b u (v ++ t) m → Matches (.star r) (u.reverse ++ b) v t m' →
        Matches (.star r) b (u ++ v) t (m ++ m')
  | group {g : γ} {r : Re α γ} {b w t : List α} {m : Caps α γ} :
      Matches r b w t m → Matches (.group g r) b w t (m ++ [(g, w)])
  | notAhead {p : α → Bool} {b t : List α} : t.head?.any p = false →
      Matches (.notAhead p) b [] t []
  | notBehind {p : α → Bool} {b t : List α} : b.head?.any p = false →
      Matches (.notBehind p) b [] t []
  | boundary {p : α → Bool} {b t : List α} : b.head?.any p ≠ t.head?.any p →
      Matches (.boundary p) b [] t []

section inversion

variable {r s : Re α γ} {b w t : List α} {m : Caps α γ} {p : α → Bool}

@[simp] theorem matches_eps : Matches (.eps : Re α γ) b w t m ↔ w = [] ∧ m = [] := by
  constructor
  · rintro ⟨⟩; exact ⟨rfl, rfl⟩
  · rintro ⟨rfl, rfl⟩; exact .eps

@[simp] theorem matches_cls :
    Matches (.cls p : Re α γ) b w t m ↔ (∃ a, p a = true ∧ w = [a]) ∧ m = [] := by
  constructor
  · rintro ⟨⟩; exact ⟨⟨_, ‹_›, rfl⟩, rfl⟩
  · rintro ⟨⟨a, ha, rfl⟩, rfl⟩; exact .cls ha

theorem matches_seq : Matches (.seq r s) b w t m ↔
    ∃ u v m₁ m₂, w = u ++ v ∧ m = m₁ ++ m₂ ∧ Matches r b u (v ++ t) m₁ ∧
      Matches s (u.reverse ++ b) v t m₂ := by
  constructor
  · rintro ⟨⟩; exact ⟨_, _, _, _, rfl, rfl, ‹_›, ‹_›⟩
  · rintro ⟨u, v, m₁, m₂, rfl, rfl, hr, hs⟩; exact .seq hr hs

theorem matches_alt : Matches (.alt r s) b w t m ↔ Matches r b w t m ∨ Matches s b w t m := by
  constructor
  · rintro (_ | _)
    · exact .inl ‹_›
    · exact .inr ‹_›
  · rintro (h | h)
    · exact .altL h
    · exact .altR h

theorem matches_group {g : γ} : Matches (.group g r) b w t m ↔
    ∃ m', m = m' ++ [(g, w)] ∧ Matches r b w t m' := by
  constructor
  · rintro ⟨⟩; exact ⟨_, rfl, ‹_›⟩
  · rintro ⟨m', rfl, h⟩; exact .group h

@[simp] theorem matches_notAhead : Matches (.notAhead p : Re α γ) b w t m ↔
    w = [] ∧ m = [] ∧ t.head?.any p = false := by
  constructor
  · rintro ⟨⟩; exact ⟨rfl, rfl, ‹_›⟩
  · rintro ⟨rfl, rfl, h⟩; exact .notAhead h

@[simp] theorem matches_notBehind : Matches (.notBehind p : Re α γ) b w t m ↔
    w = [] ∧ m = [] ∧ b.head?.any p = false := by
  constructor
  · rintro ⟨⟩; exact ⟨rfl, rfl, ‹_›⟩
  · rintro ⟨rfl, rfl, h⟩; exact .notBehind h

@[simp] theorem matches_boundary : Matches (.boundary p : Re α γ) b w t m ↔
    w = [] ∧ m = [] ∧ b.head?.any p ≠ t.head?.any p := by
  constructor
  · rintro ⟨⟩; exact ⟨rfl, rfl, ‹_›⟩
  · rintro ⟨rfl, rfl, h⟩; exact .boundary h

theorem matches_opt : Matches (.opt r) b w t m ↔ Matches r b w t m ∨ w = [] ∧ m = [] := by
  rw [Re.opt, matches_alt, matches_eps]

end inversion

/-- What a group captures stands in the word. -/
theorem Matches.infix_of_mem {r : Re α γ} {b w t : List α} {m : Caps α γ} (h : Matches r b w t m)
    {x : γ × List α} (hx : x ∈ m) : x.2 <:+: w := by
  induction h with
  | eps | cls _ | notAhead _ | notBehind _ | boundary _ | starNil => cases hx
  | seq _ _ ihr ihs | starCons _ _ _ ihr ihs =>
      rcases List.mem_append.mp hx with hx | hx
      · exact (ihr hx).trans (List.prefix_append _ _).isInfix
      · exact (ihs hx).trans (List.suffix_append _ _).isInfix
  | altL _ ih => exact ih hx
  | altR _ ih => exact ih hx
  | group _ ih =>
      rcases List.mem_append.mp hx with hx | hx
      · exact ih hx
      · rw [List.mem_singleton.mp hx]

/-! ## Classes and literals

Repetitions of a class and literal words capture nothing and look at nothing but the word. -/

section words

variable {b w t : List α} {m : Caps α γ} {p : α → Bool}

@[simp] theorem matches_sym [DecidableEq α] {a : α} :
    Matches (.sym a : Re α γ) b w t m ↔ w = [a] ∧ m = [] := by
  simp [Re.sym]

@[simp] theorem matches_lit [DecidableEq α] {l : List α} :
    Matches (.lit l : Re α γ) b w t m ↔ w = l ∧ m = [] := by
  induction l generalizing b w m with
  | nil => simp [Re.lit]
  | cons a l ih =>
      simp only [Re.lit, matches_seq, matches_sym, ih]
      constructor
      · rintro ⟨u, v, m₁, m₂, rfl, rfl, ⟨rfl, rfl⟩, rfl, rfl⟩
        exact ⟨rfl, rfl⟩
      · rintro ⟨rfl, rfl⟩
        exact ⟨[a], l, [], [], rfl, rfl, ⟨rfl, rfl⟩, rfl, rfl⟩

@[simp] theorem matches_star_cls : Matches (.star (.cls p) : Re α γ) b w t m ↔
    m = [] ∧ ∀ a ∈ w, p a = true := by
  constructor
  · intro h
    generalize hr : (.star (.cls p) : Re α γ) = r at h
    induction h with
    | starNil => simp
    | starCons _ hcls _ _ ih =>
        cases hr
        obtain ⟨⟨a, ha, rfl⟩, rfl⟩ := matches_cls.mp hcls
        obtain ⟨rfl, hv⟩ := ih rfl
        simpa [ha] using hv
    | _ => cases hr
  · rintro ⟨rfl, hw⟩
    induction w generalizing b with
    | nil => exact .starNil
    | cons a w ih =>
        rw [List.forall_mem_cons] at hw
        exact .starCons (u := [a]) (m := []) (by simp) (.cls hw.1) (ih hw.2)

@[simp] theorem matches_times_cls {n : Nat} : Matches (.times (.cls p) n : Re α γ) b w t m ↔
    m = [] ∧ w.length = n ∧ ∀ a ∈ w, p a = true := by
  induction n generalizing b w m with
  | zero =>
      simp only [Re.times, matches_eps, List.length_eq_zero_iff]
      constructor
      · rintro ⟨rfl, rfl⟩; simp
      · rintro ⟨rfl, rfl, -⟩; exact ⟨rfl, rfl⟩
  | succ n ih =>
      simp only [Re.times, matches_seq, matches_cls, ih]
      constructor
      · rintro ⟨u, v, m₁, m₂, rfl, rfl, ⟨⟨a, ha, rfl⟩, rfl⟩, rfl, rfl, hv⟩
        simpa [ha] using hv
      · rintro ⟨rfl, hl, hw⟩
        obtain ⟨a, v, rfl⟩ := List.exists_cons_of_length_eq_add_one hl
        rw [List.forall_mem_cons] at hw
        exact ⟨[a], v, [], [], rfl, rfl, ⟨⟨a, hw.1, rfl⟩, rfl⟩, rfl, by simpa using hl, hw.2⟩

@[simp] theorem matches_upTo_cls {n : Nat} : Matches (.upTo (.cls p) n : Re α γ) b w t m ↔
    m = [] ∧ w.length ≤ n ∧ ∀ a ∈ w, p a = true := by
  induction n generalizing b w m with
  | zero =>
      simp only [Re.upTo, matches_eps, Nat.le_zero, List.length_eq_zero_iff]
      constructor
      · rintro ⟨rfl, rfl⟩; simp
      · rintro ⟨rfl, rfl, -⟩; exact ⟨rfl, rfl⟩
  | succ n ih =>
      simp only [Re.upTo, matches_alt, matches_seq, matches_cls, matches_eps, ih]
      constructor
      · rintro (⟨u, v, m₁, m₂, rfl, rfl, ⟨⟨a, ha, rfl⟩, rfl⟩, rfl, hl, hv⟩ | ⟨rfl, rfl⟩)
        · simpa [ha, hl] using hv
        · simp
      · rintro ⟨rfl, hl, hw⟩
        cases w with
        | nil => exact .inr ⟨rfl, rfl⟩
        | cons a v =>
            rw [List.forall_mem_cons] at hw
            exact .inl ⟨[a], v, [], [], rfl, rfl, ⟨⟨a, hw.1, rfl⟩, rfl⟩, rfl,
              by simpa using hl, hw.2⟩

theorem matches_rep_cls {lo hi : Nat} (hle : lo ≤ hi) :
    Matches (.rep (.cls p) lo hi : Re α γ) b w t m ↔
      m = [] ∧ lo ≤ w.length ∧ w.length ≤ hi ∧ ∀ a ∈ w, p a = true := by
  simp only [Re.rep, matches_seq, matches_times_cls, matches_upTo_cls]
  constructor
  · rintro ⟨u, v, m₁, m₂, rfl, rfl, ⟨rfl, hu, hpu⟩, rfl, hv, hpv⟩
    refine ⟨rfl, by simp [hu], by simp only [List.length_append]; omega, ?_⟩
    intro a ha
    rcases List.mem_append.mp ha with h | h
    · exact hpu a h
    · exact hpv a h
  · rintro ⟨rfl, hlo, hhi, hp⟩
    refine ⟨w.take lo, w.drop lo, [], [], (List.take_append_drop lo w).symm, rfl,
      ⟨rfl, by simp [hlo], fun a ha ↦ hp a (List.mem_of_mem_take ha)⟩, rfl,
      by simp only [List.length_drop]; omega, fun a ha ↦ hp a (List.mem_of_mem_drop ha)⟩

/-- A class at the end of a sequence. -/
theorem matches_seq_cls {r : Re α γ} : Matches (.seq r (.cls p)) b w t m ↔
    ∃ u a, w = u ++ [a] ∧ p a = true ∧ Matches r b u (a :: t) m := by
  simp only [matches_seq, matches_cls]
  constructor
  · rintro ⟨u, v, m₁, m₂, rfl, rfl, hr, ⟨a, ha, rfl⟩, rfl⟩
    exact ⟨u, a, rfl, ha, by simpa using hr⟩
  · rintro ⟨u, a, rfl, ha, hr⟩
    exact ⟨u, [a], m, [], rfl, by simp, hr, ⟨a, ha, rfl⟩, rfl⟩

/-- A given word at the end of a sequence. -/
theorem matches_seq_lit [DecidableEq α] {r : Re α γ} {l : List α} :
    Matches (.seq r (.lit l)) b w t m ↔ ∃ u, w = u ++ l ∧ Matches r b u (l ++ t) m := by
  simp only [matches_seq, matches_lit]
  constructor
  · rintro ⟨u, v, m₁, m₂, rfl, rfl, hr, rfl, rfl⟩
    exact ⟨u, rfl, by simpa using hr⟩
  · rintro ⟨u, rfl, hr⟩
    exact ⟨u, l, m, [], rfl, by simp, hr, rfl, rfl⟩

/-- A given symbol at the end of a sequence. -/
theorem matches_seq_sym [DecidableEq α] {r : Re α γ} {a : α} :
    Matches (.seq r (.sym a)) b w t m ↔ ∃ u, w = u ++ [a] ∧ Matches r b u (a :: t) m := by
  simp [Re.sym, matches_seq_cls]

end words

/-! ## The engine -/

/-- The words a repetition can match, greediest first; `fuel` bounds the number of iterations. -/
def runStar (f : List α → List α → List (List α × Caps α γ)) :
    Nat → List α → List α → List (List α × Caps α γ)
  | 0, _, _ => [([], [])]
  | n + 1, b, s =>
      (((f b s).filter fun x ↦ !x.1.isEmpty).flatMap fun x ↦
        (runStar f n (x.1.reverse ++ b) (s.drop x.1.length)).map fun y ↦
          (x.1 ++ y.1, x.2 ++ y.2)) ++ [([], [])]

/-- The words an expression can match at the head of `s`, standing after `b` (reversed), each
with its captures, in the order a backtracking matcher finds them. -/
def Re.run : Re α γ → List α → List α → List (List α × Caps α γ)
  | .eps, _, _ => [([], [])]
  | .cls _, _, [] => []
  | .cls p, _, a :: _ => if p a then [([a], [])] else []
  | .seq r q, b, s =>
      (r.run b s).flatMap fun x ↦
        (q.run (x.1.reverse ++ b) (s.drop x.1.length)).map fun y ↦ (x.1 ++ y.1, x.2 ++ y.2)
  | .alt r q, b, s => r.run b s ++ q.run b s
  | .star r, b, s => runStar r.run s.length b s
  | .group g r, b, s => (r.run b s).map fun x ↦ (x.1, x.2 ++ [(g, x.1)])
  | .notAhead p, _, s => if s.head?.any p then [] else [([], [])]
  | .notBehind p, b, _ => if b.head?.any p then [] else [([], [])]
  | .boundary p, b, s => if b.head?.any p = s.head?.any p then [] else [([], [])]

example (b s : List α) : (Re.eps : Re α γ).run b s = [([], [])] := by rw [Re.run]

/-- Sequencing of results: what `seq` and an iteration of `star` do with a first result. -/
private theorem mem_bind_run {f : List (List α × Caps α γ)}
    {g : List α → List α → List (List α × Caps α γ)} {b s w : List α} {m : Caps α γ} :
    (w, m) ∈ f.flatMap (fun x ↦ (g (x.1.reverse ++ b) (s.drop x.1.length)).map fun y ↦
        (x.1 ++ y.1, x.2 ++ y.2)) ↔
      ∃ u v m₁ m₂, w = u ++ v ∧ m = m₁ ++ m₂ ∧ (u, m₁) ∈ f ∧
        (v, m₂) ∈ g (u.reverse ++ b) (s.drop u.length) := by
  simp only [List.mem_flatMap, List.mem_map, Prod.mk.injEq, Prod.exists]
  constructor
  · rintro ⟨u, m₁, hu, v, m₂, hv, rfl, rfl⟩
    exact ⟨u, v, m₁, m₂, rfl, rfl, hu, hv⟩
  · rintro ⟨u, v, m₁, m₂, rfl, rfl, hu, hv⟩
    exact ⟨u, m₁, hu, v, m₂, hv, rfl, rfl⟩

theorem mem_runStar {r : Re α γ}
    (ih : ∀ {b s w m}, (w, m) ∈ r.run b s ↔ ∃ t, s = w ++ t ∧ Matches r b w t m)
    {n : Nat} {b s w : List α} {m : Caps α γ} (hn : s.length ≤ n) :
    (w, m) ∈ runStar r.run n b s ↔ ∃ t, s = w ++ t ∧ Matches (.star r) b w t m := by
  induction n generalizing b s w m with
  | zero =>
      obtain rfl : s = [] := List.eq_nil_of_length_eq_zero (Nat.le_zero.mp hn)
      simp only [runStar, List.mem_singleton, Prod.mk.injEq]
      constructor
      · rintro ⟨rfl, rfl⟩; exact ⟨[], rfl, .starNil⟩
      · rintro ⟨t, ht, h⟩
        obtain ⟨rfl, rfl⟩ := List.append_eq_nil_iff.mp ht.symm
        generalize hw : ([] : List α) = w at h
        cases h with
        | starNil => exact ⟨rfl, rfl⟩
        | starCons hne => exact absurd (List.append_eq_nil_iff.mp hw.symm).1 hne
  | succ n ihn =>
      rw [runStar, List.mem_append, mem_bind_run]
      simp only [List.mem_singleton, Prod.mk.injEq, List.mem_filter]
      constructor
      · rintro (⟨u, v, m₁, m₂, rfl, rfl, ⟨hu, hne⟩, hv⟩ | ⟨rfl, rfl⟩)
        · obtain ⟨t, rfl, hu'⟩ := ih.mp hu
          have hpos : u ≠ [] := by simpa using hne
          rw [List.drop_left] at hv
          have hlen : t.length ≤ n := by
            have := List.length_pos_iff.mpr hpos
            simp only [List.length_append] at hn; omega
          obtain ⟨t', rfl, hv'⟩ := (ihn hlen).mp hv
          exact ⟨t', by simp, .starCons hpos hu' hv'⟩
        · exact ⟨s, rfl, .starNil⟩
      · rintro ⟨t, rfl, h⟩
        cases h with
        | starNil => exact .inr ⟨rfl, rfl⟩
        | @starCons _ _ u v _ m₁ m₂ hne hu hv =>
            refine .inl ⟨u, v, m₁, m₂, rfl, rfl, ⟨ih.mpr ⟨v ++ t, by simp, hu⟩, by simpa using hne⟩, ?_⟩
            have hlen : (v ++ t).length ≤ n := by
              have := List.length_pos_iff.mpr hne
              simp only [List.length_append] at hn ⊢; omega
            rw [List.append_assoc, List.drop_left]
            exact (ihn hlen).mpr ⟨t, rfl, hv⟩

/-- The results of an assertion, which reads nothing. -/
private theorem mem_assertion {c : Prop} [Decidable c] {w : List α} {m : Caps α γ} :
    (w, m) ∈ (if c then [] else [([], [])]) ↔ w = [] ∧ m = [] ∧ ¬c := by
  split <;> simp [*]

/-- **The engine enumerates the relation.** -/
theorem mem_run {r : Re α γ} {b s w : List α} {m : Caps α γ} :
    (w, m) ∈ r.run b s ↔ ∃ t, s = w ++ t ∧ Matches r b w t m := by
  induction r generalizing b s w m with
  | eps =>
      simp only [Re.run, List.mem_singleton, Prod.mk.injEq, matches_eps]
      constructor
      · rintro ⟨rfl, rfl⟩; exact ⟨s, rfl, rfl, rfl⟩
      · rintro ⟨_, _, h⟩; exact h
  | cls p =>
      cases s with
      | nil =>
          simp only [Re.run, List.not_mem_nil, matches_cls, false_iff]
          rintro ⟨t, ht, ⟨a, -, rfl⟩, -⟩
          cases ht
      | cons a s =>
          simp only [Re.run, matches_cls]
          split
          · rename_i hp
            simp only [List.mem_singleton, Prod.mk.injEq]
            constructor
            · rintro ⟨rfl, rfl⟩; exact ⟨s, rfl, ⟨a, hp, rfl⟩, rfl⟩
            · rintro ⟨t, ht, ⟨a', _, rfl⟩, rfl⟩
              cases ht; exact ⟨rfl, rfl⟩
          · rename_i hp
            simp only [List.not_mem_nil, false_iff]
            rintro ⟨t, ht, ⟨a', ha', rfl⟩, -⟩
            cases ht; exact hp ha'
  | seq r q ihr ihq =>
      rw [Re.run, mem_bind_run]
      constructor
      · rintro ⟨u, v, m₁, m₂, rfl, rfl, hu, hv⟩
        obtain ⟨t, rfl, hu'⟩ := ihr.mp hu
        rw [List.drop_left] at hv
        obtain ⟨t', rfl, hv'⟩ := ihq.mp hv
        exact ⟨t', by simp, .seq hu' hv'⟩
      · rintro ⟨t, rfl, h⟩
        obtain ⟨u, v, m₁, m₂, rfl, rfl, hu, hv⟩ := matches_seq.mp h
        refine ⟨u, v, m₁, m₂, rfl, rfl, ihr.mpr ⟨v ++ t, by simp, hu⟩, ?_⟩
        rw [List.append_assoc, List.drop_left]
        exact ihq.mpr ⟨t, rfl, hv⟩
  | alt r q ihr ihq =>
      simp only [Re.run, List.mem_append, ihr, ihq, matches_alt]
      constructor
      · rintro (⟨t, ht, h⟩ | ⟨t, ht, h⟩)
        · exact ⟨t, ht, .inl h⟩
        · exact ⟨t, ht, .inr h⟩
      · rintro ⟨t, ht, h | h⟩
        · exact .inl ⟨t, ht, h⟩
        · exact .inr ⟨t, ht, h⟩
  | star r ih => exact mem_runStar ih (Nat.le_refl _)
  | group g r ih =>
      simp only [Re.run, List.mem_map, Prod.mk.injEq, Prod.exists, matches_group]
      constructor
      · rintro ⟨w', m', h, rfl, rfl⟩
        obtain ⟨t, ht, h⟩ := ih.mp h
        exact ⟨t, ht, m', rfl, h⟩
      · rintro ⟨t, ht, m', rfl, h⟩
        exact ⟨w, m', ih.mpr ⟨t, ht, h⟩, rfl, rfl⟩
  | notAhead p =>
      rw [Re.run, mem_assertion]
      constructor
      · rintro ⟨rfl, rfl, h⟩; exact ⟨s, rfl, .notAhead (Bool.not_eq_true _ ▸ h)⟩
      · rintro ⟨t, rfl, ⟨⟩⟩; exact ⟨rfl, rfl, by simpa using ‹_›⟩
  | notBehind p =>
      rw [Re.run, mem_assertion]
      constructor
      · rintro ⟨rfl, rfl, h⟩; exact ⟨s, rfl, .notBehind (Bool.not_eq_true _ ▸ h)⟩
      · rintro ⟨t, rfl, ⟨⟩⟩; exact ⟨rfl, rfl, by simpa using ‹_›⟩
  | boundary p =>
      rw [Re.run, mem_assertion]
      constructor
      · rintro ⟨rfl, rfl, h⟩; exact ⟨s, rfl, .boundary h⟩
      · rintro ⟨t, rfl, ⟨⟩⟩; exact ⟨rfl, rfl, by simpa using ‹_›⟩

/-! ## Which match comes first -/

section order

variable {r q : Re α γ} {b w s t : List α} {m : Caps α γ} {p : α → Bool}

/-- A match that is the only one is the first. -/
theorem head_run_of_unique (h : Matches r b w t m)
    (huniq : ∀ w' t' m', w ++ t = w' ++ t' → Matches r b w' t' m' → w' = w ∧ m' = m) :
    (r.run b (w ++ t)).head? = some (w, m) := by
  have hmem : (w, m) ∈ r.run b (w ++ t) := mem_run.mpr ⟨t, rfl, h⟩
  cases hrun : r.run b (w ++ t) with
  | nil => simp [hrun] at hmem
  | cons x xs =>
      obtain ⟨t', ht, hx⟩ := mem_run.mp (hrun ▸ List.mem_cons_self : x ∈ r.run b (w ++ t))
      obtain ⟨hw, hm⟩ := huniq x.1 t' x.2 ht hx
      simp [← hw, ← hm]

/-- If nothing goes wrong after the first match of `r`, there is no backtracking into it. -/
theorem head_run_seq {w' : List α} {m' : Caps α γ}
    (hr : (r.run b (w ++ t)).head? = some (w, m))
    (hq : (q.run (w.reverse ++ b) t).head? = some (w', m')) :
    ((Re.seq r q).run b (w ++ t)).head? = some (w ++ w', m ++ m') := by
  obtain ⟨xs, hxs⟩ := List.head?_eq_some_iff.mp hr
  obtain ⟨ys, hys⟩ := List.head?_eq_some_iff.mp hq
  simp [Re.run, hxs, hys]

/-- An unambiguous expression passes on whatever comes after it. -/
theorem head_run_seq_of_unique (h : Matches r b w t m)
    (huniq : ∀ w' t' m', w ++ t = w' ++ t' → Matches r b w' t' m' → w' = w ∧ m' = m) :
    ((Re.seq r q).run b (w ++ t)).head? =
      (q.run (w.reverse ++ b) t).head?.map fun y ↦ (w ++ y.1, m ++ y.2) := by
  have hmem : (w, m) ∈ r.run b (w ++ t) := mem_run.mpr ⟨t, rfl, h⟩
  have hall : ∀ x ∈ r.run b (w ++ t), x = (w, m) := by
    rintro ⟨w', m'⟩ hx
    obtain ⟨t', ht, hx⟩ := mem_run.mp hx
    obtain ⟨rfl, rfl⟩ := huniq w' t' m' ht hx
    rfl
  rw [Re.run, List.eq_replicate_of_mem hall]
  obtain ⟨n, hn⟩ := Nat.exists_eq_add_one.mpr (List.length_pos_of_mem hmem)
  rw [hn, List.replicate_succ, List.flatMap_cons, List.drop_left, List.head?_append, List.head?_map]
  cases hq : (q.run (w.reverse ++ b) t).head? with
  | some y => rfl
  | none =>
      rw [List.head?_eq_none_iff] at hq
      simp [hq]

@[simp] theorem head_run_group {g : γ} : ((Re.group g r).run b s).head? =
    (r.run b s).head?.map fun x ↦ (x.1, x.2 ++ [(g, x.1)]) := by
  rw [Re.run, List.head?_map]

/-- An optional symbol that is not there. -/
theorem head_run_opt_cls_of_head (h : ∀ a ∈ s.head?, p a = false) :
    ((Re.opt (.cls p) : Re α γ).run b s).head? = some ([], []) := by
  cases s with
  | nil => rfl
  | cons a s => simp [Re.opt, Re.run, h a rfl]

/-- A bounded run of a class takes as much as it can. -/
theorem head_run_upTo_cls {n : Nat} :
    ((Re.upTo (.cls p) n : Re α γ).run b s).head? = some ((s.takeWhile p).take n, []) := by
  induction n generalizing b s with
  | zero => simp [Re.upTo, Re.run]
  | succ n ih =>
      cases s with
      | nil => simp [Re.upTo, Re.run]
      | cons a s =>
          cases hp : p a with
          | false => simp [Re.upTo, Re.run, hp]
          | true =>
              obtain ⟨xs, hxs⟩ := List.head?_eq_some_iff.mp (ih (b := a :: b) (s := s))
              simp [Re.upTo, Re.run, hp, hxs]

/-- A run of a class between bounds takes as much as it can, if it can match at all. -/
theorem head_run_rep_cls {lo hi : Nat} (hle : lo ≤ hi) (hlo : lo ≤ (s.takeWhile p).length) :
    ((Re.rep (.cls p) lo hi : Re α γ).run b s).head? = some ((s.takeWhile p).take hi, []) := by
  obtain ⟨t, ht⟩ : ∃ t, s.takeWhile p ++ t = s := ⟨_, List.takeWhile_append_dropWhile⟩
  have hall : ∀ a ∈ s.takeWhile p, p a = true := fun a ha ↦ List.mem_takeWhile_imp ha
  set u := s.takeWhile p with hu
  have hs : s = u.take lo ++ (u.drop lo ++ t) := by
    rw [← List.append_assoc, List.take_append_drop, ht]
  have hdrop : (u.drop lo ++ t).takeWhile p = u.drop lo := by
    have hsplit : u.take lo ++ (u.drop lo ++ t).takeWhile p = u := by
      rw [← List.takeWhile_append_of_pos (fun a ha ↦ hall a (List.mem_of_mem_take ha)), ← hs, hu]
    exact List.append_cancel_left (hsplit.trans (List.take_append_drop lo u).symm)
  rw [Re.rep, hs, head_run_seq_of_unique (m := [])]
  · rw [head_run_upTo_cls, hdrop]
    simp [← List.take_add, Nat.add_sub_cancel' hle]
  · simp only [matches_times_cls, List.length_take, true_and]
    exact ⟨Nat.min_eq_left hlo, fun a ha ↦ hall a (List.mem_of_mem_take ha)⟩
  · intro w' t' m' h hm
    obtain ⟨rfl, hl, -⟩ := matches_times_cls.mp hm
    have hlen : (u.take lo).length = w'.length := by simp [hl, hlo]
    exact ⟨(List.append_inj h hlen).1.symm, rfl⟩

/-- A repetition of a class takes as much as it can. -/
theorem head_run_star_cls :
    ((Re.star (.cls p) : Re α γ).run b s).head? = some (s.takeWhile p, []) := by
  suffices h : ∀ n, s.length ≤ n →
      (runStar (Re.cls p : Re α γ).run n b s).head? = some (s.takeWhile p, []) from h _ (Nat.le_refl _)
  intro n hn
  induction n generalizing b s with
  | zero =>
      obtain rfl : s = [] := List.eq_nil_of_length_eq_zero (Nat.le_zero.mp hn)
      rfl
  | succ n ih =>
      cases s with
      | nil => simp [runStar, Re.run]
      | cons a s =>
          cases hp : p a with
          | false => simp [runStar, Re.run, hp]
          | true =>
              obtain ⟨xs, hxs⟩ := List.head?_eq_some_iff.mp
                (ih (b := a :: b) (s := s) (by simpa using hn))
              simp [runStar, Re.run, hp, hxs]

end order

/-! ## Searching -/

/-- What a search reports: the text around the match, the match and its groups. -/
structure Found (α : Type u) (γ : Type v) where
  before : List α
  word : List α
  after : List α
  groups : Caps α γ
deriving DecidableEq

/-- The text a group captured, the last time it was closed. -/
def Found.group [DecidableEq γ] (x : Found α γ) (g : γ) : Option (List α) :=
  x.groups.reverse.lookup g

namespace Re

variable (r : Re α γ)

/-- The first match at a place. -/
def first (b s : List α) : Option (Found α γ) :=
  (r.run b s).head?.map fun x ↦ ⟨b.reverse, x.1, s.drop x.1.length, x.2⟩

/-- The first match at the first place that has one, looking from a place on. -/
def searchFrom : List α → List α → Option (Found α γ)
  | b, [] => r.first b []
  | b, a :: s => (r.first b (a :: s)).or (searchFrom (a :: b) s)

/-- The leftmost match in a text. -/
def search (s : List α) : Option (Found α γ) := r.searchFrom [] s

end Re

section search

variable {r : Re α γ} {b s t w : List α} {m : Caps α γ} {x : Found α γ}

theorem first_of_head (h : (r.run b (w ++ t)).head? = some (w, m)) :
    r.first b (w ++ t) = some ⟨b.reverse, w, t, m⟩ := by
  simp [Re.first, h]

theorem first_eq_none : r.first b s = none ↔ ∀ w t m, s = w ++ t → ¬Matches r b w t m := by
  rw [Re.first, Option.map_eq_none_iff, List.head?_eq_none_iff, List.eq_nil_iff_forall_not_mem]
  constructor
  · exact fun h w t m hs hm ↦ h (w, m) (mem_run.mpr ⟨t, hs, hm⟩)
  · rintro h ⟨w, m⟩ hmem
    obtain ⟨t, hs, hm⟩ := mem_run.mp hmem
    exact h w t m hs hm

/-- What is found at a place is a match there. -/
theorem first_sound (h : r.first b s = some x) :
    x.before = b.reverse ∧ s = x.word ++ x.after ∧ Matches r b x.word x.after x.groups := by
  rw [Re.first, Option.map_eq_some_iff] at h
  obtain ⟨⟨w, m⟩, hhead, rfl⟩ := h
  obtain ⟨t, rfl, hm⟩ := mem_run.mp (List.mem_of_head? hhead)
  exact ⟨rfl, by simp, by simpa using hm⟩

theorem searchFrom_sound (h : r.searchFrom b s = some x) :
    b.reverse ++ s = x.before ++ (x.word ++ x.after) ∧
      Matches r x.before.reverse x.word x.after x.groups := by
  induction s generalizing b with
  | nil =>
      obtain ⟨hb, hs, hm⟩ := first_sound h
      exact ⟨by rw [hb, ← hs], by rw [hb, List.reverse_reverse]; exact hm⟩
  | cons a s ih =>
      rw [Re.searchFrom, Option.or_eq_some_iff] at h
      rcases h with h | ⟨-, h⟩
      · obtain ⟨hb, hs, hm⟩ := first_sound h
        exact ⟨by rw [hb, ← hs], by rw [hb, List.reverse_reverse]; exact hm⟩
      · obtain ⟨hs, hm⟩ := ih h
        exact ⟨by rw [← hs]; simp, hm⟩

/-- **What a search reports is a match.** -/
theorem search_sound (h : r.search s = some x) :
    s = x.before ++ (x.word ++ x.after) ∧
      Matches r x.before.reverse x.word x.after x.groups := by
  simpa using searchFrom_sound h

/-- What a search captures stands in the text. -/
theorem infix_of_search [DecidableEq γ] (h : r.search s = some x) (g : γ) :
    (x.group g).getD [] <:+: s := by
  obtain ⟨rfl, hm⟩ := search_sound h
  cases hg : x.group g with
  | none => exact List.nil_infix
  | some v =>
      obtain ⟨l₁, l₂, hsplit, -⟩ := List.lookup_eq_some_iff.mp hg
      have hmem : (g, v) ∈ x.groups := List.mem_reverse.mp (by rw [hsplit]; simp)
      exact (hm.infix_of_mem hmem).trans ⟨x.before, x.after, List.append_assoc ..⟩

theorem searchFrom_eq_none (h : ∀ u w t m, s = u ++ (w ++ t) →
    ¬Matches r (u.reverse ++ b) w t m) : r.searchFrom b s = none := by
  induction s generalizing b with
  | nil => exact first_eq_none.mpr fun w t m hs ↦ h [] w t m hs
  | cons a s ih =>
      rw [Re.searchFrom, Option.or_eq_none_iff]
      refine ⟨first_eq_none.mpr fun w t m hs ↦ h [] w t m hs, ih fun u w t m hs ↦ ?_⟩
      simpa using h (a :: u) w t m (by rw [hs]; rfl)

/-- **A search fails where nothing matches anywhere.** -/
theorem search_eq_none (h : ∀ u w t m, s = u ++ (w ++ t) → ¬Matches r u.reverse w t m) :
    r.search s = none :=
  searchFrom_eq_none fun u w t m hs ↦ by simpa using h u w t m hs

theorem searchFrom_of_first (h : r.first b s = some x) : r.searchFrom b s = some x := by
  cases s with
  | nil => exact h
  | cons a s => rw [Re.searchFrom, h, Option.some_or]

/-- Nothing starts to match inside `u` where `s` follows, whatever comes before. -/
def Silent (r : Re α γ) (u s : List α) : Prop :=
  ∀ v b w t m, v <:+ u → v ≠ [] → v ++ s = w ++ t → ¬Matches r b w t m

theorem Silent.append {u v : List α} (hu : Silent r u (v ++ s)) (hv : Silent r v s) :
    Silent r (u ++ v) s := by
  rintro x b w t m ⟨p, hp⟩ hne h
  rcases List.append_eq_append_iff.mp hp with ⟨y, hu', rfl⟩ | ⟨y, -, hv'⟩
  · cases y with
    | nil => exact hv v b w t m List.suffix_rfl hne h
    | cons a y => exact hu (a :: y) b w t m ⟨p, hu'.symm⟩ (by simp) (by rw [← h]; simp)
  · exact hv x b w t m ⟨y, hv'.symm⟩ hne h

/-- Nothing starts at symbols with which no match starts. -/
theorem Silent.of_head {u : List α} (h : ∀ b w t m, Matches r b w t m → ∃ a v, w = a :: v ∧ a ∉ u) :
    Silent r u s := by
  intro v b w t m hv hne heq hm
  obtain ⟨a, w, rfl, ha⟩ := h b w t m hm
  cases v with
  | nil => exact hne rfl
  | cons x v =>
      obtain ⟨rfl, -⟩ := List.cons.inj heq
      exact ha (hv.mem List.mem_cons_self)

/-- Nothing starts to match inside `u` where `s` follows and `b` comes before, its last symbol first. -/
def SilentAt (r : Re α γ) (b u s : List α) : Prop :=
  ∀ x v w t m, u = x ++ v → v ≠ [] → v ++ s = w ++ t → ¬Matches r (x.reverse ++ b) w t m

theorem Silent.silentAt {u : List α} (h : Silent r u s) : SilentAt r b u s :=
  fun x v w t m hu hne heq ↦ h v _ w t m ⟨x, hu.symm⟩ hne heq

theorem SilentAt.append {u v : List α} (hu : SilentAt r b u (v ++ s))
    (hv : SilentAt r (u.reverse ++ b) v s) : SilentAt r b (u ++ v) s := by
  intro x y w t m h hne heq
  rcases List.append_eq_append_iff.mp h with ⟨z, rfl, hv'⟩ | ⟨z, hu', rfl⟩
  · rw [List.reverse_append, List.append_assoc]
    exact hv z y w t m hv' hne heq
  · cases z with
    | nil =>
        obtain rfl : u = x := by rw [hu', List.append_nil]
        exact hv [] v w t m rfl hne heq
    | cons a z =>
        rw [List.append_assoc] at heq
        exact hu x (a :: z) w t m hu' (by simp) heq

/-- **A search passes over a stretch of text in which nothing starts to match.** -/
theorem searchFrom_pass {u : List α} (h : SilentAt r b u s) :
    r.searchFrom b (u ++ s) = r.searchFrom (u.reverse ++ b) s := by
  induction u generalizing b with
  | nil => rfl
  | cons a u ih =>
      have hnone : r.first b (a :: (u ++ s)) = none :=
        first_eq_none.mpr fun w t m ↦ h [] (a :: u) w t m rfl (by simp)
      have htail : SilentAt r (a :: b) u s := by
        intro x v w t m hu hne heq
        have hno := h (a :: x) v w t m (by rw [hu]; rfl) hne heq
        rwa [List.reverse_cons, List.append_assoc] at hno
      rw [List.cons_append, Re.searchFrom, hnone, Option.none_or, ih htail]
      simp

theorem searchFrom_skip {u : List α} (h : Silent r u s) :
    r.searchFrom b (u ++ s) = r.searchFrom (u.reverse ++ b) s := searchFrom_pass h.silentAt

/-- The search after a stretch in which nothing starts to match. -/
theorem search_skip {u : List α} (h : Silent r u s) :
    r.search (u ++ s) = r.searchFrom u.reverse s := by
  simpa [Re.search] using searchFrom_skip (b := []) h

/-- A search fails on a text in which nothing starts to match, if only something can match. -/
theorem search_eq_none_of_silent (h : Silent r s []) (hne : ∀ b t m, ¬Matches r b [] t m) :
    r.search s = none := by
  refine search_eq_none fun u w t m hs hm ↦ ?_
  cases w with
  | nil => exact hne _ _ _ hm
  | cons a w =>
      exact h (a :: w ++ t) _ _ _ _ ⟨u, hs.symm⟩ (by simp) (by simp) hm

end search

end Regex
