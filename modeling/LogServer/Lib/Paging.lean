import Mathlib

/-!
# Pages of a sorted listing

Rows that are sorted by a total preorder can be listed in several ways if some of them are tied.  Pages
of a fixed length are then cut from listings that need not be the same from page to page.

A cut is `Clean` if it does not go through rows that are tied and different.  What lies before a clean cut
is the same in every listing (`take_perm`), so pages between clean cuts make up the rows, whichever
listings they are cut from.  Through a cut that is not clean, one of the rows can be listed on both sides
(`pages_perm_iff`).
-/

namespace Paging

variable {ρ : Type*} {r : ρ → ρ → Prop} [DecidableRel r]

/-! ## Partitions -/

section partition

variable (r) (rows : List ρ) (x : ρ)

def below : List ρ := rows.filter fun a ↦ ¬r x a

/-- The rows that are tied with a row, among them the row itself. -/
def level : List ρ := rows.filter fun a ↦ r a x ∧ r x a

def above : List ρ := rows.filter fun a ↦ ¬r a x

end partition

theorem mem_level {rows : List ρ} {x a : ρ} : a ∈ level r rows x ↔ a ∈ rows ∧ r a x ∧ r x a := by
  rw [level, List.mem_filter, decide_eq_true_iff]

/-- The parts of a listing are those of the rows. -/
theorem length_below {rows L : List ρ} (h : L.Perm rows) (x : ρ) :
    (below r L x).length = (below r rows x).length := (h.filter _).length_eq

theorem level_perm {rows L : List ρ} (h : L.Perm rows) (x : ρ) :
    (level r L x).Perm (level r rows x) := h.filter _

section listings

variable [Std.Total r] [IsTrans ρ r] {rows L L' : List ρ} {x : ρ}

theorem rel_refl (r : ρ → ρ → Prop) [Std.Total r] (x : ρ) : r x x :=
  (Std.Total.total (r := r) x x).elim id id

omit [IsTrans ρ r] in
theorem not_mem_below : x ∉ below r rows x := by
  intro h
  exact of_decide_eq_true (List.mem_filter.mp h).2 (rel_refl r x)

omit [IsTrans ρ r] in
theorem not_mem_above : x ∉ above r rows x := by
  intro h
  exact of_decide_eq_true (List.mem_filter.mp h).2 (rel_refl r x)

/-- **A sorted listing** lists the rows before a row, those that are tied with it, and those after it. -/
theorem partition (h : L.Pairwise r) (x : ρ) :
    L = below r L x ++ (level r L x ++ above r L x) := by
  induction L with
  | nil => rfl
  | cons a L ih =>
      obtain ⟨ha, hL⟩ := List.pairwise_cons.mp h
      have hbelow : r x a → below r L x = [] := by
        intro hxa
        refine List.filter_eq_nil_iff.mpr fun b hb hb' ↦ ?_
        exact of_decide_eq_true hb' (IsTrans.trans x a b hxa (ha b hb))
      have hlevel : ¬r a x → level r L x = [] := by
        intro hax
        refine List.filter_eq_nil_iff.mpr fun b hb hb' ↦ ?_
        exact hax (IsTrans.trans a b x (ha b hb) (of_decide_eq_true hb').1)
      by_cases hxa : r x a
      · by_cases hax : r a x
        · -- The row is tied with `x`, so nothing after it is listed before `x`.
          have hrest := ih hL
          rw [hbelow hxa, List.nil_append] at hrest
          have hbelow' : below r (a :: L) x = [] := by
            rw [below, List.filter_cons_of_neg (by simpa using hxa)]
            exact hbelow hxa
          have hlevel' : level r (a :: L) x = a :: level r L x :=
            List.filter_cons_of_pos (decide_eq_true ⟨hax, hxa⟩)
          have habove' : above r (a :: L) x = above r L x :=
            List.filter_cons_of_neg (by simpa using hax)
          rw [hbelow', hlevel', habove', List.nil_append, List.cons_append, ← hrest]
        · have hrest := ih hL
          rw [hbelow hxa, hlevel hax, List.nil_append, List.nil_append] at hrest
          have hbelow' : below r (a :: L) x = [] := by
            rw [below, List.filter_cons_of_neg (by simpa using hxa)]
            exact hbelow hxa
          have hlevel' : level r (a :: L) x = [] := by
            rw [level, List.filter_cons_of_neg (by simpa using fun h ↦ absurd h hax)]
            exact hlevel hax
          have habove' : above r (a :: L) x = a :: above r L x :=
            List.filter_cons_of_pos (decide_eq_true hax)
          rw [hbelow', hlevel', habove', List.nil_append, List.nil_append, ← hrest]
      · have hax : r a x := (Std.Total.total (r := r) a x).resolve_right hxa
        have hbelow' : below r (a :: L) x = a :: below r L x :=
          List.filter_cons_of_pos (decide_eq_true hxa)
        have hlevel' : level r (a :: L) x = level r L x :=
          List.filter_cons_of_neg (by simpa using fun _ ↦ hxa)
        have habove' : above r (a :: L) x = above r L x :=
          List.filter_cons_of_neg (by simpa using hax)
        rw [hbelow', hlevel', habove', List.cons_append]
        exact congrArg (a :: ·) (ih hL)

/-! ## Cuts -/

variable (r) in
/-- A cut that does not go through rows that are tied and different. -/
def Clean (rows : List ρ) (n : ℕ) : Prop :=
  ∀ a ∈ rows, ∀ b ∈ rows, r a b → r b a → a ≠ b →
    n ≤ (below r rows a).length ∨ (below r rows a).length + (level r rows a).length ≤ n

/-- What lies before a cut, of one row. -/
theorem count_take [DecidableEq ρ] (h : L.Pairwise r) (x : ρ) (n : ℕ) :
    (L.take n).count x = ((level r L x).take (n - (below r L x).length)).count x := by
  conv_lhs => rw [partition h x, List.take_append, List.take_append]
  rw [List.count_append, List.count_append]
  have hbelow : ((below r L x).take n).count x = 0 :=
    List.count_eq_zero.mpr fun hmem ↦ not_mem_below (List.mem_of_mem_take hmem)
  have habove : ((above r L x).take (n - (below r L x).length - (level r L x).length)).count x = 0 :=
    List.count_eq_zero.mpr fun hmem ↦ not_mem_above (List.mem_of_mem_take hmem)
  rw [hbelow, habove, Nat.zero_add, Nat.add_zero]

/-- **What lies before a clean cut** is the same in every listing. -/
theorem take_perm {n : ℕ} (hL : L.Perm rows) (hL' : L'.Perm rows) (h : L.Pairwise r)
    (h' : L'.Pairwise r) (hclean : Clean r rows n) : (L.take n).Perm (L'.take n) := by
  classical
  rw [List.perm_iff_count]
  intro x
  rw [count_take h, count_take h']
  rw [length_below hL, length_below hL']
  by_cases hall : ∀ a ∈ level r rows x, a = x
  · -- The rows that are tied with `x` are copies of it.
    have hreplicate : ∀ {M}, M.Perm rows →
        level r M x = List.replicate (level r rows x).length x := by
      intro M hM
      refine List.eq_replicate_iff.mpr ⟨(level_perm hM x).length_eq, fun a ha ↦ ?_⟩
      exact hall a ((level_perm hM x).subset ha)
    rw [hreplicate hL, hreplicate hL']
  · push Not at hall
    obtain ⟨a, ha, hne⟩ := hall
    obtain ⟨harows, hax, hxa⟩ := mem_level.mp ha
    by_cases hx : x ∈ rows
    · rcases hclean x hx a harows hxa hax hne.symm with hbefore | hafter
      · rw [Nat.sub_eq_zero_of_le hbefore, List.take_zero, List.take_zero]
      · have hlength : ∀ {M}, M.Perm rows →
            (level r M x).length ≤ n - (below r rows x).length := by
          intro M hM
          rw [(level_perm hM x).length_eq]
          omega
        rw [List.take_of_length_le (hlength hL), List.take_of_length_le (hlength hL')]
        exact ((level_perm hL x).trans (level_perm hL' x).symm).count_eq x
    · have hzero : ∀ {M}, M.Perm rows → ∀ k, ((level r M x).take k).count x = 0 := by
        intro M hM k
        refine List.count_eq_zero.mpr fun hmem ↦ hx ?_
        exact hM.subset (mem_level.mp (List.mem_of_mem_take hmem)).1
      rw [hzero hL, hzero hL']

/-! ## Pages -/

section pages

variable (m : ℕ)

def page (k : ℕ) (L : List ρ) : List ρ := (L.drop (k * m)).take m

def pages (K : ℕ) (L : ℕ → List ρ) : List ρ := (List.range K).flatMap fun k ↦ page m k (L k)

end pages

variable {m K : ℕ}

omit [DecidableRel r] [Std.Total r] [IsTrans ρ r] in
theorem take_succ_mul (k : ℕ) (L : List ρ) :
    L.take ((k + 1) * m) = L.take (k * m) ++ page m k L := by
  rw [Nat.succ_mul, List.take_add, page]

omit [DecidableRel r] [Std.Total r] [IsTrans ρ r] in
/-- The pages of one listing are the listing. -/
theorem pages_const (L : List ρ) (K : ℕ) : pages m K (fun _ ↦ L) = L.take (K * m) := by
  induction K with
  | zero => rw [Nat.zero_mul, List.take_zero, pages, List.range_zero, List.flatMap_nil]
  | succ K ih =>
      rw [take_succ_mul, ← ih, pages, List.range_succ, List.flatMap_append, List.flatMap_singleton]
      rfl

def Listings (r : ρ → ρ → Prop) (rows : List ρ) (L : ℕ → List ρ) : Prop :=
  ∀ k, (L k).Perm rows ∧ (L k).Pairwise r

/-- **Pages between clean cuts** make up the rows. -/
theorem pages_perm {L : ℕ → List ρ} (hL : Listings r rows L) (hK : rows.length ≤ K * m)
    (hclean : ∀ k, Clean r rows (k * m)) : (pages m K L).Perm rows := by
  have hpage : ∀ k, (page m k (L k)).Perm (page m k (L 0)) := by
    intro k
    have hbefore := take_perm (hL k).1 (hL 0).1 (hL k).2 (hL 0).2 (hclean k)
    have hupto := take_perm (hL k).1 (hL 0).1 (hL k).2 (hL 0).2 (hclean (k + 1))
    rw [take_succ_mul, take_succ_mul] at hupto
    exact (List.perm_append_left_iff _).mp ((hbefore.symm.append_right _).trans hupto)
  have hpages : (pages m K L).Perm (pages m K fun _ ↦ L 0) :=
    List.Perm.flatMap_left _ fun k _ ↦ hpage k
  refine hpages.trans ?_
  rw [pages_const, List.take_of_length_le ((hL 0).1.length_eq.trans_le hK)]
  exact (hL 0).1

/-! ## Cuts that are not clean -/

/-- The rows that are tied with a row can be listed in any order. -/
theorem pairwise_reorder {V : List ρ} (hL : L.Pairwise r) (hV : V.Perm (level r L x)) :
    (below r L x ++ (V ++ above r L x)).Pairwise r := by
  have htied : ∀ a ∈ V, ∀ b ∈ V, r a b := by
    intro a ha b hb
    exact IsTrans.trans a x b (mem_level.mp (hV.subset ha)).2.1 (mem_level.mp (hV.subset hb)).2.2
  rw [partition hL x, List.pairwise_append] at hL
  obtain ⟨hbelow, hrest, hcross⟩ := hL
  obtain ⟨-, habove, hcross'⟩ := List.pairwise_append.mp hrest
  refine List.pairwise_append.mpr ⟨hbelow, List.pairwise_append.mpr ⟨?_, habove, ?_⟩, ?_⟩
  · exact List.pairwise_of_forall_mem_list htied
  · exact fun a ha b hb ↦ hcross' a (hV.subset ha) b hb
  · intro a ha b hb
    rcases List.mem_append.mp hb with hb | hb
    · exact hcross a ha b (List.mem_append_left _ (hV.subset hb))
    · exact hcross a ha b (List.mem_append_right _ hb)

/-- A cut that is not clean goes through a listing between two rows that are tied and different. -/
theorem exists_swap {n : ℕ} (h : ¬Clean r rows n) : ∃ (a b : ρ) (P S : List ρ), a ≠ b ∧
    P.length + 1 = n ∧ (P ++ a :: b :: S).Perm rows ∧ (P ++ a :: b :: S).Pairwise r ∧
      (P ++ b :: a :: S).Pairwise r := by
  classical
  rw [Clean] at h
  push Not at h
  obtain ⟨a, ha, b, hb, hab, hba, hne, hbefore, hafter⟩ := h
  have hL : (rows.insertionSort r).Perm rows := List.perm_insertionSort r rows
  have hsorted : (rows.insertionSort r).Pairwise r := List.pairwise_insertionSort r rows
  generalize rows.insertionSort r = L at hL hsorted
  rw [← length_below hL] at hbefore hafter
  rw [← (level_perm hL a).length_eq] at hafter
  -- The two rows, and the others they are tied with.
  have halevel : a ∈ level r L a := mem_level.mpr ⟨hL.mem_iff.mpr ha, rel_refl r a, rel_refl r a⟩
  have hblevel : b ∈ (level r L a).erase a :=
    (List.mem_erase_of_ne hne.symm).mpr (mem_level.mpr ⟨hL.mem_iff.mpr hb, hba, hab⟩)
  obtain ⟨R, hR⟩ : ∃ R, (level r L a).Perm (a :: b :: R) :=
    ⟨_, (List.perm_cons_erase halevel).trans ((List.perm_cons_erase hblevel).cons a)⟩
  have hlength : (level r L a).length = R.length + 2 := hR.length_eq
  obtain ⟨i, hi⟩ : ∃ i, i = n - (below r L a).length - 1 := ⟨_, rfl⟩
  have hplace : ∀ c d : ρ, (R.take i ++ c :: d :: R.drop i).Perm (c :: d :: R) := by
    intro c d
    refine List.perm_middle.trans (List.Perm.cons c (List.perm_middle.trans (List.Perm.cons d ?_)))
    rw [List.take_append_drop]
  have hV : (R.take i ++ a :: b :: R.drop i).Perm (level r L a) := (hplace a b).trans hR.symm
  have hV' : (R.take i ++ b :: a :: R.drop i).Perm (level r L a) :=
    ((hplace b a).trans (List.Perm.swap a b R)).trans hR.symm
  have hshape : ∀ c d : ρ, below r L a ++ R.take i ++ c :: d :: (R.drop i ++ above r L a) =
      below r L a ++ (R.take i ++ c :: d :: R.drop i ++ above r L a) := by
    intro c d
    rw [List.append_assoc, List.append_assoc, List.cons_append, List.cons_append]
  refine ⟨a, b, below r L a ++ R.take i, R.drop i ++ above r L a, hne, ?_, ?_, ?_, ?_⟩
  · rw [List.length_append, List.length_take]
    omega
  · rw [hshape]
    refine List.Perm.trans ?_ hL
    conv_rhs => rw [partition hsorted a]
    exact (hV.append_right _).append_left _
  · rw [hshape]
    exact pairwise_reorder hsorted hV
  · rw [hshape]
    exact pairwise_reorder hsorted hV'

omit [DecidableRel r] [Std.Total r] [IsTrans ρ r] in
/-- Pages of one listing, one of which is cut from another. -/
theorem pages_update {k : ℕ} (hk : k < K) (L L' : List ρ) : ∃ X Y,
    pages m K (fun _ ↦ L) = X ++ (page m k L ++ Y) ∧
      pages m K (Function.update (fun _ ↦ L) k L') = X ++ (page m k L' ++ Y) := by
  obtain ⟨d, rfl⟩ := Nat.exists_eq_add_of_le hk
  refine ⟨pages m k fun _ ↦ L, (List.range d).flatMap fun j ↦ page m (k + 1 + j) L, ?_, ?_⟩
  · rw [pages, List.range_add, List.range_succ, List.flatMap_append, List.flatMap_append,
      List.flatMap_singleton, List.flatMap_map, List.append_assoc]
    rfl
  · rw [pages, List.range_add, List.range_succ, List.flatMap_append, List.flatMap_append,
      List.flatMap_singleton, List.flatMap_map, List.append_assoc, Function.update_self]
    refine congrArg₂ (· ++ ·) (List.flatMap_congr fun j hj ↦ ?_)
      (congrArg₂ (· ++ ·) rfl (List.flatMap_congr fun j _ ↦ ?_))
    · rw [Function.update_of_ne (Nat.ne_of_lt (List.mem_range.mp hj))]
    · rw [Function.update_of_ne (by omega)]

omit [DecidableRel r] [Std.Total r] [IsTrans ρ r] in
/-- The page that begins in the middle of a listing. -/
theorem page_middle {k : ℕ} {a b : ρ} {P S : List ρ} (hP : P.length + 1 = k * (m + 1)) :
    page (m + 1) k (P ++ a :: b :: S) = b :: S.take m := by
  have hshape : P ++ a :: b :: S = (P ++ [a]) ++ b :: S := by
    rw [List.append_assoc, List.singleton_append]
  rw [page, hshape, List.drop_left' (by rw [List.length_append]; exact hP), List.take_succ_cons]

/-- **Pages of sorted listings** make up the rows, whatever the listings, exactly if all cuts between
pages are clean. -/
theorem pages_perm_iff (hm : 0 < m) (hK : rows.length ≤ K * m) :
    (∀ L, Listings r rows L → (pages m K L).Perm rows) ↔ ∀ k, Clean r rows (k * m) := by
  refine ⟨fun hall k ↦ ?_, fun hclean L hL ↦ pages_perm hL hK hclean⟩
  by_contra hcut
  classical
  obtain ⟨a, b, P, S, hne, hlength, hperm, hsorted, hsorted'⟩ := exists_swap hcut
  obtain ⟨m, rfl⟩ := Nat.exists_eq_add_of_lt hm
  rw [Nat.zero_add] at *
  have hperm' : (P ++ b :: a :: S).Perm rows := ((List.Perm.swap a b S).append_left P).trans hperm
  have hk : k < K := by
    refine Nat.lt_of_mul_lt_mul_right (a := m + 1) ?_
    have hrows := hperm.length_eq
    rw [List.length_append, List.length_cons, List.length_cons] at hrows
    omega
  obtain ⟨X, Y, hsame, hother⟩ := pages_update (m := m + 1) hk (P ++ a :: b :: S) (P ++ b :: a :: S)
  have hgood := hall (fun _ ↦ P ++ a :: b :: S) fun _ ↦ ⟨hperm, hsorted⟩
  have hbad := hall (Function.update (fun _ ↦ P ++ a :: b :: S) k (P ++ b :: a :: S)) (by
    intro k'
    rw [Function.update_apply]
    split
    · exact ⟨hperm', hsorted'⟩
    · exact ⟨hperm, hsorted⟩)
  rw [hsame] at hgood
  rw [hother] at hbad
  have hpages := (List.perm_append_right_iff Y).mp
    ((List.perm_append_left_iff X).mp (hgood.trans hbad.symm))
  rw [page_middle hlength, page_middle hlength] at hpages
  -- One page has the one row more often, the other page the other.
  have hcount := hpages.count_eq a
  rw [List.count_cons_of_ne hne.symm, List.count_cons_self] at hcount
  omega

end listings

end Paging
