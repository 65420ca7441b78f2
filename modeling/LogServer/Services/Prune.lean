import LogServer.Lib.Calendar
import LogServer.Lib.Numerals
import LogServer.Services.Retention

/-!
# Pruning the archive

`prune_archives` removes the exported files of months past the retention window.  It compares the month
in the name of a file with a cutoff, as texts.

The cutoff is a month too late: months are counted from one in `today.year * 12 + today.month` and from
zero by `// 12` and `% 12`.  So the file of the month `retention_months` before the current one is removed,
of which some rows are in the table until the end of the current month, and with a window of one month
that is the month that was archived last.  `prune_correct_iff` says that this is all: nothing else is
removed too early, except that a cutoff before the year 1000 is a shorter text.
-/

namespace LogServer

open Calendar Numerals

/-! ## Dates -/

structure Date where
  year : ℕ
  month : ℕ
  day : ℕ
  year_bounds : 1 ≤ year ∧ year ≤ 9999 := by decide
  month_bounds : 1 ≤ month ∧ month ≤ 12 := by decide
  day_bounds : 1 ≤ day ∧ day ≤ daysIn (12 * year + (month - 1)) := by decide

namespace Date

variable (today : Date)

def index : ℕ := 12 * today.year + (today.month - 1)

def start : Instant where
  month := today.index
  day := today.day
  second := 0
  day_pos := today.day_bounds.1
  day_le := today.day_bounds.2
  second_lt := by decide

end Date

/-! ## Names of archives -/

/-- The width `02d`. -/
def twoDigits (n : ℕ) : Text :=
  List.replicate (2 - (Nat.toDigits 10 n).length) '0' ++ Nat.toDigits 10 n

/-- A month of the years that are written with four digits. -/
abbrev ArchiveMonth := Fin 120000

/-- `YYYYMM`. -/
def yyyymm (m : ArchiveMonth) : Text := padded 4 (m.val / 12) ++ twoDigits (m.val % 12 + 1)

def archiveName (table : Text) (m : ArchiveMonth) : Text :=
  table ++ "-".toList ++ yyyymm m ++ ".native.gz".toList

/-- The pattern `{table}-*.native.gz`.  The name of a table is an identifier, so that it stands for
itself. -/
def globArchives (table name : Text) : Bool :=
  (table ++ "-".toList).isPrefixOf name &&
    ".native.gz".toList.isSuffixOf (name.drop (table.length + 1))

/-- `name.split("-")[-1].split(".")[0]`. -/
def archiveStem (name : Text) : Text :=
  ((name.reverse.takeWhile (· ≠ '-')).reverse).takeWhile (· ≠ '.')

/-! ## Pruning -/

def pruneCutoff (retentionMonths : ℕ) (today : Date) : Text :=
  let months : Int := today.year * 12 + today.month - retentionMonths
  str (months / 12) ++ twoDigits (months % 12 + 1).toNat

def pruned (u : CharTable) (table : Text) (retentionMonths : ℕ) (today : Date) (name : Text) : Bool :=
  globArchives table name && isdigit u (archiveStem name) &&
    decide (archiveStem name < pruneCutoff retentionMonths today)

/-- `prune_archives`: the files that are left, and how many were removed.  The directory may not
exist. -/
def pruneArchives (u : CharTable) (cfg : RetentionConfig) (table : Text) (today : Date) :
    Option (List Text) → Option (List Text) × ℕ
  | none => (none, 0)
  | some files =>
      let gone := pruned u table cfg.retentionMonths today
      (some (files.filter fun name ↦ !gone name), (files.filter gone).length)

/-! ## The window -/

section correct

variable (u : CharTable) (cfg : RetentionConfig) (table : Text) (today : Date)
  (months : List ArchiveMonth)

/-- The directory has the files of some months, and the file of a month is gone afterwards. -/
def Removed (m : ArchiveMonth) : Prop :=
  archiveName table m ∉
    (pruneArchives u cfg table today (some (months.map (archiveName table)))).1.getD []

/-- **Pruning removes what is past the window**, by the rule of the TTL: a month is past it when each of
its instants is as many months back.  The month that closed last is kept. -/
structure PruneCorrect : Prop where
  expired : ∀ m ∈ months, Removed u cfg table today months m →
    ∀ t : Instant, t.month = m → t.addMonths cfg.retentionMonths ≤ today.start
  old : ∀ m ∈ months, m + cfg.retentionMonths + 1 < today.index →
    Removed u cfg table today months m
  closed : ∀ m ∈ months, m + 1 = today.index → ¬Removed u cfg table today months m

def monthNumber (m : ℕ) : ℕ := 100 * (m / 12) + (m % 12 + 1)

/-- A cutoff before the year 1000 has fewer digits than the name of a month, and is compared with as many
of its digits. -/
def SortsBelow (m : ℕ) (cutoff : Int) : Prop :=
  0 ≤ cutoff ∧ cutoff < 12000 ∧
    monthNumber m / 10 ^ (4 - (Nat.toDigits 10 (cutoff.toNat / 12)).length) <
      monthNumber cutoff.toNat

/-- There is no archive of the month in which the window begins, unless all of that month is past, and
none that is kept only if the cutoff has four digits for the year. -/
def PruneSafe : Prop :=
  ∀ m ∈ months,
    (m + cfg.retentionMonths = today.index → 1 < cfg.retentionMonths ∧
      min (daysIn m) (daysIn today.index) < today.day) ∧
    (today.index < m + cfg.retentionMonths →
      ¬SortsBelow m (today.index + 1 - cfg.retentionMonths))

end correct

/-! ## Names and cutoffs as numbers -/

theorem monthNumber_lt_iff {m c : ℕ} : monthNumber m < monthNumber c ↔ m < c := by
  unfold monthNumber
  omega

theorem twoDigits_eq {n : ℕ} (h : n < 13) : twoDigits n = padded 2 n := by
  have hall : ∀ n < 13, twoDigits n = padded 2 n := by decide
  exact hall n h

/-- A year and a month, one after the other. -/
theorem padded_year_month (k m : ℕ) :
    padded k (m / 12) ++ twoDigits (m % 12 + 1) = padded (k + 2) (monthNumber m) := by
  have hyear : monthNumber m / 10 ^ 2 = m / 12 := by
    unfold monthNumber
    omega
  have hmonth : padded 2 (monthNumber m) = padded 2 (m % 12 + 1) := by
    have hlast : monthNumber m % 10 = (m % 12 + 1) % 10 := by
      unfold monthNumber
      omega
    have hfirst : monthNumber m / 10 % 10 = (m % 12 + 1) / 10 % 10 := by
      unfold monthNumber
      omega
    simp only [padded, hlast, hfirst]
  rw [padded_add, hyear, hmonth, twoDigits_eq (by omega)]

theorem yyyymm_eq (m : ArchiveMonth) : yyyymm m = padded 6 (monthNumber m) :=
  padded_year_month 4 m

theorem monthNumber_lt {k m : ℕ} (h : m / 12 < 10 ^ k) : monthNumber m < 10 ^ (k + 2) := by
  rw [Nat.pow_add]
  unfold monthNumber
  omega

section pruned

variable {u : CharTable} {table : Text} {m : ArchiveMonth}

theorem isDigit_of_mem_yyyymm {c : Char} (h : c ∈ yyyymm m) : c.isDigit = true := by
  rw [yyyymm_eq] at h
  exact isDigit_of_mem_padded h

theorem yyyymm_ne_nil : yyyymm m ≠ [] := by
  rw [yyyymm_eq]
  exact List.ne_nil_of_length_pos (by rw [length_padded]; decide)

/-- A digit is none of the delimiters. -/
theorem notMem_yyyymm {c : Char} (hc : c.isDigit = false) : c ∉ yyyymm m := fun h ↦ by
  rw [isDigit_of_mem_yyyymm h] at hc
  cases hc

theorem globArchives_archiveName : globArchives table (archiveName table m) = true := by
  have hdrop : (archiveName table m).drop (table.length + 1) =
      yyyymm m ++ ".native.gz".toList := by
    have hname : archiveName table m = (table ++ "-".toList) ++ (yyyymm m ++ ".native.gz".toList) :=
      List.append_assoc _ _ _
    have hlength : (table ++ "-".toList).length = table.length + 1 := List.length_append
    rw [hname, ← hlength, List.drop_left]
  rw [globArchives, hdrop, Bool.and_eq_true, List.isPrefixOf_iff_prefix, List.isSuffixOf_iff_suffix]
  exact ⟨⟨yyyymm m ++ ".native.gz".toList, (List.append_assoc _ _ _).symm⟩,
    List.suffix_append _ _⟩

/-- The month is what stands between the last dash and the dot after it. -/
theorem archiveStem_archiveName : archiveStem (archiveName table m) = yyyymm m := by
  have hdash : ∀ c ∈ (yyyymm m ++ ".native.gz".toList).reverse, (c ≠ '-' : Bool) = true := by
    intro c hc
    rw [decide_eq_true_eq]
    rintro rfl
    rcases List.mem_append.mp (List.mem_reverse.mp hc) with h | h
    · exact notMem_yyyymm (by decide) h
    · exact absurd h (by decide)
  have hdot : ∀ c ∈ yyyymm m, (c ≠ '.' : Bool) = true := by
    intro c hc
    rw [decide_eq_true_eq]
    rintro rfl
    exact notMem_yyyymm (by decide) hc
  have hreverse : (archiveName table m).reverse =
      (yyyymm m ++ ".native.gz".toList).reverse ++ '-' :: table.reverse := by
    simp [archiveName]
  have hlast : (archiveName table m).reverse.takeWhile (· ≠ '-') =
      (yyyymm m ++ ".native.gz".toList).reverse := by
    rw [hreverse]
    exact Substring.takeWhile_append hdash (by simp)
  rw [archiveStem, hlast, List.reverse_reverse]
  exact Substring.takeWhile_append hdot (by decide)

theorem isdigit_yyyymm : isdigit u (yyyymm m) = true := by
  rw [isdigit_ascii yyyymm_ne_nil fun c hc ↦ CharTable.toNat_lt_of_isDigit (isDigit_of_mem_yyyymm hc)]
  exact List.all_eq_true.mpr fun c hc ↦ isDigit_of_mem_yyyymm hc

/-- A file is removed if its month is before the cutoff, as a text. -/
theorem pruned_archiveName (retentionMonths : ℕ) (today : Date) :
    pruned u table retentionMonths today (archiveName table m) = true ↔
      yyyymm m < pruneCutoff retentionMonths today := by
  rw [pruned, globArchives_archiveName, archiveStem_archiveName, isdigit_yyyymm]
  exact decide_eq_true_iff

/-- The files that are gone are those that are pruned. -/
theorem removed_iff {cfg : RetentionConfig} {today : Date} {months : List ArchiveMonth}
    (hm : m ∈ months) : Removed u cfg table today months m ↔
      yyyymm m < pruneCutoff cfg.retentionMonths today := by
  have hmem : archiveName table m ∈ months.map (archiveName table) := List.mem_map_of_mem hm
  have hpruned : pruned u table cfg.retentionMonths today (archiveName table m) = true ↔ _ :=
    pruned_archiveName cfg.retentionMonths today
  rw [← hpruned]
  show archiveName table m ∉ List.filter _ _ ↔ _
  rw [List.mem_filter, not_and, Bool.not_eq_true, Bool.not_eq_false']
  exact ⟨fun h ↦ h hmem, fun h _ ↦ h⟩

end pruned

/-! ## Months before the cutoff -/

section cutoff

variable {retentionMonths : ℕ} {today : Date} {m : ArchiveMonth}

/-- The month of the cutoff: the months of a date are counted from one. -/
theorem months_eq (today : Date) (retentionMonths : ℕ) :
    (today.year * 12 + today.month - retentionMonths : Int) =
      today.index + 1 - retentionMonths := by
  have hmonth := today.month_bounds
  unfold Date.index
  omega

/-- Before the year 0 there is no file to remove. -/
theorem not_yyyymm_lt_of_neg (h : (today.index + 1 - retentionMonths : Int) < 0) :
    ¬yyyymm m < pruneCutoff retentionMonths today := by
  obtain ⟨c, t, ht⟩ := List.exists_cons_of_ne_nil (yyyymm_ne_nil (m := m))
  have hc : c.isDigit = true := isDigit_of_mem_yyyymm (m := m) (by rw [ht]; exact List.mem_cons_self)
  have hminus : ∃ s, pruneCutoff retentionMonths today = '-' :: s := by
    rw [pruneCutoff, months_eq, str, if_pos (by omega)]
    exact ⟨_, rfl⟩
  obtain ⟨s, hs⟩ := hminus
  rw [ht, hs, List.cons_lt_cons_iff]
  have hge : '0' ≤ c := by
    rw [Char.isDigit, Bool.and_eq_true, decide_eq_true_eq] at hc
    exact hc.1
  rintro (hlt | ⟨rfl, -⟩)
  · exact absurd (lt_of_le_of_lt hge hlt) (by decide)
  · exact absurd hc (by decide)

/-- From the year 0 on, numbers are compared, up to the number of digits of the cutoff. -/
theorem yyyymm_lt_iff {c k : ℕ} (hc : (today.index + 1 - retentionMonths : Int) = c)
    (hk : (Nat.toDigits 10 (c / 12)).length = k) (hk4 : k ≤ 4) :
    yyyymm m < pruneCutoff retentionMonths today ↔
      monthNumber m / 10 ^ (4 - k) < monthNumber c := by
  have hyear : c / 12 < 10 ^ k :=
    (Nat.length_toDigits_le_iff (by decide) (hk ▸ Nat.length_toDigits_pos)).mp (Nat.le_of_eq hk)
  have hcutoff : pruneCutoff retentionMonths today = padded (k + 2) (monthNumber c) := by
    have hdiv : ((c : Int) / 12).natAbs = c / 12 := by omega
    have hmod : ((c : Int) % 12 + 1).toNat = c % 12 + 1 := by omega
    have hdigits := toDigits_eq_padded (c / 12)
    rw [hk] at hdigits
    rw [pruneCutoff, months_eq, hc, str, if_neg (by omega), hdiv, hmod, hdigits,
      padded_year_month]
  have hwidth : 6 = (k + 2) + (4 - k) := by omega
  rw [yyyymm_eq, hcutoff, hwidth, padded_add_lt_iff _ (monthNumber_lt hyear)]
  rw [← hwidth]
  exact monthNumber_lt (k := 4) (by omega)

/-- **The months before the cutoff** are those up to the beginning of the window, and later ones that sort
before a cutoff with fewer digits. -/
theorem yyyymm_lt_pruneCutoff_iff (hpos : 1 ≤ retentionMonths) :
    yyyymm m < pruneCutoff retentionMonths today ↔ m + retentionMonths ≤ today.index ∨
      today.index < m + retentionMonths ∧
        SortsBelow m (today.index + 1 - retentionMonths) := by
  rcases lt_or_ge (today.index + 1 - retentionMonths : Int) 0 with hneg | hnonneg
  · refine iff_of_false (not_yyyymm_lt_of_neg hneg) ?_
    rintro (hle | ⟨-, hzero, -⟩)
    · omega
    · omega
  · obtain ⟨c, hc⟩ := Int.eq_ofNat_of_zero_le hnonneg
    obtain ⟨k, hk⟩ : ∃ k, (Nat.toDigits 10 (c / 12)).length = k := ⟨_, rfl⟩
    have hyear : c / 12 < 10 ^ 4 := by
      have hbounds := today.year_bounds
      have hmonth := today.month_bounds
      unfold Date.index at hc
      omega
    have hk4 : k ≤ 4 := hk ▸ (Nat.length_toDigits_le_iff (by decide) (by decide)).mpr hyear
    rw [yyyymm_lt_iff hc hk hk4, SortsBelow, hc, Int.toNat_natCast, hk]
    have hle : monthNumber m / 10 ^ (4 - k) ≤ monthNumber m := Nat.div_le_self _ _
    have hlt : monthNumber m < monthNumber c ↔ m.val < c := monthNumber_lt_iff
    by_cases hfour : c < 12000
    · constructor
      · intro hbelow
        rcases Nat.lt_or_ge today.index (m + retentionMonths) with hlate | hearly
        · exact .inr ⟨hlate, by omega, by omega, hbelow⟩
        · exact .inl hearly
      · rintro (hearly | ⟨-, -, -, hbelow⟩)
        · exact lt_of_le_of_lt hle (hlt.mpr (by omega))
        · exact hbelow
    · -- The year of the cutoff has four digits, as that of the month has.
      have hk3 : ¬k ≤ 3 := by
        rw [← hk, Nat.length_toDigits_le_iff (by decide) (by decide)]
        omega
      obtain rfl : k = 4 := by omega
      rw [Nat.sub_self, Nat.pow_zero, Nat.div_one, hlt]
      constructor
      · exact fun hearly ↦ .inl (by omega)
      · rintro (hearly | ⟨-, -, hthousand, -⟩)
        · omega
        · omega

end cutoff

/-- **Pruning removes what is past the window and nothing else**, exactly if the archive has no file of the
month that the window begins in, unless that month is past, and none of a month that is sorted before a
cutoff of fewer digits. -/
theorem prune_correct_iff (u : CharTable) (cfg : RetentionConfig) (table : Text) (today : Date)
    (months : List ArchiveMonth) :
    PruneCorrect u cfg table today months ↔ PruneSafe cfg today months := by
  have hpos := cfg.retentionMonths_bounds.1
  have hremoved : ∀ m ∈ months, Removed u cfg table today months m ↔
      m + cfg.retentionMonths ≤ today.index ∨ today.index < m + cfg.retentionMonths ∧
        SortsBelow m (today.index + 1 - cfg.retentionMonths) := fun m hm ↦
    (removed_iff hm).trans (yyyymm_lt_pruneCutoff_iff hpos)
  have hpast : ∀ m : ArchiveMonth, (∀ t : Instant, t.month = m →
      t.addMonths cfg.retentionMonths ≤ today.start) ↔ m + cfg.retentionMonths < today.index ∨
        m + cfg.retentionMonths = today.index ∧ min (daysIn m) (daysIn today.index) < today.day :=
    fun m ↦ @forall_addMonths_le_iff m cfg.retentionMonths today.start rfl
  constructor
  · intro h m hm
    refine ⟨fun hbegin ↦ ⟨?_, ?_⟩, fun hlate hbelow ↦ ?_⟩
    · by_contra hone
      refine h.closed m hm (by omega) ((hremoved m hm).mpr (.inl (by omega)))
    · have hexpired := (hpast m).mp (h.expired m hm ((hremoved m hm).mpr (.inl (by omega))))
      rcases hexpired with hlt | ⟨-, hday⟩
      · omega
      · exact hday
    · have hexpired := (hpast m).mp (h.expired m hm ((hremoved m hm).mpr (.inr ⟨hlate, hbelow⟩)))
      omega
  · intro h
    constructor
    · intro m hm hgone
      rw [hpast]
      rcases (hremoved m hm).mp hgone with hearly | ⟨hlate, hbelow⟩
      · rcases Nat.lt_or_eq_of_le hearly with hlt | hbegin
        · exact .inl hlt
        · exact .inr ⟨hbegin, ((h m hm).1 hbegin).2⟩
      · exact absurd hbelow ((h m hm).2 hlate)
    · intro m hm hold
      exact (hremoved m hm).mpr (.inl (by omega))
    · intro m hm hclosed hgone
      rcases (hremoved m hm).mp hgone with hearly | ⟨hlate, hbelow⟩
      · have hone := ((h m hm).1 (by omega)).1
        omega
      · exact (h m hm).2 hlate hbelow

/-- **Evidence is removed that is still to be kept**: in the middle of March 2026, with a window of twelve
months, the archive of March 2025; and with a window of one month, the archive of February 2026. -/
theorem prune_not_correct :
    ¬PruneCorrect .ascii {} "nat_logs".toList ⟨2026, 3, 15, by decide, by decide, by decide⟩
      [⟨12 * 2025 + 2, by decide⟩] ∧
    ¬PruneCorrect .ascii { retentionMonths := 1 } "nat_logs".toList
      ⟨2026, 3, 15, by decide, by decide, by decide⟩ [⟨12 * 2026 + 1, by decide⟩] := by
  have hgone : ∀ (months : ℕ) (m : ArchiveMonth), 1 ≤ months → m + months = 12 * 2026 + 2 →
      yyyymm m < pruneCutoff months ⟨2026, 3, 15, by decide, by decide, by decide⟩ :=
    fun months m hpos hm ↦ (yyyymm_lt_pruneCutoff_iff hpos).mpr (.inl (Nat.le_of_eq hm))
  constructor
  · intro h
    have hexpired := h.expired _ List.mem_cons_self
      ((removed_iff List.mem_cons_self).mpr (hgone 12 _ (by decide) rfl))
    rw [forall_addMonths_le_iff rfl] at hexpired
    revert hexpired
    decide
  · intro h
    exact h.closed _ List.mem_cons_self rfl
      ((removed_iff List.mem_cons_self).mpr (hgone 1 _ (by decide) rfl))

end LogServer
