import LogServer.Services.Archive

/-!
# Archiving loses nothing

What a drop removes is in the archive, provided that

* a run opens the temporary file of a month only when no other run is writing it,
* a run selects the rows of a month only when none of them was dropped before, and
* a run drops a month only when no row of it was inserted after its `SELECT`.

`archive_safe` is that this is enough, along every run of the system; each of the three can fail,
since the program takes no lock and looks at nothing again before it drops
(`archive_late_row`).

The proof follows what each maintenance run knows about its export (`Export`), and forgets the rest
of the program.
-/

namespace LogServer

open Transition

/-! ## Paths -/

section paths

variable {cfg : ArchiveConfig} {p q : Text}

/-- A suffix is replaced. -/
theorem withSuffix_append {stem ext : Text} (hext : '.' ∉ ext) (suffix : Text) :
    withSuffix (stem ++ '.' :: ext) suffix = stem ++ suffix := by
  have hpos : ∀ c ∈ ext.reverse, (c ≠ '.' : Bool) = true := by
    intro c hc
    rw [decide_eq_true_eq]
    rintro rfl
    exact hext (List.mem_reverse.mp hc)
  rw [withSuffix, List.reverse_append, List.reverse_cons, List.append_assoc,
    List.dropWhile_append_of_pos hpos]
  simp

def ArchiveConfig.stem (cfg : ArchiveConfig) (p : Text) : Text :=
  cfg.archiveDir ++ "/".toList ++ cfg.table ++ "-".toList ++ p ++ ".native".toList

theorem ArchiveConfig.target_eq : cfg.target p = cfg.stem p ++ ".gz".toList := rfl

theorem ArchiveConfig.tmp_eq : cfg.tmp p = cfg.stem p ++ ".tmp".toList :=
  withSuffix_append (by decide) _

theorem ArchiveConfig.stem_inj : cfg.stem p = cfg.stem q ↔ p = q := by
  rw [stem, stem, List.append_left_inj, List.append_right_inj]

theorem ArchiveConfig.target_inj : cfg.target p = cfg.target q ↔ p = q := by
  rw [target_eq, target_eq, List.append_left_inj, stem_inj]

theorem ArchiveConfig.tmp_inj : cfg.tmp p = cfg.tmp q ↔ p = q := by
  rw [tmp_eq, tmp_eq, List.append_left_inj, stem_inj]

/-- No month is archived under the temporary name of another. -/
theorem ArchiveConfig.target_ne_tmp : cfg.target p ≠ cfg.tmp q := by
  intro h
  have hlast := congrArg List.getLast? h
  rw [target_eq, tmp_eq] at hlast
  simp at hlast

end paths

/-! ## Exports -/

/-- What a maintenance run knows about its export. -/
inductive Export (ρ : Type) where
  | none
  /-- The temporary file is open. -/
  | opened (p : Text) (inode : Nat)
  /-- Some bytes of the rows are written. -/
  | streaming (p : Text) (inode : Nat) (rows : List (LogRow ρ)) (offset : Nat)
  /-- The temporary file is complete. -/
  | closed (p : Text) (inode : Nat) (rows : List (LogRow ρ))
  /-- The file is at its place. -/
  | renamed (p : Text) (rows : List (LogRow ρ))

variable {ρ : Type}

namespace Export

def writes : Export ρ → Option (Text × Nat)
  | .opened p inode | .streaming p inode _ _ | .closed p inode _ => some (p, inode)
  | .none | .renamed _ _ => Option.none

def selects : Export ρ → Option (Text × List (LogRow ρ))
  | .streaming p _ rows _ | .closed p _ rows => some (p, rows)
  | .none | .opened _ _ | .renamed _ _ => Option.none

def rows : Export ρ → Option (Text × List (LogRow ρ))
  | .streaming p _ rows _ | .closed p _ rows | .renamed p rows => some (p, rows)
  | .none | .opened _ _ => Option.none

/-- What is in the temporary file. -/
def Written (fmt : LogFormat ρ) (fs : FileSystem Text UInt8) : Export ρ → Prop
  | .opened _ inode => fs.content inode = []
  | .streaming _ inode rows offset =>
      offset ≤ (fmt.file rows).length ∧ fs.content inode = (fmt.file rows).take offset
  | .closed _ inode rows => fs.content inode = fmt.file rows
  | .none | .renamed _ _ => True

/-- Rows that are being written were selected. -/
theorem rows_of_selects {e : Export ρ} {x : Text × List (LogRow ρ)} (h : e.selects = some x) :
    e.rows = some x := by
  cases e <;> first | exact h | cases h

/-- A run that has selected rows is writing them. -/
theorem writes_of_selects {e : Export ρ} {p : Text} {rows : List (LogRow ρ)}
    (h : e.selects = some (p, rows)) : ∃ i, e.writes = some (p, i) := by
  cases e with
  | none => cases h
  | opened p i => cases h
  | streaming p i rows offset =>
      cases h
      exact ⟨i, rfl⟩
  | closed p i rows =>
      cases h
      exact ⟨i, rfl⟩
  | renamed p rows => cases h

/-- What is written to other inodes does not matter. -/
theorem Written.congr {fmt : LogFormat ρ} {fs fs' : FileSystem Text UInt8} {e : Export ρ}
    (h : e.Written fmt fs) (hfs : ∀ p i, e.writes = some (p, i) → fs'.content i = fs.content i) :
    e.Written fmt fs' := by
  cases e with
  | none => exact trivial
  | opened p i => exact (hfs p i rfl).trans h
  | streaming p i rows offset => exact ⟨h.1, (hfs p i rfl).trans h.2⟩
  | closed p i rows => exact (hfs p i rfl).trans h
  | renamed p rows => exact trivial

end Export

def ArchivePhase.toExport : ArchivePhase ρ → Export ρ
  | .selecting p _ _ inode => .opened p inode
  | .streaming p _ _ inode rows offset => .streaming p inode rows offset
  | .renaming p _ _ inode rows => .closed p inode rows
  | .sizing p _ _ rows | .finishing p _ _ _ rows | .dropping p _ rows => .renamed p rows
  | .listing _ _ | .idle | .counting _ _ | .opening _ _ _ | .failing _ _ _ | .unlinking _ => .none

namespace Archives

/-- The export of a maintenance run, if there is one. -/
def exportOf : Option (MaintenanceRun ρ) → Export ρ
  | some run => run.phase.toExport
  | none => .none

def exports (s : Archives ρ) (r : Nat) : Export ρ := exportOf (s.runs r)

/-! ## The invariant -/

variable (cfg : ArchiveConfig) (fmt : LogFormat ρ)

/-- **What is dropped is archived**, by what the maintenance runs know about their exports and by
what was last put at the place of each month. -/
structure Inv (fs : FileSystem Text UInt8) (table dropped : Finset (LogRow ρ)) (inserted : Nat)
    (exports : Nat → Export ρ) (archive : Text → List (LogRow ρ)) : Prop where
  /-- No two runs write the same month or the same inode. -/
  apart : ∀ r r' p p' i i', (exports r).writes = some (p, i) →
    (exports r').writes = some (p', i') → p = p' ∨ i = i' → r = r'
  /-- An inode that is written has at most the temporary path of the month, and that path is no
  other inode. -/
  inode : ∀ r p i, (exports r).writes = some (p, i) → i < fs.next ∧
    (∀ path, fs.entry path = some i → path = cfg.tmp p) ∧
    ∀ j, fs.entry (cfg.tmp p) = some j → j = i
  written : ∀ r, (exports r).Written fmt fs
  fresh : ∀ row ∈ table, row.id < inserted
  known : ∀ r p rows, (exports r).rows = some (p, rows) →
    ∀ row ∈ rows, row.id < inserted ∧ fmt.month row = p
  /-- An export in progress has all rows of the month that were dropped meanwhile. -/
  selected : ∀ r p rows, (exports r).selects = some (p, rows) →
    ∀ row ∈ dropped, fmt.month row = p → row ∈ rows
  /-- An export in progress has all rows that are still there of an export before it. -/
  later : ∀ r r' p rows rows', exports r = .renamed p rows →
    (exports r').selects = some (p, rows') → ∀ row ∈ table, row ∈ rows → row ∈ rows'
  file : ∀ p, archive p ≠ [] → fs.read (cfg.target p) = some (fmt.file (archive p))
  renamed : ∀ r p rows, exports r = .renamed p rows →
    ∀ row ∈ table, row ∈ rows → row ∈ archive p
  archived : ∀ row ∈ dropped, row ∈ archive (fmt.month row)

namespace Inv

variable {cfg fmt} {fs fs' : FileSystem Text UInt8} {table dropped : Finset (LogRow ρ)}
  {inserted : Nat} {exports : Nat → Export ρ} {archive : Text → List (LogRow ρ)} {r : Nat}
  {p : Text} {i : Nat} {rows : List (LogRow ρ)}

theorem empty : Inv cfg fmt .empty ∅ ∅ 0 (fun _ ↦ .none) fun _ ↦ [] where
  apart := fun r r' p p' i i' h ↦ by cases h
  inode := fun r p i h ↦ by cases h
  written := fun r ↦ trivial
  fresh := fun row hrow ↦ by cases hrow
  known := fun r p rows h ↦ by cases h
  selected := fun r p rows h ↦ by cases h
  later := fun r r' p rows rows' h ↦ by cases h
  file := fun p h ↦ absurd rfl h
  renamed := fun r p rows h ↦ by cases h
  archived := fun row hrow ↦ by cases hrow

/-! ## Exports that end -/

/-- Some runs have exports without rows instead, and the archived files are as they were. -/
theorem reexport (h : Inv cfg fmt fs table dropped inserted exports archive)
    {exports' : Nat → Export ρ}
    (hexports : ∀ r, exports' r = exports r ∨ (exports' r).rows = none)
    (hfile : ∀ p, fs'.read (cfg.target p) = fs.read (cfg.target p))
    (apart : ∀ r r' p p' i i', (exports' r).writes = some (p, i) →
      (exports' r').writes = some (p', i') → p = p' ∨ i = i' → r = r')
    (inode : ∀ r p i, (exports' r).writes = some (p, i) → i < fs'.next ∧
      (∀ path, fs'.entry path = some i → path = cfg.tmp p) ∧
      ∀ j, fs'.entry (cfg.tmp p) = some j → j = i)
    (written : ∀ r, (exports' r).Written fmt fs') :
    Inv cfg fmt fs' table dropped inserted exports' archive := by
  have hrows : ∀ {r x}, (exports' r).rows = some x → (exports r).rows = some x := by
    intro r x hx
    rcases hexports r with heq | hnone
    · rwa [heq] at hx
    · rw [hnone] at hx
      cases hx
  have hselects : ∀ {r x}, (exports' r).selects = some x → (exports r).selects = some x := by
    intro r x hx
    rcases hexports r with heq | hnone
    · rwa [heq] at hx
    · rw [Export.rows_of_selects hx] at hnone
      cases hnone
  have hrenamed : ∀ {r p rows}, exports' r = .renamed p rows → exports r = .renamed p rows := by
    intro r p rows hx
    rcases hexports r with heq | hnone
    · rw [← heq, hx]
    · rw [hx] at hnone
      cases hnone
  constructor
  · exact apart
  · exact inode
  · exact written
  · exact h.fresh
  · exact fun r p rows hr ↦ h.known r p rows (hrows hr)
  · exact fun r p rows hr ↦ h.selected r p rows (hselects hr)
  · exact fun r r' p rows rows' hr hr' ↦ h.later r r' p rows rows' (hrenamed hr) (hselects hr')
  · exact fun p hne ↦ (hfile p).trans (h.file p hne)
  · exact fun r p rows hr ↦ h.renamed r p rows (hrenamed hr)
  · exact h.archived

/-- Runs may forget their exports. -/
theorem forget (h : Inv cfg fmt fs table dropped inserted exports archive)
    {exports' : Nat → Export ρ} (hexports : ∀ r, exports' r = exports r ∨ exports' r = .none) :
    Inv cfg fmt fs table dropped inserted exports' archive := by
  have hwrites : ∀ {r x}, (exports' r).writes = some x → (exports r).writes = some x := by
    intro r x hx
    rcases hexports r with heq | heq <;> rw [heq] at hx
    · exact hx
    · cases hx
  refine h.reexport (fun r ↦ ?_) (fun _ ↦ rfl) ?_ ?_ fun r ↦ ?_
  · exact (hexports r).imp_right fun heq ↦ congrArg Export.rows heq
  · exact fun r r' p p' i i' hr hr' ↦ h.apart r r' p p' i i' (hwrites hr) (hwrites hr')
  · exact fun r p i hr ↦ h.inode r p i (hwrites hr)
  · rcases hexports r with heq | heq <;> rw [heq]
    · exact h.written r
    · exact trivial

theorem forget_one (h : Inv cfg fmt fs table dropped inserted exports archive) (r : Nat) :
    Inv cfg fmt fs table dropped inserted (Function.update exports r .none) archive := by
  refine h.forget fun r' ↦ ?_
  rw [Function.update_apply]
  split
  · exact .inr rfl
  · exact .inl rfl

/-! ## The steps of an export -/

/-- The temporary file of a month that no run writes is opened. -/
theorem openTmp (h : Inv cfg fmt fs table dropped inserted exports archive)
    (hfree : ∀ r' i, (exports r').writes ≠ some (p, i)) :
    Inv cfg fmt (fs.openTruncate (cfg.tmp p)).1 table dropped inserted
      (Function.update exports r (.opened p (fs.openTruncate (cfg.tmp p)).2)) archive := by
  have hne : ∀ r' p' i', (exports r').writes = some (p', i') →
      p' ≠ p ∧ fs.entry (cfg.tmp p) ≠ some i' ∧ i' ≠ (fs.openTruncate (cfg.tmp p)).2 := by
    intro r' p' i' hr'
    have hp : p' ≠ p := by
      rintro rfl
      exact hfree r' i' hr'
    obtain ⟨hlt, hpath, -⟩ := h.inode r' p' i' hr'
    have hentry : fs.entry (cfg.tmp p) ≠ some i' := fun hentry ↦
      hp (ArchiveConfig.tmp_inj.mp (hpath _ hentry)).symm
    refine ⟨hp, hentry, ?_⟩
    rintro rfl
    rcases FileSystem.openTruncate_eq_or fs (cfg.tmp p) with heq | heq
    · exact hentry heq
    · exact absurd heq (Nat.ne_of_lt hlt)
  have hself : (fs.openTruncate (cfg.tmp p)).1.entry (cfg.tmp p) =
      some (fs.openTruncate (cfg.tmp p)).2 := by
    rw [FileSystem.entry_openTruncate, Function.update_self]
  refine h.reexport (fun r' ↦ ?_)
    (fun q ↦ FileSystem.read_openTruncate_ne ArchiveConfig.target_ne_tmp) ?_ ?_ ?_
  · rw [Function.update_apply]
    split
    · exact .inr rfl
    · exact .inl rfl
  · intro r₁ r₂ p₁ p₂ i₁ i₂ hr₁ hr₂ heq
    rw [Function.update_apply] at hr₁ hr₂
    split at hr₁
    · rename_i hr₁r
      split at hr₂
      · rename_i hr₂r
        rw [hr₁r, hr₂r]
      · cases hr₁
        obtain ⟨hp, -, hi⟩ := hne r₂ p₂ i₂ hr₂
        rcases heq with rfl | rfl
        · exact absurd rfl hp
        · exact absurd rfl hi
    · split at hr₂
      · cases hr₂
        obtain ⟨hp, -, hi⟩ := hne r₁ p₁ i₁ hr₁
        rcases heq with rfl | rfl
        · exact absurd rfl hp
        · exact absurd rfl hi
      · exact h.apart r₁ r₂ p₁ p₂ i₁ i₂ hr₁ hr₂ heq
  · intro r' p' i' hr'
    rw [Function.update_apply] at hr'
    split at hr'
    · cases hr'
      refine ⟨FileSystem.openTruncate_lt _, fun path hpath ↦ ?_, fun j hj ↦ ?_⟩
      · exact (fs.openTruncate (cfg.tmp p)).1.entry_inj path _ _ hpath hself
      · exact Option.some.inj (hj.symm.trans hself)
    · obtain ⟨hlt, hpath, htmp⟩ := h.inode r' p' i' hr'
      obtain ⟨hp, -, hi⟩ := hne r' p' i' hr'
      refine ⟨Nat.lt_of_lt_of_le hlt (FileSystem.next_openTruncate _), fun path hentry ↦ ?_,
        fun j hj ↦ ?_⟩
      · rw [FileSystem.entry_openTruncate, Function.update_apply] at hentry
        split at hentry
        · exact absurd (Option.some.inj hentry).symm hi
        · exact hpath path hentry
      · rw [FileSystem.entry_openTruncate, Function.update_of_ne
          fun heq ↦ hp (ArchiveConfig.tmp_inj.mp heq)] at hj
        exact htmp j hj
  · intro r'
    rw [Function.update_apply]
    split
    · exact FileSystem.content_openTruncate_self _
    · refine (h.written r').congr fun p' i' hr' ↦ ?_
      exact FileSystem.content_openTruncate (h.inode r' p' i' hr').1 (hne r' p' i' hr').2.1

/-- A run that writes a month goes on to write some rows of it, which have what was dropped and
what is left of earlier exports. -/
theorem advance (h : Inv cfg fmt fs table dropped inserted exports archive) {e : Export ρ}
    {bytes : Bytes} (hr : (exports r).writes = some (p, i)) (hwrites : e.writes = some (p, i))
    (hrows : e.rows = some (p, rows)) (hwritten : e.Written fmt (fs.setContent i bytes))
    (hknown : ∀ row ∈ rows, row.id < inserted ∧ fmt.month row = p)
    (hselected : ∀ row ∈ dropped, fmt.month row = p → row ∈ rows)
    (hlater : ∀ r' rows', exports r' = .renamed p rows' →
      ∀ row ∈ table, row ∈ rows' → row ∈ rows) :
    Inv cfg fmt (fs.setContent i bytes) table dropped inserted (Function.update exports r e)
      archive := by
  have hold : ∀ {r' x}, (Function.update exports r e r').writes = some x →
      (exports r').writes = some x := by
    intro r' x hx
    rw [Function.update_apply] at hx
    split at hx
    · rename_i heq
      rw [heq, hr, ← hx, hwrites]
    · exact hx
  have hselects : ∀ {x}, e.selects = some x → x = (p, rows) := fun hx ↦
    Option.some.inj ((Export.rows_of_selects hx).symm.trans hrows)
  have hrenamed : ∀ {p' rows'}, e ≠ .renamed p' rows' := by
    rintro p' rows' rfl
    cases hwrites
  constructor
  · exact fun r₁ r₂ p₁ p₂ i₁ i₂ hr₁ hr₂ ↦ h.apart r₁ r₂ p₁ p₂ i₁ i₂ (hold hr₁) (hold hr₂)
  · exact fun r' p' i' hr' ↦ h.inode r' p' i' (hold hr')
  · intro r'
    rw [Function.update_apply]
    split
    · exact hwritten
    · rename_i hne
      refine (h.written r').congr fun p' i' hr' ↦ FileSystem.content_setContent_ne ?_ bytes
      rintro rfl
      exact hne (h.apart r' r p' p i' i' hr' hr (.inr rfl))
  · exact h.fresh
  · intro r' p' rows' hr'
    rw [Function.update_apply] at hr'
    split at hr'
    · obtain ⟨rfl, rfl⟩ := Prod.mk.inj (Option.some.inj (hrows.symm.trans hr'))
      exact hknown
    · exact h.known r' p' rows' hr'
  · intro r' p' rows' hr'
    rw [Function.update_apply] at hr'
    split at hr'
    · obtain ⟨rfl, rfl⟩ := Prod.mk.inj (hselects hr')
      exact hselected
    · exact h.selected r' p' rows' hr'
  · intro r₁ r₂ p' rows₁ rows₂ hr₁ hr₂
    rw [Function.update_apply] at hr₁ hr₂
    split at hr₁
    · exact absurd hr₁ hrenamed
    · split at hr₂
      · obtain ⟨rfl, rfl⟩ := Prod.mk.inj (hselects hr₂)
        exact hlater r₁ rows₁ hr₁
      · exact h.later r₁ r₂ p' rows₁ rows₂ hr₁ hr₂
  · intro p' hne
    rw [FileSystem.read_setContent fun hentry ↦ ArchiveConfig.target_ne_tmp
      ((h.inode r p i hr).2.1 _ hentry)]
    exact h.file p' hne
  · intro r' p' rows' hr'
    rw [Function.update_apply] at hr'
    split at hr'
    · exact absurd hr' hrenamed
    · exact h.renamed r' p' rows' hr'
  · exact h.archived

/-- The rows of a month are selected, none of which was dropped before. -/
theorem select [DecidableEq ρ] (h : Inv cfg fmt fs table dropped inserted exports archive)
    (hr : exports r = .opened p i) (hrows : rows.toFinset = rowsOf p fmt table)
    (hfree : ∀ row ∈ dropped, fmt.month row ≠ p) :
    Inv cfg fmt fs table dropped inserted (Function.update exports r (.streaming p i rows 0))
      archive := by
  have hmem : ∀ row, row ∈ rows ↔ row ∈ table ∧ fmt.month row = p := by
    intro row
    rw [← List.mem_toFinset, hrows, rowsOf, Finset.mem_filter]
  have hsame : fs.setContent i (fs.content i) = fs := by
    rw [FileSystem.setContent, Function.update_eq_self]
  have hcontent : fs.content i = [] := by
    have hwritten := h.written r
    rwa [hr] at hwritten
  rw [← hsame]
  refine h.advance (by rw [hr]; rfl) rfl rfl ?_ ?_ ?_ ?_
  · rw [hsame]
    exact ⟨Nat.zero_le _, hcontent⟩
  · exact fun row hrow ↦ ⟨h.fresh row ((hmem row).mp hrow).1, ((hmem row).mp hrow).2⟩
  · exact fun row hrow hmonth ↦ absurd hmonth (hfree row hrow)
  · intro r' rows' hr' row htable hrow
    have hknown := h.known r' p rows' (by rw [hr']; rfl) row hrow
    exact (hmem row).mpr ⟨htable, hknown.2⟩

/-- A streaming run writes its next bytes. -/
theorem write (h : Inv cfg fmt fs table dropped inserted exports archive) {offset : Nat}
    (hr : exports r = .streaming p i rows offset) {bytes : Bytes} {e : Export ρ}
    (hwrites : e.writes = some (p, i)) (hrows : e.rows = some (p, rows))
    (hwritten : ∀ fs' : FileSystem Text UInt8,
      fs'.content i = (fmt.file rows).take offset ++ bytes → e.Written fmt fs') :
    Inv cfg fmt (fs.pwrite 0 i offset bytes) table dropped inserted
      (Function.update exports r e) archive := by
  obtain ⟨hle, hcontent⟩ : offset ≤ _ ∧ _ = _ := by
    have hwritten := h.written r
    rwa [hr] at hwritten
  have hlength : (fs.content i).length = offset := by
    rw [hcontent, List.length_take, Nat.min_eq_left hle]
  refine h.advance (by rw [hr]; rfl) hwrites hrows (hwritten _ ?_) ?_ ?_ ?_
  · rw [← hcontent]
    exact FileSystem.content_pwrite_end hlength bytes
  · exact h.known r p rows (by rw [hr]; rfl)
  · exact h.selected r p rows (by rw [hr]; rfl)
  · exact fun r' rows' hr' ↦ h.later r' r p rows' rows hr' (by rw [hr]; rfl)

/-- A complete export is moved to its place. -/
theorem rename (h : Inv cfg fmt fs table dropped inserted exports archive)
    (hr : exports r = .closed p i rows) {fs' : FileSystem Text UInt8}
    (hfs : fs.rename (cfg.tmp p) (cfg.target p) = some fs') :
    Inv cfg fmt fs' table dropped inserted (Function.update exports r (.renamed p rows))
      (Function.update archive p rows) := by
  have hwrites : (exports r).writes = some (p, i) := by
    rw [hr]
    rfl
  have hselects : (exports r).selects = some (p, rows) := by
    rw [hr]
    rfl
  obtain ⟨i', hi', hentry, hcontent, hnext⟩ := FileSystem.rename_eq_some hfs
  obtain rfl : i' = i := (h.inode r p i hwrites).2.2 i' hi'
  have hother : ∀ r' p' j, r' ≠ r → (exports r').writes = some (p', j) → p' ≠ p ∧ j ≠ i' := by
    intro r' p' j hne hr'
    have happart := h.apart r' r p' p j i' hr' hwrites
    exact ⟨fun heq ↦ hne (happart (.inl heq)), fun heq ↦ hne (happart (.inr heq))⟩
  constructor
  · intro r₁ r₂ p₁ p₂ i₁ i₂ hr₁ hr₂
    rw [Function.update_apply] at hr₁ hr₂
    split at hr₁
    · cases hr₁
    · split at hr₂
      · cases hr₂
      · exact h.apart r₁ r₂ p₁ p₂ i₁ i₂ hr₁ hr₂
  · intro r' p' j hr'
    rw [Function.update_apply] at hr'
    split at hr'
    · cases hr'
    · rename_i hne
      obtain ⟨hp, hj⟩ := hother r' p' j hne hr'
      obtain ⟨hlt, hpath, htmp⟩ := h.inode r' p' j hr'
      refine ⟨by rwa [hnext], fun path hpath' ↦ ?_, fun k hk ↦ ?_⟩
      · rw [hentry, Function.update_apply] at hpath'
        split at hpath'
        · exact absurd (Option.some.inj hpath').symm hj
        · rw [Function.update_apply] at hpath'
          split at hpath'
          · cases hpath'
          · exact hpath path hpath'
      · rw [hentry, Function.update_of_ne ArchiveConfig.target_ne_tmp.symm,
          Function.update_of_ne fun heq ↦ hp (ArchiveConfig.tmp_inj.mp heq)] at hk
        exact htmp k hk
  · intro r'
    rw [Function.update_apply]
    split
    · exact trivial
    · exact (h.written r').congr fun p' j hr' ↦ by rw [hcontent]
  · exact h.fresh
  · intro r' p' rows' hr'
    rw [Function.update_apply] at hr'
    split at hr'
    · cases hr'
      exact h.known r p rows (Export.rows_of_selects hselects)
    · exact h.known r' p' rows' hr'
  · intro r' p' rows' hr'
    rw [Function.update_apply] at hr'
    split at hr'
    · cases hr'
    · exact h.selected r' p' rows' hr'
  · intro r₁ r₂ p' rows₁ rows₂ hr₁ hr₂
    rw [Function.update_apply] at hr₁ hr₂
    split at hr₂
    · cases hr₂
    · rename_i hne
      split at hr₁
      · cases hr₁
        obtain ⟨j, hj⟩ := Export.writes_of_selects hr₂
        exact absurd rfl (hother r₂ p j hne hj).1
      · exact h.later r₁ r₂ p' rows₁ rows₂ hr₁ hr₂
  · intro p' hne
    by_cases hp : p' = p
    · subst hp
      rw [FileSystem.read_rename hfs, Function.update_self, FileSystem.read, hi']
      have hwritten := h.written r
      rw [hr] at hwritten
      exact congrArg some hwritten
    · rw [Function.update_of_ne hp] at hne ⊢
      rw [FileSystem.read_rename_ne hfs ArchiveConfig.target_ne_tmp
        fun heq ↦ hp (ArchiveConfig.target_inj.mp heq)]
      exact h.file p' hne
  · intro r' p' rows' hr' row htable hrow
    rw [Function.update_apply] at hr'
    split at hr'
    · cases hr'
      rwa [Function.update_self]
    · by_cases hp : p' = p
      · subst hp
        rw [Function.update_self]
        exact h.later r' r p' rows' rows hr' hselects row htable hrow
      · rw [Function.update_of_ne hp]
        exact h.renamed r' p' rows' hr' row htable hrow
  · intro row hrow
    by_cases hp : fmt.month row = p
    · rw [hp, Function.update_self]
      exact h.selected r p rows hselects row hrow hp
    · rw [Function.update_of_ne hp]
      exact h.archived row hrow

/-! ## The other steps -/

/-- A temporary file is removed. -/
theorem unlink (h : Inv cfg fmt fs table dropped inserted exports archive) (p : Text) :
    Inv cfg fmt (fs.unlink (cfg.tmp p)) table dropped inserted exports archive where
  apart := h.apart
  inode := by
    intro r' p' j hr'
    obtain ⟨hlt, hpath, htmp⟩ := h.inode r' p' j hr'
    have hentry : ∀ {path k}, (fs.unlink (cfg.tmp p)).entry path = some k →
        fs.entry path = some k := by
      intro path k hk
      replace hk : Function.update fs.entry (cfg.tmp p) none path = some k := hk
      rw [Function.update_apply] at hk
      split at hk
      · cases hk
      · exact hk
    exact ⟨hlt, fun path hk ↦ hpath path (hentry hk), fun k hk ↦ htmp k (hentry hk)⟩
  written := fun r' ↦ (h.written r').congr fun p' j hr' ↦ rfl
  fresh := h.fresh
  known := h.known
  selected := h.selected
  later := h.later
  file := fun p' hne ↦ by
    rw [FileSystem.read_unlink_ne ArchiveConfig.target_ne_tmp]
    exact h.file p' hne
  renamed := h.renamed
  archived := h.archived

/-- New rows are in no export. -/
theorem insert [DecidableEq ρ] (h : Inv cfg fmt fs table dropped inserted exports archive)
    {new : Finset (LogRow ρ)} {n : Nat}
    (hnew : ∀ row ∈ new, inserted ≤ row.id ∧ row.id < inserted + n) :
    Inv cfg fmt fs (table ∪ new) dropped (inserted + n) exports archive := by
  have hlt : ∀ {m : Nat}, m < inserted → m < inserted + n := fun hm ↦
    Nat.lt_of_lt_of_le hm (Nat.le_add_right _ _)
  have hold : ∀ {r p rows row}, exports r = .renamed p rows → row ∈ table ∪ new → row ∈ rows →
      row ∈ table := by
    intro r p rows row hr hrow hmem
    rcases Finset.mem_union.mp hrow with hold | hnew'
    · exact hold
    · have hknown := h.known r p rows (by rw [hr]; rfl) row hmem
      exact absurd hknown.1 (Nat.not_lt.mpr (hnew row hnew').1)
  constructor
  · exact h.apart
  · exact h.inode
  · exact h.written
  · intro row hrow
    rcases Finset.mem_union.mp hrow with hold | hnew'
    · exact hlt (h.fresh row hold)
    · exact (hnew row hnew').2
  · intro r p rows hr row hrow
    obtain ⟨hid, hmonth⟩ := h.known r p rows hr row hrow
    exact ⟨hlt hid, hmonth⟩
  · exact h.selected
  · exact fun r r' p rows rows' hr hr' row hrow hmem ↦
      h.later r r' p rows rows' hr hr' row (hold hr hrow hmem) hmem
  · exact h.file
  · exact fun r p rows hr row hrow hmem ↦ h.renamed r p rows hr row (hold hr hrow hmem) hmem
  · exact h.archived

/-- A month is dropped, all of whose rows were selected. -/
theorem drop [DecidableEq ρ] (h : Inv cfg fmt fs table dropped inserted exports archive)
    (hr : exports r = .renamed p rows)
    (hrows : ∀ row ∈ table, fmt.month row = p → row ∈ rows) :
    Inv cfg fmt fs (table.filter fun row ↦ fmt.month row ≠ p) (dropped ∪ rowsOf p fmt table)
      inserted exports archive := by
  have htable : ∀ {row}, row ∈ table.filter (fun row ↦ fmt.month row ≠ p) → row ∈ table :=
    fun hrow ↦ (Finset.mem_filter.mp hrow).1
  constructor
  · exact h.apart
  · exact h.inode
  · exact h.written
  · exact fun row hrow ↦ h.fresh row (htable hrow)
  · exact h.known
  · intro r' p' rows' hr' row hrow hmonth
    rcases Finset.mem_union.mp hrow with hold | hnew
    · exact h.selected r' p' rows' hr' row hold hmonth
    · obtain ⟨hmem, hp⟩ := Finset.mem_filter.mp hnew
      obtain rfl : p' = p := hmonth.symm.trans hp
      exact h.later r r' p' rows rows' hr hr' row hmem (hrows row hmem hp)
  · exact fun r r' p rows rows' hr hr' row hrow ↦ h.later r r' p rows rows' hr hr' row (htable hrow)
  · exact h.file
  · exact fun r p rows hr row hrow ↦ h.renamed r p rows hr row (htable hrow)
  · intro row hrow
    rcases Finset.mem_union.mp hrow with hold | hnew
    · exact h.archived row hold
    · obtain ⟨hmem, hp⟩ := Finset.mem_filter.mp hnew
      rw [hp]
      exact h.renamed r p rows hr row hmem (hrows row hmem hp)

end Inv

/-! ## The system -/

variable [DecidableEq ρ]

/-- No run opens a temporary file that another is writing, selects from a month that was dropped
before, or drops a month that has rows it did not select. -/
def Undisturbed (s : Archives ρ) : Action ρ → Prop
  | .open r => ∀ run p runId expected, s.runs r = some run →
      run.phase = .opening p runId expected → ∀ r' i, (s.exports r').writes ≠ some (p, i)
  | .select r _ => ∀ run p runId expected inode, s.runs r = some run →
      run.phase = .selecting p runId expected inode → ∀ row ∈ s.dropped, fmt.month row ≠ p
  | .drop r _ _ => ∀ run p runId rows, s.runs r = some run →
      run.phase = .dropping p runId rows → ∀ row ∈ s.table, fmt.month row = p → row ∈ rows
  | _ => True

/-- What is dropped is archived. -/
def Safe (s : Archives ρ) : Prop :=
  ∃ archive, Inv cfg fmt s.fs s.table s.dropped s.inserted s.exports archive

section steps

variable {cfg fmt} {s s' : Archives ρ} {r : Nat} {run : MaintenanceRun ρ}

omit [DecidableEq ρ] in
theorem exports_update {o : Option (MaintenanceRun ρ)}
    (h : s'.runs = Function.update s.runs r o) :
    s'.exports = Function.update s.exports r (exportOf o) := by
  funext r'
  show exportOf (s'.runs r') = _
  rw [h, Function.update_apply, Function.update_apply]
  split <;> rfl

omit [DecidableEq ρ] in
theorem exports_goto (phase : ArchivePhase ρ) :
    (s.goto r run phase).exports = Function.update s.exports r phase.toExport :=
  exports_update (o := some { run with phase := phase }) rfl

omit [DecidableEq ρ] in
theorem exports_eq (h : s.runs r = some run) : s.exports r = run.phase.toExport := by
  rw [exports, h, exportOf]

omit [DecidableEq ρ] in
/-- A run forgets its export, or has none. -/
theorem Safe.forget (h : s.Safe cfg fmt) {o : Option (MaintenanceRun ρ)}
    (ho : ∀ run, o = some run → run.phase.toExport = .none)
    (hruns : s'.runs = Function.update s.runs r o) (hfs : s'.fs = s.fs)
    (htable : s'.table = s.table) (hdropped : s'.dropped = s.dropped)
    (hinserted : s'.inserted = s.inserted) : s'.Safe cfg fmt := by
  obtain ⟨archive, hinv⟩ := h
  refine ⟨archive, ?_⟩
  have hnone : exportOf o = .none := by
    cases o with
    | none => rfl
    | some run => exact ho run rfl
  rw [exports_update hruns, hnone, hfs, htable, hdropped, hinserted]
  exact hinv.forget_one r

omit [DecidableEq ρ] in
/-- A run goes on with the same export. -/
theorem Safe.keep (h : s.Safe cfg fmt) (hrun : s.runs r = some run) {phase : ArchivePhase ρ}
    (hphase : phase.toExport = run.phase.toExport) : (s.goto r run phase).Safe cfg fmt := by
  obtain ⟨archive, hinv⟩ := h
  refine ⟨archive, ?_⟩
  rw [exports_goto, hphase, ← exports_eq hrun, Function.update_eq_self]
  exact hinv

omit [DecidableEq ρ] in
/-- A run goes on without an export. -/
theorem Safe.release (h : s.Safe cfg fmt) {phase : ArchivePhase ρ} (hphase : phase.toExport = .none) :
    (s.goto r run phase).Safe cfg fmt := by
  refine h.forget (r := r) (o := some { run with phase := phase }) ?_ rfl rfl rfl rfl rfl
  rintro run' ⟨⟩
  exact hphase

section phases

variable {p : Text} {runId expected inode offset : Nat} {rows : List (LogRow ρ)}

omit [DecidableEq ρ] in
/-- The temporary file is opened, and no other run writes it. -/
theorem Safe.open (h : s.Safe cfg fmt) (hfree : ∀ r' i, (s.exports r').writes ≠ some (p, i)) :
    (({ s with fs := (s.fs.openTruncate (cfg.tmp p)).1 } : Archives ρ).goto r run
      (.selecting p runId expected (s.fs.openTruncate (cfg.tmp p)).2)).Safe cfg fmt := by
  obtain ⟨archive, hinv⟩ := h
  refine ⟨archive, ?_⟩
  rw [exports_goto]
  exact hinv.openTmp hfree

/-- The rows of a month from which nothing was dropped are selected. -/
theorem Safe.select (h : s.Safe cfg fmt) (hrun : s.runs r = some run)
    (hphase : run.phase = .selecting p runId expected inode)
    (hrows : rows.toFinset = rowsOf p fmt s.table) (hkept : ∀ row ∈ s.dropped, fmt.month row ≠ p) :
    (s.goto r run (.streaming p runId expected inode rows 0)).Safe cfg fmt := by
  obtain ⟨archive, hinv⟩ := h
  have hexport := exports_eq hrun
  rw [hphase] at hexport
  refine ⟨archive, ?_⟩
  rw [exports_goto]
  exact hinv.select hexport hrows hkept

omit [DecidableEq ρ] in
/-- Some bytes of the export are written. -/
theorem Safe.write (h : s.Safe cfg fmt) (hrun : s.runs r = some run)
    (hphase : run.phase = .streaming p runId expected inode rows offset) (n : Nat) :
    (({ s with fs := s.fs.pwrite 0 inode offset (((fmt.file rows).drop offset).take n) } :
      Archives ρ).goto r run (.streaming p runId expected inode rows
        (offset + (((fmt.file rows).drop offset).take n).length))).Safe cfg fmt := by
  obtain ⟨archive, hinv⟩ := h
  have hexport := exports_eq hrun
  rw [hphase] at hexport
  have hle : offset ≤ (fmt.file rows).length := by
    have hwritten := hinv.written r
    rw [hexport] at hwritten
    exact hwritten.1
  refine ⟨archive, ?_⟩
  rw [exports_goto]
  refine hinv.write hexport rfl rfl fun fs' hcontent ↦ ⟨?_, ?_⟩
  · rw [List.length_take, List.length_drop]
    omega
  · have hbytes : ∀ xs : Bytes, xs.take (xs.take n).length = xs.take n := fun xs ↦ by
      rw [List.length_take, ← List.take_eq_take_min]
    rw [hcontent, List.take_add, hbytes]

omit [DecidableEq ρ] in
/-- The rest of the export is written. -/
theorem Safe.close (h : s.Safe cfg fmt) (hrun : s.runs r = some run)
    (hphase : run.phase = .streaming p runId expected inode rows offset) :
    (({ s with fs := s.fs.pwrite 0 inode offset ((fmt.file rows).drop offset) } : Archives ρ).goto r
      run (.renaming p runId expected inode rows)).Safe cfg fmt := by
  obtain ⟨archive, hinv⟩ := h
  have hexport := exports_eq hrun
  rw [hphase] at hexport
  refine ⟨archive, ?_⟩
  rw [exports_goto]
  exact hinv.write hexport rfl rfl fun fs' hcontent ↦
    hcontent.trans (List.take_append_drop _ _)

omit [DecidableEq ρ] in
/-- The temporary file becomes the archived file of the month. -/
theorem Safe.rename (h : s.Safe cfg fmt) (hrun : s.runs r = some run)
    (hphase : run.phase = .renaming p runId expected inode rows) {fs : FileSystem Text UInt8}
    (hfs : s.fs.rename (cfg.tmp p) (cfg.target p) = some fs) :
    (({ s with fs } : Archives ρ).goto r run (.sizing p runId expected rows)).Safe cfg fmt := by
  obtain ⟨archive, hinv⟩ := h
  have hexport := exports_eq hrun
  rw [hphase] at hexport
  refine ⟨Function.update archive p rows, ?_⟩
  rw [exports_goto]
  exact hinv.rename hexport hfs

/-- A month is dropped that has no rows but those of the export. -/
theorem Safe.drop (h : s.Safe cfg fmt) (hrun : s.runs r = some run)
    (hphase : run.phase = .dropping p runId rows)
    (hselected : ∀ row ∈ s.table, fmt.month row = p → row ∈ rows) :
    Safe cfg fmt { s with
      table := s.table.filter fun row ↦ fmt.month row ≠ p
      dropped := s.dropped ∪ rowsOf p fmt s.table } := by
  obtain ⟨archive, hinv⟩ := h
  have hexport := exports_eq hrun
  rw [hphase] at hexport
  exact ⟨archive, hinv.drop hexport hselected⟩

omit [DecidableEq ρ] in
/-- A temporary file is removed. -/
theorem Safe.unlink (h : s.Safe cfg fmt) (p : Text) :
    Safe cfg fmt { s with fs := s.fs.unlink (cfg.tmp p) } := by
  obtain ⟨archive, hinv⟩ := h
  exact ⟨archive, hinv.unlink p⟩

end phases

/-- **Every step of a maintenance run is safe.** -/
theorem Safe.runStep (h : s.Safe cfg fmt) (hrun : s.runs r = some run) {a : Action ρ}
    (ha : a.process = some r) (hok : s.Undisturbed fmt a)
    (hs : s.runStep cfg fmt r run run.phase a = some s') : s'.Safe cfg fmt := by
  unfold Archives.runStep at hs
  split at hs
  case h_1 current done q hphase =>
      cases hs
      refine h.forget (r := r) (o := some _) ?_ rfl rfl rfl rfl rfl
      rintro run' ⟨⟩
      rfl
  case h_2 hphase =>
      split at hs
      · cases hs
        exact h.forget (r := r) (o := none) (fun run' h ↦ by cases h) rfl rfl rfl rfl rfl
      · cases hs
        refine h.forget (r := r) (o := some _) ?_ rfl rfl rfl rfl rfl
        rintro run' ⟨⟩
        rfl
  case h_3 p runId q hphase =>
      dsimp only at hs
      split at hs
      · cases hs
        exact Safe.release (s := { s with history := _ }) h rfl
      · cases hs
        exact h.release rfl
  case h_4 p runId expected q hphase =>
      cases hs
      obtain rfl := Option.some.inj ha
      exact h.open (hok run p runId expected hrun hphase)
  case h_5 p runId expected inode q rows hphase =>
      split at hs
      · rename_i hrows
        cases hs
        obtain rfl := Option.some.inj ha
        exact h.select hrun hphase hrows.2 (hok run p runId expected inode hrun hphase)
      · cases hs
  case h_6 p runId expected inode rows offset q n hphase =>
      cases hs
      exact h.write hrun hphase n
  case h_7 p runId expected inode rows offset q hphase =>
      cases hs
      exact h.close hrun hphase
  case h_8 p runId expected inode rows q hphase =>
      split at hs
      · rename_i fs hfs
        cases hs
        exact h.rename hrun hphase hfs
      · cases hs
        exact h.release rfl
  case h_9 p runId expected rows q hphase =>
      split at hs
      · split at hs
        · cases hs
          exact h.release rfl
        · cases hs
          exact h.keep hrun (by rw [hphase]; rfl)
      · cases hs
        exact h.release rfl
  case h_10 p runId expected size rows q hphase =>
      cases hs
      split
      · exact Safe.keep (s := { s with history := _ }) h hrun (by rw [hphase]; rfl)
      · exact Safe.release (s := { s with history := _ }) h rfl
  case h_11 p runId rows q reply message hphase =>
      cases hs
      obtain rfl := Option.some.inj ha
      refine Safe.release ?_ (by split <;> rfl)
      split
      · exact h.drop hrun hphase (hok run p runId rows hrun hphase)
      · exact h
  case h_12 p runId message q hphase =>
      cases hs
      exact Safe.release (s := { s with history := _ }) h rfl
  case h_13 p q ok hphase =>
      cases hs
      cases ok with
      | true => exact Safe.release (s := { s with fs := _ }) (h.unlink p) rfl
      | false => exact h.release rfl
  case h_14 q message =>
      obtain ⟨x, -, rfl⟩ := Option.map_eq_some_iff.mp hs
      exact h.release rfl
  case h_15 => cases hs

/-- **Every step is safe.** -/
theorem Safe.step (h : s.Safe cfg fmt) {a : Action ρ} (hok : s.Undisturbed fmt a)
    (hs : s.step cfg fmt a = some s') : s'.Safe cfg fmt := by
  have hrunStep : ∀ {r : Nat}, a.process = some r →
      (a.process.bind fun r ↦ (s.runs r).bind fun run ↦ s.runStep cfg fmt r run run.phase a) =
        some s' → s'.Safe cfg fmt := by
    intro r ha hbind
    rw [ha, Option.bind_some] at hbind
    obtain ⟨run, hrun, hstep⟩ := Option.bind_eq_some_iff.mp hbind
    exact h.runStep hrun ha hok hstep
  cases a with
  | insert rows =>
      cases hs
      obtain ⟨archive, hinv⟩ := h
      refine ⟨archive, hinv.insert fun row hrow ↦ ?_⟩
      obtain ⟨x, hx, rfl⟩ := List.mem_map.mp (List.mem_toFinset.mp hrow)
      obtain ⟨hle, hlt, -⟩ := List.mem_zipIdx hx
      exact ⟨hle, hlt⟩
  | begin r current =>
      rw [Archives.step] at hs
      split at hs
      · cases hs
        refine h.forget (r := r) (o := some _) ?_ rfl rfl rfl rfl rfl
        rintro run' ⟨⟩
        rfl
      · cases hs
  | kill r =>
      cases hs
      exact h.forget (r := r) (o := none) (fun run' h ↦ by cases h) rfl rfl rfl rfl rfl
  | list r => exact hrunStep rfl hs
  | start r => exact hrunStep rfl hs
  | count r => exact hrunStep rfl hs
  | «open» r => exact hrunStep rfl hs
  | select r rows => exact hrunStep rfl hs
  | write r n => exact hrunStep rfl hs
  | close r => exact hrunStep rfl hs
  | rename r => exact hrunStep rfl hs
  | stat r => exact hrunStep rfl hs
  | finish r => exact hrunStep rfl hs
  | drop r reply message => exact hrunStep rfl hs
  | fail r message => exact hrunStep rfl hs
  | finishFailed r => exact hrunStep rfl hs
  | unlink r ok => exact hrunStep rfl hs

/-- What is dropped is archived throughout a run. -/
theorem Safe.reach (h : Reach (system cfg fmt) (fun s a ↦ s.Undisturbed fmt a) s) :
    s.Safe cfg fmt := by
  refine Reach.invariant (P := Safe cfg fmt) ?_ ?_ h
  · rintro s rfl
    exact ⟨_, Inv.empty⟩
  · exact fun s a s' hsafe hok hs ↦ hsafe.step hok hs

end steps

/-! ## Safety -/

variable {cfg fmt}

/-- **Archiving loses nothing.**  In every run in which the maintenance runs do not disturb each
other and no row comes after a `SELECT` whose run drops the month, the file of each month has, in
every state from a drop on, all rows of the month that were dropped. -/
theorem archive_safe (hfmt : fmt.Lawful) {s : Archives ρ}
    (h : Reach (system cfg fmt) (fun s a ↦ s.Undisturbed fmt a) s) (p : Text)
    (hp : ∃ row ∈ s.dropped, fmt.month row = p) :
    ∃ bytes rows, s.fs.read (cfg.target p) = some bytes ∧ fmt.gunzip bytes = some rows ∧
      (rowsOf p fmt s.dropped).val.map LogRow.value ≤ (rows : Multiset ρ) := by
  obtain ⟨archive, hinv⟩ := Safe.reach h
  have hmem : ∀ row ∈ (rowsOf p fmt s.dropped).val, row ∈ (archive p : Multiset (LogRow ρ)) := by
    intro row hrow
    obtain ⟨hdropped, hmonth⟩ := Finset.mem_filter.mp hrow
    rw [← hmonth]
    exact hinv.archived row hdropped
  have hne : archive p ≠ [] := by
    obtain ⟨row, hrow, hmonth⟩ := hp
    exact List.ne_nil_of_mem (hmem row (Finset.mem_filter.mpr ⟨hrow, hmonth⟩))
  refine ⟨_, _, hinv.file p hne, hfmt _, ?_⟩
  rw [← Multiset.map_coe]
  exact Multiset.map_le_map ((Multiset.le_iff_subset (Finset.nodup _)).mpr fun row ↦ hmem row)

/-! ## A run that is not disturbed -/

section undisturbed

variable {ok : Archives ρ → Action ρ → Prop} {s : Archives ρ} {r : Nat} {p : Text}
  {pending : List Text} {rows : List (LogRow ρ)}

/-- A step of a maintenance run. -/
theorem step_of_process {run : MaintenanceRun ρ} (hrun : s.runs r = some run) {a : Action ρ}
    (ha : a.process = some r) : s.step cfg fmt a = s.runStep cfg fmt r run run.phase a := by
  have hstep : s.step cfg fmt a =
      (s.runs r).bind fun run ↦ s.runStep cfg fmt r run run.phase a := by
    cases a <;> cases ha <;> rfl
  rw [hstep, hrun, Option.bind_some]

/-- A maintenance run takes a step. -/
theorem reach_runStep (h : Reach (system cfg fmt) ok s) {run : MaintenanceRun ρ}
    (hrun : s.runs r = some run) {a : Action ρ} (ha : a.process = some r) (hok : ok s a)
    {t : Archives ρ} (hs : s.runStep cfg fmt r run run.phase a = some t) :
    Reach (system cfg fmt) ok t :=
  h.step hok ((step_of_process hrun ha).trans hs)

/-- An export is moved to its place. -/
theorem runStep_rename {run : MaintenanceRun ρ} {runId expected inode q : Nat}
    {fs : FileSystem Text UInt8} (h : s.fs.rename (cfg.tmp p) (cfg.target p) = some fs) :
    s.runStep cfg fmt r run (.renaming p runId expected inode rows) (.rename q) =
      some (({ s with fs } : Archives ρ).goto r run (.sizing p runId expected rows)) := by
  rw [Archives.runStep, h]

/-- A file that is large enough. -/
theorem runStep_stat {run : MaintenanceRun ρ} {runId expected q : Nat} {bytes : Bytes}
    (h : s.fs.read (cfg.target p) = some bytes) (hsize : 64 ≤ bytes.length) :
    s.runStep cfg fmt r run (.sizing p runId expected rows) (.stat q) =
      some (s.goto r run (.finishing p runId expected bytes.length rows)) := by
  rw [Archives.runStep, h]
  exact if_neg (Nat.not_lt.mpr hsize)

/-- A maintenance run begins with the closed months. -/
theorem exists_listed (current : Text) (hok : ∀ s, ok s (.begin r current) ∧ ok s (.list r))
    (h : Reach (system cfg fmt) ok s) (hnone : s.runs r = none) :
    ∃ t, Reach (system cfg fmt) ok t ∧
      t.runs = Function.update s.runs r (some ⟨(s.partitions fmt).filter fun p ↦
        p < current ∧ p ∉ s.history.archivedPartitions, .idle⟩) ∧
      t.table = s.table ∧ t.inserted = s.inserted ∧ t.dropped = s.dropped := by
  have h₁ := h.step (a := Action.begin r current) (hok _).1
    (if_pos (Option.isNone_iff_eq_none.mpr hnone))
  have h₂ := reach_runStep h₁ (Function.update_self ..) (a := Action.list r) rfl (hok _).2 rfl
  exact ⟨_, h₂, Function.update_idem .., rfl, rfl, rfl⟩

omit [DecidableEq ρ] in
/-- Where there is one run, and it writes nothing, nothing is written. -/
theorem writes_ne {run : MaintenanceRun ρ} (hrun : s.runs r = some run)
    (halone : ∀ r', r' ≠ r → s.runs r' = none) (hphase : run.phase.toExport.writes = none)
    (r' : Nat) (x : Text × Nat) : (s.exports r').writes ≠ some x := by
  intro hwrites
  by_cases hr : r' = r
  · rw [hr, exports_eq hrun, hphase] at hwrites
    cases hwrites
  · rw [exports, halone r' hr] at hwrites
    cases hwrites

/-- A maintenance run that is alone exports a month. -/
theorem exists_sizing (rows : List (LogRow ρ))
    (h : Reach (system cfg fmt) (fun s a ↦ s.Undisturbed fmt a) s)
    (hrun : s.runs r = some ⟨p :: pending, .idle⟩) (halone : ∀ r', r' ≠ r → s.runs r' = none)
    (hfree : ∀ row ∈ s.dropped, fmt.month row ≠ p) (hnodup : rows.Nodup)
    (hrows : rows.toFinset = rowsOf p fmt s.table) (hne : rows ≠ []) :
    ∃ t runId expected, Reach (system cfg fmt) (fun s a ↦ s.Undisturbed fmt a) t ∧
      t.runs r = some ⟨pending, .sizing p runId expected rows⟩ ∧ t.table = s.table ∧
      t.inserted = s.inserted ∧ t.dropped = s.dropped ∧
      t.fs.read (cfg.target p) = some (fmt.file rows) := by
  have hcard : (rowsOf p fmt s.table).card ≠ 0 := by
    rw [← hrows, List.toFinset_card_of_nodup hnodup]
    exact fun hlength ↦ hne (List.eq_nil_of_length_eq_zero hlength)
  have hself : ∀ {runs : Nat → Option (MaintenanceRun ρ)} {run},
      Function.update runs r (some run) r = some run := Function.update_self ..
  have h₁ := reach_runStep h hrun (a := Action.start r) rfl trivial rfl
  have h₂ := reach_runStep h₁ hself (a := Action.count r) rfl trivial (if_neg hcard)
  have h₃ := reach_runStep h₂ hself (a := Action.open r) rfl (by
    intro run p' runId expected hrun' hphase r' i
    refine writes_ne hrun' (fun r' hr ↦ ?_) (by rw [hphase]; rfl) r' _
    exact (Function.update_of_ne hr _ _).trans
      ((Function.update_of_ne hr _ _).trans (halone r' hr))) rfl
  have h₄ := reach_runStep h₃ hself (a := Action.select r rows) rfl (by
    intro run p' runId expected inode hrun' hphase
    obtain rfl := Option.some.inj (hrun'.symm.trans hself)
    cases hphase
    exact hfree) (if_pos ⟨hnodup, hrows⟩)
  have h₅ := reach_runStep h₄ hself (a := Action.close r) rfl trivial rfl
  -- The temporary file is there under its inode, with all bytes of the export.
  let i := (s.fs.openTruncate (cfg.tmp p)).2
  let fs := (s.fs.openTruncate (cfg.tmp p)).1.pwrite 0 i 0 ((fmt.file rows).drop 0)
  have hentry : fs.entry (cfg.tmp p) = some i := by
    show (s.fs.openTruncate (cfg.tmp p)).1.entry (cfg.tmp p) = some i
    rw [FileSystem.entry_openTruncate, Function.update_self]
  have hempty : (s.fs.openTruncate (cfg.tmp p)).1.content i = [] :=
    FileSystem.content_openTruncate_self (cfg.tmp p)
  have hcontent : fs.content i = fmt.file rows := by
    rw [FileSystem.content_pwrite_end (by rw [hempty]; rfl), hempty, List.nil_append,
      List.drop_zero]
  obtain ⟨fs', hfs'⟩ := FileSystem.exists_rename hentry (cfg.target p)
  have h₆ := reach_runStep h₅ hself (a := Action.rename r) rfl trivial (runStep_rename hfs')
  refine ⟨_, _, _, h₆, hself, rfl, rfl, rfl, ?_⟩
  show fs'.read (cfg.target p) = _
  rw [FileSystem.read_rename hfs', FileSystem.read, hentry]
  exact congrArg some hcontent

/-- Its file is accepted, and the month is about to be dropped. -/
theorem exists_dropping (hok : ∀ s, ok s (.stat r) ∧ ok s (.finish r))
    (h : Reach (system cfg fmt) ok s) (hdrop : cfg.dropAfterArchive = true) {runId expected : Nat}
    (hrun : s.runs r = some ⟨pending, .sizing p runId expected rows⟩) {bytes : Bytes}
    (hread : s.fs.read (cfg.target p) = some bytes) (hsize : 64 ≤ bytes.length) :
    ∃ t, Reach (system cfg fmt) ok t ∧ t.runs r = some ⟨pending, .dropping p runId rows⟩ ∧
      t.fs = s.fs ∧ t.table = s.table ∧ t.dropped = s.dropped := by
  have hself : ∀ {runs : Nat → Option (MaintenanceRun ρ)} {run},
      Function.update runs r (some run) r = some run := Function.update_self ..
  have h₁ := reach_runStep h hrun (a := Action.stat r) rfl (hok _).1 (runStep_stat hread hsize)
  have h₂ := reach_runStep h₁ hself (a := Action.finish r) rfl (hok _).2 rfl
  rw [hdrop] at h₂
  exact ⟨_, h₂, hself, rfl, rfl, rfl⟩

/-- It drops the month. -/
theorem exists_dropped (hok : ok s (.drop r .ok [])) (h : Reach (system cfg fmt) ok s)
    {runId : Nat} (hrun : s.runs r = some ⟨pending, .dropping p runId rows⟩) :
    ∃ t, Reach (system cfg fmt) ok t ∧ t.fs = s.fs ∧
      t.dropped = s.dropped ∪ rowsOf p fmt s.table :=
  ⟨_, reach_runStep h hrun (a := Action.drop r .ok []) rfl hok rfl, rfl, rfl⟩

end undisturbed

/-! ## Runs -/

/-- Rows of one month, which a file marks with a byte each after a header. -/
def marks : LogFormat Unit where
  toYYYYMM _ := "202401".toList
  gzip rows := List.replicate 64 0 ++ rows.map fun _ ↦ 1
  gunzip bytes := some (List.replicate (bytes.length - 64) ())

theorem marks_lawful : marks.Lawful := by
  intro rows
  refine congrArg some (List.eq_replicate_iff.mpr ⟨?_, fun row _ ↦ rfl⟩).symm
  show rows.length = (List.replicate 64 (0 : UInt8) ++ rows.map fun _ ↦ 1).length - 64
  rw [List.length_append, List.length_replicate, List.length_map, Nat.add_sub_cancel_left]

def dropping : ArchiveConfig := ⟨"nat_logs".toList, "/archive".toList, true⟩

/-- A row is inserted, and a maintenance run finds its month closed. -/
theorem exists_idle : ∃ s, Reach (system dropping marks) (fun s a ↦ s.Undisturbed marks a) s ∧
    s.runs 0 = some ⟨["202401".toList], .idle⟩ ∧ (∀ r, r ≠ 0 → s.runs r = none) ∧
    s.table = {⟨0, ()⟩} ∧ s.inserted = 1 ∧ s.dropped = ∅ := by
  have hinit : Reach (system dropping marks) (fun s a ↦ s.Undisturbed marks a) _ := .init rfl
  have hinsert := hinit.step (a := Action.insert [()]) trivial rfl
  obtain ⟨s, h, hruns, htable, hinserted, hdropped⟩ := exists_listed (r := 0)
    "202402".toList (fun _ ↦ ⟨trivial, trivial⟩) hinsert rfl
  have hrow : (∅ ∪ (([()].zipIdx 0).map fun x ↦ (⟨x.2, x.1⟩ : LogRow Unit)).toFinset) =
      {⟨0, ()⟩} := by decide
  refine ⟨s, h, ?_, fun r hr ↦ ?_, htable.trans hrow, hinserted, hdropped⟩
  · rw [hruns, Function.update_self]
    refine congrArg (fun pending ↦ some (⟨pending, .idle⟩ : MaintenanceRun Unit)) ?_
    show List.filter _ ((Finset.image marks.month
      (∅ ∪ (([()].zipIdx 0).map fun x ↦ (⟨x.2, x.1⟩ : LogRow Unit)).toFinset)).sort (· ≥ ·)) = _
    rw [hrow, Finset.image_singleton, Finset.sort_singleton]
    decide
  · rw [hruns, Function.update_of_ne hr]
    rfl

/-- A month is archived and dropped. -/
theorem archive_safe_session : ∃ s, Reach (system dropping marks)
    (fun s a ↦ s.Undisturbed marks a) s ∧ s.dropped = {⟨0, ()⟩} ∧
    ∃ bytes rows, s.fs.read (dropping.target "202401".toList) = some bytes ∧
      marks.gunzip bytes = some rows ∧
      (rowsOf "202401".toList marks s.dropped).val.map LogRow.value ≤ (rows : Multiset Unit) := by
  obtain ⟨s, h, hrun, halone, htable, -, hdropped⟩ := exists_idle
  have hfree : ∀ row ∈ s.dropped, marks.month row ≠ "202401".toList := by
    rw [hdropped]
    exact fun row hrow ↦ absurd hrow (Finset.notMem_empty row)
  obtain ⟨t, runId, expected, ht, htrun, httable, -, htdropped, htread⟩ :=
    exists_sizing [⟨0, ()⟩] h hrun halone hfree (List.nodup_singleton _)
      (by rw [htable]; rfl) (List.cons_ne_nil _ _)
  obtain ⟨v, hv, hvrun, hvfs, hvtable, hvdropped⟩ :=
    exists_dropping (fun _ ↦ ⟨trivial, trivial⟩) ht rfl htrun htread (by decide)
  rw [httable, htable] at hvtable
  rw [htdropped, hdropped] at hvdropped
  have hok : v.Undisturbed marks (.drop 0 .ok []) := by
    intro run p runId rows hrun' hphase row hrow hmonth
    obtain rfl := Option.some.inj (hrun'.symm.trans hvrun)
    cases hphase
    rw [hvtable] at hrow
    exact List.mem_singleton.mpr (Finset.mem_singleton.mp hrow)
  obtain ⟨x, hx, -, hxdropped⟩ := exists_dropped hok hv hvrun
  have hfinal : x.dropped = {⟨0, ()⟩} := by
    rw [hxdropped, hvtable, hvdropped]
    decide
  exact ⟨x, hx, hfinal, archive_safe marks_lawful hx "202401".toList
    ⟨⟨0, ()⟩, hfinal ▸ Finset.mem_singleton_self _, rfl⟩⟩

/-- **A late row.**  A row of the month is inserted after the `SELECT`, and dropped with the month. -/
theorem archive_late_row : ∃ s, Reach (system dropping marks) (fun _ _ ↦ True) s ∧
    ∃ bytes rows, s.fs.read (dropping.target "202401".toList) = some bytes ∧
      marks.gunzip bytes = some rows ∧
      ¬(rowsOf "202401".toList marks s.dropped).val.map LogRow.value ≤ (rows : Multiset Unit) := by
  obtain ⟨s, h, hrun, halone, htable, hinserted, hdropped⟩ := exists_idle
  have hfree : ∀ row ∈ s.dropped, marks.month row ≠ "202401".toList := by
    rw [hdropped]
    exact fun row hrow ↦ absurd hrow (Finset.notMem_empty row)
  obtain ⟨t, runId, expected, ht, htrun, httable, htinserted, htdropped, htread⟩ :=
    exists_sizing [⟨0, ()⟩] h hrun halone hfree (List.nodup_singleton _)
      (by rw [htable]; rfl) (List.cons_ne_nil _ _)
  have hlate := ht.weaken.step (a := Action.insert [()]) trivial rfl
  obtain ⟨v, hv, hvrun, hvfs, hvtable, hvdropped⟩ :=
    exists_dropping (fun _ ↦ ⟨trivial, trivial⟩) hlate rfl htrun htread (by decide)
  obtain ⟨x, hx, hxfs, hxdropped⟩ := exists_dropped trivial hv hvrun
  have hfinal : x.dropped = {⟨0, ()⟩, ⟨1, ()⟩} := by
    rw [hxdropped, hvtable, hvdropped]
    show t.dropped ∪ rowsOf _ _ (t.table ∪ (([()].zipIdx t.inserted).map _).toFinset) = _
    rw [htdropped, hdropped, httable, htable, htinserted, hinserted]
    decide
  refine ⟨x, hx, _, _, by rw [hxfs, hvfs]; exact htread, marks_lawful _, ?_⟩
  rw [hfinal]
  decide

end Archives

end LogServer
