import LogServer.Services.ArchiveSafety

/-!
# Archives are complete

`run` archives the months that are closed and not archived yet, one after the other, and returns whether one
of them failed.  `Maintenance.system` is the history of an installation whose maintenance runs do not overlap,
with workers that insert rows of any month at any time.  A run may be killed; a run that finds ClickHouse
unreachable or is ended by an exception does not return 0, and is a run that is killed.

A month is archived once.  Its file has what the `SELECT` returned, its entry in the history what was counted
before, and no later run looks at the month again.  So the archive is complete, `archives_complete`, provided that

* a run records a success only when the month has as many rows as were counted, and
* no row is inserted of a month that has been archived.

Late rows break both (`archives_miss_row`).

Every step of a run is a step of `Archives.system` in which nothing is dropped and no other run writes
(`simulation`), so that what is known of exports there is known here (`Archives.Safe`).
-/

namespace LogServer

open Transition

/-- The section of the configuration, with its switch. -/
structure MaintenanceConfig extends ArchiveConfig where
  archiveEnabled : Bool

variable {ρ : Type}

/-- A run of `run`: the month in which it began, the table as it was then, and how many months it has failed to
archive. -/
structure Started (ρ : Type) where
  current : Text
  table : Finset (LogRow ρ)
  failures : Nat

def Started.code (run : Started ρ) : Nat := if run.failures ≠ 0 then 1 else 0

/-- `archive_partition` returns after its last step, which is an `unlink` if it has failed. -/
def Started.record (run : Started ρ) : Archives.Action ρ → Started ρ
  | .unlink _ _ => { run with failures := run.failures + 1 }
  | _ => run

/-- The run at work, which is maintenance process 0, and the run that has returned last if none has begun since. -/
structure Maintenance (ρ : Type) where
  archives : Archives ρ
  running : Option (Started ρ)
  returned : Option (Started ρ)

namespace Maintenance

inductive Action (ρ : Type) where
  | insert (rows : List ρ)
  | run (current : Text)
  | step (a : Archives.Action ρ)
  | kill

variable [DecidableEq ρ] (cfg : MaintenanceConfig) (fmt : LogFormat ρ) (s : Maintenance ρ)

/-- A run has taken a step.  It returns when its process has ended. -/
def advance (run : Started ρ) (archives : Archives ρ) : Maintenance ρ :=
  if (archives.runs 0).isNone then ⟨archives, none, some run⟩ else ⟨archives, some run, none⟩

def step : Action ρ → Option (Maintenance ρ)
  | .insert rows =>
      (s.archives.step cfg.toArchiveConfig fmt (.insert rows)).map fun archives ↦ { s with archives }
  | .run current =>
      if s.running.isSome then none
      else
        let run : Started ρ := ⟨current, s.archives.table, 0⟩
        if cfg.archiveEnabled then
          (s.archives.step cfg.toArchiveConfig fmt (.begin 0 current)).map fun archives ↦
            ⟨archives, some run, none⟩
        else some { s with returned := some run }
  | .step a =>
      if a.process = some 0 then
        s.running.bind fun run ↦
          (s.archives.step cfg.toArchiveConfig fmt a).map (advance (run.record a))
      else none
  | .kill =>
      (s.archives.step cfg.toArchiveConfig fmt (.kill 0)).map fun archives ↦
        { s with archives, running := none }

def system : System (Maintenance ρ) (Action ρ) where
  init s := s = ⟨.empty, none, none⟩
  step s := s.step cfg fmt

/-- A run records a success only when the month has as many rows as were counted, no row comes of a month that
has been archived, and where archiving is disabled there is nothing to do for a run. -/
def Timely : Action ρ → Prop
  | .insert rows => ∀ row ∈ rows, fmt.toYYYYMM row ∉ s.archives.history.archivedPartitions
  | .run current => cfg.archiveEnabled = true ∨ ∀ row ∈ s.archives.table, fmt.month row < current →
      fmt.month row ∈ s.archives.history.archivedPartitions
  | .step (.finish _) => ∀ run p runId expected size rows, s.archives.runs 0 = some run →
      run.phase = .finishing p runId expected size rows →
        (Archives.rowsOf p fmt s.archives.table).card = expected
  | _ => True

end Maintenance

namespace Archives

/-! ## What a run knows -/

variable [DecidableEq ρ] (cfg : ArchiveConfig) (fmt : LogFormat ρ)

/-- Rows that a `SELECT` has returned, at least as many as were counted. -/
structure Selected (table : Finset (LogRow ρ)) (p : Text) (expected : Nat) (rows : List (LogRow ρ)) :
    Prop where
  nodup : rows.Nodup
  subset : rows.toFinset ⊆ rowsOf p fmt table
  counted : expected ≤ rows.length

/-- What is known in a phase of a run.  Nothing is ever dropped. -/
def Known (s : Archives ρ) (current : Text) : ArchivePhase ρ → Prop
  | .listing current' done => current' = current ∧ done = s.history.archivedPartitions
  | .idle | .unlinking _ => True
  | .counting p runId | .failing p runId _ => s.history.Attempt p runId
  | .opening p runId expected | .selecting p runId expected _ =>
      s.history.Attempt p runId ∧ expected ≤ (rowsOf p fmt s.table).card
  | .streaming p runId expected _ rows _ | .renaming p runId expected _ rows =>
      s.history.Attempt p runId ∧ Selected fmt s.table p expected rows
  | .sizing p runId expected rows | .finishing p runId expected _ rows =>
      s.history.Attempt p runId ∧ Selected fmt s.table p expected rows ∧
        s.fs.read (cfg.target p) = some (fmt.file rows)
  | .dropping _ _ _ => False

def month : ArchivePhase ρ → List Text
  | .listing _ _ | .idle => []
  | .counting p _ | .opening p _ _ | .selecting p _ _ _ | .streaming p _ _ _ _ _
  | .renaming p _ _ _ _ | .sizing p _ _ _ | .finishing p _ _ _ _ | .dropping p _ _
  | .failing p _ _ | .unlinking p => [p]

def months (run : MaintenanceRun ρ) : List Text := month run.phase ++ run.pending

def Complete (s : Archives ρ) : Prop :=
  ∀ entry ∈ s.history.successes, ∃ rows : List (LogRow ρ), rows.Nodup ∧
    rows.toFinset = rowsOf entry.partition fmt s.table ∧ rows.length = entry.rows ∧
      s.fs.read (cfg.target entry.partition) = some (fmt.file rows)

/-- The months that a run found are archived but for those it has yet to archive, unless one has failed. -/
def Progress (s : Archives ρ) (started : Started ρ) (todo : List Text) : Prop :=
  started.failures = 0 → ∀ row ∈ started.table, fmt.month row < started.current →
    fmt.month row ∈ todo ∨ fmt.month row ∈ s.history.archivedPartitions

structure Working (s : Archives ρ) (started : Started ρ) (run : MaintenanceRun ρ) : Prop where
  known : s.Known cfg fmt started.current run.phase
  nodup : (months run).Nodup
  fresh : ∀ p ∈ months run, p ∉ s.history.archivedPartitions
  progress : (∃ current done, run.phase = .listing current done) ∨
    s.Progress fmt started (months run)

/-- A run at work, or one that has ended. -/
def Going (s : Archives ρ) (started : Started ρ) : Prop :=
  s.runs 0 = none ∧ s.Progress fmt started [] ∨
    ∃ run, s.runs 0 = some run ∧ s.Working cfg fmt started run

/-- What a step of a run keeps. -/
structure Kept (s : Archives ρ) (started : Started ρ) : Prop where
  numbered : s.history.Numbered
  complete : s.Complete cfg fmt
  going : s.Going cfg fmt started

section working

variable {cfg fmt} {s t : Archives ρ} {started started' : Started ρ} {run : MaintenanceRun ρ}
  {p : Text} {runId expected : Nat} {rows : List (LogRow ρ)} {phase : ArchivePhase ρ}

omit [DecidableEq ρ] in
theorem mem_partitions : p ∈ s.partitions fmt ↔ ∃ row ∈ s.table, fmt.month row = p := by
  rw [partitions, Finset.mem_sort, Finset.mem_image]

omit [DecidableEq ρ] in
theorem rowsOf_mono {table table' : Finset (LogRow ρ)} (h : table ⊆ table') (p : Text) :
    rowsOf p fmt table ⊆ rowsOf p fmt table' := Finset.filter_subset_filter _ h

/-- More rows may come. -/
theorem Selected.mono {table table' : Finset (LogRow ρ)} (h : Selected fmt table p expected rows)
    (htable : table ⊆ table') : Selected fmt table' p expected rows :=
  ⟨h.nodup, h.subset.trans (rowsOf_mono htable p), h.counted⟩

/-- Where the month has no more rows than were counted, all of them were selected. -/
theorem Selected.eq {table : Finset (LogRow ρ)} (h : Selected fmt table p expected rows)
    (hcard : (rowsOf p fmt table).card = expected) :
    rows.toFinset = rowsOf p fmt table ∧ rows.length = expected := by
  have hlength := List.toFinset_card_of_nodup h.nodup
  have heq : rows.toFinset = rowsOf p fmt table := by
    refine Finset.eq_of_subset_of_card_le h.subset ?_
    rw [hcard, hlength]
    exact h.counted
  exact ⟨heq, by rw [← hlength, heq, hcard]⟩

/-- A `SELECT` after the count. -/
theorem selected_of_toFinset_eq (hnodup : rows.Nodup) (hrows : rows.toFinset = rowsOf p fmt s.table)
    (hexpected : expected ≤ (rowsOf p fmt s.table).card) : Selected fmt s.table p expected rows := by
  refine ⟨hnodup, hrows.subset, ?_⟩
  rwa [← List.toFinset_card_of_nodup hnodup, hrows]

/-- An attempt that may fail is known. -/
theorem Known.attempt {current : Text} (h : s.Known cfg fmt current phase) {x : Text × Nat}
    (hx : phase.attempt = some x) : s.history.Attempt x.1 x.2 ∧ month phase = [x.1] := by
  cases phase with
  | counting =>
      cases hx
      exact ⟨h, rfl⟩
  | opening | selecting | streaming | «renaming» | sizing | finishing =>
      cases hx
      exact ⟨h.1, rfl⟩
  | dropping => exact h.elim
  | listing | idle | failing | unlinking => cases hx

/-! ## Frames -/

/-- What is changed elsewhere does not matter for the months that are archived. -/
theorem Complete.frame (h : s.Complete cfg fmt) (hsuccesses : t.history.successes = s.history.successes)
    (htable : ∀ p ∈ s.history.archivedPartitions, rowsOf p fmt t.table = rowsOf p fmt s.table)
    (hread : ∀ p ∈ s.history.archivedPartitions,
      t.fs.read (cfg.target p) = s.fs.read (cfg.target p)) : t.Complete cfg fmt := by
  intro entry hentry
  rw [hsuccesses] at hentry
  have harchived : entry.partition ∈ s.history.archivedPartitions :=
    ArchiveRuns.mem_archivedPartitions.mpr ⟨entry, hentry, rfl⟩
  rw [htable _ harchived, hread _ harchived]
  exact h entry hentry

/-- Rows come of months that are not archived. -/
theorem Known.insert {current : Text} (h : s.Known cfg fmt current phase) {table : Finset (LogRow ρ)}
    (htable : s.table ⊆ table) : Known cfg fmt { s with table } current phase := by
  have hcard : ∀ {p expected}, expected ≤ (rowsOf p fmt s.table).card →
      expected ≤ (rowsOf p fmt table).card := fun hle ↦
    hle.trans (Finset.card_le_card (rowsOf_mono htable _))
  cases phase with
  | opening | selecting => exact ⟨h.1, hcard h.2⟩
  | streaming | «renaming» => exact ⟨h.1, h.2.mono htable⟩
  | sizing | finishing => exact ⟨h.1, h.2.1.mono htable, h.2.2⟩
  | listing | idle | counting | dropping | failing | unlinking => exact h

/-- A step that drops nothing leaves the table and the other runs alone. -/
theorem runStep_frame {r : Nat} {a : Action ρ} (hs : s.runStep cfg fmt r run phase a = some t)
    (hphase : ∀ p runId rows, phase ≠ .dropping p runId rows) :
    t.table = s.table ∧ t.dropped = s.dropped ∧ ∀ r', r' ≠ r → t.runs r' = s.runs r' := by
  have hruns : ∀ {o : Option (MaintenanceRun ρ)} (r' : Nat), r' ≠ r →
      Function.update s.runs r o r' = s.runs r' := fun r' hr' ↦ Function.update_of_ne hr' _ _
  unfold Archives.runStep at hs
  split at hs
  case h_2 =>
      split at hs <;> cases hs <;> exact ⟨rfl, rfl, hruns⟩
  case h_3 =>
      dsimp only at hs
      split at hs <;> cases hs <;> exact ⟨rfl, rfl, hruns⟩
  case h_5 =>
      split at hs <;> cases hs
      exact ⟨rfl, rfl, hruns⟩
  case h_8 =>
      split at hs <;> cases hs <;> exact ⟨rfl, rfl, hruns⟩
  case h_9 =>
      split at hs
      · split at hs <;> cases hs <;> exact ⟨rfl, rfl, hruns⟩
      · cases hs
        exact ⟨rfl, rfl, hruns⟩
  case h_11 p runId rows q reply message => exact absurd rfl (hphase p runId rows)
  case h_14 =>
      obtain ⟨x, -, rfl⟩ := Option.map_eq_some_iff.mp hs
      exact ⟨rfl, rfl, hruns⟩
  case h_15 => cases hs
  all_goals
    cases hs
    exact ⟨rfl, rfl, hruns⟩

/-! ## Files -/

omit [DecidableEq ρ] in
/-- A run that writes its temporary file leaves the archived files alone. -/
theorem Safe.read_pwrite (h : s.Safe cfg fmt) {r inode offset : Nat}
    (hr : (s.exports r).writes = some (p, inode)) (bytes : Bytes) (q : Text) :
    (s.fs.pwrite 0 inode offset bytes).read (cfg.target q) = s.fs.read (cfg.target q) := by
  obtain ⟨archive, hinv⟩ := h
  refine FileSystem.read_setContent (fun hentry ↦ ?_) _
  exact ArchiveConfig.target_ne_tmp ((hinv.inode r p inode hr).2.1 _ hentry)

omit [DecidableEq ρ] in
/-- A complete export that is moved to its place can be read there. -/
theorem Safe.read_rename (h : s.Safe cfg fmt) {r inode : Nat}
    (hr : s.exports r = .closed p inode rows) {fs : FileSystem Text UInt8}
    (hfs : s.fs.rename (cfg.tmp p) (cfg.target p) = some fs) :
    fs.read (cfg.target p) = some (fmt.file rows) := by
  obtain ⟨archive, hinv⟩ := h
  obtain ⟨i, hi, -⟩ := FileSystem.rename_eq_some hfs
  obtain rfl : i = inode := (hinv.inode r p inode (by rw [hr]; rfl)).2.2 i hi
  have hwritten := hinv.written r
  rw [hr] at hwritten
  rw [FileSystem.read_rename hfs, FileSystem.read, hi]
  exact congrArg some hwritten

/-! ## A run goes on -/

/-- A run goes on with the same month. -/
theorem Working.goto (h : s.Working cfg fmt started run) (hp : month run.phase = [p])
    (hphase : month phase = [p]) (hknown : t.Known cfg fmt started.current phase)
    (hsuccesses : t.history.successes = s.history.successes) :
    t.Working cfg fmt started { run with phase } := by
  have hmonths : months { run with phase } = months run := by
    rw [months, months, hp, hphase]
  refine ⟨hknown, ?_, ?_, ?_⟩
  · rw [hmonths]
    exact h.nodup
  · rw [hmonths, ArchiveRuns.archivedPartitions_congr hsuccesses]
    exact h.fresh
  · rcases h.progress with ⟨current, done, hlisting⟩ | hprogress
    · rw [hlisting] at hp
      cases hp
    · refine .inr ?_
      rw [hmonths, Progress, ArchiveRuns.archivedPartitions_congr hsuccesses]
      exact hprogress

/-- A run has done with a month, which is archived, or has failed, or had no rows. -/
theorem Working.done (h : s.Working cfg fmt started run) (hp : month run.phase = [p])
    (hstarted : started'.table = started.table ∧ started'.current = started.current ∧
      (started'.failures = 0 → started.failures = 0))
    (hmonth : started'.failures = 0 → ∀ row ∈ started.table, fmt.month row = p →
      p ∈ t.history.archivedPartitions)
    (harchived : ∀ q, q ∈ s.history.archivedPartitions → q ∈ t.history.archivedPartitions)
    (hback : ∀ q, q ∈ t.history.archivedPartitions → q ∈ s.history.archivedPartitions ∨ q = p) :
    t.Working cfg fmt started' { run with phase := .idle } := by
  have hmonths : months run = p :: run.pending := by
    rw [months, hp]
    rfl
  have hnodup := h.nodup
  rw [hmonths, List.nodup_cons] at hnodup
  refine ⟨trivial, hnodup.2, ?_, .inr ?_⟩
  · intro q hq hmem
    rcases hback q hmem with hold | rfl
    · exact h.fresh q (hmonths ▸ List.mem_cons_of_mem _ hq) hold
    · exact hnodup.1 hq
  · rcases h.progress with ⟨current, done, hlisting⟩ | hprogress
    · rw [hlisting] at hp
      cases hp
    · intro hfailures row hrow hlt
      rw [hstarted.1] at hrow
      rw [hstarted.2.1] at hlt
      rcases hprogress (hstarted.2.2 hfailures) row hrow hlt with htodo | hold
      · rw [hmonths] at htodo
        rcases List.mem_cons.mp htodo with heq | hpending
        · rw [heq]
          exact .inr (hmonth hfailures row hrow heq)
        · exact .inl hpending
      · exact .inr (harchived _ hold)

/-! ## The steps of a run -/

/-- A step with the same month leaves the files and the successes of other months alone. -/
theorem Working.keep (h : s.Working cfg fmt started run) (hcomplete : s.Complete cfg fmt)
    (hp : month run.phase = [p]) (hphase : month phase = [p]) {fs : FileSystem Text UInt8}
    {history : ArchiveRuns} (hnumbered : history.Numbered)
    (hsuccesses : history.successes = s.history.successes)
    (hread : ∀ q ∈ s.history.archivedPartitions,
      fs.read (cfg.target q) = s.fs.read (cfg.target q))
    (hknown : Known cfg fmt { s with fs, history } started.current phase) :
    Kept cfg fmt (({ s with fs, history } : Archives ρ).goto 0 run phase) started where
  numbered := hnumbered
  complete := hcomplete.frame hsuccesses (fun _ _ ↦ rfl) hread
  going := .inr ⟨_, rfl, h.goto hp hphase hknown hsuccesses⟩

/-- The closed months that are not archived yet are listed. -/
theorem Working.list (h : s.Working cfg fmt started run) (hnumbered : s.history.Numbered)
    (hcomplete : s.Complete cfg fmt) (hstarted : started.table ⊆ s.table) {current : Text}
    {done : List Text} (hphase : run.phase = .listing current done) :
    Kept cfg fmt { s with runs := Function.update s.runs 0 (some
      ⟨(s.partitions fmt).filter fun p ↦ p < current ∧ p ∉ done, .idle⟩) } started := by
  have hknown := h.known
  rw [hphase] at hknown
  obtain ⟨rfl, rfl⟩ := hknown
  have hfilter : ∀ p, p ∈ (s.partitions fmt).filter (fun p ↦ p < started.current ∧
      p ∉ s.history.archivedPartitions) ↔
        p ∈ s.partitions fmt ∧ p < started.current ∧ p ∉ s.history.archivedPartitions := by
    intro p
    rw [List.mem_filter, decide_eq_true_eq]
  refine ⟨hnumbered, hcomplete, .inr ⟨_, rfl, trivial, ?_, ?_, .inr ?_⟩⟩
  · exact List.Nodup.filter _ (Finset.sort_nodup _ _)
  · exact fun p hp ↦ ((hfilter p).mp hp).2.2
  · intro _ row hrow hlt
    by_cases hdone : fmt.month row ∈ s.history.archivedPartitions
    · exact .inr hdone
    · exact .inl ((hfilter _).mpr ⟨mem_partitions.mpr ⟨row, hstarted hrow, rfl⟩, hlt, hdone⟩)

/-- Between two months. -/
theorem Working.progress_idle (h : s.Working cfg fmt started run) (hphase : run.phase = .idle) :
    s.Progress fmt started run.pending := by
  rcases h.progress with ⟨current, done, hlisting⟩ | hprogress
  · rw [hphase] at hlisting
    cases hlisting
  · rwa [months, hphase] at hprogress

/-- The next month is started. -/
theorem Working.start (h : s.Working cfg fmt started run) (hnumbered : s.history.Numbered)
    (hcomplete : s.Complete cfg fmt) (hphase : run.phase = .idle) {pending : List Text}
    (hpending : run.pending = p :: pending) :
    Kept cfg fmt { s with
      history := (s.history.startArchive p).1
      runs := Function.update s.runs 0 (some
        ⟨pending, .counting p (s.history.startArchive p).2⟩) } started := by
  have hmonths : months run = p :: pending := by
    rw [months, hphase, hpending]
    rfl
  have hsuccesses := s.history.successes_startArchive p
  have harchived := ArchiveRuns.archivedPartitions_congr hsuccesses
  refine ⟨hnumbered.startArchive p, hcomplete.frame hsuccesses (fun _ _ ↦ rfl) fun _ _ ↦ rfl,
    .inr ⟨_, rfl, ?_, ?_, ?_, .inr ?_⟩⟩
  · exact ArchiveRuns.attempt_startArchive hnumbered p
  · have hnodup := h.nodup
    rw [hmonths] at hnodup
    exact hnodup
  · intro q hq
    rw [harchived]
    exact h.fresh q (hmonths ▸ hq)
  · have hprogress := h.progress_idle hphase
    rw [hpending] at hprogress
    rw [Progress, harchived]
    exact hprogress

/-- A month without rows is skipped.  It is none that the run has found. -/
theorem Working.skip (h : s.Working cfg fmt started run) (hnumbered : s.history.Numbered)
    (hcomplete : s.Complete cfg fmt) (hstarted : started.table ⊆ s.table)
    (hphase : run.phase = .counting p runId) (hempty : (rowsOf p fmt s.table).card = 0)
    (message : Text) :
    Kept cfg fmt (({ s with history := s.history.finishArchive runId .skipped 0 0 [] message } :
      Archives ρ).goto 0 run .idle) started := by
  have hattempt : s.history.Attempt p runId := by
    have hknown := h.known
    rwa [hphase] at hknown
  have hsuccesses : (s.history.finishArchive runId .skipped 0 0 [] message).successes =
      s.history.successes := hattempt.successes_finishArchive nofun
  have harchived := ArchiveRuns.archivedPartitions_congr hsuccesses
  refine ⟨hnumbered.finishArchive, hcomplete.frame hsuccesses (fun _ _ ↦ rfl) fun _ _ ↦ rfl,
    .inr ⟨_, rfl, h.done (congrArg month hphase) ⟨rfl, rfl, id⟩ ?_ ?_ ?_⟩⟩
  · intro _ row hrow hp
    have hmem : row ∈ rowsOf p fmt s.table := Finset.mem_filter.mpr ⟨hstarted hrow, hp⟩
    rw [Finset.card_eq_zero.mp hempty] at hmem
    exact absurd hmem (Finset.notMem_empty row)
  · exact fun q hq ↦ harchived.symm ▸ hq
  · exact fun q hq ↦ .inl (harchived ▸ hq)

/-- **A success** is recorded, of all rows of the month. -/
theorem Working.finish (h : s.Working cfg fmt started run) (hnumbered : s.history.Numbered)
    (hcomplete : s.Complete cfg fmt) {size : Nat}
    (hphase : run.phase = .finishing p runId expected size rows)
    (hcard : (rowsOf p fmt s.table).card = expected) :
    Kept cfg fmt (({ s with history :=
      s.history.finishArchive runId .success expected size (cfg.target p) [] } :
        Archives ρ).goto 0 run .idle) started := by
  have hknown := h.known
  rw [hphase] at hknown
  obtain ⟨hattempt, hselected, hread⟩ := hknown
  obtain ⟨hrows, hlength⟩ := hselected.eq hcard
  refine ⟨hnumbered.finishArchive, ?_,
    .inr ⟨_, rfl, h.done (congrArg month hphase) ⟨rfl, rfl, id⟩ ?_ ?_ ?_⟩⟩
  · intro entry hentry
    rcases hattempt.mem_successes_finishArchive hentry with hold | ⟨rfl, hcount⟩
    · exact hcomplete entry hold
    · exact ⟨rows, hselected.nodup, hrows, hlength.trans hcount.symm, hread⟩
  · exact fun _ _ _ _ ↦ hattempt.mem_archivedPartitions_finishArchive.mpr (.inr rfl)
  · exact fun q hq ↦ hattempt.mem_archivedPartitions_finishArchive.mpr (.inl hq)
  · exact fun q hq ↦ hattempt.mem_archivedPartitions_finishArchive.mp hq

/-- A month that has failed is counted. -/
theorem Working.unlink (h : s.Working cfg fmt started run) (hnumbered : s.history.Numbered)
    (hcomplete : s.Complete cfg fmt) (hphase : run.phase = .unlinking p) (ok : Bool) :
    Kept cfg fmt (({ s with fs := if ok then s.fs.unlink (cfg.tmp p) else s.fs } : Archives ρ).goto 0
      run .idle) { started with failures := started.failures + 1 } := by
  refine ⟨hnumbered, ?_, .inr ⟨_, rfl,
    h.done (congrArg month hphase) ⟨rfl, rfl, nofun⟩ nofun (fun _ hq ↦ hq) fun _ hq ↦ .inl hq⟩⟩
  refine hcomplete.frame rfl (fun _ _ ↦ rfl) fun q _ ↦ ?_
  cases ok with
  | true => exact FileSystem.read_unlink_ne ArchiveConfig.target_ne_tmp
  | false => rfl

/-- The temporary file is moved to its place. -/
theorem Working.rename (h : s.Working cfg fmt started run) (hsafe : s.Safe cfg fmt)
    (hnumbered : s.history.Numbered) (hcomplete : s.Complete cfg fmt) (hrun : s.runs 0 = some run)
    {runId expected inode : Nat} (hphase : run.phase = .renaming p runId expected inode rows)
    {fs : FileSystem Text UInt8} (hfs : s.fs.rename (cfg.tmp p) (cfg.target p) = some fs) :
    Kept cfg fmt (({ s with fs } : Archives ρ).goto 0 run (.sizing p runId expected rows)) started := by
  have hexport := exports_eq hrun
  have hknown := h.known
  have hmonth : month run.phase = [p] := congrArg month hphase
  rw [hphase] at hexport hknown
  refine h.keep hcomplete hmonth rfl hnumbered rfl (fun q hq ↦ ?_)
    ⟨hknown.1, hknown.2, hsafe.read_rename hexport hfs⟩
  -- The month is not archived, so that its file is not one of those.
  refine FileSystem.read_rename_ne hfs ArchiveConfig.target_ne_tmp fun heq ↦ ?_
  refine h.fresh q ?_ hq
  rw [months, hmonth, ArchiveConfig.target_inj.mp heq]
  exact List.mem_cons_self

/-- The run goes on to handle an exception. -/
theorem Working.raise (h : s.Working cfg fmt started run) (hnumbered : s.history.Numbered)
    (hcomplete : s.Complete cfg fmt) (hmonth : month run.phase = [p]) {runId : Nat} {message : Text}
    (hattempt : s.Known cfg fmt started.current (.failing p runId message)) :
    Kept cfg fmt (s.goto 0 run (.failing p runId message)) started :=
  h.keep hcomplete hmonth rfl hnumbered rfl (fun _ _ ↦ rfl) hattempt

/-- The next month is started, or there is none and the run ends. -/
theorem Working.next (h : s.Working cfg fmt started run) (hnumbered : s.history.Numbered)
    (hcomplete : s.Complete cfg fmt) (hphase : run.phase = .idle) {q : Nat}
    (hs : s.runStep cfg fmt 0 run .idle (.start q) = some t) : t.Kept cfg fmt started := by
  rw [Archives.runStep] at hs
  split at hs
  · rename_i hpending
    cases hs
    have hprogress := h.progress_idle hphase
    rw [hpending] at hprogress
    exact ⟨hnumbered, hcomplete, .inl ⟨rfl, hprogress⟩⟩
  · rename_i p pending hpending
    cases hs
    exact h.start hnumbered hcomplete hphase hpending

/-- The rows of a month are counted. -/
theorem Working.count (h : s.Working cfg fmt started run) (hnumbered : s.history.Numbered)
    (hcomplete : s.Complete cfg fmt) (hstarted : started.table ⊆ s.table) {runId q : Nat}
    (hphase : run.phase = .counting p runId)
    (hs : s.runStep cfg fmt 0 run (.counting p runId) (.count q) = some t) :
    t.Kept cfg fmt started := by
  have hknown := h.known
  rw [hphase] at hknown
  rw [Archives.runStep] at hs
  split at hs
  · rename_i hempty
    cases hs
    exact h.skip hnumbered hcomplete hstarted hphase hempty _
  · cases hs
    exact h.keep hcomplete (congrArg month hphase) rfl hnumbered rfl (fun _ _ ↦ rfl)
      ⟨hknown, Nat.le_refl _⟩

/-- The size of an archive is checked. -/
theorem Working.stat (h : s.Working cfg fmt started run) (hnumbered : s.history.Numbered)
    (hcomplete : s.Complete cfg fmt) {runId expected q : Nat}
    (hphase : run.phase = .sizing p runId expected rows)
    (hs : s.runStep cfg fmt 0 run (.sizing p runId expected rows) (.stat q) = some t) :
    t.Kept cfg fmt started := by
  have hknown := h.known
  rw [hphase] at hknown
  have hmonth : month run.phase = [p] := congrArg month hphase
  rw [Archives.runStep] at hs
  split at hs
  · split at hs
    · cases hs
      exact h.raise hnumbered hcomplete hmonth hknown.1
    · cases hs
      exact h.keep hcomplete hmonth rfl hnumbered rfl (fun _ _ ↦ rfl) hknown
  · cases hs
    exact h.raise hnumbered hcomplete hmonth hknown.1

/-- **A step of a run** keeps the archived months complete. -/
theorem Working.runStep (hdrop : cfg.dropAfterArchive = false) (hsafe : s.Safe cfg fmt)
    (hnumbered : s.history.Numbered) (hcomplete : s.Complete cfg fmt)
    (hstarted : started.table ⊆ s.table) (hrun : s.runs 0 = some run)
    (h : s.Working cfg fmt started run) {a : Action ρ} (hok : ∀ q, a = .finish q →
      ∀ p runId expected size rows, run.phase = .finishing p runId expected size rows →
        (rowsOf p fmt s.table).card = expected)
    (hs : s.runStep cfg fmt 0 run run.phase a = some t) : t.Kept cfg fmt (started.record a) := by
  have hexport := exports_eq hrun
  have hknown := h.known
  have hsame : ∀ q ∈ s.history.archivedPartitions,
      s.fs.read (cfg.target q) = s.fs.read (cfg.target q) := fun _ _ ↦ rfl
  unfold Archives.runStep at hs
  split at hs
  case h_1 current done q hphase =>
      cases hs
      exact h.list hnumbered hcomplete hstarted hphase
  case h_2 q hphase => exact h.next (q := q) hnumbered hcomplete hphase hs
  case h_3 p runId q hphase => exact h.count (q := q) hnumbered hcomplete hstarted hphase hs
  case h_4 p runId expected q hphase =>
      cases hs
      rw [hphase] at hknown
      exact h.keep hcomplete (congrArg month hphase) rfl hnumbered rfl
        (fun q _ ↦ FileSystem.read_openTruncate_ne ArchiveConfig.target_ne_tmp) hknown
  case h_5 p runId expected inode q rows hphase =>
      rw [hphase] at hknown
      split at hs
      · rename_i hrows
        cases hs
        exact h.keep hcomplete (congrArg month hphase) rfl hnumbered rfl hsame
          ⟨hknown.1, selected_of_toFinset_eq hrows.1 hrows.2 hknown.2⟩
      · cases hs
  case h_6 p runId expected inode rows offset q n hphase =>
      cases hs
      rw [hphase] at hknown hexport
      exact h.keep hcomplete (congrArg month hphase) rfl hnumbered rfl
        (fun q _ ↦ hsafe.read_pwrite (by rw [hexport]; rfl) _ q) hknown
  case h_7 p runId expected inode rows offset q hphase =>
      cases hs
      rw [hphase] at hknown hexport
      exact h.keep hcomplete (congrArg month hphase) rfl hnumbered rfl
        (fun q _ ↦ hsafe.read_pwrite (by rw [hexport]; rfl) _ q) hknown
  case h_8 p runId expected inode rows q hphase =>
      rw [hphase] at hknown
      split at hs
      · rename_i fs hfs
        cases hs
        exact h.rename hsafe hnumbered hcomplete hrun hphase hfs
      · cases hs
        exact h.raise hnumbered hcomplete (congrArg month hphase) hknown.1
  case h_9 p runId expected rows q hphase => exact h.stat (q := q) hnumbered hcomplete hphase hs
  case h_10 p runId expected size rows q hphase =>
      cases hs
      rw [hdrop]
      exact h.finish hnumbered hcomplete hphase (hok q rfl p runId expected size rows hphase)
  case h_11 p runId rows q reply message hphase =>
      rw [hphase] at hknown
      exact hknown.elim
  case h_12 p runId message q hphase =>
      cases hs
      rw [hphase] at hknown
      exact h.keep hcomplete (congrArg month hphase) rfl hnumbered.finishArchive
        (hknown.successes_finishArchive nofun) hsame trivial
  case h_13 p q ok hphase =>
      cases hs
      exact h.unlink hnumbered hcomplete hphase ok
  case h_14 q message =>
      obtain ⟨x, hx, rfl⟩ := Option.map_eq_some_iff.mp hs
      obtain ⟨hattempt, hmonth⟩ := hknown.attempt hx
      exact h.raise hnumbered hcomplete hmonth hattempt
  case h_15 => cases hs

end working

end Archives

/-! ## The system -/

namespace Maintenance

open Archives

variable [DecidableEq ρ] (cfg : MaintenanceConfig) (fmt : LogFormat ρ)

/-- There is one run at most, nothing is dropped, and the archived months are complete. -/
structure Inv (s : Maintenance ρ) : Prop where
  safe : s.archives.Safe cfg.toArchiveConfig fmt
  dropped : s.archives.dropped = ∅
  alone : ∀ r, r ≠ 0 → s.archives.runs r = none
  idle : s.running = none → s.archives.runs 0 = none
  numbered : s.archives.history.Numbered
  complete : s.archives.Complete cfg.toArchiveConfig fmt
  working : ∀ started, s.running = some started → started.table ⊆ s.archives.table ∧
    ∃ run, s.archives.runs 0 = some run ∧ s.archives.Working cfg.toArchiveConfig fmt started run
  returned : ∀ started, s.returned = some started → started.table ⊆ s.archives.table ∧
    s.archives.Progress fmt started []

omit [DecidableEq ρ] in
theorem advance_none {archives : Archives ρ} {started : Started ρ} (h : archives.runs 0 = none) :
    advance started archives = ⟨archives, none, some started⟩ := by
  rw [advance, h, Option.isNone_none, if_pos rfl]

omit [DecidableEq ρ] in
theorem advance_some {archives : Archives ρ} {started : Started ρ} {run : MaintenanceRun ρ}
    (h : archives.runs 0 = some run) : advance started archives = ⟨archives, some started, none⟩ := by
  rw [advance, h, Option.isNone_some, if_neg Bool.false_ne_true]

omit [DecidableEq ρ] in
theorem archives_advance (started : Started ρ) (archives : Archives ρ) :
    (advance started archives).archives = archives := by
  rw [advance]
  split <;> rfl

section invariant

variable {cfg fmt} {s s' : Maintenance ρ} {started : Started ρ}

/-- A run disturbs no other, since there is none. -/
theorem Inv.undisturbed (h : s.Inv cfg fmt) (hrunning : s.running = some started)
    {a : Archives.Action ρ} (ha : a.process = some 0) : s.archives.Undisturbed fmt a := by
  obtain ⟨-, run, hrun, hworking⟩ := h.working started hrunning
  cases a with
  | «open» r =>
      obtain rfl := Option.some.inj ha
      intro run' p runId expected hrun' hphase r' i
      exact writes_ne hrun' h.alone (by rw [hphase]; rfl) r' _
  | select r rows =>
      intro run' p runId expected inode hrun' hphase row hrow
      rw [h.dropped] at hrow
      exact absurd hrow (Finset.notMem_empty row)
  | drop r reply message =>
      obtain rfl := Option.some.inj ha
      intro run' p runId rows hrun' hphase
      obtain rfl := Option.some.inj (hrun'.symm.trans hrun)
      have hknown := hworking.known
      rw [hphase] at hknown
      exact hknown.elim
  | _ => exact trivial

/-- Rows come of months that are not archived. -/
theorem Inv.insert (h : s.Inv cfg fmt) {rows : List ρ} (hok : s.Timely cfg fmt (.insert rows))
    (hs : s.step cfg fmt (.insert rows) = some s') : s'.Inv cfg fmt := by
  rw [Maintenance.step] at hs
  obtain ⟨archives, harchives, rfl⟩ := Option.map_eq_some_iff.mp hs
  have hsafe := h.safe.step (a := .insert rows) trivial harchives
  cases harchives
  have hsubset : s.archives.table ⊆ s.archives.table ∪
      ((rows.zipIdx s.archives.inserted).map fun x ↦ (⟨x.2, x.1⟩ : LogRow ρ)).toFinset :=
    Finset.subset_union_left
  refine ⟨hsafe, h.dropped, h.alone, h.idle, h.numbered, ?_, ?_, ?_⟩
  · refine h.complete.frame rfl (fun p hp ↦ ?_) fun _ _ ↦ rfl
    have hnone : rowsOf p fmt ((rows.zipIdx s.archives.inserted).map
        fun x ↦ (⟨x.2, x.1⟩ : LogRow ρ)).toFinset = ∅ := by
      refine Finset.filter_eq_empty_iff.mpr fun row hrow hmonth ↦ ?_
      obtain ⟨x, hx, rfl⟩ := List.mem_map.mp (List.mem_toFinset.mp hrow)
      refine hok x.1 (List.fst_mem_of_mem_zipIdx hx) ?_
      rw [show fmt.toYYYYMM x.1 = p from hmonth]
      exact hp
    refine (Finset.filter_union ..).trans ?_
    rw [rowsOf] at hnone
    rw [hnone, Finset.union_empty]
    rfl
  · intro started hrunning
    obtain ⟨hstarted, run, hrun, hworking⟩ := h.working started hrunning
    exact ⟨hstarted.trans hsubset, run, hrun, hworking.known.insert hsubset, hworking.nodup,
      hworking.fresh, hworking.progress⟩
  · intro started hreturned
    obtain ⟨hstarted, hprogress⟩ := h.returned started hreturned
    exact ⟨hstarted.trans hsubset, hprogress⟩

/-- A run begins. -/
theorem Inv.run (h : s.Inv cfg fmt) {current : Text} (hok : s.Timely cfg fmt (.run current))
    (hs : s.step cfg fmt (.run current) = some s') : s'.Inv cfg fmt := by
  rw [Maintenance.step] at hs
  split at hs
  · cases hs
  · dsimp only at hs
    split at hs
    · obtain ⟨archives, harchives, rfl⟩ := Option.map_eq_some_iff.mp hs
      have hsafe := h.safe.step (a := .begin 0 current) trivial harchives
      rw [Archives.step] at harchives
      split at harchives
      · cases harchives
        refine ⟨hsafe, h.dropped, ?_, fun hnone ↦ ?_, h.numbered, h.complete, ?_, fun _ hnone ↦ ?_⟩
        · exact fun r hr ↦ (Function.update_of_ne hr _ _).trans (h.alone r hr)
        · cases hnone
        · rintro started ⟨⟩
          refine ⟨Finset.Subset.refl _, ⟨[], .listing current s.archives.history.archivedPartitions⟩,
            ?_, ⟨rfl, rfl⟩, List.nodup_nil, fun p hp ↦ absurd hp List.not_mem_nil,
            .inl ⟨_, _, rfl⟩⟩
          exact Function.update_self 0 _ s.archives.runs
        · cases hnone
      · cases harchives
    · rename_i hdisabled
      cases hs
      refine ⟨h.safe, h.dropped, h.alone, h.idle, h.numbered, h.complete, h.working, ?_⟩
      rintro started ⟨⟩
      refine ⟨Finset.Subset.refl _, fun _ row hrow hlt ↦ .inr ?_⟩
      rcases hok with henabled | hdone
      · exact absurd henabled hdisabled
      · exact hdone row hrow hlt

/-- The run at work takes a step. -/
theorem Inv.advance (hdrop : cfg.dropAfterArchive = false) (h : s.Inv cfg fmt)
    {a : Archives.Action ρ} (hok : s.Timely cfg fmt (.step a))
    (hs : s.step cfg fmt (.step a) = some s') : s'.Inv cfg fmt := by
  rw [Maintenance.step] at hs
  split at hs
  · rename_i ha
    obtain ⟨started, hrunning, hmap⟩ := Option.bind_eq_some_iff.mp hs
    obtain ⟨archives, harchives, rfl⟩ := Option.map_eq_some_iff.mp hmap
    have hsafe := h.safe.step (h.undisturbed hrunning ha) harchives
    obtain ⟨hstarted, run, hrun, hworking⟩ := h.working started hrunning
    have hstep : s.archives.runStep cfg.toArchiveConfig fmt 0 run run.phase a = some archives := by
      have hbind : (s.archives.runs 0).bind
          (fun run ↦ s.archives.runStep cfg.toArchiveConfig fmt 0 run run.phase a) =
            some archives := by
        rw [← harchives]
        cases a <;> cases ha <;> rfl
      rwa [hrun] at hbind
    obtain ⟨htable, hdropped, hruns⟩ := runStep_frame hstep fun p runId rows hphase ↦ by
      have hknown := hworking.known
      rw [hphase] at hknown
      exact hknown
    obtain ⟨hnumbered, hcomplete, hgoing⟩ := hworking.runStep hdrop h.safe h.numbered h.complete
      hstarted hrun (fun q hq p runId expected size rows hphase ↦ by
        subst hq
        exact hok run p runId expected size rows hrun hphase) hstep
    have hrecord : (started.record a).table ⊆ archives.table := by
      rw [htable]
      cases a <;> exact hstarted
    have halone : ∀ r, r ≠ 0 → archives.runs r = none := fun r hr ↦
      (hruns r hr).trans (h.alone r hr)
    rcases hgoing with ⟨hended, hprogress⟩ | ⟨run', hrun', hworking'⟩
    · rw [advance_none hended]
      refine ⟨hsafe, hdropped.trans h.dropped, halone, fun _ ↦ hended, hnumbered, hcomplete, nofun, ?_⟩
      rintro _ ⟨⟩
      exact ⟨hrecord, hprogress⟩
    · rw [advance_some hrun']
      refine ⟨hsafe, hdropped.trans h.dropped, halone, nofun, hnumbered, hcomplete, ?_, nofun⟩
      rintro _ ⟨⟩
      exact ⟨hrecord, run', hrun', hworking'⟩
  · cases hs

/-- **A step that meets the condition keeps the invariant.** -/
theorem Inv.step (hdrop : cfg.dropAfterArchive = false) (h : s.Inv cfg fmt) {a : Action ρ}
    (hok : s.Timely cfg fmt a) (hs : s.step cfg fmt a = some s') : s'.Inv cfg fmt := by
  cases a with
  | insert rows => exact h.insert hok hs
  | run current => exact h.run hok hs
  | step a => exact h.advance hdrop hok hs
  | kill =>
      rw [Maintenance.step] at hs
      obtain ⟨archives, harchives, rfl⟩ := Option.map_eq_some_iff.mp hs
      have hsafe := h.safe.step (a := .kill 0) trivial harchives
      cases harchives
      refine ⟨hsafe, h.dropped, ?_, fun _ ↦ ?_, h.numbered, h.complete, nofun, h.returned⟩
      · exact fun r hr ↦ (Function.update_of_ne hr _ _).trans (h.alone r hr)
      · exact Function.update_self 0 _ s.archives.runs

theorem Inv.reach (hdrop : cfg.dropAfterArchive = false)
    (h : Reach (system cfg fmt) (Timely cfg fmt) s) : s.Inv cfg fmt := by
  refine Reach.invariant ?_ ?_ h
  · rintro s rfl
    exact ⟨⟨_, Archives.Inv.empty⟩, rfl, fun _ _ ↦ rfl, fun _ ↦ rfl, nofun, nofun, nofun, nofun⟩
  · exact fun s a s' hinv hok hs ↦ hinv.step hdrop hok hs

/-- **Maintenance refines archiving.**  A history of maintenance runs that do not overlap is a run of the archives in
which none disturbs another. -/
theorem simulation (hdrop : cfg.dropAfterArchive = false) :
    Simulation (system cfg fmt) (Timely cfg fmt) (Archives.system cfg.toArchiveConfig fmt)
      (fun s a ↦ s.Undisturbed fmt a) archives where
  init := by
    rintro s rfl
    rfl
  step := by
    intro s a s' h hok hs
    change s.step cfg fmt a = some s' at hs
    cases a with
    | insert rows =>
        rw [Maintenance.step] at hs
        obtain ⟨archives, harchives, rfl⟩ := Option.map_eq_some_iff.mp hs
        exact .inr ⟨.insert rows, trivial, harchives⟩
    | run current =>
        rw [Maintenance.step] at hs
        dsimp only at hs
        split at hs
        · cases hs
        · split at hs
          · obtain ⟨archives, harchives, rfl⟩ := Option.map_eq_some_iff.mp hs
            exact .inr ⟨.begin 0 current, trivial, harchives⟩
          · cases hs
            exact .inl rfl
    | step a =>
        rw [Maintenance.step] at hs
        split at hs
        · rename_i ha
          obtain ⟨started, hrunning, hmap⟩ := Option.bind_eq_some_iff.mp hs
          obtain ⟨archives, harchives, rfl⟩ := Option.map_eq_some_iff.mp hmap
          rw [archives_advance]
          exact .inr ⟨a, (Inv.reach hdrop h).undisturbed hrunning ha, harchives⟩
        · cases hs
    | kill =>
        rw [Maintenance.step] at hs
        obtain ⟨archives, harchives, rfl⟩ := Option.map_eq_some_iff.mp hs
        exact .inr ⟨.kill 0, trivial, harchives⟩

end invariant

/-! ## A run that is not disturbed -/

section undisturbed

variable {cfg fmt} {ok : Maintenance ρ → Action ρ → Prop} {s : Maintenance ρ} {started : Started ρ}
  {run run' : MaintenanceRun ρ} {a : Archives.Action ρ} {t : Archives ρ}

/-- A step of the run at work. -/
theorem step_eq (hrunning : s.running = some started) (hrun : s.archives.runs 0 = some run)
    (ha : a.process = some 0)
    (hs : s.archives.runStep cfg.toArchiveConfig fmt 0 run run.phase a = some t) :
    s.step cfg fmt (.step a) = some (advance (started.record a) t) := by
  have hstep : s.archives.step cfg.toArchiveConfig fmt a = some t :=
    (step_of_process hrun ha).trans hs
  rw [Maintenance.step, if_pos ha, hrunning, Option.bind_some, hstep, Option.map_some]

theorem reach_step (h : Reach (system cfg fmt) ok s) (hrunning : s.running = some started)
    (hrun : s.archives.runs 0 = some run) (ha : a.process = some 0) (hok : ok s (.step a))
    (hs : s.archives.runStep cfg.toArchiveConfig fmt 0 run run.phase a = some t)
    (hrun' : t.runs 0 = some run') :
    Reach (system cfg fmt) ok ⟨t, some (started.record a), none⟩ :=
  h.step hok ((step_eq hrunning hrun ha hs).trans (congrArg some (advance_some hrun')))

theorem reach_return (h : Reach (system cfg fmt) ok s) (hrunning : s.running = some started)
    (hrun : s.archives.runs 0 = some run) (ha : a.process = some 0) (hok : ok s (.step a))
    (hs : s.archives.runStep cfg.toArchiveConfig fmt 0 run run.phase a = some t)
    (hnone : t.runs 0 = none) :
    Reach (system cfg fmt) ok ⟨t, none, some (started.record a)⟩ :=
  h.step hok ((step_eq hrunning hrun ha hs).trans (congrArg some (advance_none hnone)))

/-- Rows are inserted. -/
theorem exists_inserted (rows : List ρ) (hok : ok s (.insert rows)) (h : Reach (system cfg fmt) ok s) :
    ∃ t, Reach (system cfg fmt) ok t ∧ t.running = s.running ∧ t.archives.runs = s.archives.runs ∧
      t.archives.table = s.archives.table ∪
        ((rows.zipIdx s.archives.inserted).map fun x ↦ ⟨x.2, x.1⟩).toFinset ∧
      t.archives.inserted = s.archives.inserted + rows.length ∧ t.archives.fs = s.archives.fs ∧
      t.archives.history = s.archives.history :=
  ⟨_, h.step (a := Action.insert rows) hok rfl, rfl, rfl, rfl, rfl, rfl, rfl⟩

/-- A maintenance run begins with the closed months. -/
theorem exists_begun (current : Text) (henabled : cfg.archiveEnabled = true)
    (hok : ∀ s, ok s (.run current) ∧ ok s (.step (.list 0))) (h : Reach (system cfg fmt) ok s)
    (hrunning : s.running = none) (hnone : s.archives.runs 0 = none) :
    ∃ t, Reach (system cfg fmt) ok t ∧ t.running = some ⟨current, s.archives.table, 0⟩ ∧
      t.archives.runs 0 = some ⟨(s.archives.partitions fmt).filter fun p ↦
        p < current ∧ p ∉ s.archives.history.archivedPartitions, .idle⟩ ∧
      t.archives.table = s.archives.table ∧ t.archives.inserted = s.archives.inserted ∧
      t.archives.fs = s.archives.fs ∧ t.archives.history = s.archives.history := by
  have h₁ := h.step (a := Action.run current) (hok _).1 (by
    show s.step cfg fmt (.run current) = _
    rw [Maintenance.step, hrunning, henabled, Archives.step, hnone]
    rfl)
  have h₂ := reach_step h₁ rfl rfl (a := .list 0) rfl (hok _).2 rfl rfl
  exact ⟨_, h₂, rfl, rfl, rfl, rfl, rfl, rfl⟩

/-- It archives a month. -/
theorem exists_success (hdrop : cfg.dropAfterArchive = false)
    (h : Reach (system cfg fmt) (Timely cfg fmt) s) (hrunning : s.running = some started) {p : Text}
    {pending : List Text} (hrun : s.archives.runs 0 = some ⟨p :: pending, .idle⟩)
    {rows : List (LogRow ρ)} (hnodup : rows.Nodup)
    (hrows : rows.toFinset = rowsOf p fmt s.archives.table) (hne : rows ≠ [])
    (hsize : 64 ≤ (fmt.file rows).length) :
    ∃ t, Reach (system cfg fmt) (Timely cfg fmt) t ∧ t.running = some started ∧
      t.archives.runs 0 = some ⟨pending, .idle⟩ ∧ t.archives.table = s.archives.table ∧
      t.archives.inserted = s.archives.inserted ∧
      t.archives.fs.read (cfg.target p) = some (fmt.file rows) ∧
      t.archives.history = (s.archives.history.startArchive p).1.finishArchive
        (s.archives.history.startArchive p).2 .success (rowsOf p fmt s.archives.table).card
        (fmt.file rows).length (cfg.target p) [] := by
  have hcard : (rowsOf p fmt s.archives.table).card ≠ 0 := by
    rw [← hrows, List.toFinset_card_of_nodup hnodup]
    exact fun hlength ↦ hne (List.eq_nil_of_length_eq_zero hlength)
  have h₁ := reach_step h hrunning hrun (a := .start 0) rfl trivial rfl rfl
  have h₂ := reach_step h₁ rfl rfl (a := .count 0) rfl trivial (if_neg hcard) rfl
  have h₃ := reach_step h₂ rfl rfl (a := .open 0) rfl trivial rfl rfl
  have h₄ := reach_step h₃ rfl rfl (a := .select 0 rows) rfl trivial (if_pos ⟨hnodup, hrows⟩) rfl
  have h₅ := reach_step h₄ rfl rfl (a := .close 0) rfl trivial rfl rfl
  let i := (s.archives.fs.openTruncate (cfg.tmp p)).2
  let fs := (s.archives.fs.openTruncate (cfg.tmp p)).1.pwrite 0 i 0 ((fmt.file rows).drop 0)
  have hentry : fs.entry (cfg.tmp p) = some i := by
    show (s.archives.fs.openTruncate (cfg.tmp p)).1.entry (cfg.tmp p) = some i
    rw [FileSystem.entry_openTruncate, Function.update_self]
  obtain ⟨fs', hfs'⟩ := FileSystem.exists_rename hentry (cfg.target p)
  have hread : fs'.read (cfg.target p) = some (fmt.file rows) :=
    (Inv.reach hdrop h₅).safe.read_rename (r := 0) rfl hfs'
  have h₆ := reach_step h₅ rfl rfl (a := .rename 0) rfl trivial (runStep_rename hfs') rfl
  have h₇ := reach_step h₆ rfl rfl (a := .stat 0) rfl trivial (runStep_stat hread hsize) rfl
  have h₈ := reach_step h₇ rfl rfl (a := .finish 0) rfl (by
    rintro run p' runId expected size rows' ⟨⟩ ⟨⟩
    rfl) rfl rfl
  rw [hdrop] at h₈
  exact ⟨_, h₈, rfl, rfl, rfl, rfl, hread, rfl⟩

end undisturbed

/-! ## Runs -/

def keeping : MaintenanceConfig := ⟨⟨"nat_logs".toList, "/archive".toList, false⟩, true⟩

/-- Rows of the month alone. -/
theorem filter_partitions (current : Text) {s : Archives Unit} {done : List Text}
    (hne : s.table ≠ ∅) : (s.partitions marks).filter (fun p ↦ p < current ∧ p ∉ done) =
      ["202401".toList].filter fun p ↦ p < current ∧ p ∉ done := by
  have himage : s.table.image marks.month = {"202401".toList} := by
    refine Finset.image_const (Finset.nonempty_iff_ne_empty.mpr hne) _
  rw [partitions, himage, Finset.sort_singleton]

/-- Two rows are inserted, and a maintenance run archives their month. -/
theorem exists_archived : ∃ s, Reach (system keeping marks) (Timely keeping marks) s ∧
    s.running = none ∧ s.archives.runs 0 = none ∧
    s.returned = some ⟨"202402".toList, {⟨0, ()⟩, ⟨1, ()⟩}, 0⟩ ∧
    s.archives.table = {⟨0, ()⟩, ⟨1, ()⟩} ∧ s.archives.inserted = 2 ∧
    s.archives.history.archivedPartitions = ["202401".toList] ∧
    s.archives.fs.read (keeping.target "202401".toList) = some (marks.file [⟨0, ()⟩, ⟨1, ()⟩]) := by
  have hnodup : ([⟨0, ()⟩, ⟨1, ()⟩] : List (LogRow Unit)).Nodup := by decide
  have h₀ : Reach (system keeping marks) (Timely keeping marks) ⟨.empty, none, none⟩ := .init rfl
  obtain ⟨s, h, hrunning, hruns, htable, hinserted, -, hhistory⟩ := exists_inserted [(), ()] nofun h₀
  replace htable : s.archives.table = {⟨0, ()⟩, ⟨1, ()⟩} := htable.trans (by decide)
  obtain ⟨t, ht, htrunning, htrun, httable, htinserted, -, hthistory⟩ :=
    exists_begun "202402".toList rfl (fun _ ↦ ⟨.inl rfl, trivial⟩) h hrunning (congrFun hruns 0)
  rw [htable] at htrunning httable
  rw [filter_partitions _ (htable ▸ Finset.insert_ne_empty _ _), hhistory,
    show [_].filter _ = ["202401".toList] by decide] at htrun
  obtain ⟨v, hv, hvrunning, hvrun, hvtable, hvinserted, hvread, hvhistory⟩ :=
    exists_success rfl ht htrunning htrun hnodup
      (by rw [httable]; decide) (List.cons_ne_nil _ _) (by decide)
  have hreturn := reach_return hv hvrunning hvrun (a := .start 0) rfl trivial rfl rfl
  refine ⟨_, hreturn, rfl, rfl, rfl, hvtable.trans httable,
    hvinserted.trans (htinserted.trans hinserted), ?_, hvread⟩
  show v.archives.history.archivedPartitions = _
  rw [hvhistory, hthistory, hhistory]
  rfl

end Maintenance

end LogServer
