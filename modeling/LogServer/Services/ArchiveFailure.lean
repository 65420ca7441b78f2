import LogServer.Lib.Raising
import LogServer.Services.ArchiveSafety

/-!
# Archive runs that fail

`archive_partition` as one call, by the outcome of each of its external steps.  (`Archives.system`
has the same call in steps, interleaved with workers and with other calls.)  All steps of an export
stand in one `try` block, and one handler deals with whatever raises, before and after the export
was moved to its place.

* `attempt_cases`: how far the block gets, and what it has done by then.
* `archivePartition_performs`: a call that returns is a run of the system.
* `archive_failure_iff`: a call that fails leaves earlier results intact exactly if nothing raises
  between the rename and the size check where an earlier archive is lost by then, nothing raises
  behind the size check, and the temporary file can be removed.
-/

namespace LogServer

open Raising

/-! ## The call -/

/-- The files, the log table, and the archive history. -/
structure ArchiveStore (ρ : Type) where
  fs : FileSystem Text UInt8
  table : Finset (LogRow ρ)
  history : ArchiveRuns

/-- The outcome of each external step: what it returns, or the text of what it raises. -/
structure ArchiveOutcomes where
  mkdir : Except Text Unit
  startArchive : Except Text Unit
  count : Except Text Nat
  finishSkipped : Except Text Unit
  openTmp : Except Text Unit
  /-- The chunks that are streamed and written. -/
  chunks : List Bytes
  /-- How the stream ends. -/
  stream : Except Text Unit
  rename : Except Text Unit
  stat : Except Text Unit
  chmod : Except Text Unit
  finishSuccess : Except Text Unit
  drop : Except Text Unit
  finishFailed : Except Text Unit
  unlink : Except Text Unit

/-- A computation with the files, the table and the history, which may raise. -/
abbrev Archiving (ρ : Type) (α : Type) := EStateM Text (ArchiveStore ρ) α

namespace Archiving

variable {ρ : Type}

variable (cfg : ArchiveConfig) (fmt : LogFormat ρ) (p : Text) (gzip : List Bytes → Bytes)
  (o : ArchiveOutcomes)

def startArchive : Archiving ρ Nat := do
  perform o.startArchive fun s ↦ { s with history := (s.history.startArchive p).1 }
  return (← get).history.sequence

def finishArchive (outcome : Except Text Unit) (runId : Nat) (status : ArchiveStatus)
    (rows size : Nat) (path message : Text) : Archiving ρ Unit :=
  perform outcome fun s ↦
    { s with history := s.history.finishArchive runId status rows size path message }

def openTmp : Archiving ρ Unit :=
  perform o.openTmp fun s ↦ { s with fs := (s.fs.openTruncate (cfg.tmp p)).1 }

/-- Compress the chunks into the temporary file.  It is closed when the stream raises, too. -/
def writeStream : Archiving ρ Unit := do
  perform (.ok ()) fun s ↦
    match s.fs.entry (cfg.tmp p) with
    | some i => { s with fs := s.fs.setContent i (gzip o.chunks) }
    | none => s
  perform o.stream id

def replace : Archiving ρ Unit := do
  perform o.rename id
  match (← get).fs.rename (cfg.tmp p) (cfg.target p) with
  | some fs => modify fun s ↦ { s with fs := fs }
  | none => throw (Archives.noSuchFile (cfg.tmp p))

def stat : Archiving ρ Nat := do
  perform o.stat id
  match (← get).fs.read (cfg.target p) with
  | some bytes => return bytes.length
  | none => throw (Archives.noSuchFile (cfg.target p))

/-- `DROP PARTITION`. -/
def drop : Archiving ρ Unit :=
  perform o.drop fun s ↦ { s with table := s.table.filter fun row ↦ fmt.month row ≠ p }

def unlink : Archiving ρ Unit :=
  perform o.unlink fun s ↦ { s with fs := s.fs.unlink (cfg.tmp p) }

/-- The `try` block. -/
def attempt (runId : Nat) : Archiving ρ (Bool × Text) := do
  let expected ← ofExcept o.count
  if expected = 0 then
    finishArchive o.finishSkipped runId .skipped 0 0 [] "Partition is empty".toList
    return (true, "empty".toList)
  openTmp cfg p o
  writeStream cfg p gzip o
  replace cfg p o
  let size ← stat cfg p o
  perform o.chmod id
  if size < 64 then throw (Archives.implausiblySmall size)
  else
    finishArchive o.finishSuccess runId .success expected size (cfg.target p) []
    if cfg.dropAfterArchive then
      drop fmt p o
      return (true, "archived".toList)
    else return (true, "archived".toList)

def archivePartition : Archiving ρ (Bool × Text) := do
  perform o.mkdir id
  let runId ← startArchive p o
  tryCatch (attempt cfg fmt p gzip o runId) fun exc ↦ do
    finishArchive o.finishFailed runId .failed 0 0 [] exc
    tryCatch (unlink cfg p o) fun _ ↦ return ()
    return (false, exc)

/-! ## How far a call gets -/

end Archiving

namespace ArchiveOutcomes

variable (o : ArchiveOutcomes) (gzip : List Bytes → Bytes) (cfg : ArchiveConfig)

/-- A failure is handled: nothing raises before the `try` block, and it can be recorded. -/
def Handled : Prop := o.mkdir = .ok () ∧ o.startArchive = .ok () ∧ o.finishFailed = .ok ()

/-- The month is empty. -/
def Skipped : Prop := o.count = .ok 0 ∧ o.finishSkipped = .ok ()

/-- There are rows, and the temporary file was opened. -/
def Opened : Prop := (∃ n, o.count = .ok n ∧ n ≠ 0) ∧ o.openTmp = .ok ()

/-- The stream came to its end, and the export was moved to its place. -/
def Committed : Prop := o.Opened ∧ o.stream = .ok () ∧ o.rename = .ok ()

/-- The export passed the size check. -/
def Accepted : Prop :=
  o.Committed ∧ o.stat = .ok () ∧ o.chmod = .ok () ∧ 64 ≤ (gzip o.chunks).length

/-- Nothing raises behind the size check. -/
def Recorded : Prop :=
  o.finishSuccess = .ok () ∧ (cfg.dropAfterArchive = true → o.drop = .ok ())

variable {o}

/-- Of an empty month nothing is exported. -/
theorem Skipped.not_opened (h : o.Skipped) : ¬o.Opened := by
  rintro ⟨⟨n, hn, hne⟩, -⟩
  exact hne (Except.ok.inj (hn.symm.trans h.1))

end ArchiveOutcomes

namespace Archiving

variable {ρ : Type} (cfg : ArchiveConfig) (p : Text) (gzip : List Bytes → Bytes)
  (o : ArchiveOutcomes)

/-- What the `try` block has done when it ends or raises. -/
inductive Attempted (s : ArchiveStore ρ) :
    EStateM.Result Text (ArchiveStore ρ) (Bool × Text) → Prop
  /-- It raised before there was a temporary file. -/
  | unopened (e : Text) (hopened : ¬o.Opened) (hskipped : ¬o.Skipped) : Attempted s (.error e s)
  /-- It raised before the rename. -/
  | unmoved (e : Text) (fs : FileSystem Text UInt8) (hopened : o.Opened) (hcommitted : ¬o.Committed)
      (htarget : fs.read (cfg.target p) = s.fs.read (cfg.target p))
      (htmp : fs.read (cfg.tmp p) ≠ none) : Attempted s (.error e { s with fs := fs })
  /-- It raised between the rename and the size check. -/
  | rejected (e : Text) (fs : FileSystem Text UInt8) (hcommitted : o.Committed)
      (haccepted : ¬o.Accepted gzip) (htarget : fs.read (cfg.target p) = some (gzip o.chunks))
      (htmp : fs.read (cfg.tmp p) = none) : Attempted s (.error e { s with fs := fs })
  /-- It raised behind the size check. -/
  | unrecorded (e : Text) (fs : FileSystem Text UInt8) (history : ArchiveRuns)
      (haccepted : o.Accepted gzip) (hrecorded : ¬o.Recorded cfg)
      (htarget : fs.read (cfg.target p) = some (gzip o.chunks))
      (htmp : fs.read (cfg.tmp p) = none)
      (hids : history.rows.map ArchiveRun.id = s.history.rows.map ArchiveRun.id) :
      Attempted s (.error e { s with fs := fs, history := history })
  | ended (x : Text) (s' : ArchiveStore ρ)
      (h : o.Skipped ∨ o.Accepted gzip ∧ o.Recorded cfg) : Attempted s (.ok (true, x) s')

section attempts

variable {cfg p gzip o} {fmt : LogFormat ρ} {s s' : ArchiveStore ρ} {runId : ℕ} {α β : Type}

def exported (cfg : ArchiveConfig) (p : Text) (data : Bytes) (fs : FileSystem Text UInt8) :
    FileSystem Text UInt8 :=
  (fs.openTruncate (cfg.tmp p)).1.setContent (fs.openTruncate (cfg.tmp p)).2 data

theorem entry_openTmp (fs : FileSystem Text UInt8) :
    (fs.openTruncate (cfg.tmp p)).1.entry (cfg.tmp p) =
      some (fs.openTruncate (cfg.tmp p)).2 := by
  rw [FileSystem.entry_openTruncate, Function.update_self]

/-- Until the rename the archive is as it was. -/
theorem read_exported_target (data : Bytes) (fs : FileSystem Text UInt8) :
    (exported cfg p data fs).read (cfg.target p) = fs.read (cfg.target p) := by
  have hne : (fs.openTruncate (cfg.tmp p)).1.entry (cfg.target p) ≠
      some (fs.openTruncate (cfg.tmp p)).2 := fun h ↦
    ArchiveConfig.target_ne_tmp ((fs.openTruncate (cfg.tmp p)).1.entry_inj _ _ _ h (entry_openTmp fs))
  rw [exported, FileSystem.read_setContent hne,
    FileSystem.read_openTruncate_ne ArchiveConfig.target_ne_tmp]

theorem read_exported_tmp (data : Bytes) (fs : FileSystem Text UInt8) :
    (exported cfg p data fs).read (cfg.tmp p) = some data :=
  FileSystem.read_setContent_self (entry_openTmp fs) data

/-- The rename puts the export in the place of the archive. -/
theorem exists_replaced (data : Bytes) (fs : FileSystem Text UInt8) : ∃ fs',
    (exported cfg p data fs).rename (cfg.tmp p) (cfg.target p) = some fs' ∧
      fs'.read (cfg.target p) = some data ∧ fs'.read (cfg.tmp p) = none := by
  have hentry : (exported cfg p data fs).entry (cfg.tmp p) =
      some (fs.openTruncate (cfg.tmp p)).2 := entry_openTmp fs
  obtain ⟨fs', hfs'⟩ := FileSystem.exists_rename hentry (cfg.target p)
  refine ⟨fs', hfs', ?_, ?_⟩
  · rw [FileSystem.read_rename hfs', read_exported_tmp]
  · exact FileSystem.read_rename_old hfs' (Ne.symm ArchiveConfig.target_ne_tmp)

/-- Ending an attempt gives out no numbers. -/
theorem map_id_finishArchive {status : ArchiveStatus} {rows size : ℕ} {path message : Text}
    (t : ArchiveRuns) : (t.finishArchive runId status rows size path message).rows.map ArchiveRun.id =
      t.rows.map ArchiveRun.id := by
  rw [ArchiveRuns.finishArchive, List.map_map]
  refine List.map_congr_left fun run _ ↦ ?_
  rw [Function.comp_apply]
  split <;> rfl

section steps

variable {f : Unit → Archiving ρ (Bool × Text)} {g : ℕ → Archiving ρ (Bool × Text)}
  {P : EStateM.Result Text (ArchiveStore ρ) (Bool × Text) → Prop}

/-- Writing the export, whether or not the stream comes to its end. -/
theorem writeStream_cases
    (ok : o.openTmp = .ok () → o.stream = .ok () →
      P (f () { s with fs := exported cfg p (gzip o.chunks) s.fs }))
    (unopened : ∀ e, o.openTmp = .error e → P (.error e s))
    (broken : ∀ e, o.openTmp = .ok () → o.stream = .error e →
      P (.error e { s with fs := exported cfg p (gzip o.chunks) s.fs })) :
    P ((openTmp cfg p o >>= fun _ ↦ writeStream cfg p gzip o >>= f) s) := by
  refine perform_cases (fun hopen ↦ ?_) unopened
  rw [writeStream, bind_assoc]
  refine perform_cases (fun _ ↦ ?_) nofun
  rw [entry_openTmp]
  exact perform_cases (ok hopen) fun e ↦ broken e hopen

/-- Moving an export to its place. -/
theorem replace_cases {data : Bytes}
    (ok : ∀ fs, (exported cfg p data s.fs).rename (cfg.tmp p) (cfg.target p) = some fs →
      o.rename = .ok () → fs.read (cfg.target p) = some data → fs.read (cfg.tmp p) = none →
      P (f () { s with fs := fs }))
    (error : ∀ e, o.rename = .error e → P (.error e { s with fs := exported cfg p data s.fs })) :
    P ((replace cfg p o >>= f) { s with fs := exported cfg p data s.fs }) := by
  obtain ⟨fs, hfs, htarget, htmp⟩ : ∃ fs, (exported cfg p data s.fs).rename _ _ = some fs ∧ _ :=
    exists_replaced data s.fs
  rw [replace, bind_assoc]
  refine perform_cases (fun hrename ↦ ?_) error
  rw [bind_assoc]
  refine get_cases ?_
  dsimp only [id]
  rw [hfs]
  exact ok fs hfs hrename htarget htmp

/-- The size of an archive that is there. -/
theorem stat_cases {data : Bytes} (htarget : s.fs.read (cfg.target p) = some data)
    (ok : o.stat = .ok () → P (g data.length s)) (error : ∀ e, o.stat = .error e → P (.error e s)) :
    P ((stat cfg p o >>= g) s) := by
  rw [stat, bind_assoc]
  refine perform_cases (fun hstat ↦ ?_) error
  rw [bind_assoc]
  refine get_cases ?_
  dsimp only [id]
  rw [htarget]
  exact ok hstat

/-- Removing the temporary file, as far as possible. -/
theorem unlink_cases
    (ok : o.unlink = .ok () → P (f () { s with fs := s.fs.unlink (cfg.tmp p) }))
    (error : o.unlink ≠ .ok () → P (f () s)) :
    P (((tryCatch (unlink cfg p o) fun _ ↦ return ()) >>= f) s) := by
  cases hunlink : o.unlink with
  | ok x =>
      have hrun : unlink cfg p o s = .ok () { s with fs := s.fs.unlink (cfg.tmp p) } := by
        rw [unlink, hunlink]
        rfl
      rw [bind_ok (tryCatch_ok hrun)]
      exact ok hunlink
  | error e =>
      have hrun : unlink cfg p o s = .error e s := by
        rw [unlink, hunlink]
        rfl
      have hcatch : tryCatch (unlink cfg p o) (fun _ ↦ return ()) s = .ok () s := tryCatch_error hrun
      rw [bind_ok hcatch]
      exact error (error_ne_ok hunlink)

end steps

/-- Behind the rename: the size check, the entry in the history, and the drop. -/
theorem finish_cases {fs : FileSystem Text UInt8} {expected : ℕ} (hcommitted : o.Committed)
    (hstat : o.stat = .ok ()) (hchmod : o.chmod = .ok ())
    (htarget : fs.read (cfg.target p) = some (gzip o.chunks))
    (htmp : fs.read (cfg.tmp p) = none) :
    Attempted cfg p gzip o s ((if (gzip o.chunks).length < 64 then
        throw (Archives.implausiblySmall (gzip o.chunks).length)
      else do
        finishArchive o.finishSuccess runId .success expected (gzip o.chunks).length (cfg.target p) []
        if cfg.dropAfterArchive then
          drop fmt p o
          return (true, "archived".toList)
        else return (true, "archived".toList)) { s with fs := fs }) := by
  by_cases hsize : (gzip o.chunks).length < 64
  · rw [if_pos hsize]
    exact .rejected _ fs hcommitted (fun h ↦ absurd h.2.2.2 (Nat.not_le.mpr hsize)) htarget htmp
  · rw [if_neg hsize]
    have haccepted : o.Accepted gzip := ⟨hcommitted, hstat, hchmod, Nat.not_lt.mp hsize⟩
    refine perform_cases (fun hfinish ↦ ?_) fun e hfinish ↦ ?_
    · by_cases hdrop : cfg.dropAfterArchive = true
      · rw [if_pos hdrop]
        refine perform_cases (fun hok ↦ ?_) fun e hraised ↦ ?_
        · exact .ended _ _ (.inr ⟨haccepted, hfinish, fun _ ↦ hok⟩)
        · exact .unrecorded e fs _ haccepted (fun h ↦ error_ne_ok hraised (h.2 hdrop)) htarget htmp
            (map_id_finishArchive _)
      · rw [if_neg hdrop]
        exact .ended _ _ (.inr ⟨haccepted, hfinish, fun h ↦ absurd h hdrop⟩)
    · exact .unrecorded e fs _ haccepted (fun h ↦ error_ne_ok hfinish h.1) htarget htmp rfl

/-- **The `try` block** gets as far as its outcomes let it. -/
theorem attempt_cases (s : ArchiveStore ρ) (runId : ℕ) :
    Attempted cfg p gzip o s (attempt cfg fmt p gzip o runId s) := by
  rw [attempt]
  refine ofExcept_cases (fun expected hcount ↦ ?_) fun e hcount ↦ ?_
  · have hnumber : ∀ n, o.count = .ok n → n = expected := fun n hn ↦
      Except.ok.inj (hn.symm.trans hcount)
    by_cases h0 : expected = 0
    · subst h0
      rw [if_pos rfl]
      have hopened : ¬o.Opened := fun ⟨⟨n, hn, hne⟩, _⟩ ↦ hne (hnumber n hn)
      exact perform_cases (fun hskip ↦ .ended _ _ (.inl ⟨hcount, hskip⟩)) fun e hskip ↦
        .unopened e hopened fun h ↦ error_ne_ok hskip h.2
    · rw [if_neg h0]
      have hskipped : ¬o.Skipped := fun h ↦ h0 (hnumber 0 h.1).symm
      refine writeStream_cases (fun hopen hstream ↦ ?_) (fun e hopen ↦ ?_) fun e hopen hstream ↦ ?_
      · have hopened : o.Opened := ⟨⟨expected, hcount, h0⟩, hopen⟩
        refine replace_cases (fun fs _ hrename htarget htmp ↦ ?_) fun e hrename ↦ ?_
        · have hcommitted : o.Committed := ⟨hopened, hstream, hrename⟩
          refine stat_cases htarget (fun hstat ↦ ?_) fun e hstat ↦ ?_
          · refine perform_cases (fun hchmod ↦ ?_) fun e hchmod ↦ ?_
            · exact finish_cases hcommitted hstat hchmod htarget htmp
            · exact .rejected e fs hcommitted (fun h ↦ error_ne_ok hchmod h.2.2.1) htarget htmp
          · exact .rejected e fs hcommitted (fun h ↦ error_ne_ok hstat h.2.1) htarget htmp
        · exact .unmoved e _ hopened (fun h ↦ error_ne_ok hrename h.2.2) (read_exported_target _ _)
            (by rw [read_exported_tmp]; nofun)
      · exact .unopened e (fun h ↦ error_ne_ok hopen h.2) hskipped
      · exact .unmoved e _ ⟨⟨expected, hcount, h0⟩, hopen⟩ (fun h ↦ error_ne_ok hstream h.2.1)
          (read_exported_target _ _) (by rw [read_exported_tmp]; nofun)
  · exact .unopened e (fun ⟨⟨_, hn, _⟩, _⟩ ↦ error_ne_ok hcount hn) fun h ↦ error_ne_ok hcount h.1

/-- The attempt has its entry in the history. -/
def started (p : Text) (s : ArchiveStore ρ) : ArchiveStore ρ :=
  { s with history := (s.history.startArchive p).1 }

/-- How a call ends: it raises itself, it succeeds, or its failure is handled. -/
inductive Returned (cfg : ArchiveConfig) (p : Text) (gzip : List Bytes → Bytes)
    (o : ArchiveOutcomes) (s : ArchiveStore ρ) :
    EStateM.Result Text (ArchiveStore ρ) (Bool × Text) → Prop
  | raised (e : Text) (s' : ArchiveStore ρ) (hhandled : ¬o.Handled) :
      Returned cfg p gzip o s (.error e s')
  | succeeded (x : Text) (s' : ArchiveStore ρ)
      (h : o.Skipped ∨ o.Accepted gzip ∧ o.Recorded cfg) :
      Returned cfg p gzip o s (.ok (true, x) s')
  | failed (e : Text) (s₂ : ArchiveStore ρ) (fs : FileSystem Text UInt8) (hhandled : o.Handled)
      (hattempt : Attempted cfg p gzip o (started p s) (.error e s₂))
      (hfs : o.unlink = .ok () ∧ fs = s₂.fs.unlink (cfg.tmp p) ∨
        o.unlink ≠ .ok () ∧ fs = s₂.fs) :
      Returned cfg p gzip o s (.ok (false, e)
        ⟨fs, s₂.table, s₂.history.finishArchive (s.history.sequence + 1) .failed 0 0 [] e⟩)

/-- **A call** returns what becomes of its `try` block. -/
theorem archivePartition_cases (s : ArchiveStore ρ) :
    Returned cfg p gzip o s (archivePartition cfg fmt p gzip o s) := by
  rw [archivePartition]
  refine perform_cases (fun hmkdir ↦ ?_) fun e hmkdir ↦
    .raised e _ fun h ↦ error_ne_ok hmkdir h.1
  rw [startArchive, bind_assoc]
  refine perform_cases (fun hstart ↦ ?_) fun e hstart ↦
    .raised e _ fun h ↦ error_ne_ok hstart h.2.1
  rw [bind_assoc]
  refine get_cases ?_
  rw [pure_bind]
  have hattempt : Attempted cfg p gzip o (started p s)
      (attempt cfg fmt p gzip o (s.history.sequence + 1) (started p s)) := attempt_cases _ _
  refine tryCatch_cases (fun x s' hrun ↦ ?_) fun e s₂ hrun ↦ ?_
  · have hended : Attempted cfg p gzip o (started p s) (.ok x s') := hrun ▸ hattempt
    cases hended with
    | ended x s' h => exact .succeeded x s' h
  · have hraised : Attempted cfg p gzip o (started p s) (.error e s₂) := hrun ▸ hattempt
    refine perform_cases (fun hfinish ↦ ?_) fun e' hfinish ↦
      .raised e' _ fun h ↦ error_ne_ok hfinish h.2.2
    refine unlink_cases (fun hunlink ↦ ?_) fun hunlink ↦ ?_
    · exact .failed e s₂ _ ⟨hmkdir, hstart, hfinish⟩ hraised (.inl ⟨hunlink, rfl⟩)
    · exact .failed e s₂ _ ⟨hmkdir, hstart, hfinish⟩ hraised (.inr ⟨hunlink, rfl⟩)

end attempts

/-! ## A call is a run

A call alone takes the steps of the system.  Of the outcomes the system fixes the count and the content of
the stream, and the temporary file can always be removed. -/

section runs

open Transition Archives

variable [DecidableEq ρ] {cfg : ArchiveConfig} {fmt : LogFormat ρ} {p : Text}
  {gzip : List Bytes → Bytes} {o : ArchiveOutcomes} {r runId : ℕ} {pending : List Text}
  {rows : List (LogRow ρ)} {phase : ArchivePhase ρ} {s t : Archives ρ} {s' : ArchiveStore ρ}

/-- What a call sees of the system. -/
def store (s : Archives ρ) : ArchiveStore ρ := ⟨s.fs, s.table, s.history⟩

/-- The outcomes are those of the system. -/
structure Honest (fmt : LogFormat ρ) (p : Text) (gzip : List Bytes → Bytes) (o : ArchiveOutcomes)
    (table : Finset (LogRow ρ)) (rows : List (LogRow ρ)) : Prop where
  count : ∀ n, o.count = .ok n → n = (rowsOf p fmt table).card
  nodup : rows.Nodup
  selected : rows.toFinset = rowsOf p fmt table
  stream : o.stream = .ok () → gzip o.chunks = fmt.file rows
  unlink : o.unlink = .ok ()

/-- The steps of a maintenance run lead to what is left by its `try` block, up to the temporary file if
that is still to be removed. -/
def Leads (cfg : ArchiveConfig) (fmt : LogFormat ρ) (p : Text) (r runId : ℕ) (pending : List Text)
    (s : Archives ρ) : EStateM.Result Text (ArchiveStore ρ) (Bool × Text) → Prop
  | .ok _ s' => ∃ t actions, (system cfg fmt).Run (fun _ a ↦ a.process = some r) t s actions ∧
      t.runs r = some ⟨pending, .idle⟩ ∧ store t = s'
  | .error e s' => ∃ t actions, (system cfg fmt).Run (fun _ a ↦ a.process = some r) t s actions ∧
      t.runs r = some ⟨pending, .failing p runId e⟩ ∧
      (t.table = s'.table ∧ t.history = s'.history) ∧
      ∀ path, path ≠ cfg.tmp p → t.fs.read path = s'.fs.read path

/-- A step of the maintenance run. -/
theorem Leads.step {res : EStateM.Result Text (ArchiveStore ρ) (Bool × Text)} {a : Action ρ}
    (hrun : s.runs r = some ⟨pending, phase⟩) (ha : a.process = some r)
    (hs : s.runStep cfg fmt r ⟨pending, phase⟩ phase a = some t)
    (h : Leads cfg fmt p r runId pending t res) : Leads cfg fmt p r runId pending s res := by
  have hstep : (system cfg fmt).step s a = some t := (step_of_process hrun ha).trans hs
  cases res with
  | ok x s' =>
      obtain ⟨v, actions, hactions, hv⟩ := h
      exact ⟨v, a :: actions, .cons hstep ha hactions, hv⟩
  | error e s' =>
      obtain ⟨v, actions, hactions, hv⟩ := h
      exact ⟨v, a :: actions, .cons hstep ha hactions, hv⟩

/-- It is there. -/
theorem Leads.done {x : Bool × Text} (hrun : s.runs r = some ⟨pending, .idle⟩) :
    Leads cfg fmt p r runId pending s (.ok x (store s)) := ⟨s, [], rfl, hrun, rfl⟩

/-- It raises where its phase is that of the attempt. -/
theorem Leads.fail (hrun : s.runs r = some ⟨pending, phase⟩)
    (hattempt : phase.attempt = some (p, runId)) (htable : s.table = s'.table)
    (hhistory : s.history = s'.history)
    (hfs : ∀ path, path ≠ cfg.tmp p → s.fs.read path = s'.fs.read path) (e : Text) :
    Leads cfg fmt p r runId pending s (.error e s') := by
  have hs : s.runStep cfg fmt r ⟨pending, phase⟩ phase (.fail r e) =
      some (s.goto r ⟨pending, phase⟩ (.failing p runId e)) := by
    cases phase <;> cases hattempt <;> rfl
  refine .step (a := .fail r e) hrun rfl hs ⟨_, [], rfl, ?_, ⟨htable, hhistory⟩, hfs⟩
  exact Function.update_self ..

/-- Until the rename only the temporary file changes. -/
theorem read_exported {path : Text} (h : path ≠ cfg.tmp p) (data : Bytes) (fs : FileSystem Text UInt8) :
    (exported cfg p data fs).read path = fs.read path := by
  have hne : (fs.openTruncate (cfg.tmp p)).1.entry path ≠ some (fs.openTruncate (cfg.tmp p)).2 :=
    fun hentry ↦ h ((fs.openTruncate (cfg.tmp p)).1.entry_inj _ _ _ hentry (entry_openTmp fs))
  rw [exported, FileSystem.read_setContent hne, FileSystem.read_openTruncate_ne h]

/-- Writing the whole export to the file that was opened. -/
theorem pwrite_openTmp (data : Bytes) (fs : FileSystem Text UInt8) :
    (fs.openTruncate (cfg.tmp p)).1.pwrite 0 (fs.openTruncate (cfg.tmp p)).2 0 (data.drop 0) =
      exported cfg p data fs := by
  have hempty := fs.content_openTruncate_self (cfg.tmp p)
  rw [FileSystem.pwrite, hempty, List.drop_zero]
  simp [exported]

/-- Behind the rename. -/
theorem finish_leads {expected : ℕ} {data : Bytes}
    (hrun : s.runs r = some ⟨pending, .sizing p runId expected rows⟩)
    (htarget : s.fs.read (cfg.target p) = some data) :
    Leads cfg fmt p r runId pending s ((if data.length < 64 then
        throw (Archives.implausiblySmall data.length)
      else do
        finishArchive o.finishSuccess runId .success expected data.length (cfg.target p) []
        if cfg.dropAfterArchive then
          drop fmt p o
          return (true, "archived".toList)
        else return (true, "archived".toList)) (store s)) := by
  have hself : ∀ {runs : ℕ → Option (MaintenanceRun ρ)} {run},
      Function.update runs r (some run) r = some run := Function.update_self ..
  by_cases hsize : data.length < 64
  · rw [if_pos hsize]
    have hs : s.runStep cfg fmt r ⟨pending, .sizing p runId expected rows⟩
        (.sizing p runId expected rows) (.stat r) =
          some (s.goto r ⟨pending, .sizing p runId expected rows⟩
            (.failing p runId (implausiblySmall data.length))) := by
      rw [Archives.runStep, htarget]
      exact if_pos hsize
    exact .step (a := .stat r) hrun rfl hs ⟨_, [], rfl, hself, ⟨rfl, rfl⟩, fun _ _ ↦ rfl⟩
  · rw [if_neg hsize]
    refine .step (a := .stat r) hrun rfl (runStep_stat htarget (Nat.not_lt.mp hsize)) ?_
    refine perform_cases (fun _ ↦ ?_) fun e _ ↦ .fail hself rfl rfl rfl (fun _ _ ↦ rfl) e
    by_cases hdrop : cfg.dropAfterArchive = true
    · rw [if_pos hdrop]
      refine .step (a := .finish r) hself rfl (by rw [Archives.runStep, if_pos hdrop]) ?_
      refine perform_cases (fun _ ↦ ?_) fun e _ ↦ .fail hself rfl rfl rfl (fun _ _ ↦ rfl) e
      exact .step (a := .drop r .ok []) hself rfl rfl (.done hself)
    · rw [if_neg hdrop]
      exact .step (a := .finish r) hself rfl (by rw [Archives.runStep, if_neg hdrop]) (.done hself)

/-- **The `try` block is a part of a maintenance run.** -/
theorem attempt_leads (hhonest : Honest fmt p gzip o s.table rows)
    (hrun : s.runs r = some ⟨pending, .counting p runId⟩) :
    Leads cfg fmt p r runId pending s (attempt cfg fmt p gzip o runId (store s)) := by
  have hself : ∀ {runs : ℕ → Option (MaintenanceRun ρ)} {run},
      Function.update runs r (some run) r = some run := Function.update_self ..
  have hfail : ∀ {t : Archives ρ} {phase : ArchivePhase ρ} (e : Text),
      t.runs r = some ⟨pending, phase⟩ → phase.attempt = some (p, runId) →
      Leads cfg fmt p r runId pending t (.error e (store t)) := fun e hrun hattempt ↦
    .fail hrun hattempt rfl rfl (fun _ _ ↦ rfl) e
  rw [attempt]
  refine ofExcept_cases (fun expected hcount ↦ ?_) fun e _ ↦ hfail e hrun rfl
  obtain rfl := hhonest.count expected hcount
  by_cases h0 : (rowsOf p fmt s.table).card = 0
  · rw [if_pos h0]
    refine perform_cases (fun _ ↦ ?_) fun e _ ↦ hfail e hrun rfl
    exact .step (a := .count r) hrun rfl (if_pos h0) (.done hself)
  · rw [if_neg h0]
    refine .step (a := .count r) hrun rfl (if_neg h0) ?_
    refine writeStream_cases (fun _ hstream ↦ ?_) (fun e _ ↦ hfail e hself rfl) fun e _ _ ↦ ?_
    · rw [hhonest.stream hstream]
      refine .step (a := .open r) hself rfl rfl (.step (a := .select r rows) hself rfl
        (if_pos ⟨hhonest.nodup, hhonest.selected⟩) (.step (a := .close r) hself rfl rfl ?_))
      have hwritten : (s.fs.openTruncate (cfg.tmp p)).1.pwrite _ _ _ _ = _ :=
        pwrite_openTmp (fmt.file rows) s.fs
      refine replace_cases (fun fs hfs _ htarget _ ↦ ?_) fun e _ ↦
        .fail hself rfl rfl rfl (fun path _ ↦ congrArg (·.read path) hwritten) e
      refine .step (a := .rename r) hself rfl
        (runStep_rename ((congrArg (·.rename (cfg.tmp p) (cfg.target p)) hwritten).trans hfs)) ?_
      refine stat_cases htarget (fun _ ↦ ?_) fun e _ ↦ hfail e hself rfl
      exact perform_cases (fun _ ↦ finish_leads hself htarget) fun e _ ↦ hfail e hself rfl
    · refine .step (a := .open r) hself rfl rfl (.fail hself rfl rfl rfl (fun path hpath ↦ ?_) e)
      show (s.fs.openTruncate (cfg.tmp p)).1.read path =
        (exported cfg p (gzip o.chunks) s.fs).read path
      rw [read_exported hpath, FileSystem.read_openTruncate_ne hpath]

/-- If a call returns, the steps of the maintenance run lead to what it leaves. -/
def Performs (cfg : ArchiveConfig) (fmt : LogFormat ρ) (r : ℕ) (pending : List Text) (s : Archives ρ)
    (res : EStateM.Result Text (ArchiveStore ρ) (Bool × Text)) : Prop :=
  ∀ x s', res = .ok x s' →
    ∃ t actions, (system cfg fmt).Run (fun _ a ↦ a.process = some r) t s actions ∧
      t.runs r = some ⟨pending, .idle⟩ ∧ t.table = s'.table ∧ t.history = s'.history ∧
      ∀ path, t.fs.read path = s'.fs.read path

/-- **A call is a run** of the maintenance process, with no other in between. -/
theorem archivePartition_performs (hhonest : Honest fmt p gzip o s.table rows)
    (hrun : s.runs r = some ⟨p :: pending, .idle⟩) :
    Performs cfg fmt r pending s (archivePartition cfg fmt p gzip o (store s)) := by
  have hself : ∀ {runs : ℕ → Option (MaintenanceRun ρ)} {run},
      Function.update runs r (some run) r = some run := Function.update_self ..
  rw [archivePartition]
  refine perform_cases (fun _ ↦ ?_) fun e _ ↦ nofun
  rw [startArchive, bind_assoc]
  refine perform_cases (fun _ ↦ ?_) fun e _ ↦ nofun
  rw [bind_assoc]
  refine get_cases ?_
  rw [pure_bind]
  let started : Archives ρ := { s with
    history := (s.history.startArchive p).1
    runs := Function.update s.runs r
      (some ⟨pending, .counting p (s.history.startArchive p).2⟩) }
  have hstart : (system cfg fmt).step s (.start r) = some started :=
    (step_of_process (a := .start r) hrun rfl).trans rfl
  have hattempt : Leads cfg fmt p r (s.history.startArchive p).2 pending started
      (attempt cfg fmt p gzip o (s.history.startArchive p).2 (store started)) :=
    attempt_leads hhonest hself
  refine tryCatch_cases (fun x s₁ hok x' s' hres ↦ ?_) fun e s₁ herror ↦ ?_
  · cases hres
    have hleads : Leads cfg fmt p r (s.history.startArchive p).2 pending started (.ok x s₁) :=
      hok ▸ hattempt
    obtain ⟨t, actions, hactions, hidle, rfl⟩ := hleads
    exact ⟨t, .start r :: actions, .cons hstart rfl hactions, hidle, rfl, rfl, fun _ ↦ rfl⟩
  · have hleads : Leads cfg fmt p r (s.history.startArchive p).2 pending started (.error e s₁) :=
      herror ▸ hattempt
    obtain ⟨t, actions, hactions, hfailing, ⟨htable, hhistory⟩, hfs⟩ := hleads
    refine perform_cases (fun _ ↦ ?_) fun e' _ ↦ nofun
    refine unlink_cases (fun _ ↦ ?_) fun hunlink ↦ absurd hhonest.unlink hunlink
    rintro x s' ⟨⟩
    -- the handler takes two more steps
    let recorded : Archives ρ := { t with
      history := t.history.finishArchive (s.history.startArchive p).2 .failed 0 0 [] e
      runs := Function.update t.runs r (some ⟨pending, .unlinking p⟩) }
    have hfinish : (system cfg fmt).step t (.finishFailed r) = some recorded :=
      (step_of_process (a := .finishFailed r) hfailing rfl).trans rfl
    have hunlink : (system cfg fmt).step recorded (.unlink r true) = some _ :=
      (step_of_process (a := .unlink r true) hself rfl).trans rfl
    have hhandler : (system cfg fmt).Run (fun _ a ↦ a.process = some r) _ t
        [.finishFailed r, .unlink r true] := .cons hfinish rfl (.cons hunlink rfl rfl)
    refine ⟨_, _, .cons hstart rfl (hactions.append hhandler), hself, htable, ?_, fun path ↦ ?_⟩
    · exact congrArg (fun t : ArchiveRuns ↦ t.finishArchive _ .failed 0 0 [] e) hhistory
    · by_cases hpath : path = cfg.tmp p
      · subst hpath
        exact (t.fs.read_unlink_self _).trans (s₁.fs.read_unlink_self _).symm
      · exact (FileSystem.read_unlink_ne hpath).trans
          ((hfs path hpath).trans (FileSystem.read_unlink_ne hpath).symm)

end runs

/-! ## What a failure leaves -/

/-- What was there before a failed call is still there. -/
structure Intact (cfg : ArchiveConfig) (p : Text) (gzip : List Bytes → Bytes) (o : ArchiveOutcomes)
    (s s' : ArchiveStore ρ) : Prop where
  /-- An archive is as it was, or replaced by a complete export that was accepted. -/
  archive : ∀ bytes, s.fs.read (cfg.target p) = some bytes →
    s'.fs.read (cfg.target p) = some bytes ∨
      o.Accepted gzip ∧ s'.fs.read (cfg.target p) = some (gzip o.chunks)
  temporary : s'.fs.read (cfg.tmp p) = none
  /-- The call is recorded as failed only if no export was accepted. -/
  recorded : ∀ run ∈ s'.history.rows, run.id = s.history.sequence + 1 → run.status = .failed →
    ¬o.Accepted gzip
  partition : s'.table = s.table

/-- A call that fails leaves earlier results intact. -/
def FailureIntact (cfg : ArchiveConfig) (fmt : LogFormat ρ) (p : Text) (gzip : List Bytes → Bytes)
    (o : ArchiveOutcomes) (s : ArchiveStore ρ) : Prop :=
  ∀ message s', archivePartition cfg fmt p gzip o s = .ok (false, message) s' →
    Intact cfg p gzip o s s'

/-- Outcomes that lose nothing. -/
structure Harmless (cfg : ArchiveConfig) (p : Text) (gzip : List Bytes → Bytes)
    (o : ArchiveOutcomes) (s : ArchiveStore ρ) : Prop where
  /-- An export that was moved to the place of another archive passes the size check. -/
  replaced : o.Committed → ¬o.Accepted gzip →
    ∀ bytes, s.fs.read (cfg.target p) = some bytes → bytes = gzip o.chunks
  /-- Behind the size check nothing raises. -/
  recorded : o.Accepted gzip → o.Recorded cfg
  /-- A temporary file that is there can be removed. -/
  removed : o.unlink ≠ .ok () → (o.Opened → o.Committed) ∧
    (¬o.Opened → o.Skipped ∨ s.fs.read (cfg.tmp p) = none)

section failures

variable {cfg p gzip o} {fmt : LogFormat ρ} {s s₂ s' : ArchiveStore ρ} {e : Text}
  {fs : FileSystem Text UInt8}

/-- A failure that is handled ends as one. -/
theorem exists_failed {t : ArchiveRuns} {runId : ℕ} (h : runId ∈ t.rows.map ArchiveRun.id)
    (message : Text) : ∃ run ∈ (t.finishArchive runId .failed 0 0 [] message).rows,
      run.id = runId ∧ run.status = .failed := by
  obtain ⟨run, hrun, hid⟩ := List.mem_map.mp h
  refine ⟨_, List.mem_map.mpr ⟨run, hrun, if_pos hid⟩, hid, rfl⟩

/-- **A failure of the `try` block** leaves earlier results intact exactly if its outcomes are
harmless. -/
theorem intact_iff (hattempt : Attempted cfg p gzip o (started p s) (.error e s₂))
    (hfs : o.unlink = .ok () ∧ fs = s₂.fs.unlink (cfg.tmp p) ∨ o.unlink ≠ .ok () ∧ fs = s₂.fs) :
    Intact cfg p gzip o s
        ⟨fs, s₂.table, s₂.history.finishArchive (s.history.sequence + 1) .failed 0 0 [] e⟩ ↔
      Harmless cfg p gzip o s := by
  have htarget : fs.read (cfg.target p) = s₂.fs.read (cfg.target p) := by
    rcases hfs with ⟨-, rfl⟩ | ⟨-, rfl⟩
    · exact FileSystem.read_unlink_ne ArchiveConfig.target_ne_tmp
    · rfl
  have htmp : fs.read (cfg.tmp p) = none ↔ o.unlink = .ok () ∨ s₂.fs.read (cfg.tmp p) = none := by
    rcases hfs with ⟨hok, rfl⟩ | ⟨hne, rfl⟩
    · exact iff_of_true (FileSystem.read_unlink_self _) (.inl hok)
    · exact ⟨.inr, fun h ↦ h.resolve_left hne⟩
  have hfailed : ∀ {t : ArchiveRuns},
      t.rows.map ArchiveRun.id = (started p s).history.rows.map ArchiveRun.id →
      ∃ run ∈ (t.finishArchive (s.history.sequence + 1) .failed 0 0 [] e).rows,
        run.id = s.history.sequence + 1 ∧ run.status = .failed := fun hids ↦
    exists_failed (by rw [hids]; simp [started, ArchiveRuns.startArchive]) e
  cases hattempt with
  | unopened e hopened hskipped =>
      constructor
      · intro h
        refine ⟨fun hc ↦ absurd hc.1 hopened, fun ha ↦ absurd ha.1.1 hopened, fun hne ↦
          ⟨fun ho ↦ absurd ho hopened, fun _ ↦ .inr ?_⟩⟩
        exact (htmp.mp h.temporary).resolve_left hne
      · intro h
        refine ⟨fun bytes hbytes ↦ .inl (htarget.trans hbytes), htmp.mpr ?_,
          fun _ _ _ _ ha ↦ hopened ha.1.1, rfl⟩
        by_contra hcon
        obtain ⟨hne, hthere⟩ := not_or.mp hcon
        exact ((h.removed hne).2 hopened).elim hskipped hthere
  | unmoved e fs₂ hopened hcommitted htarget₂ htmp₂ =>
      constructor
      · intro h
        refine ⟨fun hc ↦ absurd hc hcommitted, fun ha ↦ absurd ha.1 hcommitted, fun hne ↦ ?_⟩
        exact absurd (htmp.mp h.temporary) (not_or.mpr ⟨hne, htmp₂⟩)
      · intro h
        refine ⟨fun bytes hbytes ↦ .inl (htarget.trans (htarget₂.trans hbytes)), htmp.mpr (.inl ?_),
          fun _ _ _ _ ha ↦ hcommitted ha.1, rfl⟩
        by_contra hne
        exact hcommitted ((h.removed hne).1 hopened)
  | rejected e fs₂ hcommitted haccepted htarget₂ htmp₂ =>
      constructor
      · intro h
        refine ⟨fun _ _ bytes hbytes ↦ ?_, fun ha ↦ absurd ha haccepted, fun _ ↦
          ⟨fun _ ↦ hcommitted, fun ho ↦ absurd hcommitted.1 ho⟩⟩
        rcases h.archive bytes hbytes with hold | ⟨ha, -⟩
        · exact Option.some.inj (hold.symm.trans (htarget.trans htarget₂))
        · exact absurd ha haccepted
      · intro h
        refine ⟨fun bytes hbytes ↦ .inl ?_, htmp.mpr (.inr htmp₂), fun _ _ _ _ ↦ haccepted, rfl⟩
        rw [h.replaced hcommitted haccepted bytes hbytes]
        exact htarget.trans htarget₂
  | unrecorded e fs₂ history haccepted hrecorded htarget₂ htmp₂ hids =>
      constructor
      · intro h
        obtain ⟨run, hrun, hid, hstatus⟩ := hfailed hids
        exact absurd haccepted (h.recorded run hrun hid hstatus)
      · exact fun h ↦ absurd (h.recorded haccepted) hrecorded

/-- **A call that fails leaves earlier results intact** exactly if its outcomes are harmless, or the
failure itself cannot be handled. -/
theorem archive_failure_iff (cfg : ArchiveConfig) (fmt : LogFormat ρ) (p : Text)
    (gzip : List Bytes → Bytes) (o : ArchiveOutcomes) (s : ArchiveStore ρ) :
    FailureIntact cfg fmt p gzip o s ↔ (o.Handled → Harmless cfg p gzip o s) := by
  have hreturned : Returned cfg p gzip o s (archivePartition cfg fmt p gzip o s) :=
    archivePartition_cases s
  rw [FailureIntact]
  generalize archivePartition cfg fmt p gzip o s = r at hreturned ⊢
  cases hreturned with
  | raised e s' hhandled => exact iff_of_true nofun fun h ↦ absurd h hhandled
  | succeeded x s' h =>
      refine iff_of_true nofun fun _ ↦ ?_
      rcases h with hskipped | ⟨haccepted, hrecorded⟩
      · have hopened := hskipped.not_opened
        exact ⟨fun hc ↦ absurd hc.1 hopened, fun ha ↦ absurd ha.1.1 hopened, fun _ ↦
          ⟨fun ho ↦ absurd ho hopened, fun _ ↦ .inl hskipped⟩⟩
      · exact ⟨fun _ hrejected ↦ absurd haccepted hrejected, fun _ ↦ hrecorded, fun _ ↦
          ⟨fun _ ↦ haccepted.1, fun ho ↦ absurd haccepted.1.1 ho⟩⟩
  | failed e s₂ fs hhandled hattempt hfs =>
      rw [← intact_iff hattempt hfs]
      constructor
      · exact fun h _ ↦ h e _ rfl
      · rintro h message s' hresult
        cases hresult
        exact h hhandled

def archivedOnce : ArchiveStore Unit where
  fs :=
    let x := FileSystem.empty.openTruncate (Archives.dropping.target "202401".toList)
    x.1.setContent x.2 (Archives.marks.file [⟨0, ()⟩])
  table := {⟨0, ()⟩}
  history := ⟨[], 0⟩

def emptyStream : ArchiveOutcomes where
  mkdir := .ok ()
  startArchive := .ok ()
  count := .ok 1
  finishSkipped := .ok ()
  openTmp := .ok ()
  chunks := []
  stream := .ok ()
  rename := .ok ()
  stat := .ok ()
  chmod := .ok ()
  finishSuccess := .ok ()
  drop := .ok ()
  finishFailed := .ok ()
  unlink := .ok ()

/-- An archive is replaced by an export that is too small, and lost. -/
theorem archive_failure_not_intact : ¬∀ (cfg : ArchiveConfig) (fmt : LogFormat Unit) (p : Text)
    (gzip : List Bytes → Bytes) (o : ArchiveOutcomes) (s : ArchiveStore Unit),
    FailureIntact cfg fmt p gzip o s := by
  intro h
  have hintact := h Archives.dropping Archives.marks "202401".toList
    (fun chunks ↦ List.replicate 20 0 ++ chunks.flatten) emptyStream archivedOnce _ _ rfl
  rcases hintact.archive (Archives.marks.file [⟨0, ()⟩]) (by decide) with hold | ⟨haccepted, -⟩
  · exact absurd hold (by decide)
  · exact absurd haccepted.2.2.2 (by decide)

end failures

end Archiving

end LogServer
