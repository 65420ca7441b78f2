import LogServer.Database.Archives
import LogServer.Lib.FileSystem
import LogServer.Lib.Transition
import LogServer.Services.Worker

/-!
# Archiving

Maintenance exports each closed month of the log table to a file, and then drops the month.  The
steps of `archive_partition` are separate: the count, the file being opened, the `SELECT`, the stream,
the rename, the size check, the entry in the history, and the drop.  Workers insert rows of any month
in between, and several maintenance runs may be at work at the same time, also on the same month.
`Archives.system` interleaves all of it.

An export is written to a temporary file and moved to its place when it is complete.  The temporary
file of a month has one name, so that two runs on the same month share it.

Rows are numbered as they are inserted, so that equal rows are told apart.  A run remembers the rows
its `SELECT` returned; the program does not.
-/

namespace LogServer

open Transition

/-! ## Paths -/

structure ArchiveConfig where
  table : Text
  archiveDir : Text
  dropAfterArchive : Bool

/-- `Path.with_suffix`, of a path with a suffix. -/
def withSuffix (path suffix : Text) : Text :=
  ((path.reverse.dropWhile (· ≠ '.')).drop 1).reverse ++ suffix

variable (cfg : ArchiveConfig) (p : Text)

def ArchiveConfig.target : Text :=
  cfg.archiveDir ++ "/".toList ++ cfg.table ++ "-".toList ++ p ++ ".native".toList ++ ".gz".toList

def ArchiveConfig.tmp : Text := withSuffix (cfg.target p) ".tmp".toList

/-! ## Rows and files -/

structure LogRow (ρ : Type) where
  id : Nat
  value : ρ
deriving DecidableEq, Repr

/-- The month of a row, and the compressed `Native` format of a list of rows. -/
structure LogFormat (ρ : Type) where
  toYYYYMM : ρ → Text
  gzip : List ρ → Bytes
  gunzip : Bytes → Option (List ρ)

/-- **What was exported can be restored.** -/
def LogFormat.Lawful {ρ : Type} (fmt : LogFormat ρ) : Prop :=
  ∀ rows, fmt.gunzip (fmt.gzip rows) = some rows

variable {ρ : Type} (fmt : LogFormat ρ)

def LogFormat.month (row : LogRow ρ) : Text := fmt.toYYYYMM row.value

def LogFormat.file (rows : List (LogRow ρ)) : Bytes := fmt.gzip (rows.map LogRow.value)

/-! ## Maintenance runs -/

inductive ArchivePhase (ρ : Type) where
  /-- `closed_partitions` has the date and the archived months. -/
  | listing (current : Text) (done : List Text)
  /-- Between two months. -/
  | idle
  | counting (p : Text) (runId : Nat)
  | opening (p : Text) (runId : Nat) (expected : Nat)
  | selecting (p : Text) (runId : Nat) (expected : Nat) (inode : Nat)
  /-- So many bytes of the export have been written. -/
  | streaming (p : Text) (runId : Nat) (expected : Nat) (inode : Nat) (rows : List (LogRow ρ))
      (offset : Nat)
  | renaming (p : Text) (runId : Nat) (expected : Nat) (inode : Nat) (rows : List (LogRow ρ))
  | sizing (p : Text) (runId : Nat) (expected : Nat) (rows : List (LogRow ρ))
  | finishing (p : Text) (runId : Nat) (expected : Nat) (size : Nat) (rows : List (LogRow ρ))
  | dropping (p : Text) (runId : Nat) (rows : List (LogRow ρ))
  /-- An exception was caught. -/
  | failing (p : Text) (runId : Nat) (message : Text)
  /-- The failure is in the history; the temporary file is to be removed. -/
  | unlinking (p : Text)

/-- The attempt whose exceptions are caught. -/
def ArchivePhase.attempt : ArchivePhase ρ → Option (Text × Nat)
  | .counting p runId | .opening p runId _ | .selecting p runId _ _ | .streaming p runId _ _ _ _
  | .renaming p runId _ _ _ | .sizing p runId _ _ | .finishing p runId _ _ _
  | .dropping p runId _ => some (p, runId)
  | .listing _ _ | .idle | .failing _ _ _ | .unlinking _ => none

/-- A maintenance process, with the months it has yet to archive. -/
structure MaintenanceRun (ρ : Type) where
  pending : List Text
  phase : ArchivePhase ρ

/-! ## The system -/

/-- The files, the log table, the history, and the maintenance processes by number.  The state
remembers how many rows were ever inserted, and which were dropped. -/
structure Archives (ρ : Type) where
  fs : FileSystem Text UInt8
  table : Finset (LogRow ρ)
  inserted : Nat
  dropped : Finset (LogRow ρ)
  history : ArchiveRuns
  runs : Nat → Option (MaintenanceRun ρ)

namespace Archives

inductive Action (ρ : Type) where
  /-- A worker inserts a batch. -/
  | insert (rows : List ρ)
  /-- A maintenance run begins, in some month. -/
  | begin (r : Nat) (current : Text)
  | list (r : Nat)
  | start (r : Nat)
  | count (r : Nat)
  | open (r : Nat)
  /-- The `SELECT` takes its snapshot. -/
  | select (r : Nat) (rows : List (LogRow ρ))
  /-- Some bytes of the export are written. -/
  | write (r : Nat) (n : Nat)
  | close (r : Nat)
  | rename (r : Nat)
  | stat (r : Nat)
  | finish (r : Nat)
  | drop (r : Nat) (reply : Reply) (message : Text)
  /-- A step raises, without effect. -/
  | fail (r : Nat) (message : Text)
  | finishFailed (r : Nat)
  /-- `unlink`, which may raise: the run goes on. -/
  | unlink (r : Nat) (ok : Bool)
  /-- A maintenance process ends. -/
  | kill (r : Nat)

def empty : Archives ρ := ⟨.empty, ∅, 0, ∅, ⟨[], 0⟩, fun _ ↦ none⟩

variable [DecidableEq ρ] (s : Archives ρ) (r : Nat) (run : MaintenanceRun ρ)

def rowsOf (table : Finset (LogRow ρ)) : Finset (LogRow ρ) :=
  table.filter fun row ↦ fmt.month row = p

/-- `partitions`: the months of the table, in descending order. -/
def partitions : List Text := (s.table.image fmt.month).sort (· ≥ ·)

def goto (phase : ArchivePhase ρ) : Archives ρ :=
  { s with runs := Function.update s.runs r (some { run with phase := phase }) }

def implausiblySmall (size : Nat) : Text :=
  "archive file is implausibly small (".toList ++ Nat.toDigits 10 size ++ " bytes)".toList

/-- The message of an exception for a file that does not exist. -/
def noSuchFile (path : Text) : Text :=
  "[Errno 2] No such file or directory: '".toList ++ path ++ "'".toList

def runStep : ArchivePhase ρ → Action ρ → Option (Archives ρ)
  | .listing current done, .list _ =>
      let pending := (s.partitions fmt).filter fun p ↦ p < current ∧ p ∉ done
      some { s with runs := Function.update s.runs r (some ⟨pending, .idle⟩) }
  | .idle, .start _ =>
      match run.pending with
      | [] => some { s with runs := Function.update s.runs r none }
      | p :: pending =>
          let x := s.history.startArchive p
          some { s with
            history := x.1
            runs := Function.update s.runs r (some ⟨pending, .counting p x.2⟩) }
  | .counting p runId, .count _ =>
      let expected := (rowsOf p fmt s.table).card
      if expected = 0 then
        some (({ s with
          history := s.history.finishArchive runId .skipped 0 0 []
            "Partition is empty".toList } : Archives ρ).goto r run .idle)
      else some (s.goto r run (.opening p runId expected))
  | .opening p runId expected, .open _ =>
      let x := s.fs.openTruncate (cfg.tmp p)
      some (({ s with fs := x.1 } : Archives ρ).goto r run (.selecting p runId expected x.2))
  | .selecting p runId expected inode, .select _ rows =>
      if rows.Nodup ∧ rows.toFinset = rowsOf p fmt s.table then
        some (s.goto r run (.streaming p runId expected inode rows 0))
      else none
  | .streaming p runId expected inode rows offset, .write _ n =>
      let bytes := ((fmt.file rows).drop offset).take n
      some (({ s with fs := s.fs.pwrite 0 inode offset bytes } : Archives ρ).goto r run
        (.streaming p runId expected inode rows (offset + bytes.length)))
  | .streaming p runId expected inode rows offset, .close _ =>
      let bytes := (fmt.file rows).drop offset
      some (({ s with fs := s.fs.pwrite 0 inode offset bytes } : Archives ρ).goto r run
        (.renaming p runId expected inode rows))
  | .renaming p runId expected _ rows, .rename _ =>
      match s.fs.rename (cfg.tmp p) (cfg.target p) with
      | some fs => some (({ s with fs := fs } : Archives ρ).goto r run (.sizing p runId expected rows))
      | none => some (s.goto r run (.failing p runId (noSuchFile (cfg.tmp p))))
  | .sizing p runId expected rows, .stat _ =>
      match s.fs.read (cfg.target p) with
      | some bytes =>
          if bytes.length < 64 then
            some (s.goto r run (.failing p runId (implausiblySmall bytes.length)))
          else some (s.goto r run (.finishing p runId expected bytes.length rows))
      | none => some (s.goto r run (.failing p runId (noSuchFile (cfg.target p))))
  | .finishing p runId expected size rows, .finish _ =>
      let s : Archives ρ := { s with
        history := s.history.finishArchive runId .success expected size (cfg.target p) [] }
      some (s.goto r run (if cfg.dropAfterArchive then .dropping p runId rows else .idle))
  | .dropping p runId _, .drop _ reply message =>
      let s : Archives ρ :=
        if reply.effect then
          { s with
            table := s.table.filter fun row ↦ fmt.month row ≠ p
            dropped := s.dropped ∪ rowsOf p fmt s.table }
        else s
      some (s.goto r run (if reply = .ok then .idle else .failing p runId message))
  | .failing p runId message, .finishFailed _ =>
      some (({ s with history := s.history.finishArchive runId .failed 0 0 [] message } :
        Archives ρ).goto r run (.unlinking p))
  | .unlinking p, .unlink _ ok =>
      let fs := if ok then s.fs.unlink (cfg.tmp p) else s.fs
      some (({ s with fs } : Archives ρ).goto r run .idle)
  | phase, .fail _ message =>
      phase.attempt.map fun x ↦ s.goto r run (.failing x.1 x.2 message)
  | _, _ => none

def Action.process : Action ρ → Option Nat
  | .insert _ | .begin _ _ | .kill _ => none
  | .list r | .start r | .count r | .open r | .select r _ | .write r _ | .close r | .rename r
  | .stat r | .finish r | .drop r _ _ | .fail r _ | .finishFailed r | .unlink r _ => some r

def step (a : Action ρ) : Option (Archives ρ) :=
  match a with
  | .insert rows =>
      some { s with
        table := s.table ∪ ((rows.zipIdx s.inserted).map fun x ↦ ⟨x.2, x.1⟩).toFinset
        inserted := s.inserted + rows.length }
  | .begin r current =>
      if (s.runs r).isNone then
        let run : MaintenanceRun ρ := ⟨[], .listing current s.history.archivedPartitions⟩
        some { s with runs := Function.update s.runs r (some run) }
      else none
  | .kill r => some { s with runs := Function.update s.runs r none }
  | a => a.process.bind fun r ↦ (s.runs r).bind fun run ↦ s.runStep cfg fmt r run run.phase a

def system : System (Archives ρ) (Action ρ) where
  init s := s = empty
  step s := s.step cfg fmt

end Archives

end LogServer
