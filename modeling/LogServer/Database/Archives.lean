import LogServer.Text

/-!
# The archive history

The `archive_runs` table of the metadata store: one row for each attempt to archive a month.
-/

namespace LogServer

inductive ArchiveStatus where
  | running
  | success
  | skipped
  | failed
deriving DecidableEq, Repr

structure ArchiveRun where
  id : Nat
  partition : Text
  status : ArchiveStatus
  rows : Nat := 0
  bytes : Nat := 0
  path : Text := []
  message : Text := []
deriving DecidableEq, Repr

/-- The table, with the last number `AUTOINCREMENT` gave out. -/
structure ArchiveRuns where
  rows : List ArchiveRun
  sequence : Nat
deriving DecidableEq, Repr

namespace ArchiveRuns

variable (t : ArchiveRuns)

def startArchive (partition : Text) : ArchiveRuns × Nat :=
  (⟨t.rows ++ [{ id := t.sequence + 1, partition, status := .running }], t.sequence + 1⟩,
    t.sequence + 1)

def finishArchive (runId : Nat) (status : ArchiveStatus) (rows size : Nat) (path message : Text) :
    ArchiveRuns :=
  { t with rows := t.rows.map fun run ↦
      if run.id = runId then
        { run with status, rows, bytes := size, path, message := message.take 2000 }
      else run }

def archivedPartitions : List Text :=
  ((t.rows.filter fun run ↦ run.status = .success).map fun run ↦ run.partition).dedup

/-! ## Successes -/

def successes : List ArchiveRun := t.rows.filter fun run ↦ run.status = .success

/-- An attempt that has not succeeded. -/
structure Attempt (p : Text) (runId : Nat) : Prop where
  started : ∃ run ∈ t.rows, run.id = runId
  unfinished : ∀ run ∈ t.rows, run.id = runId → run.partition = p ∧ run.status ≠ .success

/-- Every number was given out. -/
def Numbered : Prop := ∀ run ∈ t.rows, run.id ≤ t.sequence

section successes

variable {t} {p : Text} {runId rows size : Nat} {status : ArchiveStatus} {path message : Text}

theorem mem_archivedPartitions :
    p ∈ t.archivedPartitions ↔ ∃ run ∈ t.successes, run.partition = p := by
  rw [archivedPartitions, List.mem_dedup, List.mem_map, successes]

theorem archivedPartitions_congr {t' : ArchiveRuns} (h : t'.successes = t.successes) :
    t'.archivedPartitions = t.archivedPartitions :=
  congrArg (fun l : List ArchiveRun ↦ (l.map ArchiveRun.partition).dedup) h

theorem successes_startArchive (p : Text) : (t.startArchive p).1.successes = t.successes := by
  rw [successes, startArchive, List.filter_append]
  exact List.append_nil _

/-- A new attempt is one. -/
theorem attempt_startArchive (h : t.Numbered) (p : Text) :
    (t.startArchive p).1.Attempt p (t.startArchive p).2 := by
  refine ⟨⟨_, List.mem_append_right _ List.mem_cons_self, rfl⟩, fun run hrun hid ↦ ?_⟩
  rcases List.mem_append.mp hrun with hold | hnew
  · have hle := h run hold
    rw [hid] at hle
    exact absurd hle (Nat.not_succ_le_self _)
  · rw [List.mem_singleton.mp hnew]
    exact ⟨rfl, nofun⟩

theorem Numbered.startArchive (h : t.Numbered) (p : Text) : (t.startArchive p).1.Numbered := by
  intro run hrun
  rcases List.mem_append.mp hrun with hold | hnew
  · exact Nat.le_succ_of_le (h run hold)
  · rw [List.mem_singleton.mp hnew]
    exact Nat.le_refl _

/-- An entry of the table after an attempt has ended. -/
theorem mem_finishArchive {run : ArchiveRun}
    (h : run ∈ (t.finishArchive runId status rows size path message).rows) :
    run ∈ t.rows ∧ run.id ≠ runId ∨ ∃ old ∈ t.rows, old.id = runId ∧ run =
      { old with status, rows, bytes := size, path, message := message.take 2000 } := by
  obtain ⟨old, hold, rfl⟩ := List.mem_map.mp h
  by_cases hid : old.id = runId
  · rw [if_pos hid]
    exact .inr ⟨old, hold, hid, rfl⟩
  · rw [if_neg hid]
    exact .inl ⟨hold, hid⟩

theorem Numbered.finishArchive (h : t.Numbered) :
    (t.finishArchive runId status rows size path message).Numbered := by
  intro run hrun
  rcases mem_finishArchive hrun with ⟨hold, -⟩ | ⟨old, hold, -, rfl⟩
  · exact h run hold
  · exact h old hold

/-- An attempt that ends without success. -/
theorem Attempt.successes_finishArchive (h : t.Attempt p runId) (hstatus : status ≠ .success) :
    (t.finishArchive runId status rows size path message).successes = t.successes := by
  obtain ⟨-, hunfinished⟩ := h
  rw [successes, successes, finishArchive]
  dsimp only
  generalize t.rows = l at hunfinished
  induction l with
  | nil => rfl
  | cons run l ih =>
      rw [List.map_cons, List.filter_cons, List.filter_cons,
        ih fun old hold ↦ hunfinished old (List.mem_cons_of_mem _ hold)]
      by_cases hid : run.id = runId
      · rw [if_pos hid, if_neg (by simpa using hstatus),
          if_neg (by simpa using (hunfinished run List.mem_cons_self hid).2)]
      · rw [if_neg hid]

/-- **An attempt that succeeds** is the only new success. -/
theorem Attempt.mem_successes_finishArchive (h : t.Attempt p runId) {run : ArchiveRun}
    (hrun : run ∈ (t.finishArchive runId .success rows size path message).successes) :
    run ∈ t.successes ∨ run.partition = p ∧ run.rows = rows := by
  obtain ⟨hmem, hsuccess⟩ := List.mem_filter.mp hrun
  rcases mem_finishArchive hmem with ⟨hold, -⟩ | ⟨old, hold, hid, rfl⟩
  · exact .inl (List.mem_filter.mpr ⟨hold, hsuccess⟩)
  · exact .inr ⟨(h.unfinished old hold hid).1, rfl⟩

/-- The month is archived then, and what was archived still is. -/
theorem Attempt.mem_archivedPartitions_finishArchive (h : t.Attempt p runId) {q : Text} :
    q ∈ (t.finishArchive runId .success rows size path message).archivedPartitions ↔
      q ∈ t.archivedPartitions ∨ q = p := by
  rw [mem_archivedPartitions, mem_archivedPartitions]
  constructor
  · rintro ⟨run, hrun, rfl⟩
    rcases h.mem_successes_finishArchive hrun with hold | ⟨hp, -⟩
    · exact .inl ⟨run, hold, rfl⟩
    · exact .inr hp
  · rintro (⟨run, hrun, rfl⟩ | rfl)
    · obtain ⟨hmem, hsuccess⟩ := List.mem_filter.mp hrun
      refine ⟨run, List.mem_filter.mpr ⟨List.mem_map.mpr ⟨run, hmem, if_neg fun hid ↦ ?_⟩,
        hsuccess⟩, rfl⟩
      exact (h.unfinished run hmem hid).2 (of_decide_eq_true hsuccess)
    · obtain ⟨run, hmem, hid⟩ := h.started
      refine ⟨_, List.mem_filter.mpr ⟨List.mem_map.mpr ⟨run, hmem, if_pos hid⟩, ?_⟩, ?_⟩
      · exact decide_eq_true rfl
      · exact (h.unfinished run hmem hid).1

end successes

end ArchiveRuns

end LogServer
