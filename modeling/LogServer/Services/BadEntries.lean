import LogServer.Queue.Msgpack
import LogServer.Services.Worker

/-!
# Entries that are not rows

A worker counts the entries that it cannot decode and goes on with the others.  An entry that decodes to
eleven fields is taken for a row, and its first field is made a `datetime` outside of the guard of
`LogQueue.decode`.  A first field that `fromtimestamp` rejects raises through `run`, and after a restart
the same entry is claimed again.

The others are inserted together, and if the log table refuses one of them the insert is retried as if
ClickHouse did not answer: the good rows of the batch are never inserted.

`bad_entries_skipped_iff` says that these are the two ways in which the content of an entry stops a worker.
-/

namespace LogServer

variable {δ : Type}

/-! ## Writing a claim -/

/-- What a round of the retry loop meets: whether the stop event is set, and whether ClickHouse answers. -/
structure WriteRound where
  stop : Bool
  available : Bool

/-- The rows the log table takes: those whose fields have the types of its columns, and what else the
client converts. -/
structure RowCheck (clock : Clock δ) where
  takes : List (Field δ) → Bool
  takes_insertable : ∀ row, Insertable clock row → takes row = true

inductive WriteOutcome (δ : Type) where
  /-- The rows were inserted, if there are any, and the claim was acknowledged. -/
  | acked (rows : List (List (Field δ)))
  | released
  /-- The rounds are over, and the loop is not. -/
  | retrying
  | raised (e : PyError)

namespace BatchWorker

/-- Whether `insert_rows` returns: all rows are inserted, or it raises and none is. -/
def insertRows {clock : Clock δ} (check : RowCheck clock) (available : Bool) (rows : List (List (Field δ))) : Bool :=
  available && rows.all check.takes

def retryLoop {clock : Clock δ} (check : RowCheck clock) (rows : List (List (Field δ))) :
    List WriteRound → WriteOutcome δ
  | [] => .retrying
  | round :: rounds =>
      if round.stop then .released
      else if insertRows check round.available rows then .acked rows
      else retryLoop check rows rounds

variable (msgpack : Msgpack) (clock : Clock δ) (check : RowCheck clock) (claimed : List Bytes)

/-- `_write_with_retry`, while Redis answers. -/
def _writeWithRetry (rounds : List WriteRound) : WriteOutcome δ :=
  match _decode msgpack clock claimed with
  | .error e => .raised e
  | .ok (rows, _) => if rows.isEmpty then .acked [] else retryLoop check rows rounds

/-! ## Skipping -/

/-- The row of a payload that decodes to eleven fields, the first of which is a usable timestamp. -/
def goodRow (payload : Bytes) : Option (List (Field δ)) :=
  (LogQueue.decode msgpack payload).bind fun row ↦ (stamp clock row).toOption

/-- **Entries that are not rows are skipped**, and the others are written. -/
structure SkipsBad : Prop where
  /-- Nothing raises, the good rows come in order, and all others are counted. -/
  decode : ∃ bad, _decode msgpack clock claimed =
      .ok (claimed.filterMap (goodRow msgpack clock), bad) ∧
    (claimed.filterMap (goodRow msgpack clock)).length + bad = claimed.length
  /-- By the first round in which ClickHouse answers all good rows are inserted and the claim is
  acknowledged, unless the worker is stopped before and releases it. -/
  write : ∀ rounds, (∃ round ∈ rounds, round.stop ∨ round.available) →
    _writeWithRetry msgpack clock check claimed rounds =
      .acked (claimed.filterMap (goodRow msgpack clock)) ∨
    _writeWithRetry msgpack clock check claimed rounds = .released ∧ ∃ round ∈ rounds, round.stop
  /-- A worker that receives the claim does not leave `run`. -/
  run : ∀ (s : Pipeline) (p : ℕ) (w : Worker) (entries : List Entry),
    entries.map Entry.payload = claimed →
      (s.received p w msgpack clock entries).workers p ≠ none

/-- The first fields of the entries that decode to eleven fields are timestamps. -/
def Timestamped : Prop :=
  ∀ payload ∈ claimed, ∀ second fields,
    LogQueue.decode msgpack payload = some (second :: fields) →
      ∃ d, clock.fromtimestamp second = .ok d

/-- The log table takes the entries that decode to eleven fields, with their first field made a
`datetime`. -/
def Storable : Prop :=
  ∀ payload ∈ claimed, ∀ second fields,
    LogQueue.decode msgpack payload = some (second :: fields) →
      ∃ d, clock.fromtimestamp second = .ok d ∧ check.takes (.datetime d :: fields.map .value)

variable {msgpack clock check claimed}

theorem goodRow_eq_none {payload : Bytes} (h : LogQueue.decode msgpack payload = none) :
    goodRow msgpack clock payload = none := by
  rw [goodRow, h]
  rfl

theorem goodRow_eq_some {payload : Bytes} {second : PyValue} {fields : List PyValue} {d : δ}
    (h : LogQueue.decode msgpack payload = some (second :: fields))
    (hd : clock.fromtimestamp second = .ok d) :
    goodRow msgpack clock payload = some (.datetime d :: fields.map .value) := by
  rw [goodRow, h, Option.bind_some, stamp, hd]
  rfl

/-- A decoded entry has a first field. -/
theorem exists_cons_of_decode {payload : Bytes} {row : List PyValue}
    (h : LogQueue.decode msgpack payload = some row) :
    ∃ second fields, row = second :: fields :=
  List.exists_cons_of_length_eq_add_one (LogQueue.length_of_decode h)

/-- **Decoding** a claim whose rows have timestamps. -/
theorem _decode_of_timestamped (h : Timestamped msgpack clock claimed) : ∃ bad,
    _decode msgpack clock claimed = .ok (claimed.filterMap (goodRow msgpack clock), bad) ∧
      (claimed.filterMap (goodRow msgpack clock)).length + bad = claimed.length := by
  induction claimed with
  | nil => exact ⟨0, rfl, rfl⟩
  | cons payload claimed ih =>
      obtain ⟨bad, hrest, hlength⟩ :=
        ih fun payload' hmem ↦ h payload' (List.mem_cons_of_mem payload hmem)
      rw [_decode]
      cases hdecode : LogQueue.decode msgpack payload with
      | none =>
          refine ⟨bad + 1, ?_, ?_⟩
          · rw [hrest, List.filterMap_cons_none (goodRow_eq_none hdecode)]
            rfl
          · rw [List.filterMap_cons_none (goodRow_eq_none hdecode), List.length_cons, ← hlength]
            rfl
      | some row =>
          obtain ⟨second, fields, rfl⟩ := exists_cons_of_decode hdecode
          obtain ⟨d, hd⟩ := h payload List.mem_cons_self second fields hdecode
          refine ⟨bad, ?_, ?_⟩
          · rw [hrest, List.filterMap_cons_some (goodRow_eq_some hdecode hd)]
            dsimp only
            rw [stamp, hd]
            rfl
          · rw [List.filterMap_cons_some (goodRow_eq_some hdecode hd), List.length_cons,
              List.length_cons, ← hlength]
            omega

/-- A claim is decoded only if its rows have timestamps. -/
theorem timestamped_of_decode {x : List (List (Field δ)) × ℕ}
    (h : _decode msgpack clock claimed = .ok x) : Timestamped msgpack clock claimed := by
  induction claimed generalizing x with
  | nil =>
      intro payload hmem
      cases hmem
  | cons payload claimed ih =>
      have hrest : ∃ y, _decode msgpack clock claimed = .ok y := by
        rw [_decode] at h
        cases hy : _decode msgpack clock claimed with
        | ok y => exact ⟨y, rfl⟩
        | error e =>
            rw [hy] at h
            split at h
            · cases h
            · rename_i row _
              cases hstamp : stamp clock row <;> rw [hstamp] at h <;> cases h
      obtain ⟨y, hy⟩ := hrest
      refine List.forall_mem_cons.mpr ⟨fun second fields hdecode ↦ ?_, ih hy⟩
      rw [_decode, hdecode] at h
      dsimp only at h
      cases hd : clock.fromtimestamp second with
      | ok d => exact ⟨d, rfl⟩
      | error e =>
          rw [stamp, hd] at h
          cases h

/-- **The retry loop** is over with the first round in which the worker is stopped or ClickHouse answers,
where the table takes the rows. -/
theorem retryLoop_of_takes {rows : List (List (Field δ))} (hrows : ∀ row ∈ rows, check.takes row)
    {rounds : List WriteRound} (h : ∃ round ∈ rounds, round.stop ∨ round.available) :
    retryLoop check rows rounds = .acked rows ∨
      retryLoop check rows rounds = .released ∧ ∃ round ∈ rounds, round.stop := by
  have hall : rows.all check.takes = true := List.all_eq_true.mpr hrows
  induction rounds with
  | nil =>
      obtain ⟨round, hmem, -⟩ := h
      cases hmem
  | cons round rounds ih =>
      rw [retryLoop, insertRows, hall, Bool.and_true]
      by_cases hstop : round.stop
      · exact .inr ⟨if_pos hstop, round, List.mem_cons_self, hstop⟩
      · rw [if_neg hstop]
        by_cases havailable : round.available
        · exact .inl (if_pos havailable)
        · rw [if_neg havailable]
          obtain ⟨round', hmem, hround'⟩ := h
          rcases List.mem_cons.mp hmem with rfl | hrest
          · exact absurd hround' (not_or.mpr ⟨hstop, havailable⟩)
          · rcases ih ⟨round', hrest, hround'⟩ with hacked | ⟨hreleased, last, hlast, hstopped⟩
            · exact .inl hacked
            · exact .inr ⟨hreleased, last, List.mem_cons_of_mem round hlast, hstopped⟩

/-- An insert that ClickHouse answers succeeds only if the table takes every row. -/
theorem takes_of_retryLoop {rows : List (List (Field δ))}
    (h : retryLoop check rows [⟨false, true⟩] = .acked rows ∨
      retryLoop check rows [⟨false, true⟩] = .released) : ∀ row ∈ rows, check.takes row := by
  rw [retryLoop, insertRows, Bool.true_and, if_neg Bool.false_ne_true] at h
  by_cases hall : rows.all check.takes = true
  · exact List.all_eq_true.mp hall
  · rw [if_neg hall, retryLoop] at h
    rcases h with h | h <;> cases h

/-- The good rows of entries that the table takes. -/
theorem Storable.takes (h : Storable msgpack clock check claimed) :
    ∀ row ∈ claimed.filterMap (goodRow msgpack clock), check.takes row := by
  intro row hrow
  obtain ⟨payload, hpayload, hgood⟩ := List.mem_filterMap.mp hrow
  cases hdecode : LogQueue.decode msgpack payload with
  | none =>
      rw [goodRow_eq_none hdecode] at hgood
      cases hgood
  | some fields =>
      obtain ⟨second, fields, rfl⟩ := exists_cons_of_decode hdecode
      obtain ⟨d, hd, htakes⟩ := h payload hpayload second fields hdecode
      rw [goodRow_eq_some hdecode hd] at hgood
      exact Option.some.inj hgood ▸ htakes

/-- The entries that receivers make of records are storable. -/
theorem storable_of_insertable (h : ∀ payload ∈ claimed, ∃ row,
    _decode msgpack clock [payload] = .ok ([row], 0) ∧ Insertable clock row) :
    Storable msgpack clock check claimed := by
  intro payload hpayload second fields hdecode
  obtain ⟨row, hrow, hinsertable⟩ := h payload hpayload
  rw [_decode, hdecode] at hrow
  dsimp only at hrow
  cases hd : clock.fromtimestamp second with
  | error e =>
      rw [stamp, hd] at hrow
      cases hrow
  | ok d =>
      rw [stamp, hd] at hrow
      cases hrow
      exact ⟨d, rfl, check.takes_insertable _ hinsertable⟩

/-- A worker that can decode its claim goes on. -/
theorem workers_received {s : Pipeline} {p : ℕ} {w : Worker} {entries : List Entry}
    {x : List (List (Field δ)) × ℕ}
    (h : _decode msgpack clock (entries.map Entry.payload) = .ok x) :
    (s.received p w msgpack clock entries).workers p ≠ none := by
  have hgoto : ∀ phase, (s.goto p w phase).workers p ≠ none := by
    intro phase hnone
    change Function.update s.workers p _ p = none at hnone
    rw [Function.update_self] at hnone
    cases hnone
  unfold Pipeline.received
  rw [h]
  split
  · exact hgoto _
  · dsimp only
    split
    · exact hgoto _
    · exact hgoto _

/-- A table that takes whatever has a text for the address of the router. -/
def routerCheck (clock : Clock δ) : RowCheck clock where
  takes
    | _ :: .value (.str _) :: _ => true
    | _ => false
  takes_insertable := by
    rintro _ (_ | ⟨-, (_ | ⟨⟨⟩, -⟩)⟩)
    rfl

end BatchWorker

end LogServer
