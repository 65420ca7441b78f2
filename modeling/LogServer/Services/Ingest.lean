import LogServer.Metrics
import LogServer.Parser.MikroTik
import LogServer.Queue.Wire

/-!
# The ingest path of a receiver process

`Ingest.handle` takes one payload: it counts it, checks its source against the allow-list, parses
it, and appends the encoded row to the buffer.  The buffer is emptied by `_push` tasks, which
`_schedule_flush` creates, never two at a time.

A method that may raise returns the state it leaves behind together with its outcome, since what it
did before raising is not undone.  The event loop's pending `_push` tasks are part of the state; the
steps of a task are `Ingest.startPush`, up to its one suspension, and `Ingest.finishPush`.
-/

namespace LogServer

/-! ## Entries -/

section entries

variable {log : ParsedLog} {now : Nat}

variable {msgpack : Msgpack} {n : Nat} {routerIp : Text}

/-- The cells of the row of a well-formed record fit the wire format. -/
theorem fits_of_mem_asRow (hlog : log.WellFormed) (hwithin : log.Within n) (hn : n < msgpack.limit)
    (hrouter : 4 * routerIp.length < msgpack.limit) (hnow : now < 2 ^ 64) {c : Cell}
    (h : c ∈ log.asRow now routerIp) : msgpack.Fits c := by
  have hport : ∀ {p : Nat}, p ≤ 65535 → p < 2 ^ 64 := fun hp ↦ by omega
  have hsource : (encodeUtf8 routerIp).length < msgpack.limit :=
    (length_encodeUtf8_le routerIp).trans_lt hrouter
  simp only [ParsedLog.asRow, List.mem_cons, List.not_mem_nil, or_false] at h
  rcases h with rfl | rfl | rfl | rfl | rfl | rfl | rfl | rfl | rfl | rfl | rfl
  · exact hnow
  · exact hsource
  · exact hwithin.subscriberId.trans_lt hn
  · exact hwithin.privateIp.trans_lt hn
  · exact hport hlog.privatePort
  · exact hwithin.publicIp.trans_lt hn
  · exact hport hlog.publicPort
  · exact hwithin.destIp.trans_lt hn
  · exact hport hlog.destPort
  · exact hwithin.protocol.trans_lt hn
  · exact trivial

/-- **The record of a payload can be put into the queue and read back.** -/
theorem encode_asRow (hmsgpack : msgpack.Lawful) {self : MikroTikParser} {u : CharTable}
    {payload : Bytes} {source : Text} (hcarries : msgpack.Carries payload source)
    (hnow : now < 2 ^ 64) (hparse : (self.parseBytes u payload).1 = some log) :
    ∃ entry, LogQueue.encode msgpack (log.asRow now source) = .ok entry ∧
      LogQueue.decode msgpack entry = some ((log.asRow now source).map Cell.value) := by
  have hlength := length_decodeUtf8_le payload
  have hpayload := hcarries.payload
  exact LogQueue.decode_encode hmsgpack rfl fun _ ↦ fits_of_mem_asRow
    (parse_sound (Prod.ext hparse rfl)) (within_of_parse hparse) (by omega) hcarries.source hnow

end entries

/-! ## State -/

structure IngestConfig where
  parser : MikroTikParser
  pushBatch : Nat

/-- A `_push` task: created, or waiting for `push_many` with the batch it took. -/
inductive PushTask where
  | scheduled
  | pushing (batch : List Bytes)
deriving DecidableEq, Repr

def PushTask.batch : PushTask → List Bytes
  | .scheduled => []
  | .pushing batch => batch

structure Ingest where
  registry : Finset Text
  buffer : List Bytes
  pushing : Bool
  pausedUntil : ℚ
  counts : Counts
  tasks : List PushTask

/-- How `push_many` ends: the whole batch appended, or an exception and nothing appended. -/
inductive PushOutcome where
  | accepted
  | raised
deriving DecidableEq, Repr

namespace Ingest

def start (registry : Finset Text) : Ingest :=
  ⟨registry, [], false, 0, fun _ ↦ 0, []⟩

variable (self : Ingest)

def incr (name : Counter) (value : Nat := 1) : Ingest :=
  { self with counts := self.counts.incr name value }

/-- Create a `_push` task unless there is one, or nothing to push. -/
def _scheduleFlush : Ingest :=
  if !self.pushing && !self.buffer.isEmpty then
    { self with pushing := true, tasks := self.tasks ++ [.scheduled] }
  else self

variable (cfg : IngestConfig) (u : CharTable) (msgpack : Msgpack)

def count (payload : Bytes) : Ingest :=
  (self.incr .received).incr .bytesReceived payload.length

/-- Append an entry to the buffer, and have it flushed if a batch is full. -/
def append (entry : Bytes) : Ingest :=
  let self := { self with buffer := self.buffer ++ [entry] }
  if cfg.pushBatch ≤ self.buffer.length then self._scheduleFlush else self

/-- Take a payload that arrived in the second `now`. -/
def handle (payload : Bytes) (source : Text) (now : Nat) : Ingest × Except PyError Unit :=
  let self := self.count payload
  if source ∉ self.registry then (self.incr .droppedUnknownRouter, .ok ())
  else
    match cfg.parser.parseBytes u payload with
    | (none, _) => (self.incr .parserErrors, .ok ())
    | (some record, _) =>
        let self := self.incr .parsed
        match LogQueue.encode msgpack (record.asRow now source) with
        | .error e => (self, .error e)
        | .ok entry => (self.append cfg entry, .ok ())

/-- The first part of the `i`th `_push` task, at monotonic time `now`: take the batch, and finish
at once if it is empty or the process is shedding load. -/
def startPush (i : Nat) (now : ℚ) : Ingest :=
  let batch := self.buffer
  let self := { self with buffer := [] }
  if batch.isEmpty then { self with pushing := false, tasks := self.tasks.eraseIdx i }
  else if now < self.pausedUntil then
    { self.incr .droppedBackpressure batch.length with
      pushing := false, tasks := self.tasks.eraseIdx i }
  else { self with tasks := self.tasks.set i (.pushing batch) }

/-- The second part of the `i`th `_push` task, when `push_many` is over. -/
def finishPush (i : Nat) (batch : List Bytes) : PushOutcome → Ingest
  | .accepted => { self with pushing := false, tasks := self.tasks.eraseIdx i }
  | .raised =>
      { self.incr .droppedRedisError batch.length with
        pushing := false, tasks := self.tasks.eraseIdx i }

/-- The queue depth is checked: `length` returns `-1` where Redis does not answer. -/
def _checkBackpressure (maxQueueLength : Nat) (depth : Int) (now : ℚ) : Ingest :=
  if depth < 0 then self
  else if depth > maxQueueLength then { self with pausedUntil := now + 5 }
  else self

/-! ## The three ways a call to `handle` ends -/

section handle

variable {self cfg u msgpack} {payload : Bytes} {source : Text} {now : Nat}

theorem handle_unknown (h : source ∉ self.registry) :
    self.handle cfg u msgpack payload source now =
      ((self.count payload).incr .droppedUnknownRouter, .ok ()) := if_pos h

theorem handle_rejected (h : source ∈ self.registry)
    (hparse : (cfg.parser.parseBytes u payload).1 = none) :
    self.handle cfg u msgpack payload source now =
      ((self.count payload).incr .parserErrors, .ok ()) := by
  have hknown : ¬source ∉ (self.count payload).registry := not_not.mpr h
  rw [handle]
  dsimp only
  rw [if_neg hknown]
  split
  · rfl
  · rename_i heq
    rw [heq] at hparse
    cases hparse

theorem handle_parsed (h : source ∈ self.registry) {record : ParsedLog}
    (hparse : (cfg.parser.parseBytes u payload).1 = some record) {entry : Bytes}
    (hencode : LogQueue.encode msgpack (record.asRow now source) = .ok entry) :
    self.handle cfg u msgpack payload source now =
      (((self.count payload).incr .parsed).append cfg entry, .ok ()) := by
  have hknown : ¬source ∉ (self.count payload).registry := not_not.mpr h
  rw [handle]
  dsimp only
  rw [if_neg hknown]
  split
  · rename_i heq
    rw [heq] at hparse
    cases hparse
  · rename_i heq
    rw [heq] at hparse
    cases hparse
    rw [hencode]

/-- A record can always be put into the queue. -/
theorem exists_handle (hmsgpack : msgpack.Lawful) (hcarries : msgpack.Carries payload source)
    (hnow : now < 2 ^ 64) (h : source ∈ self.registry) {record : ParsedLog}
    (hparse : (cfg.parser.parseBytes u payload).1 = some record) :
    ∃ entry, LogQueue.encode msgpack (record.asRow now source) = .ok entry ∧
      self.handle cfg u msgpack payload source now =
        (((self.count payload).incr .parsed).append cfg entry, .ok ()) := by
  obtain ⟨entry, hencode, -⟩ := encode_asRow hmsgpack hcarries hnow hparse
  exact ⟨entry, hencode, handle_parsed h hparse hencode⟩

end handle

/-! ## What the parts leave alone -/

section frame

variable {self} {name : Counter} {value : Nat} {payload entry : Bytes}

@[simp] theorem buffer_incr : (self.incr name value).buffer = self.buffer := rfl
@[simp] theorem registry_incr : (self.incr name value).registry = self.registry := rfl
@[simp] theorem pushing_incr : (self.incr name value).pushing = self.pushing := rfl
@[simp] theorem tasks_incr : (self.incr name value).tasks = self.tasks := rfl
@[simp] theorem counts_incr :
    (self.incr name value).counts = self.counts.incr name value := rfl

@[simp] theorem buffer_count : (self.count payload).buffer = self.buffer := rfl
@[simp] theorem registry_count : (self.count payload).registry = self.registry := rfl
@[simp] theorem pushing_count : (self.count payload).pushing = self.pushing := rfl
@[simp] theorem tasks_count : (self.count payload).tasks = self.tasks := rfl

@[simp] theorem buffer_scheduleFlush : self._scheduleFlush.buffer = self.buffer := by
  unfold _scheduleFlush
  split <;> rfl

@[simp] theorem counts_scheduleFlush : self._scheduleFlush.counts = self.counts := by
  unfold _scheduleFlush
  split <;> rfl

@[simp] theorem buffer_append {cfg : IngestConfig} :
    (self.append cfg entry).buffer = self.buffer ++ [entry] := by
  unfold append
  dsimp only
  split
  · exact buffer_scheduleFlush
  · rfl

@[simp] theorem counts_append {cfg : IngestConfig} :
    (self.append cfg entry).counts = self.counts := by
  unfold append
  dsimp only
  split
  · exact counts_scheduleFlush
  · rfl

end frame

end Ingest

end LogServer
