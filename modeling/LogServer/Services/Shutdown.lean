import LogServer.Services.IngestRun

/-!
# Shutting down a receiver process

`_serve` waits for a signal.  Then it cancels the flusher, closes the transports, pushes what is in the
buffer, stops the refreshes and the counters, which makes a last flush of them, and closes the client of
Redis.  `Serve.system` is a receiver process with its counters from the start on, with Redis reachable from
the signal on.

The push of the shutdown takes the buffer and nothing else: a `_push` task that waits for Redis is not
waited for.  TCP connections stay open, so that records may be handled until the end.  What is not yet
accepted when the loop ends is lost; and what is dropped after the last flush has taken the counters, or
was in a flush that the shutdown cancelled, is not counted in Redis.

Runs in which none of this happens (`Drained`) keep the invariant `Inv`.  Nothing of it happens if the
shutdown goes in the right order (`Orderly`): no payload is handled once the push of the shutdown has taken
the buffer, and by the time the counters are stopped every `_push` task has ended.  `graceful_shutdown` says
that then no record is lost unseen.
-/

namespace LogServer

open Transition

/-! ## The process and its counters -/

def ALL_COUNTERS : List Counter :=
  [.received, .parsed, .stored, .droppedUnknownRouter, .droppedBackpressure, .droppedRedisError,
    .parserErrors, .chInsertErrors, .chInsertBatches, .bytesReceived]

inductive ServePhase where
  /-- Waiting for a signal. -/
  | serving
  /-- The flusher is cancelled and the transports are closed. -/
  | draining
  /-- `_push` waits for `push_many`. -/
  | pushing (batch : List Bytes)
  /-- `_push` has returned; the refreshes are being stopped. -/
  | drained
  /-- A flush of the counters is cancelled and has not ended yet. -/
  | cancelled
  /-- The last flush. -/
  | flushing
  /-- The client is being closed. -/
  | closing
  | returned
deriving DecidableEq

/-- A receiver process, the increments that flushes have taken, those of the flush in progress, and the
values in Redis. -/
structure Serve where
  receiver : Receiver
  taken : Counts
  pending : Option Counts
  published : Counts
  phase : ServePhase

/-- How the pipeline of a flush ends: with all its commands applied, with an exception and none of them, or
cancelled with those of some counters. -/
inductive FlushOutcome where
  | ok
  | raised
  | cancelled (applied : Counter → Bool)

def drops : List Counter := [.droppedBackpressure, .droppedRedisError]

/-! ## Where the records are -/

section tasks

variable {α β : Type*} {f : α → List β} {l : List α} {i : ℕ} {x : α}

/-- An entry is removed. -/
theorem length_flatMap_eraseIdx (h : l[i]? = some x) :
    ((l.eraseIdx i).flatMap f).length + (f x).length = (l.flatMap f).length := by
  induction l generalizing i with
  | nil => cases h
  | cons a l ih =>
      rw [List.flatMap_cons, List.length_append]
      cases i with
      | zero =>
          obtain rfl := Option.some.inj h
          rw [List.eraseIdx_cons_zero, Nat.add_comm]
      | succ i =>
          rw [List.eraseIdx_cons_succ, List.flatMap_cons, List.length_append, Nat.add_assoc,
            ih (i := i) h]

/-- An entry is replaced. -/
theorem length_flatMap_set (h : l[i]? = some x) (y : α) :
    ((l.set i y).flatMap f).length + (f x).length = (l.flatMap f).length + (f y).length := by
  induction l generalizing i with
  | nil => cases h
  | cons a l ih =>
      rw [List.flatMap_cons, List.length_append]
      cases i with
      | zero =>
          obtain rfl := Option.some.inj h
          rw [List.set_cons_zero, List.flatMap_cons, List.length_append]
          omega
      | succ i =>
          rw [List.set_cons_succ, List.flatMap_cons, List.length_append]
          have hrest := ih (i := i) h
          omega

end tasks

namespace Receiver

/-- The records that are on their way, accepted or counted as dropped. -/
def total (r : Receiver) : ℕ :=
  r.ingest.buffer.length + r.inBatch.length + r.redis.length +
    r.ingest.counts .droppedBackpressure + r.ingest.counts .droppedRedisError

/-- What is parsed is added to the total, and drops are only ever added. -/
structure Accounted (r r' : Receiver) : Prop where
  total : r'.ingest.counts .parsed + r.total = r.ingest.counts .parsed + r'.total
  drops : ∀ c ∈ drops, r.ingest.counts c ≤ r'.ingest.counts c

def DropsNothing (r : Receiver) : Action → Prop
  | .startPush _ now => r.ingest.buffer = [] ∨ r.ingest.pausedUntil ≤ now
  | .finishPush _ .raised => False
  | _ => True

section accounted

variable {cfg : IngestConfig} {u : CharTable} {msgpack : Msgpack} {r r' : Receiver}

theorem Accounted.refl (r : Receiver) : Accounted r r := ⟨rfl, fun _ _ ↦ Nat.le_refl _⟩

/-- A task that is created has no batch. -/
theorem inBatch_scheduleFlush (ingest : Ingest) (redis : List Bytes) (calls : List Call) :
    inBatch ⟨ingest._scheduleFlush, redis, calls⟩ = inBatch ⟨ingest, redis, calls⟩ := by
  rw [inBatch, inBatch, Ingest._scheduleFlush]
  split
  · show (ingest.tasks ++ [PushTask.scheduled]).flatMap PushTask.batch = _
    rw [List.flatMap_append]
    exact List.append_nil _
  · rfl

/-- A flush that is asked for. -/
theorem total_scheduleFlush (ingest : Ingest) (redis : List Bytes) (calls : List Call) :
    total ⟨ingest._scheduleFlush, redis, calls⟩ = total ⟨ingest, redis, calls⟩ := by
  rw [total, total, inBatch_scheduleFlush, Ingest.buffer_scheduleFlush, Ingest.counts_scheduleFlush]

/-- **A call of `handle`** adds a record where it counts one as parsed. -/
theorem accounted_handle (hmsgpack : msgpack.Lawful) (r : Receiver) (calls : List Call)
    {payload : Bytes} {source : Text} (hcarries : msgpack.Carries payload source) {now : Nat}
    (hnow : now < 2 ^ 64) :
    Accounted r ⟨(r.ingest.handle cfg u msgpack payload source now).1, r.redis, calls⟩ ∧
      ∀ c ∈ drops, (r.ingest.handle cfg u msgpack payload source now).1.counts c =
        r.ingest.counts c := by
  have hcounted : ∀ name, name = .droppedUnknownRouter ∨ name = .parserErrors →
      Accounted r ⟨(r.ingest.count payload).incr name, r.redis, calls⟩ ∧
        ∀ c ∈ drops, ((r.ingest.count payload).incr name).counts c = r.ingest.counts c := by
    rintro name (rfl | rfl) <;>
    · refine ⟨⟨?_, ?_⟩, ?_⟩ <;>
        simp [drops, total, inBatch, Ingest.count, Ingest.incr, Counts.incr]
  by_cases hsource : source ∈ r.ingest.registry
  · cases hparse : (cfg.parser.parseBytes u payload).1 with
    | none =>
        rw [Ingest.handle_rejected hsource hparse]
        exact hcounted _ (.inr rfl)
    | some record =>
        obtain ⟨entry, -, hhandle⟩ := Ingest.exists_handle hmsgpack hcarries hnow hsource hparse
        rw [hhandle]
        have hdrops : ∀ c ∈ drops, (((r.ingest.count payload).incr .parsed).append cfg entry).counts c =
            r.ingest.counts c := by
          rw [Ingest.counts_append]
          simp [drops, Ingest.count, Ingest.incr, Counts.incr]
        refine ⟨⟨?_, fun c hc ↦ (hdrops c hc).symm.le⟩, hdrops⟩
        have htotal : total ⟨((r.ingest.count payload).incr .parsed).append cfg entry, r.redis, calls⟩ =
            r.total + 1 := by
          rw [Ingest.append]
          split
          · rw [total_scheduleFlush]
            simp [total, inBatch, Ingest.count, Ingest.incr, Counts.incr]
            omega
          · simp [total, inBatch, Ingest.count, Ingest.incr, Counts.incr]
            omega
        rw [htotal, Ingest.counts_append]
        simp [Ingest.count, Ingest.incr, Counts.incr]
        omega
  · rw [Ingest.handle_unknown hsource]
    exact hcounted _ (.inl rfl)

/-- The first part of a `_push` task: the buffer becomes its batch, or is dropped and counted. -/
theorem accounted_startPush {i : ℕ} (hi : r.ingest.tasks[i]? = some .scheduled) (now : ℚ) :
    Accounted r { r with ingest := r.ingest.startPush i now } ∧
      (r.DropsNothing (.startPush i now) →
        ∀ c ∈ drops, (r.ingest.startPush i now).counts c = r.ingest.counts c) := by
  have herase := length_flatMap_eraseIdx (f := PushTask.batch) hi
  rw [show (PushTask.scheduled.batch).length = 0 from rfl, Nat.add_zero] at herase
  rw [Ingest.startPush]
  dsimp only
  split
  · rename_i hempty
    rw [List.isEmpty_iff] at hempty
    refine ⟨⟨?_, fun _ _ ↦ Nat.le_refl _⟩, fun _ _ _ ↦ rfl⟩
    simp [total, inBatch, herase, hempty]
  · rename_i hne
    split
    · rename_i hpaused
      refine ⟨⟨?_, ?_⟩, ?_⟩
      · simp [total, inBatch, herase, Counts.incr]
        omega
      · simp [drops, Counts.incr]
      · rintro (hempty | hle)
        · exact absurd (List.isEmpty_iff.mpr hempty) hne
        · exact absurd hle (not_le.mpr hpaused)
    · have hset := length_flatMap_set (f := PushTask.batch) hi (.pushing r.ingest.buffer)
      rw [show (PushTask.scheduled.batch).length = 0 from rfl, Nat.add_zero] at hset
      refine ⟨⟨?_, fun _ _ ↦ Nat.le_refl _⟩, fun _ _ _ ↦ rfl⟩
      simp only [total, inBatch, hset, PushTask.batch, List.length_nil]
      omega

/-- The second part: the batch is accepted, or dropped and counted. -/
theorem accounted_finishPush {i : ℕ} {batch : List Bytes}
    (hi : r.ingest.tasks[i]? = some (.pushing batch)) (outcome : PushOutcome) :
    Accounted r { r with
        ingest := r.ingest.finishPush i batch outcome
        redis := if outcome = .accepted then r.redis ++ batch else r.redis } ∧
      (r.DropsNothing (.finishPush i outcome) →
        ∀ c ∈ drops, (r.ingest.finishPush i batch outcome).counts c = r.ingest.counts c) := by
  have herase := length_flatMap_eraseIdx (f := PushTask.batch) hi
  rw [PushTask.batch] at herase
  cases outcome with
  | accepted =>
      refine ⟨⟨?_, fun _ _ ↦ Nat.le_refl _⟩, fun _ _ _ ↦ rfl⟩
      simp only [total, inBatch, Ingest.finishPush, if_pos, List.length_append]
      omega
  | raised =>
      refine ⟨⟨?_, ?_⟩, fun hnothing ↦ hnothing.elim⟩
      · simp [total, inBatch, Ingest.finishPush, Counts.incr, -List.length_flatMap]
        omega
      · simp [drops, Ingest.finishPush, Counts.incr]

/-- **A step** of the receiver. -/
theorem accounted_step (hmsgpack : msgpack.Lawful) {a : Action} (hcall : CallOk msgpack r a)
    (hs : step cfg u msgpack r a = some r') : Accounted r r' ∧
      (r.DropsNothing a → ∀ c ∈ drops, r'.ingest.counts c = r.ingest.counts c) := by
  cases a with
  | handle payload source now =>
      cases hs
      obtain ⟨haccounted, hdrops⟩ := accounted_handle hmsgpack r _ hcall.1 hcall.2
      exact ⟨haccounted, fun _ ↦ hdrops⟩
  | flush =>
      cases hs
      refine ⟨⟨?_, fun c _ ↦ ?_⟩, fun _ c _ ↦ ?_⟩
      · rw [total_scheduleFlush, Ingest.counts_scheduleFlush]
      · rw [Ingest.counts_scheduleFlush]
      · rw [Ingest.counts_scheduleFlush]
  | startPush i now =>
      rw [step] at hs
      split at hs
      · rename_i hi
        cases hs
        exact accounted_startPush hi now
      · cases hs
  | finishPush i outcome =>
      rw [step] at hs
      split at hs
      · rename_i batch hi
        cases hs
        exact accounted_finishPush hi outcome
      · cases hs
  | checkBackpressure maxQueueLength depth now =>
      cases hs
      rw [Ingest._checkBackpressure]
      split
      · exact ⟨.refl r, fun _ _ _ ↦ rfl⟩
      · split <;> exact ⟨⟨rfl, fun _ _ ↦ Nat.le_refl _⟩, fun _ _ _ ↦ rfl⟩
  | refresh registry =>
      cases hs
      exact ⟨⟨rfl, fun _ _ ↦ Nat.le_refl _⟩, fun _ _ _ ↦ rfl⟩

end accounted

end Receiver

namespace Serve

inductive Action where
  | receiver (a : Receiver.Action)
  | sigterm
  /-- `_push` of the shutdown, up to its suspension. -/
  | drain (now : ℚ)
  /-- Redis has accepted its batch. -/
  | pushed
  | stopMetrics
  /-- `flush` takes the counters, in the loop or at last. -/
  | flush
  | execute (outcome : FlushOutcome)
  /-- The loop ends. -/
  | exit

variable (s : Serve)

/-- `_counts`: the increments that no flush has taken.  The dictionary is empty if there are none. -/
def counts : Counts := fun c ↦ s.receiver.ingest.counts c - s.taken c

/-- What may still happen in the receiver: the flusher is cancelled at once, the refreshes before the
counters are stopped.  Redis is reachable, up to the point where the client is closed. -/
def admits (phase : ServePhase) : Receiver.Action → Bool
  | .handle .. => phase ≠ .returned
  | .flush => phase = .serving
  | .startPush .. => phase ≠ .returned
  | .finishPush _ .accepted => phase ≠ .returned
  | .finishPush _ .raised => phase = .serving ∨ phase = .closing
  | .checkBackpressure .. => phase = .serving
  | .refresh _ => phase ∉ [.cancelled, .flushing, .closing, .returned]

/-- The phases in which a flush of the counters may begin. -/
def flushes (phase : ServePhase) : Bool := phase ∉ [.cancelled, .closing, .returned]

def pushEnded (ingest : Ingest) : Receiver := { s.receiver with ingest := { ingest with pushing := false } }

variable (cfg : IngestConfig) (u : CharTable) (msgpack : Msgpack)

def step : Action → Option Serve
  | .receiver a =>
      if admits s.phase a then
        (s.receiver.step cfg u msgpack a).map fun receiver ↦ { s with receiver }
      else none
  | .sigterm => if s.phase = .serving then some { s with phase := .draining } else none
  | .drain now =>
      if s.phase = .draining then
        let batch := s.receiver.ingest.buffer
        let ingest := { s.receiver.ingest with buffer := [] }
        if batch.isEmpty then some { s with receiver := s.pushEnded ingest, phase := .drained }
        else if now < ingest.pausedUntil then
          some { s with
            receiver := s.pushEnded (ingest.incr .droppedBackpressure batch.length)
            phase := .drained }
        else some { s with receiver := { s.receiver with ingest }, phase := .pushing batch }
      else none
  | .pushed =>
      match s.phase with
      | .pushing batch =>
          some { s with
            receiver := { s.pushEnded s.receiver.ingest with redis := s.receiver.redis ++ batch }
            phase := .drained }
      | _ => none
  | .stopMetrics =>
      if s.phase = .drained then
        some { s with phase := if s.pending.isSome then .cancelled else .flushing }
      else none
  | .flush =>
      if s.pending.isNone ∧ flushes s.phase then
        if ALL_COUNTERS.all fun c ↦ s.counts c = 0 then
          some (if s.phase = .flushing then { s with phase := .closing } else s)
        else some { s with taken := s.receiver.ingest.counts, pending := some s.counts }
      else none
  | .execute outcome =>
      match s.pending, outcome with
      | some pending, .ok =>
          if s.phase = .cancelled then none
          else some { s with
            pending := none
            published := fun c ↦ s.published c + pending c
            phase := if s.phase = .flushing then .closing else s.phase }
      | some pending, .raised =>
          if s.phase = .serving then
            some { s with taken := fun c ↦ s.taken c - pending c, pending := none }
          else none
      | some pending, .cancelled applied =>
          if s.phase = .cancelled then
            some { s with
              pending := none
              published := fun c ↦ s.published c + if applied c then pending c else 0
              phase := .flushing }
          else none
      | none, _ => none
  | .exit =>
      if s.phase = .closing then
        -- The tasks that have not ended are aborted.
        some { s with
          receiver := { s.receiver with ingest := { s.receiver.ingest with tasks := [] } }
          phase := .returned }
      else none

def system : System Serve Action where
  init s := ∃ registry,
    s = ⟨⟨Ingest.start registry, [], []⟩, fun _ ↦ 0, none, fun _ ↦ 0, .serving⟩
  step s := s.step cfg u msgpack

/-! ## Conditions -/

/-- The last flush has taken the counters. -/
def LastTaken : Prop :=
  s.phase = .closing ∨ s.phase = .returned ∨ s.phase = .flushing ∧ s.pending.isSome

/-- The wire format can hold what is received. -/
def CallOk (msgpack : Msgpack) (s : Serve) : Action → Prop
  | .receiver a => Receiver.CallOk msgpack s.receiver a
  | _ => True

/-- **The order of a shutdown.**  No payload is handled once the push of the shutdown has taken the buffer.
When the counters are stopped, each `_push` task, be it scheduled or in flight at the signal or created
since, has been resumed to its end, and no flush of drop counters is in progress. -/
def Orderly : Action → Prop
  | .receiver (.handle _ _ _) => s.phase = .serving ∨ s.phase = .draining
  | .stopMetrics => s.receiver.ingest.tasks = [] ∧
      ∀ pending, s.pending = some pending → ∀ c ∈ drops, pending c = 0
  | _ => True

/-- Nothing is dropped after the last flush has taken the counters, a flush that is cancelled has been
applied as far as it counts drops, and when the loop ends no task has a batch and the buffer is empty. -/
def Drained (msgpack : Msgpack) (s : Serve) : Action → Prop
  | .receiver a => Receiver.CallOk msgpack s.receiver a ∧ (s.LastTaken → s.receiver.DropsNothing a)
  | .execute (.cancelled applied) =>
      ∀ pending, s.pending = some pending → ∀ c ∈ drops, ¬applied c → pending c = 0
  | .exit => s.receiver.ingest.buffer = [] ∧ s.receiver.inBatch = []
  | _ => True

/-! ## The invariant -/

/-- The records that the push of the shutdown has taken. -/
def inDrain : ServePhase → ℕ
  | .pushing batch => batch.length
  | _ => 0

/-- Every record is on its way, accepted or dropped; and of the drops nothing is missing in Redis but what
no flush has taken and what a flush in progress has. -/
structure Inv (s : Serve) : Prop where
  parsed : s.receiver.ingest.counts .parsed = s.receiver.total + inDrain s.phase
  taken : ∀ c ∈ drops, s.taken c ≤ s.receiver.ingest.counts c
  published : ∀ c ∈ drops, s.published c + s.pending.elim 0 (· c) = s.taken c
  lastTaken : s.LastTaken → ∀ c ∈ drops, s.taken c = s.receiver.ingest.counts c
  ended : s.phase = .closing ∨ s.phase = .returned → s.pending = none
  returned : s.phase = .returned → s.receiver.ingest.buffer = [] ∧ s.receiver.inBatch = []

section invariant

variable {cfg u msgpack} {s s' : Serve}

theorem admits_returned (a : Receiver.Action) : admits .returned a = false := by
  cases a with
  | finishPush i outcome => cases outcome <;> rfl
  | _ => rfl

/-- The records that were parsed, in a phase. -/
theorem Inv.parsed_eq (h : s.Inv) {phase : ServePhase} (hphase : s.phase = phase) :
    s.receiver.ingest.counts .parsed = s.receiver.total + inDrain phase := by
  rw [← hphase]
  exact h.parsed

/-- Before the last flush it has taken nothing. -/
theorem not_lastTaken (h : s.phase ∉ [ServePhase.flushing, .closing, .returned]) : ¬s.LastTaken := by
  rintro (hphase | hphase | ⟨hphase, -⟩) <;>
  · rw [hphase] at h
    exact h (by decide)

/-- A step of the receiver. -/
theorem Inv.receiver (hmsgpack : msgpack.Lawful) (h : s.Inv) {a : Receiver.Action}
    (hok : s.Drained msgpack (.receiver a)) (hadmits : admits s.phase a = true) {receiver : Receiver}
    (hs : s.receiver.step cfg u msgpack a = some receiver) : ({ s with receiver } : Serve).Inv := by
  obtain ⟨hcall, hnothing⟩ := hok
  obtain ⟨haccounted, hdrops⟩ := Receiver.accounted_step hmsgpack hcall hs
  refine ⟨?_, ?_, h.published, ?_, h.ended, ?_⟩
  · have htotal := haccounted.total
    have hparsed := h.parsed
    show receiver.ingest.counts .parsed = receiver.total + inDrain s.phase
    omega
  · exact fun c hc ↦ (h.taken c hc).trans (haccounted.drops c hc)
  · intro hlast c hc
    exact (h.lastTaken hlast c hc).trans (hdrops (hnothing hlast) c hc).symm
  · intro hreturned
    rw [show s.phase = .returned from hreturned, admits_returned] at hadmits
    cases hadmits

/-- A change of the phase, or of the receiver, before the last flush. -/
theorem Inv.early (h : s.Inv) {receiver : Receiver} {phase : ServePhase}
    (hparsed : receiver.ingest.counts .parsed = receiver.total + inDrain phase)
    (hdrops : ∀ c ∈ drops, s.receiver.ingest.counts c ≤ receiver.ingest.counts c)
    (hphase : phase ∉ [.flushing, .closing, .returned]) :
    ({ s with receiver, phase } : Serve).Inv := by
  have hne : phase ≠ .closing ∧ phase ≠ .returned := by
    constructor <;> rintro rfl <;> exact hphase (by decide)
  refine ⟨hparsed, fun c hc ↦ (h.taken c hc).trans (hdrops c hc), h.published,
    fun hlast ↦ absurd hlast (not_lastTaken hphase), ?_, ?_⟩
  · rintro (hclosing | hreturned)
    · exact absurd hclosing hne.1
    · exact absurd hreturned hne.2
  · exact fun hreturned ↦ absurd hreturned hne.2

/-- The push of the shutdown takes the buffer, or drops and counts it. -/
theorem Inv.drain (h : s.Inv) {now : ℚ} (hs : s.step cfg u msgpack (.drain now) = some s') :
    s'.Inv := by
  rw [Serve.step] at hs
  split at hs
  · rename_i hphase
    have hparsed := h.parsed_eq hphase
    dsimp only at hs
    split at hs
    · rename_i hempty
      cases hs
      rw [List.isEmpty_iff] at hempty
      refine h.early ?_ (fun _ _ ↦ Nat.le_refl _) (by decide)
      simp [Receiver.total, Receiver.inBatch, inDrain, pushEnded, hempty] at hparsed ⊢
      omega
    · split at hs
      · cases hs
        refine h.early ?_ ?_ (by decide)
        · simp only [pushEnded, Ingest.incr, Counts.incr]
          simp [Receiver.total, Receiver.inBatch, inDrain] at hparsed ⊢
          omega
        · simp [drops, pushEnded, Counts.incr]
      · cases hs
        refine h.early ?_ (fun _ _ ↦ Nat.le_refl _) (by simp)
        simp [Receiver.total, Receiver.inBatch, inDrain] at hparsed ⊢
        omega
  · cases hs

/-- The counters are taken. -/
theorem Inv.flush (h : s.Inv) (hs : s.step cfg u msgpack .flush = some s') : s'.Inv := by
  rw [Serve.step] at hs
  split at hs
  · rename_i hidle
    have hnone : s.pending = none := Option.isNone_iff_eq_none.mp hidle.1
    have hpublished : ∀ c ∈ drops, s.published c = s.taken c := by
      intro c hc
      have hc' := h.published c hc
      rw [hnone] at hc'
      exact hc'
    split at hs
    · rename_i hzero
      cases hs
      split
      · rename_i hphase
        refine ⟨(h.parsed_eq hphase).trans rfl, h.taken, h.published, ?_, fun _ ↦ hnone, ?_⟩
        · intro _ c hc
          have hlocal : s.counts c = 0 :=
            of_decide_eq_true (List.all_eq_true.mp hzero c (by cases c <;> decide))
          exact Nat.le_antisymm (h.taken c hc) (Nat.sub_eq_zero_iff_le.mp hlocal)
        · intro hreturned
          cases hreturned
      · exact h
    · cases hs
      refine ⟨h.parsed, fun _ _ ↦ Nat.le_refl _, ?_, fun _ _ _ ↦ rfl, ?_, h.returned⟩
      · intro c hc
        show s.published c + (s.receiver.ingest.counts c - s.taken c) = s.receiver.ingest.counts c
        rw [hpublished c hc]
        exact Nat.add_sub_of_le (h.taken c hc)
      · have hflushes := hidle.2
        rintro (hclosing | hreturned)
        · rw [show s.phase = .closing from hclosing] at hflushes
          cases hflushes
        · rw [show s.phase = .returned from hreturned] at hflushes
          cases hflushes
  · cases hs

/-- A flush of the counters ends. -/
theorem Inv.execute (h : s.Inv) {outcome : FlushOutcome} (hok : s.Drained msgpack (.execute outcome))
    (hs : s.step cfg u msgpack (.execute outcome) = some s') : s'.Inv := by
  cases hpending : s.pending with
  | none =>
      simp only [Serve.step, hpending] at hs
      cases hs
  | some pending =>
      have hpublished : ∀ c ∈ drops, s.published c + pending c = s.taken c := by
        intro c hc
        have hc' := h.published c hc
        rw [hpending] at hc'
        exact hc'
      cases outcome with
      | ok =>
          simp only [Serve.step, hpending] at hs
          split at hs
          · cases hs
          · cases hs
            by_cases hphase : s.phase = .flushing
            · rw [if_pos hphase]
              refine ⟨(h.parsed_eq hphase).trans rfl, h.taken, hpublished, ?_, fun _ ↦ rfl, ?_⟩
              · exact fun _ ↦ h.lastTaken (.inr (.inr ⟨hphase, Option.isSome_of_eq_some hpending⟩))
              · intro hreturned
                cases hreturned
            · rw [if_neg hphase]
              refine ⟨h.parsed, h.taken, hpublished, ?_, fun _ ↦ rfl, h.returned⟩
              rintro (hclosing | hreturned | ⟨hflushing, -⟩)
              · exact h.lastTaken (.inl hclosing)
              · exact h.lastTaken (.inr (.inl hreturned))
              · exact absurd hflushing hphase
      | raised =>
          simp only [Serve.step, hpending] at hs
          split at hs
          · rename_i hphase
            cases hs
            refine ⟨h.parsed, ?_, ?_, ?_, fun _ ↦ rfl, h.returned⟩
            · exact fun c hc ↦ (Nat.sub_le _ _).trans (h.taken c hc)
            · intro c hc
              have hc' := hpublished c hc
              show s.published c + 0 = s.taken c - pending c
              omega
            · have hlast := not_lastTaken (s := s) (by rw [hphase]; decide)
              rintro (hclosing | hreturned | ⟨-, hsome⟩)
              · exact absurd (.inl hclosing) hlast
              · exact absurd (.inr (.inl hreturned)) hlast
              · cases hsome
          · cases hs
      | cancelled applied =>
          simp only [Serve.step, hpending] at hs
          split at hs
          · rename_i hphase
            cases hs
            refine ⟨(h.parsed_eq hphase).trans rfl, h.taken, ?_, ?_, fun _ ↦ rfl, ?_⟩
            · intro c hc
              have hc' := hpublished c hc
              show s.published c + (if applied c then pending c else 0) + 0 = s.taken c
              by_cases happlied : applied c
              · rw [if_pos happlied, Nat.add_zero, hc']
              · rw [hok pending hpending c hc happlied] at hc'
                rw [if_neg happlied]
                exact hc'
            · rintro (hclosing | hreturned | ⟨-, hsome⟩)
              · cases hclosing
              · cases hreturned
              · cases hsome
            · intro hreturned
              cases hreturned
          · cases hs

/-- **A step that meets the condition keeps the invariant.** -/
theorem Inv.step (hmsgpack : msgpack.Lawful) (h : s.Inv) {a : Action} (hok : s.Drained msgpack a)
    (hs : s.step cfg u msgpack a = some s') : s'.Inv := by
  cases a with
  | receiver a =>
      rw [Serve.step] at hs
      split at hs
      · obtain ⟨receiver, hstep, rfl⟩ := Option.map_eq_some_iff.mp hs
        exact h.receiver hmsgpack hok ‹_› hstep
      · cases hs
  | sigterm =>
      rw [Serve.step] at hs
      split at hs
      · rename_i hphase
        cases hs
        exact h.early ((h.parsed_eq hphase).trans rfl) (fun _ _ ↦ Nat.le_refl _) (by decide)
      · cases hs
  | drain now => exact h.drain hs
  | pushed =>
      rw [Serve.step] at hs
      split at hs
      · rename_i batch hphase
        cases hs
        have hparsed := h.parsed_eq hphase
        refine h.early ?_ (fun _ _ ↦ Nat.le_refl _) (by decide)
        simp [Receiver.total, Receiver.inBatch, inDrain, pushEnded] at hparsed ⊢
        omega
      · cases hs
  | stopMetrics =>
      rw [Serve.step] at hs
      split at hs
      · rename_i hphase
        cases hs
        have hparsed := h.parsed_eq hphase
        by_cases hpending : s.pending.isSome
        · rw [if_pos hpending]
          exact h.early hparsed (fun _ _ ↦ Nat.le_refl _) (by decide)
        · rw [if_neg hpending]
          refine ⟨hparsed, h.taken, h.published, ?_, ?_, ?_⟩
          · rintro (hclosing | hreturned | ⟨-, hsome⟩)
            · cases hclosing
            · cases hreturned
            · exact absurd hsome hpending
          · rintro (hclosing | hreturned)
            · cases hclosing
            · cases hreturned
          · intro hreturned
            cases hreturned
      · cases hs
  | flush => exact h.flush hs
  | execute outcome => exact h.execute hok hs
  | exit =>
      rw [Serve.step] at hs
      split at hs
      · rename_i hphase
        cases hs
        obtain ⟨hbuffer, hbatch⟩ := hok
        refine ⟨?_, h.taken, h.published, ?_, ?_, fun _ ↦ ⟨hbuffer, rfl⟩⟩
        · have hparsed := h.parsed_eq hphase
          rw [Receiver.total, hbatch] at hparsed
          exact hparsed
        · exact fun _ ↦ h.lastTaken (.inl hphase)
        · exact fun _ ↦ h.ended (.inl hphase)
      · cases hs

theorem Inv.reach (hmsgpack : msgpack.Lawful) (h : Reach (system cfg u msgpack) (Drained msgpack) s) :
    s.Inv := by
  refine Reach.invariant ?_ ?_ h
  · rintro s ⟨registry, rfl⟩
    refine ⟨rfl, fun _ _ ↦ Nat.le_refl _, fun _ _ ↦ rfl, fun _ _ _ ↦ rfl, ?_, ?_⟩
    · exact fun _ ↦ rfl
    · intro hreturned
      cases hreturned
  · exact fun s a s' hinv hok hs ↦ hinv.step hmsgpack hok hs

/-! ## Orderly shutdowns -/

/-- In an orderly shutdown the buffer stays empty once it is taken, no task is left once the counters are
stopped, and the flush that the shutdown cancels has no drops. -/
structure Settled (s : Serve) : Prop where
  buffer : s.phase ∉ [ServePhase.serving, .draining] → s.receiver.ingest.buffer = []
  tasks : s.phase ∈ [ServePhase.cancelled, .flushing, .closing, .returned] → s.receiver.ingest.tasks = []
  cancelled : s.phase = .cancelled → ∀ pending, s.pending = some pending → ∀ c ∈ drops, pending c = 0

/-- Where no payload is handled and no flush asked for, neither the buffer nor the tasks grow. -/
theorem receiver_settled {r r' : Receiver} {a : Receiver.Action}
    (hhandle : ∀ payload source now, a ≠ .handle payload source now) (hflush : a ≠ .flush)
    (hs : r.step cfg u msgpack a = some r') :
    (r.ingest.buffer = [] → r'.ingest.buffer = []) ∧ (r.ingest.tasks = [] → r'.ingest.tasks = []) := by
  cases a with
  | handle payload source now => exact absurd rfl (hhandle payload source now)
  | flush => exact absurd rfl hflush
  | startPush i now =>
      rw [Receiver.step] at hs
      split at hs
      · rename_i hi
        cases hs
        refine ⟨fun _ ↦ ?_, fun hnone ↦ ?_⟩
        · unfold Ingest.startPush
          dsimp only
          split
          · rfl
          · split <;> rfl
        · rw [hnone] at hi
          cases hi
      · cases hs
  | finishPush i outcome =>
      rw [Receiver.step] at hs
      split at hs
      · rename_i batch hi
        cases hs
        refine ⟨fun hbuffer ↦ ?_, fun hnone ↦ ?_⟩
        · cases outcome <;> exact hbuffer
        · rw [hnone] at hi
          cases hi
      · cases hs
  | checkBackpressure maxQueueLength depth now =>
      cases hs
      unfold Ingest._checkBackpressure
      split
      · exact ⟨id, id⟩
      · split <;> exact ⟨id, id⟩
  | refresh registry =>
      cases hs
      exact ⟨id, id⟩

/-- A step of the receiver in an orderly shutdown. -/
theorem Settled.receiver (h : s.Settled) {a : Receiver.Action} (hok : s.Orderly (.receiver a))
    (hadmits : admits s.phase a = true) {receiver : Receiver}
    (hs : s.receiver.step cfg u msgpack a = some receiver) : ({ s with receiver } : Serve).Settled := by
  have hearly : s.phase = .serving ∨ s.phase = .draining → ({ s with receiver } : Serve).Settled := by
    intro hphase
    refine ⟨fun htaken ↦ ?_, fun hlate ↦ ?_, h.cancelled⟩
    · replace htaken : s.phase ∉ [ServePhase.serving, .draining] := htaken
      exact absurd (by simpa using hphase) htaken
    · replace hlate : s.phase ∈ [ServePhase.cancelled, .flushing, .closing, .returned] := hlate
      rcases hphase with hphase | hphase <;> simp [hphase] at hlate
  by_cases hhandle : ∃ payload source now, a = .handle payload source now
  · obtain ⟨payload, source, now, rfl⟩ := hhandle
    exact hearly hok
  · by_cases hflush : a = .flush
    · subst hflush
      exact hearly (.inl (of_decide_eq_true hadmits))
    · obtain ⟨hbuffer, htasks⟩ := receiver_settled (fun payload source now heq ↦
        hhandle ⟨payload, source, now, heq⟩) hflush hs
      exact ⟨fun htaken ↦ hbuffer (h.buffer htaken), fun hlate ↦ htasks (h.tasks hlate), h.cancelled⟩

/-- The shutdown goes on after the counters are stopped. -/
theorem Settled.goto (h : s.Settled) (hphase : s.phase ∈ [ServePhase.cancelled, .flushing, .closing])
    (hbuffer : s'.receiver.ingest.buffer = s.receiver.ingest.buffer)
    (htasks : s.receiver.ingest.tasks = [] → s'.receiver.ingest.tasks = [])
    (hne : s'.phase ≠ .cancelled) : s'.Settled where
  buffer _ := hbuffer.trans (h.buffer fun hearly ↦ by
    rcases List.mem_pair.mp hearly with heq | heq <;> simp [heq] at hphase)
  tasks _ := htasks (h.tasks (by
    rcases List.mem_cons.mp hphase with heq | hlate
    · exact heq ▸ List.mem_cons_self
    · rcases List.mem_pair.mp hlate with heq | heq <;> simp [heq]))
  cancelled heq := absurd heq hne

/-- A flush is begun. -/
theorem Settled.flush (h : s.Settled) (hs : s.step cfg u msgpack .flush = some s') : s'.Settled := by
  rw [Serve.step] at hs
  split at hs
  · rename_i hidle
    split at hs
    · cases hs
      split
      · rename_i hphase
        exact h.goto (by rw [hphase]; decide) rfl id (by simp)
      · exact h
    · cases hs
      refine ⟨h.buffer, h.tasks, fun hphase ↦ ?_⟩
      have hflushes := hidle.2
      rw [show s.phase = .cancelled from hphase] at hflushes
      cases hflushes
  · cases hs

/-- A flush ends. -/
theorem Settled.execute (h : s.Settled) {outcome : FlushOutcome}
    (hs : s.step cfg u msgpack (.execute outcome) = some s') : s'.Settled := by
  cases hpending : s.pending with
  | none =>
      simp only [Serve.step, hpending] at hs
      cases hs
  | some pending =>
      cases outcome with
      | ok =>
          simp only [Serve.step, hpending] at hs
          split at hs
          · cases hs
          · rename_i hne
            cases hs
            by_cases hphase : s.phase = .flushing
            · rw [if_pos hphase]
              exact h.goto (by rw [hphase]; decide) rfl id (by simp)
            · rw [if_neg hphase]
              exact ⟨h.buffer, h.tasks, fun hcancelled ↦ absurd hcancelled hne⟩
      | raised =>
          simp only [Serve.step, hpending] at hs
          split at hs
          · rename_i hphase
            cases hs
            refine ⟨h.buffer, h.tasks, fun hcancelled ↦ ?_⟩
            rw [show s.phase = .cancelled from hcancelled] at hphase
            cases hphase
          · cases hs
      | cancelled applied =>
          simp only [Serve.step, hpending] at hs
          split at hs
          · rename_i hphase
            cases hs
            exact h.goto (by rw [hphase]; decide) rfl id (by simp)
          · cases hs

/-- **Each step of an orderly shutdown keeps it settled.** -/
theorem Settled.step (h : s.Settled) {a : Action} (hok : s.Orderly a)
    (hs : s.step cfg u msgpack a = some s') : s'.Settled := by
  cases a with
  | receiver a =>
      rw [Serve.step] at hs
      split at hs
      · obtain ⟨receiver, hstep, rfl⟩ := Option.map_eq_some_iff.mp hs
        exact h.receiver hok ‹_› hstep
      · cases hs
  | sigterm =>
      rw [Serve.step] at hs
      split at hs
      · cases hs
        exact ⟨fun htaken ↦ absurd (by simp) htaken, fun hlate ↦ by simp at hlate, fun hphase ↦ by cases hphase⟩
      · cases hs
  | drain now =>
      rw [Serve.step] at hs
      split at hs
      · dsimp only at hs
        split at hs
        · cases hs
          exact ⟨fun _ ↦ rfl, fun hlate ↦ by simp at hlate, fun hphase ↦ by cases hphase⟩
        · split at hs
          · cases hs
            exact ⟨fun _ ↦ rfl, fun hlate ↦ by simp at hlate, fun hphase ↦ by cases hphase⟩
          · cases hs
            exact ⟨fun _ ↦ rfl, fun hlate ↦ by simp at hlate, fun hphase ↦ by cases hphase⟩
      · cases hs
  | pushed =>
      rw [Serve.step] at hs
      split at hs
      · rename_i batch hphase
        cases hs
        refine ⟨fun _ ↦ h.buffer ?_, fun hlate ↦ by simp at hlate, fun hphase ↦ by cases hphase⟩
        simp [hphase]
      · cases hs
  | stopMetrics =>
      rw [Serve.step] at hs
      split at hs
      · rename_i hphase
        cases hs
        refine ⟨fun _ ↦ h.buffer ?_, fun _ ↦ hok.1, fun _ ↦ hok.2⟩
        simp [hphase]
      · cases hs
  | flush => exact h.flush hs
  | execute outcome => exact h.execute hs
  | exit =>
      rw [Serve.step] at hs
      split at hs
      · rename_i hphase
        cases hs
        exact h.goto (by rw [hphase]; decide) rfl (fun _ ↦ rfl) (by simp)
      · cases hs

theorem Settled.reach {ok : Serve → Action → Prop} (hok : ∀ s a, ok s a → s.Orderly a)
    (h : Reach (system cfg u msgpack) ok s) : s.Settled := by
  refine Reach.invariant (P := Settled) ?_ ?_ h
  · rintro s ⟨registry, rfl⟩
    exact ⟨fun _ ↦ rfl, fun _ ↦ rfl, fun hphase ↦ by cases hphase⟩
  · exact fun s a s' hsettled ha hs ↦ hsettled.step (hok s a ha) hs

/-- **In an orderly shutdown nothing is lost at its end.** -/
theorem Settled.drained (h : s.Settled) {a : Action} (hcall : s.CallOk msgpack a)
    (hs : s.step cfg u msgpack a = some s') : s.Drained msgpack a := by
  cases a with
  | receiver a =>
      refine ⟨hcall, fun hlast ↦ ?_⟩
      have hlate : s.phase ∈ [ServePhase.cancelled, .flushing, .closing, .returned] := by
        rcases hlast with hphase | hphase | ⟨hphase, -⟩ <;> simp [hphase]
      have htaken : s.phase ∉ [ServePhase.serving, .draining] := by
        rcases hlast with hphase | hphase | ⟨hphase, -⟩ <;> simp [hphase]
      cases a with
      | startPush i now => exact .inl (h.buffer htaken)
      | finishPush i outcome =>
          -- No task is left that could fail.
          rw [Serve.step] at hs
          split at hs
          · obtain ⟨receiver, hstep, -⟩ := Option.map_eq_some_iff.mp hs
            rw [Receiver.step, h.tasks hlate] at hstep
            cases hstep
          · cases hs
      | _ => exact trivial
  | execute outcome =>
      cases outcome with
      | cancelled applied =>
          intro pending hpending c hc _
          simp only [Serve.step, hpending] at hs
          split at hs
          · exact h.cancelled ‹_› pending hpending c hc
          · cases hs
      | _ => exact trivial
  | exit =>
      rw [Serve.step] at hs
      split at hs
      · rename_i hphase
        refine ⟨h.buffer ?_, ?_⟩
        · simp [hphase]
        · rw [Receiver.inBatch, h.tasks (by rw [hphase]; decide)]
          rfl
      · cases hs
  | _ => exact trivial

/-- **A graceful shutdown loses no record unseen.**  In every run whose shutdown goes in the right order, when
`_serve` has returned, each record that was parsed is accepted by Redis or is counted in a drop counter
there. -/
theorem graceful_shutdown (hmsgpack : msgpack.Lawful)
    (h : Reach (system cfg u msgpack) (fun s a ↦ s.CallOk msgpack a ∧ s.Orderly a) s)
    (hreturned : s.phase = .returned) : s.receiver.ingest.counts .parsed = s.receiver.redis.length +
      s.published .droppedBackpressure + s.published .droppedRedisError := by
  have hdrained : Reach (system cfg u msgpack) (Drained msgpack) s := by
    refine Simulation.reach (f := id) ⟨fun s hs ↦ hs, fun s a s' hreach hok hs ↦ ?_⟩ h
    have hsettled : s.Settled := Settled.reach (fun _ _ hok ↦ hok.2) hreach
    exact .inr ⟨a, hsettled.drained hok.1 hs, hs⟩
  obtain ⟨hparsed, -, hpublished, hlast, hended, hempty⟩ := Inv.reach hmsgpack hdrained
  obtain ⟨hbuffer, hbatch⟩ := hempty hreturned
  have hcounted : ∀ c ∈ drops, s.published c = s.receiver.ingest.counts c := by
    intro c hc
    have hc' := hpublished c hc
    rw [hended (.inr hreturned), hlast (.inr (.inl hreturned)) c hc] at hc'
    exact hc'
  rw [hparsed, hreturned, hcounted _ List.mem_cons_self,
    hcounted _ (List.mem_cons_of_mem _ List.mem_cons_self), Receiver.total, hbuffer, hbatch]
  show 0 + 0 + _ + _ + _ + 0 = _
  omega

/-- A push in flight at the signal that ends before the counters are stopped. -/
theorem graceful_shutdown_session : ∃ s, Reach (system ⟨{}, 1⟩ .ascii msgpackRows)
        (fun s a ↦ s.CallOk msgpackRows a ∧ s.Orderly a) s ∧ s.phase = .returned ∧
      s.receiver.redis.length = 1 ∧ s.receiver.ingest.counts .parsed = s.receiver.redis.length +
        s.published .droppedBackpressure + s.published .droppedRedisError := by
  obtain ⟨entry, hhandle⟩ := Receiver.handle_sessionLine 1
  let ok : Serve → Action → Prop := fun s a ↦ s.CallOk msgpackRows a ∧ s.Orderly a
  have h₀ : Reach (system ⟨{}, 1⟩ .ascii msgpackRows) ok
      ⟨⟨Ingest.start {Receiver.sessionRouter}, [], []⟩, fun _ ↦ 0, none, fun _ ↦ 0, .serving⟩ :=
    .init ⟨{Receiver.sessionRouter}, rfl⟩
  have h₁ := h₀.step (a := Action.receiver
      (.handle Receiver.sessionLine Receiver.sessionRouter 1756577597))
    ⟨⟨Receiver.carries_sessionLine msgpackRows_lawful, show 1756577597 < 2 ^ 64 by omega⟩, .inl rfl⟩ rfl
  rw [hhandle] at h₁
  have h₂ := h₁.step (a := Action.receiver (.startPush 0 0)) ⟨trivial, trivial⟩ rfl
  have h₃ := h₂.step (a := Action.sigterm) ⟨trivial, trivial⟩ rfl
  have h₄ := h₃.step (a := Action.drain 0) ⟨trivial, trivial⟩ rfl
  have h₅ := h₄.step (a := Action.receiver (.finishPush 0 .accepted)) ⟨trivial, trivial⟩ rfl
  have h₆ := h₅.step (a := Action.stopMetrics) ⟨trivial, rfl, fun pending hpending ↦ by cases hpending⟩ rfl
  have h₇ := h₆.step (a := Action.flush) ⟨trivial, trivial⟩ rfl
  have h₈ := h₇.step (a := Action.execute .ok) ⟨trivial, trivial⟩ rfl
  have h₉ := h₈.step (a := Action.exit) ⟨trivial, trivial⟩ rfl
  exact ⟨_, h₉, rfl, rfl, graceful_shutdown msgpackRows_lawful h₉ rfl⟩

/-- A `_push` task that has taken its batch is not waited for: the record is neither in Redis nor in a drop
counter there. -/
theorem shutdown_loses_push :
    ∃ s, Reach (system ⟨{}, 1⟩ .ascii msgpackRows) (CallOk msgpackRows) s ∧
      s.phase = .returned ∧ s.receiver.ingest.counts .parsed = 1 ∧ s.receiver.redis = [] ∧
      s.published .droppedBackpressure = 0 ∧ s.published .droppedRedisError = 0 := by
  obtain ⟨entry, hhandle⟩ := Receiver.handle_sessionLine 1
  have h₀ : Reach (system ⟨{}, 1⟩ .ascii msgpackRows) (CallOk msgpackRows)
      ⟨⟨Ingest.start {Receiver.sessionRouter}, [], []⟩, fun _ ↦ 0, none, fun _ ↦ 0, .serving⟩ :=
    .init ⟨{Receiver.sessionRouter}, rfl⟩
  have h₁ := h₀.step (a := Action.receiver
      (.handle Receiver.sessionLine Receiver.sessionRouter 1756577597))
    ⟨Receiver.carries_sessionLine msgpackRows_lawful, show 1756577597 < 2 ^ 64 by omega⟩ rfl
  rw [hhandle] at h₁
  have h₂ := h₁.step (a := Action.receiver (.startPush 0 0)) trivial rfl
  have h₃ := h₂.step (a := Action.sigterm) trivial rfl
  have h₄ := h₃.step (a := Action.drain 0) trivial rfl
  have h₅ := h₄.step (a := Action.stopMetrics) trivial rfl
  have h₆ := h₅.step (a := Action.flush) trivial rfl
  have h₇ := h₆.step (a := Action.execute .ok) trivial rfl
  have h₈ := h₇.step (a := Action.exit) trivial rfl
  exact ⟨_, h₈, rfl, rfl, rfl, rfl, rfl⟩

end invariant

end Serve

end LogServer
