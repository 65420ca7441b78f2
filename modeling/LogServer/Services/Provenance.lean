import LogServer.Services.Deployment

/-!
# From a router to the log table

What a deployment as a whole promises, in every order of steps and with every failure that
`Deployment.system` has.  A row of the log table comes from a datagram or line that a router sent while
an operator had it enabled (`provenance`).  A record that was parsed is in the memory of its receiver, was
counted as dropped, or is in the queue, an in-flight list or the log table (`no_silent_loss`).  And what
receivers put into the queue a worker decodes and inserts whole (`claims_decode`).
-/

namespace LogServer

open Transition

variable {δ : Type}

namespace Deployment

variable {cfg : IngestConfig} {wcfg : WorkerConfig} {u : CharTable} {msgpack : Msgpack}
  {clock : Clock δ} {s : Deployment} {past : List (Finset Text)}
  {okPipeline : Pipeline → Pipeline.Action → Prop}

/-! ## Runs -/

/-- The parts of a deployment go through runs of their own systems. -/
theorem Sound.recorded (hmsgpack : msgpack.Lawful)
    (hpush : ∀ pipeline payloads reply, okPipeline pipeline (.push payloads reply))
    (h : Recorded (system cfg wcfg u msgpack clock) (fun s ↦ s.allowList.enabled) (Ok msgpack okPipeline)
      past s) :
    Sound cfg wcfg u msgpack clock okPipeline past s := by
  refine h.invariant (R := fun past s ↦ Sound cfg wcfg u msgpack clock okPipeline past s) ?_ ?_
  · rintro s rfl
    exact sound_empty.append
  · intro past s a t hsound hnow hok hs
    exact (hsound.step hmsgpack hpush hnow hok hs).append

theorem Sound.reach (hmsgpack : msgpack.Lawful)
    (hpush : ∀ pipeline payloads reply, okPipeline pipeline (.push payloads reply))
    (h : Reach (system cfg wcfg u msgpack clock) (Ok msgpack okPipeline) s) :
    ∃ past, Sound cfg wcfg u msgpack clock okPipeline past s := by
  obtain ⟨past, hrecorded⟩ := h.exists_recorded fun s ↦ s.allowList.enabled
  exact ⟨past, .recorded hmsgpack hpush hrecorded⟩

/-! ## A session -/

section session

variable {clock : Clock δ}

def sessionSystemOf (clock : Clock δ) : System Deployment Action :=
  system ⟨{}, 1⟩ ⟨100, by decide⟩ .ascii msgpackRows clock

def sessionSystem : System Deployment Action := sessionSystemOf Clock.seconds

/-- An entry of the queue that a receiver makes of a line, and a worker a row of the entry. -/
theorem exists_entry_sessionLine (hclock : clock.Lawful) : ∃ entry row,
    (Ingest.start {Receiver.sessionRouter}).handle ⟨{}, 1⟩ .ascii msgpackRows Receiver.sessionLine
      Receiver.sessionRouter 1756577597 =
        ((((Ingest.start {Receiver.sessionRouter}).count Receiver.sessionLine).incr .parsed).append ⟨{}, 1⟩ entry,
          .ok ()) ∧
    BatchWorker._decode msgpackRows clock [entry] = .ok ([row], 0) ∧
    (LogQueue.decode msgpackRows entry).isSome := by
  let cfg : IngestConfig := ⟨{}, 1⟩
  obtain ⟨record, hparse⟩ := Receiver.exists_record_sessionLine cfg.parser .ascii
  have hknown : Receiver.sessionRouter ∈ (Ingest.start {Receiver.sessionRouter}).registry :=
    Finset.mem_singleton_self Receiver.sessionRouter
  obtain ⟨entry, hencode, hhandle⟩ := Ingest.exists_handle msgpackRows_lawful
    (Receiver.carries_sessionLine msgpackRows_lawful) (show 1756577597 < 2 ^ 64 by omega) hknown hparse
  obtain ⟨entry', d, hencode', -, hdecode⟩ := _decode_encode msgpackRows_lawful hclock
    (Receiver.carries_sessionLine msgpackRows_lawful) (show 1756577597 < 2 ^ 32 by omega) hparse
  obtain rfl : entry = entry' := Except.ok.inj (hencode.symm.trans hencode')
  refine ⟨entry, _, hhandle, hdecode, ?_⟩
  rw [Option.isSome_iff_ne_none]
  intro hbad
  rw [BatchWorker._decode, hbad] at hdecode
  cases hdecode

/-- A router is added, a receiver starts, and the allow-list reaches it. -/
theorem exists_refreshed (clock : Clock δ) (okPipeline : Pipeline → Pipeline.Action → Prop) :
    ∃ s : Deployment, (sessionSystemOf clock).Run (Ok msgpackRows okPipeline) s empty
      [.allowList (.add 0 AllowList.routerIn []), .allowList (.read 0), .allowList (.publish 0 true),
        .start 0, .allowList (.smembers 1 0 true), .allowList (.resume 1)] ∧
    s.receivers 0 = some ⟨Ingest.start {Receiver.sessionRouter}, [], []⟩ ∧ s.pipeline = .empty := by
  simp [System.Run, Ok, sessionSystemOf, system, step, allow, AllowList.step, AllowList.empty, empty,
    AllowList.goto, AllowList.done, AllowList.committed, AllowList.addRouter_routerIn, Except.map,
    Routers.enabledRouterIps]
  have hrouter : Receiver.sessionRouter = ['1', '0', '.', '1', '0', '.', '1', '0', '.', '1'] := by
    decide +kernel
  rw [hrouter]
  rfl

/-- A line comes in, and its entry goes into the queue. -/
theorem exists_pushed (clock : Clock δ) (okPipeline : Pipeline → Pipeline.Action → Prop)
    {s : Deployment} (hr : s.receivers 0 = some ⟨Ingest.start {Receiver.sessionRouter}, [], []⟩)
    {entry : Bytes}
    (hhandle : (Ingest.start {Receiver.sessionRouter}).handle ⟨{}, 1⟩ .ascii msgpackRows
      Receiver.sessionLine Receiver.sessionRouter 1756577597 =
        ((((Ingest.start {Receiver.sessionRouter}).count Receiver.sessionLine).incr .parsed).append
          ⟨{}, 1⟩ entry, .ok ())) : ∃ t : Deployment,
    (sessionSystemOf clock).Run (Ok msgpackRows okPipeline) t s
      [.handle 0 Receiver.sessionLine Receiver.sessionRouter 1756577597, .startPush 0 0 0,
        .push 0 0 .ok] ∧ t.pipeline = s.pipeline.push [entry] := by
  have hcarries := Receiver.carries_sessionLine msgpackRows_lawful
  simp [System.Run, Ok, sessionSystemOf, system, step, local_, update, Receiver.step, hr, hhandle,
    hcarries, Ingest.append, Ingest._scheduleFlush, Ingest.startPush, Ingest.finishPush, Ingest.count,
    Ingest.incr]
  simp [Ingest.start, Reply.effect]

/-- A worker takes the entry, and inserts its row. -/
theorem exists_inserted {s : Deployment} {entry : Bytes} (hs : s.pipeline = Pipeline.empty.push [entry])
    {row : List (Field δ)}
    (hdecode : BatchWorker._decode msgpackRows clock [entry] = .ok ([row], 0))
    (hsome : (LogQueue.decode msgpackRows entry).isSome) : ∃ t t' : Deployment,
    (sessionSystemOf clock).Run
      (Ok msgpackRows fun s a ↦ s.Distinct a ∧ Pipeline.ClaimClean msgpackRows s a) t s
      [.pipeline (.start 0 [] 0 none), .pipeline (.worker 0 (.redis .ok)),
        .pipeline (.worker 0 .check)] ∧
    (sessionSystemOf clock).Run
      (Ok msgpackRows fun s a ↦ s.Distinct a ∧ Pipeline.ClaimClean msgpackRows s a) t' t
      [.pipeline (.worker 0 (.redis .ok)), .pipeline (.worker 0 .check),
        .pipeline (.worker 0 (.insert .ok))] ∧
    (∃ w, t.pipeline.workers 0 = some w ∧ w.phase = .claiming) ∧ t.pipeline.redis.queue ≠ [] ∧
    t'.pipeline.inserted.length = 1 ∧ t'.pipeline.pushed.length = 1 := by
  simp [System.Run, Ok, sessionSystemOf, system, step, hs, Pipeline.Distinct, Pipeline.ClaimClean,
    Pipeline.step, Pipeline.workerStep, Pipeline.push, Pipeline.number, Pipeline.empty,
    Pipeline.release, Pipeline.goto, Pipeline.exit, Pipeline.claim, Pipeline.received, Pipeline.store,
    Redis.pushMany, Redis.rpush, Redis.release_eq, Redis.claim_eq, hdecode, Pipeline.decodable, hsome, Reply.effect]

/-- A session on its way: a worker is about to claim its entry, and has inserted its row. -/
theorem exists_session (hclock : clock.Lawful) : ∃ s t, Reach (sessionSystemOf clock)
      (Ok msgpackRows fun s a ↦ s.Distinct a ∧ Pipeline.ClaimClean msgpackRows s a) s ∧
    Reach (sessionSystemOf clock) (Ok msgpackRows fun s a ↦ s.Distinct a ∧ Pipeline.ClaimClean msgpackRows s a) t ∧
    (∃ w, s.pipeline.workers 0 = some w ∧ w.phase = .claiming) ∧ s.pipeline.redis.queue ≠ [] ∧
    t.pipeline.inserted.length = 1 ∧ t.pipeline.pushed.length = 1 := by
  obtain ⟨entry, row, hhandle, hdecode, hsome⟩ := exists_entry_sessionLine hclock
  obtain ⟨r, hrefreshed, hr, hempty⟩ :=
    exists_refreshed clock fun s a ↦ s.Distinct a ∧ Pipeline.ClaimClean msgpackRows s a
  obtain ⟨q, hpushed, hq⟩ :=
    exists_pushed clock (fun s a ↦ s.Distinct a ∧ Pipeline.ClaimClean msgpackRows s a) hr hhandle
  rw [hempty] at hq
  obtain ⟨s, t, hs, ht, hw, hqueue, hinserted, hone⟩ := exists_inserted hq hdecode hsome
  have hreach := (((Reach.init rfl).run hrefreshed).run hpushed).run hs
  exact ⟨s, t, hreach, hreach.run ht, hw, hqueue, hinserted, hone⟩

end session

/-- The condition on the workers can be forgotten. -/
theorem reach_weaken (h : Reach (system cfg wcfg u msgpack clock) (Ok msgpack okPipeline) s) :
    Reach (system cfg wcfg u msgpack clock) (Ok msgpack fun _ _ ↦ True) s := by
  refine h.mono fun s a hok ↦ ?_
  cases a <;> first | exact hok | exact trivial

/-! ## Rows -/

structure Origin (cfg : IngestConfig) (u : CharTable) (msgpack : Msgpack) (clock : Clock δ)
    (past : List (Finset Text)) (call : Call) (log : ParsedLog) (d : δ) (payload : Bytes) :
    Prop where
  enabled : ∃ ips ∈ past, call.source ∈ ips
  parsed : (cfg.parser.parseBytes u call.payload).1 = some log
  decoded : BatchWorker._decode msgpack clock [payload] = .ok ([log.inserted d call.source], 0)
  received : clock.timestamp d = call.now
  insertable : Insertable clock (log.inserted d call.source)

/-- Every entry that was pushed has an origin. -/
theorem Sound.exists_origin (h : Sound cfg wcfg u msgpack clock okPipeline past s)
    (hmsgpack : msgpack.Lawful) (hclock : clock.Lawful) {x : Entry} (hx : x ∈ s.pipeline.pushed) :
    ∃ call ∈ s.handled, ∃ log d, Origin cfg u msgpack clock past call log d x.payload := by
  obtain ⟨call, hcall, hentry⟩ := h.pushed x hx
  obtain ⟨hsource, log, hparse, hencode⟩ := Call.entry_eq_some.mp hentry
  obtain ⟨hseen, hcarries, hnow⟩ := h.handled call hcall
  have henabled : ∃ ips ∈ past, call.source ∈ ips := by
    rcases hseen with hempty | hmem
    · rw [hempty] at hsource
      exact absurd hsource (Finset.notMem_empty _)
    · exact ⟨call.registry, hmem, hsource⟩
  have hwell : log.WellFormed := parse_sound (Prod.ext hparse rfl)
  obtain ⟨payload, d, hencode', hd, hdecode⟩ :=
    _decode_encode hmsgpack hclock hcarries hnow hparse
  obtain rfl : x.payload = payload := Except.ok.inj (hencode.symm.trans hencode')
  obtain ⟨ips, hips, hip⟩ := henabled
  exact ⟨call, hcall, log, d, ⟨ips, hips, hip⟩, hparse, hdecode, hd,
    insertable_inserted hwell hd hnow (h.addresses ips hips _ hip)⟩

/-- **Where a row comes from.**  In every run, every row of the log table is the record of a payload that a
receiver handled: its source was an enabled router at some time, its fields are those that the parser read
from the payload, its timestamp is the second of the call, and it is a row the table takes. -/
theorem provenance (hmsgpack : msgpack.Lawful) (hclock : clock.Lawful)
    (h : Recorded (system cfg wcfg u msgpack clock) (fun s ↦ s.allowList.enabled)
      (Ok msgpack fun _ _ ↦ True) past s) :
    ∀ x ∈ s.pipeline.inserted, ∃ call ∈ s.handled, ∃ log d,
      Origin cfg u msgpack clock past call log d x.payload := by
  have hsound := Sound.recorded hmsgpack (fun _ _ _ ↦ trivial) h
  intro x hx
  exact hsound.exists_origin hmsgpack hclock ((Pipeline.Sourced.reach hsound.pipeline).inserted hx)

/-- A row on its way from a router. -/
theorem provenance_session : ∃ past s,
    Recorded sessionSystem (fun s ↦ s.allowList.enabled) (Ok msgpackRows fun _ _ ↦ True) past s ∧
    s.pipeline.inserted.length = 1 ∧ ∀ x ∈ s.pipeline.inserted, ∃ call ∈ s.handled, ∃ log d,
      Origin ⟨{}, 1⟩ .ascii msgpackRows Clock.seconds past call log d x.payload := by
  obtain ⟨-, t, -, ht, -, -, hinserted, -⟩ := exists_session Clock.seconds_lawful
  obtain ⟨past, h⟩ := (reach_weaken ht).exists_recorded fun s ↦ s.allowList.enabled
  exact ⟨past, t, h, hinserted, provenance msgpackRows_lawful Clock.seconds_lawful h⟩

/-! ## Records -/

/-- **No silent loss, from the socket to the log table.**  In every run of workers under distinct ids in
which each claim finds the in-flight list clean: each running receiver has counted every payload, and each
payload with a record is in its buffer, in the batch of a `_push` task, counted as dropped, or accepted by
Redis; what Redis accepted of it is in the queue's history, in order; and every entry of that history is
in the queue, in an in-flight list, or in the log table. -/
theorem no_silent_loss (hmsgpack : msgpack.Lawful) (hclock : clock.Lawful)
    (h : Reach (system cfg wcfg u msgpack clock)
      (Ok msgpack fun s a ↦ s.Distinct a ∧ Pipeline.ClaimClean msgpack s a) s) :
    (∀ i r, s.receivers i = some r → r.ingest.counts .received = r.calls.length ∧
      (r.calls.filterMap (Call.entry cfg u msgpack)).length = r.ingest.buffer.length +
        r.inBatch.length + r.redis.length + r.ingest.counts .droppedBackpressure +
        r.ingest.counts .droppedRedisError ∧
      r.redis.Sublist (s.pipeline.pushed.map Entry.payload)) ∧
    ∀ x ∈ s.pipeline.pushed, x ∈ s.pipeline.redis.queue ∨
      (∃ key, x ∈ s.pipeline.redis.inflight key) ∨ x ∈ s.pipeline.inserted := by
  obtain ⟨past, hsound⟩ := Sound.reach hmsgpack (fun _ _ _ ↦ ⟨trivial, trivial⟩) h
  constructor
  · intro i r hr
    have hr := hsound.receivers i r hr
    have hcounted := Receiver.counted_reach hmsgpack hr.run
    refine ⟨hcounted.received, ?_, hr.accepted⟩
    rw [← hcounted.parsed]
    exact (Receiver.inv_reach hmsgpack hr.run).parsed
  · intro x hx
    obtain ⟨call, -, log, d, horigin⟩ := hsound.exists_origin hmsgpack hclock hx
    refine (Pipeline.Kept.reach hsound.pipeline).2.safe x hx ?_
    -- An undecodable entry would be counted as one.
    by_contra hbad
    have hdecoded := horigin.decoded
    rw [BatchWorker._decode, Pipeline.decodable_eq_false.mp (by simpa using hbad)] at hdecoded
    cases hdecoded

/-- The one entry is in the log table. -/
theorem no_silent_loss_session : ∃ s, Reach sessionSystem
      (Ok msgpackRows fun s a ↦ s.Distinct a ∧ Pipeline.ClaimClean msgpackRows s a) s ∧
    s.pipeline.pushed.length = 1 ∧ ∀ x ∈ s.pipeline.pushed, x ∈ s.pipeline.redis.queue ∨
      (∃ key, x ∈ s.pipeline.redis.inflight key) ∨ x ∈ s.pipeline.inserted := by
  obtain ⟨-, t, -, ht, -, -, -, hpushed⟩ := exists_session Clock.seconds_lawful
  exact ⟨t, ht, hpushed, (no_silent_loss msgpackRows_lawful Clock.seconds_lawful ht).2⟩

/-! ## Claims -/

/-- Entries that decode one by one decode together, each into its own row. -/
theorem decode_all {payloads : List Bytes} {P : List (Field δ) → Prop}
    (h : ∀ payload ∈ payloads, ∃ row, BatchWorker._decode msgpack clock [payload] = .ok ([row], 0) ∧
      P row) :
    ∃ rows, BatchWorker._decode msgpack clock payloads = .ok (rows, 0) ∧
      List.Forall₂ (fun row payload ↦ P row ∧
        BatchWorker._decode msgpack clock [payload] = .ok ([row], 0)) rows payloads := by
  induction payloads with
  | nil => exact ⟨[], rfl, .nil⟩
  | cons payload payloads ih =>
      obtain ⟨⟨row, hrow, hP⟩, hrest⟩ := List.forall_mem_cons.mp h
      obtain ⟨rows, hrows, hpairs⟩ := ih hrest
      refine ⟨row :: rows, ?_, .cons ⟨hP, hrow⟩ hpairs⟩
      rw [BatchWorker._decode] at hrow ⊢
      cases hdecode : LogQueue.decode msgpack payload with
      | none =>
          rw [hdecode] at hrow
          cases hrow
      | some fields =>
          rw [hdecode] at hrow
          dsimp only at hrow ⊢
          cases hstamp : BatchWorker.stamp clock fields with
          | error e =>
              rw [hstamp] at hrow
              cases hrow
          | ok stamped =>
              rw [hstamp] at hrow
              cases hrow
              rw [hrows]
              rfl

/-- **No poison in the queue.**  In every run, whatever a worker claims decodes without a bad entry into
rows that the log table takes, one for each entry, and the worker goes on to write them: nothing that
reaches a receiver makes a worker end, or skip or reject an entry. -/
theorem claims_decode (hmsgpack : msgpack.Lawful) (hclock : clock.Lawful)
    (h : Reach (system cfg wcfg u msgpack clock) (Ok msgpack fun _ _ ↦ True) s) {p : Nat} {w : Worker}
    (hw : s.pipeline.workers p = some w) (hphase : w.phase = .claiming)
    (hqueue : s.pipeline.redis.queue ≠ []) :
    ∃ t rows, s.step cfg wcfg u msgpack clock (.pipeline (.worker p (.redis .ok))) = some t ∧
      t.pipeline.workers p =
        some { w with phase := .writing (s.pipeline.redis.queue.take wcfg.batchSize) } ∧
      BatchWorker._decode msgpack clock
        ((s.pipeline.redis.queue.take wcfg.batchSize).map Entry.payload) = .ok (rows, 0) ∧
      rows.length = (s.pipeline.redis.queue.take wcfg.batchSize).length ∧
      ∀ row ∈ rows, Insertable clock row := by
  obtain ⟨past, hsound⟩ := Sound.reach hmsgpack (fun _ _ _ ↦ trivial) h
  have hpushed := (Pipeline.Sourced.reach hsound.pipeline).queue
  set claimed := s.pipeline.redis.queue.take wcfg.batchSize with hclaimed
  have hrow : ∀ payload ∈ claimed.map Entry.payload, ∃ row,
      BatchWorker._decode msgpack clock [payload] = .ok ([row], 0) ∧ Insertable clock row := by
    intro payload hpayload
    obtain ⟨x, hx, rfl⟩ := List.mem_map.mp hpayload
    obtain ⟨call, -, log, d, horigin⟩ :=
      hsound.exists_origin hmsgpack hclock (hpushed (List.take_subset _ _ hx))
    exact ⟨_, horigin.decoded, horigin.insertable⟩
  obtain ⟨rows, hrows, hpairs⟩ := decode_all hrow
  have hlength := hpairs.length_eq
  rw [List.length_map] at hlength
  have hall : ∀ row ∈ rows, Insertable clock row := ((List.forall₂_and_left rows _).mp hpairs).1
  have hsome : claimed ≠ [] := by
    rw [hclaimed, Ne, List.take_eq_nil_iff]
    exact not_or.mpr ⟨Nat.ne_of_gt wcfg.batchSize_pos, hqueue⟩
  have hrowsSome : rows.isEmpty = false := by
    rw [List.isEmpty_eq_false_iff, ← List.length_pos_iff, hlength]
    exact List.length_pos_iff.mpr hsome
  refine ⟨{ s with pipeline := s.pipeline.claim p w wcfg msgpack clock .ok }, rows, ?_, ?_, hrows,
    hlength, hall⟩
  · show ((s.pipeline.workers p).bind _).map _ = _
    rw [hw]
    dsimp only [Option.bind_some]
    rw [hphase]
    rfl
  · show ((s.pipeline.claim p w wcfg msgpack clock .ok).workers p) = _
    rw [Pipeline.claim, Redis.claim_eq _ _ wcfg.batchSize_pos, Pipeline.received,
      List.isEmpty_eq_false_iff.mpr hsome, hrows]
    dsimp only
    rw [hrowsSome]
    exact Function.update_self ..

/-- The worker goes on to write the row of the session. -/
theorem claims_decode_session : ∃ s t : Deployment, ∃ w claimed rows,
    Reach sessionSystem (Ok msgpackRows fun _ _ ↦ True) s ∧
    sessionSystem.step s (.pipeline (.worker 0 (.redis .ok))) = some t ∧
    t.pipeline.workers 0 = some w ∧ w.phase = .writing claimed ∧
    BatchWorker._decode msgpackRows Clock.seconds (claimed.map Entry.payload) = .ok (rows, 0) := by
  obtain ⟨s, -, hs, -, ⟨w, hw, hphase⟩, hqueue, -⟩ := exists_session Clock.seconds_lawful
  obtain ⟨t, rows, hstep, ht, hrows, -⟩ := claims_decode msgpackRows_lawful Clock.seconds_lawful
    (reach_weaken hs) hw hphase hqueue
  exact ⟨s, t, _, _, rows, reach_weaken hs, hstep, ht, rfl, hrows⟩

end Deployment

end LogServer
