import LogServer.Lib.Transition
import LogServer.Parser.RoundTrip
import LogServer.Queue.Msgpack
import LogServer.Services.Ingest

/-!
# A receiver process, step by step

The event loop of a receiver interleaves calls of `handle` with the steps of `_push` tasks, the
ticks of the flusher, backpressure checks and refreshes of the allow-list.  `Receiver.system` has
one action for each of these, in any order.  The arguments of an action are what the environment
decides: payloads and their sources, clocks, the queue depth, and how `push_many` ends.

The state remembers every call of `handle` (`calls`) and what Redis has accepted (`redis`).
`Call.entry` is what a call *should* put into the queue.  With it the guarantee of the ingest path
is stated without mentioning the buffer: what Redis accepts is a subsequence of what the calls
should put there, and the counters say how much is missing (`conservation`).
-/

namespace LogServer

open Transition

/-- A call of `handle`, with the allow-list at that moment. -/
structure Call where
  payload : Bytes
  source : Text
  now : Nat
  registry : Finset Text

def Call.entry (cfg : IngestConfig) (u : CharTable) (msgpack : Msgpack) (call : Call) :
    Option Bytes :=
  if call.source ∈ call.registry then
    (cfg.parser.parseBytes u call.payload).1.bind fun record ↦
      (LogQueue.encode msgpack (record.asRow call.now call.source)).toOption
  else none

structure Receiver where
  ingest : Ingest
  redis : List Bytes
  calls : List Call

namespace Receiver

inductive Action where
  | handle (payload : Bytes) (source : Text) (now : Nat)
  | flush
  | startPush (i : Nat) (now : ℚ)
  | finishPush (i : Nat) (outcome : PushOutcome)
  | checkBackpressure (maxQueueLength : Nat) (depth : Int) (now : ℚ)
  | refresh (registry : Finset Text)

variable (cfg : IngestConfig) (u : CharTable) (msgpack : Msgpack)

def step (s : Receiver) : Action → Option Receiver
  | .handle payload source now =>
      some { s with
        ingest := (s.ingest.handle cfg u msgpack payload source now).1
        calls := s.calls ++ [⟨payload, source, now, s.ingest.registry⟩] }
  | .flush => some { s with ingest := s.ingest._scheduleFlush }
  | .startPush i now =>
      if s.ingest.tasks[i]? = some .scheduled then
        some { s with ingest := s.ingest.startPush i now }
      else none
  | .finishPush i outcome =>
      match s.ingest.tasks[i]? with
      | some (.pushing batch) =>
          some { s with
            ingest := s.ingest.finishPush i batch outcome
            redis := if outcome = .accepted then s.redis ++ batch else s.redis }
      | _ => none
  | .checkBackpressure maxQueueLength depth now =>
      some { s with ingest := s.ingest._checkBackpressure maxQueueLength depth now }
  | .refresh registry => some { s with ingest := { s.ingest with registry := registry } }

def system : System Receiver Action where
  init s := ∃ registry, s = ⟨Ingest.start registry, [], []⟩
  step := step cfg u msgpack

/-- The wire format can hold what is received: the second, and texts as long as the payload gives. -/
def CallOk (_ : Receiver) : Action → Prop
  | .handle payload source now => msgpack.Carries payload source ∧ now < 2 ^ 64
  | _ => True

/-- The entries that `_push` tasks have taken and not finished. -/
def inBatch (s : Receiver) : List Bytes := s.ingest.tasks.flatMap PushTask.batch

/-- Every payload is counted once, every accepted record is in one place, and the places hold the
records in the order they were handled. -/
structure Inv (s : Receiver) : Prop where
  tasks : s.ingest.tasks.length = if s.ingest.pushing then 1 else 0
  received : s.ingest.counts .received = s.ingest.counts .droppedUnknownRouter +
    s.ingest.counts .parserErrors + s.ingest.counts .parsed
  parsed : s.ingest.counts .parsed = s.ingest.buffer.length + s.inBatch.length + s.redis.length +
    s.ingest.counts .droppedBackpressure + s.ingest.counts .droppedRedisError
  order : (s.redis ++ s.inBatch ++ s.ingest.buffer).Sublist
    (s.calls.filterMap (Call.entry cfg u msgpack))

/-! ## The invariant -/

section invariant

variable {cfg u msgpack} {s : Receiver}

/-- With at most one task, a task that exists is the only one. -/
theorem eq_singleton_of_getElem? {α : Type} {l : List α} {i : Nat} {x : α} (hl : l.length ≤ 1)
    (h : l[i]? = some x) : i = 0 ∧ l = [x] := by
  obtain ⟨hi, hx⟩ := List.getElem?_eq_some_iff.mp h
  obtain rfl : i = 0 := by omega
  obtain ⟨y, rfl⟩ := List.length_eq_one_iff.mp (show l.length = 1 by omega)
  exact ⟨rfl, by rw [← hx]; rfl⟩

theorem inv_init {registry : Finset Text} :
    Inv cfg u msgpack ⟨Ingest.start registry, [], []⟩ :=
  ⟨rfl, rfl, rfl, List.Sublist.refl []⟩

/-- Asking for a flush changes nothing but the tasks. -/
theorem inv_scheduleFlush (h : Inv cfg u msgpack s) :
    Inv cfg u msgpack { s with ingest := s.ingest._scheduleFlush } := by
  unfold Ingest._scheduleFlush
  split
  · rename_i hidle
    have hpushing : s.ingest.pushing = false := by
      rw [Bool.and_eq_true, Bool.not_eq_true'] at hidle
      exact hidle.1
    have htasks : s.ingest.tasks = [] := by
      have hlen := h.tasks
      rw [hpushing] at hlen
      exact List.eq_nil_of_length_eq_zero hlen
    have hbatch : s.inBatch = [] := by rw [inBatch, htasks]; rfl
    have hparsed := h.parsed
    have horder := h.order
    rw [hbatch] at hparsed horder
    constructor
    · rw [htasks]
      rfl
    · exact h.received
    · rw [inBatch, htasks]
      exact hparsed
    · rw [inBatch, htasks]
      exact horder
  · exact h

/-- A call that puts no entry into the buffer is counted as unknown or as a parser error. -/
theorem inv_counted (h : Inv cfg u msgpack s) (call : Call) {name : Counter}
    (hname : name = .droppedUnknownRouter ∨ name = .parserErrors)
    (hentry : call.entry cfg u msgpack = none) :
    Inv cfg u msgpack { s with
      ingest := (s.ingest.count call.payload).incr name
      calls := s.calls ++ [call] } := by
  obtain ⟨htasks, hreceived, hparsed, horder⟩ := h
  have hcalls : (s.calls ++ [call]).filterMap (Call.entry cfg u msgpack) =
      s.calls.filterMap (Call.entry cfg u msgpack) := by
    rw [List.filterMap_append, List.filterMap_cons_none hentry]
    exact List.append_nil _
  constructor
  · exact htasks
  · rcases hname with rfl | rfl
    all_goals simp [Ingest.count, Counts.incr]; omega
  · rcases hname with rfl | rfl
    all_goals simpa [Ingest.count, Counts.incr, inBatch] using hparsed
  · rw [hcalls]
    exact horder

/-- A call that puts an entry into the buffer is counted as parsed. -/
theorem inv_parsed (h : Inv cfg u msgpack s) (call : Call) {entry : Bytes}
    (hentry : call.entry cfg u msgpack = some entry) :
    Inv cfg u msgpack { s with
      ingest := ((s.ingest.count call.payload).incr .parsed).append cfg entry
      calls := s.calls ++ [call] } := by
  obtain ⟨htasks, hreceived, hparsed, horder⟩ := h
  have hcalls : (s.calls ++ [call]).filterMap (Call.entry cfg u msgpack) =
      s.calls.filterMap (Call.entry cfg u msgpack) ++ [entry] := by
    rw [List.filterMap_append, List.filterMap_cons_some hentry]
    rfl
  have hkept : Inv cfg u msgpack { s with
      ingest := { (s.ingest.count call.payload).incr .parsed with
        buffer := s.ingest.buffer ++ [entry] }
      calls := s.calls ++ [call] } := by
    constructor
    · exact htasks
    · simp [Ingest.count, Counts.incr]
      omega
    · show ((s.ingest.count call.payload).incr .parsed).counts .parsed =
        (s.ingest.buffer ++ [entry]).length + s.inBatch.length + _ + _ + _
      simp [Ingest.count, Counts.incr]
      omega
    · rw [hcalls]
      show (s.redis ++ s.inBatch ++ (s.ingest.buffer ++ [entry])).Sublist _
      rw [← List.append_assoc]
      exact horder.append (List.Sublist.refl [entry])
  unfold Ingest.append
  dsimp only
  split
  · exact inv_scheduleFlush hkept
  · exact hkept

/-- **Calls of `handle` keep the invariant.** -/
theorem inv_handle (hmsgpack : msgpack.Lawful) (h : Inv cfg u msgpack s) {payload : Bytes}
    {source : Text} (hcarries : msgpack.Carries payload source) {now : Nat} (hnow : now < 2 ^ 64) :
    Inv cfg u msgpack { s with
      ingest := (s.ingest.handle cfg u msgpack payload source now).1
      calls := s.calls ++ [⟨payload, source, now, s.ingest.registry⟩] } := by
  by_cases hsource : source ∈ s.ingest.registry
  · cases hparse : (cfg.parser.parseBytes u payload).1 with
    | none =>
        rw [Ingest.handle_rejected hsource hparse]
        refine inv_counted h ⟨payload, source, now, _⟩ (.inr rfl) ?_
        rw [Call.entry, if_pos hsource, hparse]
        rfl
    | some record =>
        obtain ⟨entry, hencode, hhandle⟩ := Ingest.exists_handle hmsgpack hcarries hnow
          hsource hparse
        rw [hhandle]
        refine inv_parsed h ⟨payload, source, now, _⟩ ?_
        rw [Call.entry, if_pos hsource, hparse]
        show (LogQueue.encode msgpack _).toOption = _
        rw [hencode]
        rfl
  · rw [Ingest.handle_unknown hsource]
    refine inv_counted h ⟨payload, source, now, _⟩ (.inl rfl) ?_
    rw [Call.entry, if_neg hsource]

/-- **The first part of a `_push` task keeps the invariant**: the buffer becomes the batch, or is
dropped and counted. -/
theorem inv_startPush (h : Inv cfg u msgpack s) {i : Nat} (now : ℚ)
    (hi : s.ingest.tasks[i]? = some .scheduled) :
    Inv cfg u msgpack { s with ingest := s.ingest.startPush i now } := by
  have hle : s.ingest.tasks.length ≤ 1 := by
    rw [h.tasks]
    split <;> omega
  obtain ⟨rfl, htasks⟩ := eq_singleton_of_getElem? hle hi
  have hpushing : s.ingest.pushing = true := by
    by_contra hidle
    have hlen := h.tasks
    rw [htasks, if_neg hidle] at hlen
    cases hlen
  obtain ⟨-, hreceived, hparsed, horder⟩ := h
  have hbatch : s.inBatch = [] := by rw [inBatch, htasks]; rfl
  rw [hbatch] at hparsed horder
  rw [List.append_nil] at horder
  unfold Ingest.startPush
  dsimp only
  split
  · rename_i hempty
    rw [List.isEmpty_iff] at hempty
    rw [hempty] at hparsed horder
    rw [htasks]
    exact ⟨rfl, hreceived, hparsed, by simpa [inBatch] using horder⟩
  · split
    · rw [htasks]
      constructor
      · rfl
      · simpa [Counts.incr] using hreceived
      · simp [inBatch, Counts.incr]
        simp only [List.length_nil] at hparsed
        omega
      · exact (List.Sublist.trans (by simp [inBatch]) horder)
    · rw [htasks]
      constructor
      · rw [hpushing]
        rfl
      · exact hreceived
      · simp [inBatch, PushTask.batch]
        simp only [List.length_nil] at hparsed
        omega
      · simpa [inBatch, PushTask.batch] using horder

/-- **The second part of a `_push` task keeps the invariant**: the batch is accepted by Redis, or
dropped and counted. -/
theorem inv_finishPush (h : Inv cfg u msgpack s) {i : Nat} {batch : List Bytes}
    (outcome : PushOutcome) (hi : s.ingest.tasks[i]? = some (.pushing batch)) :
    Inv cfg u msgpack { s with
      ingest := s.ingest.finishPush i batch outcome
      redis := if outcome = .accepted then s.redis ++ batch else s.redis } := by
  have hle : s.ingest.tasks.length ≤ 1 := by
    rw [h.tasks]
    split <;> omega
  obtain ⟨rfl, htasks⟩ := eq_singleton_of_getElem? hle hi
  obtain ⟨-, hreceived, hparsed, horder⟩ := h
  have hbatch : s.inBatch = batch := by
    rw [inBatch, htasks]
    exact List.append_nil batch
  rw [hbatch] at hparsed horder
  cases outcome with
  | accepted =>
      constructor
      · simp [Ingest.finishPush, htasks]
      · exact hreceived
      · simp [Ingest.finishPush, htasks, inBatch]
        omega
      · simpa [Ingest.finishPush, htasks, inBatch] using horder
  | raised =>
      constructor
      · simp [Ingest.finishPush, htasks]
      · simpa [Ingest.finishPush, Counts.incr] using hreceived
      · simp [Ingest.finishPush, htasks, inBatch, Counts.incr]
        omega
      · refine List.Sublist.trans ?_ horder
        simp [Ingest.finishPush, htasks, inBatch]

/-- **Every step keeps the invariant.** -/
theorem inv_step (hmsgpack : msgpack.Lawful) {s' : Receiver} {a : Action}
    (h : Inv cfg u msgpack s) (hcall : CallOk msgpack s a) (hs : step cfg u msgpack s a = some s') :
    Inv cfg u msgpack s' := by
  cases a with
  | handle payload source now =>
      cases hs
      exact inv_handle hmsgpack h hcall.1 hcall.2
  | flush =>
      cases hs
      exact inv_scheduleFlush h
  | startPush i now =>
      rw [step] at hs
      split at hs
      · rename_i hi
        cases hs
        exact inv_startPush h now hi
      · cases hs
  | finishPush i outcome =>
      rw [step] at hs
      split at hs
      · rename_i batch hi
        cases hs
        exact inv_finishPush h outcome hi
      · cases hs
  | checkBackpressure maxQueueLength depth now =>
      cases hs
      unfold Ingest._checkBackpressure
      split
      · exact h
      · split
        · exact ⟨h.tasks, h.received, h.parsed, h.order⟩
        · exact h
  | refresh registry =>
      cases hs
      exact ⟨h.tasks, h.received, h.parsed, h.order⟩

/-- The invariant holds throughout every run. -/
theorem inv_reach (hmsgpack : msgpack.Lawful)
    (h : Reach (system cfg u msgpack) (CallOk msgpack) s) : Inv cfg u msgpack s := by
  refine Reach.invariant ?_ ?_ h
  · rintro s ⟨registry, rfl⟩
    exact inv_init
  · intro s a s' hinv hcall hs
    exact inv_step hmsgpack hinv hcall hs

end invariant

/-! ## No silent loss -/

section conservation

variable {cfg u msgpack} {s : Receiver}

/-- **No silent loss inside a receiver process.**  In every state of every run each payload is
counted under one outcome, and each record counted as parsed is in the buffer, in the batch of the
one `_push` task there may be, accepted by Redis, or counted as dropped.  What Redis accepted is a
subsequence of what the calls should put into the queue, and so each of its entries belongs to a
call whose source was authorised. -/
theorem conservation (hmsgpack : msgpack.Lawful)
    (h : Reach (system cfg u msgpack) (CallOk msgpack) s) :
    s.ingest.counts .received = s.ingest.counts .droppedUnknownRouter +
        s.ingest.counts .parserErrors + s.ingest.counts .parsed ∧
      s.ingest.counts .parsed = s.ingest.buffer.length + s.inBatch.length + s.redis.length +
        s.ingest.counts .droppedBackpressure + s.ingest.counts .droppedRedisError ∧
      s.ingest.tasks.length ≤ 1 ∧
      s.redis.Sublist (s.calls.filterMap (Call.entry cfg u msgpack)) ∧
      ∀ entry ∈ s.redis, ∃ call ∈ s.calls,
        call.entry cfg u msgpack = some entry ∧ call.source ∈ call.registry := by
  obtain ⟨htasks, hreceived, hparsed, horder⟩ := inv_reach hmsgpack h
  have hredis : s.redis.Sublist (s.calls.filterMap (Call.entry cfg u msgpack)) := by
    refine List.Sublist.trans ?_ horder
    rw [List.append_assoc]
    exact List.sublist_append_left _ _
  refine ⟨hreceived, hparsed, ?_, hredis, ?_⟩
  · rw [htasks]
    split <;> omega
  · intro entry hmem
    obtain ⟨call, hcall, hentry⟩ := List.mem_filterMap.mp (hredis.subset hmem)
    refine ⟨call, hcall, hentry, ?_⟩
    by_contra hsource
    rw [Call.entry, if_neg hsource] at hentry
    cases hentry

def sessionLine : Bytes := encodeUtf8
  "in:<pppoe-u1> proto TCP, 10.0.0.1:1->8.8.8.8:2, NAT (10.0.0.1:1->1.2.3.4:3)->8.8.8.8:2".toList

def sessionRouter : Text := "10.10.10.1".toList

theorem carries_sessionLine (hmsgpack : msgpack.Lawful) : msgpack.Carries sessionLine sessionRouter :=
  hmsgpack.carries (by decide +kernel) (by decide)

/-- Every parser accepts the line. -/
theorem exists_record_sessionLine (self : MikroTikParser) (u : CharTable) :
    ∃ record, (self.parseBytes u sessionLine).1 = some record := by
  have hrender : decodeUtf8 sessionLine = (Line.session "TCP".toList).render := by decide +kernel
  rw [MikroTikParser.parseBytes, hrender, parse_session (by decide) (by decide)]
  exact ⟨_, rfl⟩

/-- The line is handled. -/
theorem handle_sessionLine (n : Nat) : ∃ entry, (Ingest.start {sessionRouter}).handle ⟨{}, n⟩ .ascii
    msgpackRows sessionLine sessionRouter 1756577597 =
      ((((Ingest.start {sessionRouter}).count sessionLine).incr .parsed).append ⟨{}, n⟩ entry,
        .ok ()) := by
  let cfg : IngestConfig := ⟨{}, n⟩
  obtain ⟨record, hparse⟩ := exists_record_sessionLine cfg.parser .ascii
  have hknown : sessionRouter ∈ (Ingest.start {sessionRouter}).registry :=
    Finset.mem_singleton_self sessionRouter
  obtain ⟨entry, -, hhandle⟩ := Ingest.exists_handle msgpackRows_lawful
    (carries_sessionLine msgpackRows_lawful)
    (show 1756577597 < 2 ^ 64 by omega) hknown hparse
  exact ⟨entry, hhandle⟩

/-- A record on its way into Redis. -/
theorem conservation_session : ∃ s, Reach (system ⟨{}, 1⟩ .ascii msgpackRows)
      (CallOk msgpackRows) s ∧
    s.redis.length = 1 ∧ s.ingest.counts .parsed = s.ingest.buffer.length + s.inBatch.length + 1 +
      s.ingest.counts .droppedBackpressure + s.ingest.counts .droppedRedisError := by
  obtain ⟨entry, hhandle⟩ := handle_sessionLine 1
  have h₀ : Reach (system ⟨{}, 1⟩ .ascii msgpackRows) (CallOk msgpackRows)
      ⟨Ingest.start {sessionRouter}, [], []⟩ := .init ⟨{sessionRouter}, rfl⟩
  have h₁ := h₀.step (a := Action.handle sessionLine sessionRouter 1756577597)
    ⟨carries_sessionLine msgpackRows_lawful, show 1756577597 < 2 ^ 64 by omega⟩ rfl
  rw [hhandle] at h₁
  have h₂ := h₁.step (a := Action.startPush 0 0) trivial rfl
  have h₃ := h₂.step (a := Action.finishPush 0 .accepted) trivial rfl
  exact ⟨_, h₃, rfl, (conservation msgpackRows_lawful h₃).2.1⟩

end conservation

end Receiver

end LogServer
