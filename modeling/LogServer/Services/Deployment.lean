import LogServer.Services.AllowListPast
import LogServer.Services.Delivery
import LogServer.Services.Effects
import LogServer.Services.IngestRun
import LogServer.Services.Rows

/-!
# A deployment

Any number of receivers, the API and the command line, any number of workers, and maintenance, with what
they share: the metadata store, the allow-list in Redis, the queue, and the log table.  A receiver is
`Receiver.system`, the allow-list is `AllowList.system`, and the queue with its workers is
`Pipeline.system`; `Deployment.system` interleaves their steps in any order and adds how they meet:

* the registry of a receiver is what the refreshes of the allow-list made it;
* the batch that a `_push` task has taken is what enters the queue, and the reply of that one Redis call
  decides what the receiver counts.

Each part goes through a run of its own system (`Deployment.Sound`), so that what is known of the parts
is known of the whole.  The whole then says where a row of the log table comes from (`provenance`), where
a record is that was parsed (`no_silent_loss`), and that no entry of a receiver makes a worker stumble
(`claims_decode`).
-/

namespace LogServer

open Transition

/-! ## Receivers -/

/-- A call that puts an entry into the queue has an authorised source and a record. -/
theorem Call.entry_eq_some {cfg : IngestConfig} {u : CharTable} {msgpack : Msgpack} {call : Call}
    {entry : Bytes} : call.entry cfg u msgpack = some entry ↔ call.source ∈ call.registry ∧
      ∃ log, (cfg.parser.parseBytes u call.payload).1 = some log ∧
        LogQueue.encode msgpack (log.asRow call.now call.source) = .ok entry := by
  have hoption : ∀ x : Except PyError Bytes, x.toOption = some entry ↔ x = .ok entry := by
    intro x
    cases x <;> simp [Except.toOption]
  rw [Call.entry]
  split
  · rename_i hsource
    simp only [Option.bind_eq_some_iff, hoption, and_iff_right hsource]
  · rename_i hsource
    exact iff_of_false (by simp) fun h ↦ hsource h.1

namespace Ingest

variable {self : Ingest} {cfg : IngestConfig}

theorem registry_scheduleFlush : self._scheduleFlush.registry = self.registry := by
  unfold _scheduleFlush
  split <;> rfl

theorem registry_append {entry : Bytes} : (self.append cfg entry).registry = self.registry := by
  unfold append
  dsimp only
  split
  · exact registry_scheduleFlush
  · rfl

theorem registry_handle {u : CharTable} {msgpack : Msgpack} {payload : Bytes} {source : Text}
    {now : Nat} : (self.handle cfg u msgpack payload source now).1.registry = self.registry := by
  unfold handle
  dsimp only
  split
  · rfl
  · split
    · rfl
    · split
      · rfl
      · exact registry_append

end Ingest

namespace Receiver

variable {cfg : IngestConfig} {u : CharTable} {msgpack : Msgpack} {r r' : Receiver} {a : Action}

/-- Nothing but a refresh changes the registry. -/
theorem registry_step (hs : step cfg u msgpack r a = some r')
    (ha : ∀ registry, a ≠ .refresh registry) : r'.ingest.registry = r.ingest.registry := by
  cases a with
  | handle payload source now =>
      cases hs
      exact Ingest.registry_handle
  | flush =>
      cases hs
      exact Ingest.registry_scheduleFlush
  | startPush i now =>
      rw [step] at hs
      split at hs
      · cases hs
        unfold Ingest.startPush
        dsimp only
        split
        · rfl
        · split <;> rfl
      · cases hs
  | finishPush i outcome =>
      rw [step] at hs
      split at hs
      · cases hs
        cases outcome <;> rfl
      · cases hs
  | checkBackpressure maxQueueLength depth now =>
      cases hs
      unfold Ingest._checkBackpressure
      split
      · rfl
      · split <;> rfl
  | refresh registry => exact absurd rfl (ha registry)

/-- What a `_push` task has taken are entries of calls. -/
theorem exists_call_of_batch (hmsgpack : msgpack.Lawful)
    (h : Reach (system cfg u msgpack) (CallOk msgpack) r) {j : Nat} {batch : List Bytes}
    (htask : r.ingest.tasks[j]? = some (.pushing batch)) {entry : Bytes} (hentry : entry ∈ batch) :
    ∃ call ∈ r.calls, call.entry cfg u msgpack = some entry := by
  have hbatch : entry ∈ r.inBatch :=
    List.mem_flatMap.mpr ⟨_, List.mem_of_getElem? htask, hentry⟩
  exact List.mem_filterMap.mp ((inv_reach hmsgpack h).order.subset
    (List.mem_append_left _ (List.mem_append_right _ hbatch)))

/-- Every payload is counted as received, and every record as parsed. -/
structure Counted (cfg : IngestConfig) (u : CharTable) (msgpack : Msgpack) (r : Receiver) : Prop where
  received : r.ingest.counts .received = r.calls.length
  parsed : r.ingest.counts .parsed = (r.calls.filterMap (Call.entry cfg u msgpack)).length

/-- **The counters count calls.** -/
theorem Counted.step (hmsgpack : msgpack.Lawful) (h : r.Counted cfg u msgpack) (ha : CallOk msgpack r a)
    (hs : step cfg u msgpack r a = some r') : r'.Counted cfg u msgpack := by
  obtain ⟨hreceived, hparsed⟩ := h
  cases a with
  | handle payload source now =>
      cases hs
      by_cases hsource : source ∈ r.ingest.registry
      · cases hparse : (cfg.parser.parseBytes u payload).1 with
        | none =>
            have hentry : (⟨payload, source, now, r.ingest.registry⟩ : Call).entry cfg u msgpack =
                none := by
              rw [Call.entry, if_pos hsource, hparse]
              rfl
            rw [Ingest.handle_rejected hsource hparse]
            constructor
            · simp [Ingest.count, hreceived]
            · simp [Ingest.count, hparsed, hentry]
        | some log =>
            obtain ⟨entry, hencode, hhandle⟩ := Ingest.exists_handle hmsgpack ha.1 ha.2 hsource hparse
            have hentry : (⟨payload, source, now, r.ingest.registry⟩ : Call).entry cfg u msgpack =
                some entry := Call.entry_eq_some.mpr ⟨hsource, log, hparse, hencode⟩
            rw [hhandle]
            constructor
            · simp [Ingest.count, hreceived]
            · simp [Ingest.count, hparsed, hentry]
      · have hentry : (⟨payload, source, now, r.ingest.registry⟩ : Call).entry cfg u msgpack =
            none := by rw [Call.entry, if_neg hsource]
        rw [Ingest.handle_unknown hsource]
        constructor
        · simp [Ingest.count, hreceived]
        · simp [Ingest.count, hparsed, hentry]
  | flush =>
      cases hs
      exact ⟨by simpa using hreceived, by simpa using hparsed⟩
  | startPush i now =>
      rw [Receiver.step] at hs
      split at hs
      · cases hs
        unfold Ingest.startPush
        dsimp only
        split
        · exact ⟨hreceived, hparsed⟩
        · split
          · exact ⟨by simpa using hreceived, by simpa using hparsed⟩
          · exact ⟨hreceived, hparsed⟩
      · cases hs
  | finishPush i outcome =>
      rw [Receiver.step] at hs
      split at hs
      · cases hs
        cases outcome
        · exact ⟨hreceived, hparsed⟩
        · exact ⟨by simpa [Ingest.finishPush] using hreceived,
            by simpa [Ingest.finishPush] using hparsed⟩
      · cases hs
  | checkBackpressure maxQueueLength depth now =>
      cases hs
      unfold Ingest._checkBackpressure
      split
      · exact ⟨hreceived, hparsed⟩
      · split <;> exact ⟨hreceived, hparsed⟩
  | refresh registry =>
      cases hs
      exact ⟨hreceived, hparsed⟩

theorem counted_reach (hmsgpack : msgpack.Lawful) (h : Reach (system cfg u msgpack) (CallOk msgpack) r) :
    r.Counted cfg u msgpack := by
  refine Reach.invariant (P := Counted cfg u msgpack) ?_ ?_ h
  · rintro r ⟨registry, rfl⟩
    exact ⟨rfl, rfl⟩
  · exact fun r a r' hr ha hs ↦ hr.step hmsgpack ha hs

end Receiver

variable {δ : Type}

/-! ## The system -/

/-- The store with the allow-list, the receivers by number, and the queue with its workers.  The state
remembers the calls of `handle` of all receivers. -/
structure Deployment where
  allowList : AllowList
  receivers : Nat → Option Receiver
  pipeline : Pipeline
  handled : List Call

namespace Deployment

inductive Action where
  /-- A step of an API request, or of a refresh. -/
  | allowList (a : AllowList.Action)
  /-- `nls-admin add-router`. -/
  | cmdAddRouter (name ip : Text) (description : Option Text) (disabled : Bool) (now : Text)
  | start (i : Nat)
  | kill (i : Nat)
  | handle (i : Nat) (payload : Bytes) (source : Text) (now : Nat)
  /-- A tick of the flusher. -/
  | flush (i : Nat)
  | startPush (i j : Nat) (now : ℚ)
  /-- The `RPUSH` of the batch that a `_push` task has taken. -/
  | push (i j : Nat) (reply : Reply)
  | checkBackpressure (i : Nat) (maxQueueLength : Nat) (depth : Int) (now : ℚ)
  /-- A step of a worker or of maintenance. -/
  | pipeline (a : Pipeline.Action)

def empty : Deployment := ⟨.empty, fun _ ↦ none, .empty, []⟩

variable (s : Deployment)

/-- The allow-list has changed, and with it the registries. -/
def allow (allowList : AllowList) : Deployment :=
  { s with
    allowList := allowList
    receivers := fun i ↦ (s.receivers i).map fun r ↦
      { r with ingest := { r.ingest with registry := allowList.registries i } } }

def update (i : Nat) (r : Receiver) : Deployment :=
  { s with receivers := Function.update s.receivers i (some r) }

variable (cfg : IngestConfig) (wcfg : WorkerConfig) (u : CharTable) (msgpack : Msgpack)
  (clock : Clock δ)

/-- A step of a receiver that concerns nothing but itself. -/
def local_ (i : Nat) (a : Receiver.Action) : Option Deployment :=
  (s.receivers i).bind fun r ↦ (Receiver.step cfg u msgpack r a).map (s.update i)

def step : Action → Option Deployment
  | .allowList a => (s.allowList.step u a).map s.allow
  | .cmdAddRouter name ip description disabled now =>
      (RouterCall.execute u s.allowList.store (.cmdAddRouter name ip description disabled now)).map
        fun store ↦ s.allow { s.allowList with store := store }
  | .start i =>
      -- A new process has an empty registry.
      if (s.receivers i).isNone then
        some { s with
          allowList := { s.allowList with
            registries := Function.update s.allowList.registries i ∅ }
          receivers := Function.update s.receivers i (some ⟨Ingest.start ∅, [], []⟩) }
      else none
  | .kill i => some { s with receivers := Function.update s.receivers i none }
  | .handle i payload source now =>
      (s.receivers i).bind fun r ↦
        (Receiver.step cfg u msgpack r (.handle payload source now)).map fun r' ↦
          { s.update i r' with handled := s.handled ++ [⟨payload, source, now, r.ingest.registry⟩] }
  | .flush i => s.local_ cfg u msgpack i .flush
  | .startPush i j now => s.local_ cfg u msgpack i (.startPush j now)
  | .push i j reply =>
      (s.receivers i).bind fun r ↦
        match r.ingest.tasks[j]? with
        | some (.pushing batch) =>
            (Receiver.step cfg u msgpack r
                (.finishPush j (if reply = .ok then .accepted else .raised))).map fun r' ↦
              { s.update i r' with
                pipeline := if reply.effect then s.pipeline.push batch else s.pipeline }
        | _ => none
  | .checkBackpressure i maxQueueLength depth now =>
      s.local_ cfg u msgpack i (.checkBackpressure maxQueueLength depth now)
  | .pipeline (.push _ _) => none
  | .pipeline a =>
      (s.pipeline.step wcfg msgpack clock a).map fun pipeline ↦ { s with pipeline := pipeline }

def system : System Deployment Action where
  init s := s = empty
  step s := s.step cfg wcfg u msgpack clock

/-- The wire format can hold what is received, the clock has not run past what the log table can hold,
and the steps of the workers meet a condition. -/
def Ok (msgpack : Msgpack) (okPipeline : Pipeline → Pipeline.Action → Prop) (s : Deployment) : Action → Prop
  | .handle _ payload source now => msgpack.Carries payload source ∧ now < 2 ^ 32
  | .pipeline a => okPipeline s.pipeline a
  | _ => True

/-! ## The parts of a run -/

/-- What a receiver owes to the rest: its registry, its run, its calls, and what Redis accepted. -/
structure ReceiverSound (s : Deployment) (i : Nat) (r : Receiver) : Prop where
  registry : r.ingest.registry = s.allowList.registries i
  run : Reach (Receiver.system cfg u msgpack) (Receiver.CallOk msgpack) r
  calls : r.calls ⊆ s.handled
  accepted : r.redis.Sublist (s.pipeline.pushed.map Entry.payload)

/-- Each part goes through a run of its own system, and what is handed over is what arrives. -/
structure Sound (okPipeline : Pipeline → Pipeline.Action → Prop) (past : List (Finset Text))
    (s : Deployment) : Prop where
  fromPast : AllowList.FromPast past s.allowList
  canonical : s.allowList.store.Canonical
  addresses : ∀ ips ∈ past, ∀ ip ∈ ips, IsIpv4 ip
  receivers : ∀ i r, s.receivers i = some r → s.ReceiverSound cfg u msgpack i r
  handled : ∀ call ∈ s.handled, AllowList.Seen past call.registry ∧
    msgpack.Carries call.payload call.source ∧ call.now < 2 ^ 32
  pushed : ∀ x ∈ s.pipeline.pushed, ∃ call ∈ s.handled, call.entry cfg u msgpack = some x.payload
  pipeline : Reach (Pipeline.system wcfg msgpack clock) okPipeline s.pipeline

section sound

variable {cfg wcfg u msgpack clock} {s} {t : Deployment} {past : List (Finset Text)}
  {okPipeline : Pipeline → Pipeline.Action → Prop} {i : Nat} {r r' : Receiver}

theorem sound_empty : Sound cfg wcfg u msgpack clock okPipeline [] empty where
  fromPast := AllowList.fromPast_empty
  canonical := fun row hrow ↦ by cases hrow
  addresses := fun ips hips ↦ by cases hips
  receivers := fun i r hr ↦ by cases hr
  handled := fun call hcall ↦ by cases hcall
  pushed := fun x hx ↦ by cases hx
  pipeline := .init rfl

/-- A longer past. -/
theorem Sound.append (h : Sound cfg wcfg u msgpack clock okPipeline past s) :
    Sound cfg wcfg u msgpack clock okPipeline (past ++ [s.allowList.enabled]) s where
  fromPast := h.fromPast.mono (List.subset_append_left _ _)
  canonical := h.canonical
  addresses := by
    refine List.forall_mem_append.mpr ⟨h.addresses, List.forall_mem_singleton.mpr ?_⟩
    exact fun ip hip ↦ h.canonical.mem_enabled hip
  receivers := h.receivers
  handled := fun call hcall ↦
    ⟨(h.handled call hcall).1.imp_right (List.mem_append_left _), (h.handled call hcall).2⟩
  pushed := h.pushed
  pipeline := h.pipeline

/-- The allow-list changes. -/
theorem Sound.allow (h : Sound cfg wcfg u msgpack clock okPipeline past s) {allowList : AllowList}
    (hpast : AllowList.FromPast past allowList) (hcanonical : allowList.store.Canonical) :
    Sound cfg wcfg u msgpack clock okPipeline past (s.allow allowList) where
  fromPast := hpast
  canonical := hcanonical
  addresses := h.addresses
  receivers := fun i r hr ↦ by
    obtain ⟨r', hr', rfl⟩ := Option.map_eq_some_iff.mp hr
    have hold := h.receivers i r' hr'
    exact ⟨rfl, hold.run.step (a := .refresh (allowList.registries i)) trivial rfl, hold.calls,
      hold.accepted⟩
  handled := h.handled
  pushed := h.pushed
  pipeline := h.pipeline

/-- One receiver goes on, or ends, and the rest is as it was. -/
theorem Sound.receiver (h : Sound cfg wcfg u msgpack clock okPipeline past s) {o : Option Receiver}
    (hother : ∀ j r, t.receivers j = some r → s.receivers j = some r ∨ j = i ∧ o = some r)
    (hallow : t.allowList = s.allowList) (hcalls : s.handled ⊆ t.handled)
    (hhandled : ∀ call ∈ t.handled, AllowList.Seen past call.registry ∧
      msgpack.Carries call.payload call.source ∧ call.now < 2 ^ 32)
    (hrun : Reach (Pipeline.system wcfg msgpack clock) okPipeline t.pipeline)
    (hlist : s.pipeline.pushed <+: t.pipeline.pushed)
    (hpushed : ∀ x ∈ t.pipeline.pushed, x ∈ s.pipeline.pushed ∨
      ∃ call ∈ t.handled, call.entry cfg u msgpack = some x.payload)
    (ho : ∀ r, o = some r → t.ReceiverSound cfg u msgpack i r) :
    Sound cfg wcfg u msgpack clock okPipeline past t where
  fromPast := hallow ▸ h.fromPast
  canonical := hallow ▸ h.canonical
  addresses := h.addresses
  receivers := fun j r hr ↦ by
    rcases hother j r hr with hold | ⟨rfl, hnew⟩
    · have hsound := h.receivers j r hold
      exact ⟨hallow ▸ hsound.registry, hsound.run, List.Subset.trans hsound.calls hcalls,
        hsound.accepted.trans (hlist.sublist.map _)⟩
    · exact ho r hnew
  handled := hhandled
  pushed := fun x hx ↦ by
    rcases hpushed x hx with hold | hnew
    · obtain ⟨call, hcall, hentry⟩ := h.pushed x hold
      exact ⟨call, hcalls hcall, hentry⟩
    · exact hnew
  pipeline := hrun

/-- The receivers where one goes on. -/
theorem receivers_update {j : Nat} {v : Receiver}
    (hv : (s.update i r).receivers j = some v) : s.receivers j = some v ∨ j = i ∧ some r = some v := by
  replace hv : Function.update s.receivers i (some r) j = some v := hv
  rw [Function.update_apply] at hv
  split at hv
  · exact .inr ⟨‹_›, hv⟩
  · exact .inl hv

/-- A step that concerns nothing but one receiver. -/
theorem Sound.local_ (h : Sound cfg wcfg u msgpack clock okPipeline past s) {a : Receiver.Action}
    (ha : ∀ r, Receiver.CallOk msgpack r a) (hrefresh : ∀ registry, a ≠ .refresh registry)
    (hsame : ∀ r r', Receiver.step cfg u msgpack r a = some r' →
      r'.calls = r.calls ∧ r'.redis = r.redis)
    (hs : s.local_ cfg u msgpack i a = some t) :
    Sound cfg wcfg u msgpack clock okPipeline past t := by
  obtain ⟨r, hr, hlocal⟩ := Option.bind_eq_some_iff.mp hs
  obtain ⟨r', hstep, rfl⟩ := Option.map_eq_some_iff.mp hlocal
  have hold := h.receivers i r hr
  obtain ⟨hcalls, hredis⟩ := hsame r r' hstep
  refine h.receiver (fun j v ↦ receivers_update) rfl (List.Subset.refl _) h.handled h.pipeline
    (List.prefix_refl _) (fun x hx ↦ .inl hx) fun v hv ↦ ?_
  obtain rfl := Option.some.inj hv
  exact ⟨(Receiver.registry_step hstep hrefresh).trans hold.registry, hold.run.step (ha r) hstep,
    hcalls ▸ hold.calls, hredis ▸ hold.accepted⟩

/-- A receiver starts, with an empty registry. -/
theorem Sound.start (h : Sound cfg wcfg u msgpack clock okPipeline past s) (i : Nat) :
    Sound cfg wcfg u msgpack clock okPipeline past { s with
      allowList := { s.allowList with registries := Function.update s.allowList.registries i ∅ }
      receivers := Function.update s.receivers i (some ⟨Ingest.start ∅, [], []⟩) } where
  fromPast := fun ips hips ↦ by
    cases hips with
    | authorizedRouters => exact h.fromPast _ .authorizedRouters
    | registry receiver =>
        show AllowList.Seen past (Function.update s.allowList.registries i ∅ receiver)
        rw [Function.update_apply]
        split
        · exact .inl rfl
        · exact h.fromPast _ (.registry receiver)
    | op hop hmem => exact h.fromPast _ (.op hop hmem)
  canonical := h.canonical
  addresses := h.addresses
  receivers := fun j r hr ↦ by
    replace hr : Function.update s.receivers i (some ⟨Ingest.start ∅, [], []⟩) j = some r := hr
    rw [Function.update_apply] at hr
    split at hr
    · rename_i heq
      obtain rfl := Option.some.inj hr
      refine ⟨?_, .init ⟨∅, rfl⟩, List.nil_subset _, List.nil_sublist _⟩
      rw [heq]
      exact (Function.update_self i ∅ s.allowList.registries).symm
    · rename_i hne
      have hold := h.receivers j r hr
      refine ⟨hold.registry.trans ?_, hold.run, hold.calls, hold.accepted⟩
      exact (Function.update_of_ne hne ∅ s.allowList.registries).symm
  handled := h.handled
  pushed := h.pushed
  pipeline := h.pipeline

theorem map_payload_number (n : Nat) (payloads : List Bytes) :
    (Pipeline.number n payloads).map Entry.payload = payloads := by
  induction payloads generalizing n with
  | nil => rfl
  | cons payload payloads ih => rw [Pipeline.number, List.map_cons, ih]

/-- **A batch enters the queue**, and the receiver gets to know of it, or not. -/
theorem Sound.push (h : Sound cfg wcfg u msgpack clock okPipeline past s) (hmsgpack : msgpack.Lawful)
    (hpush : ∀ pipeline payloads reply, okPipeline pipeline (.push payloads reply))
    (hr : s.receivers i = some r) {j : Nat} {batch : List Bytes}
    (htask : r.ingest.tasks[j]? = some (.pushing batch)) {reply : Reply}
    (hs : Receiver.step cfg u msgpack r
      (.finishPush j (if reply = .ok then .accepted else .raised)) = some r') :
    Sound cfg wcfg u msgpack clock okPipeline past { s.update i r' with
      pipeline := if reply.effect then s.pipeline.push batch else s.pipeline } := by
  have hold := h.receivers i r hr
  have hregistry := (Receiver.registry_step hs (by simp)).trans hold.registry
  have hstep : s.pipeline.step wcfg msgpack clock (.push batch reply) =
      some (if reply.effect then s.pipeline.push batch else s.pipeline) := rfl
  have hlist : s.pipeline.pushed <+:
      (if reply.effect then s.pipeline.push batch else s.pipeline).pushed := by
    split
    · exact List.prefix_append _ _
    · exact List.prefix_refl _
  have hrun : Reach (Receiver.system cfg u msgpack) (Receiver.CallOk msgpack) r' :=
    hold.run.step (a := .finishPush j (if reply = .ok then .accepted else .raised)) trivial hs
  refine h.receiver (fun k v ↦ receivers_update) rfl (List.Subset.refl _) h.handled
    (h.pipeline.step (hpush _ _ _) hstep) hlist (fun x hx ↦ ?_) fun v hv ↦ ?_
  · split at hx
    · rcases List.mem_append.mp hx with hx | hx
      · exact .inl hx
      · have hbatch : x.payload ∈ batch := by
          rw [← map_payload_number s.pipeline.pushed.length batch]
          exact List.mem_map_of_mem hx
        obtain ⟨call, hcall, hentry⟩ := Receiver.exists_call_of_batch hmsgpack hold.run htask hbatch
        exact .inr ⟨call, hold.calls hcall, hentry⟩
    · exact .inl hx
  · obtain rfl := Option.some.inj hv
    rw [Receiver.step, htask] at hs
    cases hs
    refine ⟨hregistry, hrun, hold.calls, ?_⟩
    cases reply with
    | ok =>
        show (r.redis ++ batch).Sublist ((s.pipeline.pushed ++ _).map Entry.payload)
        rw [List.map_append, map_payload_number]
        exact hold.accepted.append (List.Sublist.refl _)
    | failed => exact hold.accepted
    | lost => exact hold.accepted.trans (hlist.sublist.map _)

/-- A step of a worker or of maintenance puts nothing new into the queue. -/
theorem exists_pipeline_step {a : Pipeline.Action}
    (hs : s.step cfg wcfg u msgpack clock (.pipeline a) = some t) : ∃ pipeline,
      s.pipeline.step wcfg msgpack clock a = some pipeline ∧
        pipeline.pushed = s.pipeline.pushed ∧ t = { s with pipeline := pipeline } := by
  have hmap : ∀ payloads reply, a ≠ .push payloads reply := by
    rintro payloads reply rfl
    cases hs
  have hs' : ((s.pipeline.step wcfg msgpack clock a).map fun pipeline ↦
      { s with pipeline := pipeline }) = some t := by
    cases a with
    | push payloads reply => exact absurd rfl (hmap payloads reply)
    | _ => exact hs
  obtain ⟨pipeline, hstep, rfl⟩ := Option.map_eq_some_iff.mp hs'
  exact ⟨pipeline, hstep, Pipeline.pushed_step hmap hstep, rfl⟩

/-- **Every step keeps the parts sound.** -/
theorem Sound.step (hmsgpack : msgpack.Lawful)
    (hpush : ∀ pipeline payloads reply, okPipeline pipeline (.push payloads reply))
    (h : Sound cfg wcfg u msgpack clock okPipeline past s) (hnow : s.allowList.enabled ∈ past)
    {a : Action} (hok : s.Ok msgpack okPipeline a) (hs : s.step cfg wcfg u msgpack clock a = some t) :
    Sound cfg wcfg u msgpack clock okPipeline past t := by
  cases a with
  | allowList a =>
      obtain ⟨allowList, hstep, rfl⟩ := Option.map_eq_some_iff.mp hs
      exact h.allow (h.fromPast.step hnow hstep) (AllowList.canonical_step h.canonical hstep)
  | cmdAddRouter name ip description disabled now =>
      obtain ⟨store, hexecute, rfl⟩ := Option.map_eq_some_iff.mp hs
      refine h.allow (fun ips hips ↦ ?_) ?_
      · cases hips with
        | authorizedRouters => exact h.fromPast _ .authorizedRouters
        | registry receiver => exact h.fromPast _ (.registry receiver)
        | op hop hmem => exact h.fromPast _ (.op hop hmem)
      · rw [RouterCall.execute] at hexecute
        cases hadd : s.allowList.store.addRouter u now name ip (description.getD []) !disabled with
        | error e =>
            rw [hadd] at hexecute
            cases hexecute
        | ok x =>
            rw [hadd] at hexecute
            cases hexecute
            exact h.canonical.addRouter hadd
  | start i =>
      rw [Deployment.step] at hs
      split at hs
      · cases hs
        exact h.start i
      · cases hs
  | kill i =>
      cases hs
      refine h.receiver (i := i) (o := none) (fun j v hv ↦ ?_) rfl (List.Subset.refl _) h.handled
        h.pipeline (List.prefix_refl _) (fun x hx ↦ .inl hx) fun v hv ↦ by cases hv
      replace hv : Function.update s.receivers i none j = some v := hv
      rw [Function.update_apply] at hv
      split at hv
      · cases hv
      · exact .inl hv
  | handle i payload source now =>
      obtain ⟨r, hr, hlocal⟩ := Option.bind_eq_some_iff.mp hs
      obtain ⟨r', hstep, rfl⟩ := Option.map_eq_some_iff.mp hlocal
      have hold := h.receivers i r hr
      have hregistry := (Receiver.registry_step hstep (by simp)).trans hold.registry
      have hseen : AllowList.Seen past r.ingest.registry := by
        rw [hold.registry]
        exact h.fromPast _ (.registry i)
      refine h.receiver (fun j v ↦ receivers_update) rfl (List.subset_append_left _ _) ?_ h.pipeline
        (List.prefix_refl _) (fun x hx ↦ .inl hx) fun v hv ↦ ?_
      · exact List.forall_mem_append.mpr ⟨h.handled, List.forall_mem_singleton.mpr ⟨hseen, hok⟩⟩
      · obtain rfl := Option.some.inj hv
        have hcall : Receiver.CallOk msgpack r (.handle payload source now) :=
          ⟨hok.1, Nat.lt_of_lt_of_le hok.2 (Nat.pow_le_pow_right Nat.two_pos (by decide))⟩
        refine ⟨hregistry, hold.run.step hcall hstep, ?_, ?_⟩
        · cases hstep
          exact List.append_subset.mpr ⟨List.Subset.trans hold.calls (List.subset_append_left _ _),
            List.subset_append_right _ _⟩
        · cases hstep
          exact hold.accepted
  | flush i =>
      refine h.local_ (a := .flush) (fun _ ↦ trivial) (by simp) (fun r r' hstep ↦ ?_) hs
      cases hstep
      exact ⟨rfl, rfl⟩
  | startPush i j now =>
      refine h.local_ (a := .startPush j now) (fun _ ↦ trivial) (by simp) (fun r r' hstep ↦ ?_) hs
      rw [Receiver.step] at hstep
      split at hstep <;> cases hstep
      exact ⟨rfl, rfl⟩
  | push i j reply =>
      obtain ⟨r, hr, hlocal⟩ := Option.bind_eq_some_iff.mp hs
      split at hlocal
      · rename_i batch htask
        obtain ⟨r', hstep, rfl⟩ := Option.map_eq_some_iff.mp hlocal
        exact h.push hmsgpack hpush hr htask hstep
      · cases hlocal
  | checkBackpressure i maxQueueLength depth now =>
      refine h.local_ (a := .checkBackpressure maxQueueLength depth now) (fun _ ↦ trivial) (by simp)
        (fun r r' hstep ↦ ?_) hs
      cases hstep
      exact ⟨rfl, rfl⟩
  | pipeline a =>
      obtain ⟨pipeline, hstep, hpushed, rfl⟩ := exists_pipeline_step hs
      refine ⟨h.fromPast, h.canonical, h.addresses, fun i r hr ↦ ?_, h.handled, ?_,
        h.pipeline.step hok hstep⟩
      · have hold := h.receivers i r hr
        exact ⟨hold.registry, hold.run, hold.calls, hpushed ▸ hold.accepted⟩
      · exact hpushed ▸ h.pushed

end sound

end Deployment

end LogServer
