import LogServer.Services.Once
import LogServer.Services.Provenance

/-!
# No record twice

Where no record is lost silently, none is made up either.  Each call of `handle` puts one entry at most into a
buffer, a buffer becomes a batch, and a batch enters the queue once or not at all, whatever the receiver gets to
know of it (`pushed_once`).  Where no worker is killed and no call of a worker fails, each entry is inserted
once at most, so that the log table has no more rows of a content than there were calls that made an entry of
it (`stored_once`).

Both count entries as multisets, over the receivers that ever ran.  One step of one receiver is
`Bounded.receiver`.
-/

namespace LogServer

open Transition

variable {δ : Type}

/-! ## What a receiver holds -/

namespace Receiver

variable {cfg : IngestConfig} {u : CharTable} {msgpack : Msgpack} {r r' : Receiver}

/-- The entries in the memory of a receiver. -/
def held (r : Receiver) : Multiset Bytes := ↑(r.inBatch ++ r.ingest.buffer)

/-- The one task there is. -/
theorem Inv.tasks_eq (h : Inv cfg u msgpack r) {i : Nat} {task : PushTask}
    (hi : r.ingest.tasks[i]? = some task) : i = 0 ∧ r.ingest.tasks = [task] := by
  refine eq_singleton_of_getElem? ?_ hi
  rw [h.tasks]
  split <;> decide

theorem held_scheduleFlush {ingest : Ingest} {redis : List Bytes} {calls : List Call} :
    (⟨ingest._scheduleFlush, redis, calls⟩ : Receiver).held = (⟨ingest, redis, calls⟩ : Receiver).held := by
  unfold Ingest._scheduleFlush
  split
  · simp [held, inBatch, PushTask.batch]
  · rfl

/-- An entry that is appended is held. -/
theorem held_append {ingest : Ingest} {redis : List Bytes} {calls : List Call} (entry : Bytes) :
    (⟨ingest.append cfg entry, redis, calls⟩ : Receiver).held =
      (⟨ingest, redis, calls⟩ : Receiver).held + {entry} := by
  have hbuffer : (⟨{ ingest with buffer := ingest.buffer ++ [entry] }, redis, calls⟩ : Receiver).held =
      (⟨ingest, redis, calls⟩ : Receiver).held + {entry} := by
    show ((_ ++ (ingest.buffer ++ [entry]) : List Bytes) : Multiset Bytes) = _
    rw [← List.append_assoc, ← Multiset.coe_add]
    rfl
  unfold Ingest.append
  dsimp only
  split
  · rw [held_scheduleFlush, hbuffer]
  · exact hbuffer

/-- A call of `handle` adds its entry, if it has one. -/
theorem held_handle (hmsgpack : msgpack.Lawful) {payload : Bytes} {source : Text}
    (hcarries : msgpack.Carries payload source) {now : Nat} (hnow : now < 2 ^ 64) (hs : step cfg u msgpack r (.handle payload source now) = some r') :
    r'.held = r.held +
      ↑((⟨payload, source, now, r.ingest.registry⟩ : Call).entry cfg u msgpack).toList := by
  cases hs
  by_cases hsource : source ∈ r.ingest.registry
  · cases hparse : (cfg.parser.parseBytes u payload).1 with
    | none =>
        rw [Ingest.handle_rejected hsource hparse, Call.entry, if_pos hsource, hparse]
        exact (add_zero _).symm
    | some log =>
        obtain ⟨entry, hencode, hhandle⟩ := Ingest.exists_handle hmsgpack hcarries hnow hsource hparse
        rw [hhandle, Call.entry_eq_some.mpr ⟨hsource, log, hparse, hencode⟩]
        exact held_append entry
  · rw [Ingest.handle_unknown hsource, Call.entry, if_neg hsource]
    exact (add_zero _).symm

/-- A step that is no call and ends no push adds nothing. -/
theorem held_step (h : Inv cfg u msgpack r) {a : Action}
    (hhandle : ∀ payload source now, a ≠ .handle payload source now)
    (hfinish : ∀ j outcome, a ≠ .finishPush j outcome) (hs : step cfg u msgpack r a = some r') :
    r'.held ≤ r.held := by
  cases a with
  | handle payload source now => exact absurd rfl (hhandle payload source now)
  | flush =>
      cases hs
      exact held_scheduleFlush.le
  | startPush i now =>
      rw [step] at hs
      split at hs
      · rename_i hi
        cases hs
        obtain ⟨rfl, htasks⟩ := h.tasks_eq hi
        unfold Ingest.startPush
        dsimp only
        split
        · simp [held, inBatch, htasks]
        · split
          · simp [held, inBatch, htasks, Ingest.incr]
          · simp [held, inBatch, htasks, PushTask.batch]
      · cases hs
  | finishPush i outcome => exact absurd rfl (hfinish i outcome)
  | checkBackpressure maxQueueLength depth now =>
      cases hs
      unfold Ingest._checkBackpressure
      split
      · exact le_rfl
      · split <;> exact le_rfl
  | refresh registry =>
      cases hs
      exact le_rfl

/-- A push that ends gives its batch away. -/
theorem held_finishPush (h : Inv cfg u msgpack r) {j : Nat} {outcome : PushOutcome} {batch : List Bytes}
    (htask : r.ingest.tasks[j]? = some (.pushing batch))
    (hs : step cfg u msgpack r (.finishPush j outcome) = some r') : r'.held + ↑batch = r.held := by
  obtain ⟨rfl, htasks⟩ := h.tasks_eq htask
  rw [step, htask] at hs
  cases hs
  have hbefore : r.held = ↑batch + ↑r.ingest.buffer := by
    rw [held, inBatch, htasks, ← Multiset.coe_add]
    simp [PushTask.batch]
  rw [hbefore, add_comm]
  refine congrArg ((batch : Multiset Bytes) + ·) ?_
  cases outcome <;> simp [held, inBatch, Ingest.finishPush, Ingest.incr, htasks]

end Receiver

/-! ## Workers to whom nothing happens -/

namespace Pipeline

variable {cfg : WorkerConfig} {msgpack : Msgpack} {clock : Clock δ} {s : Pipeline}

/-- No worker is killed, and no call of a worker or of maintenance fails.  A push may fail. -/
def Steady : Action → Prop
  | .push _ _ => True
  | a => Calm a

/-- A push whose reply is lost is one that succeeds, and one that fails is none. -/
theorem Steady.reach (h : Reach (system cfg msgpack clock)
    (fun s a ↦ Steady a ∧ s.Distinct a ∧ s.Spares a) s) :
    Reach (system cfg msgpack clock) (fun s a ↦ Calm a ∧ s.Distinct a ∧ s.Spares a) s := by
  induction h with
  | init hs => exact .init hs
  | @step s s' a _ hok hs ih =>
      cases a with
      | push payloads reply =>
          cases hs
          split
          · exact ih.step (a := .push payloads .ok) ⟨rfl, trivial, trivial⟩ rfl
          · exact ih
      | _ =>
          refine .step ih ?_ hs
          exact ⟨hok.1, hok.2⟩

end Pipeline

/-! ## What a deployment holds -/

namespace Deployment

variable {cfg : IngestConfig} {wcfg : WorkerConfig} {u : CharTable} {msgpack : Msgpack}
  {clock : Clock δ} {s t : Deployment} {K : Finset ℕ} {i : ℕ}
  {okPipeline : Pipeline → Pipeline.Action → Prop}

/-- The entries in the memory of a receiver, if it runs. -/
def heldBy (s : Deployment) (i : ℕ) : Multiset Bytes := (s.receivers i).elim 0 Receiver.held

/-- The contents of the queue's history. -/
def accepted (s : Deployment) : Multiset Bytes := ↑(s.pipeline.pushed.map Entry.payload)

variable (cfg u msgpack) in
/-- The entries that calls should put into the queue. -/
def entries (s : Deployment) : Multiset Bytes := ↑(s.handled.filterMap (Call.entry cfg u msgpack))

/-- What entered the queue and what is on its way to it are entries of as many calls. -/
structure Bounded (cfg : IngestConfig) (u : CharTable) (msgpack : Msgpack) (K : Finset ℕ) (s : Deployment) :
    Prop where
  running : ∀ i ∉ K, s.receivers i = none
  bound : s.accepted + ∑ i ∈ K, s.heldBy i ≤ s.entries cfg u msgpack

theorem bounded_empty : empty.Bounded cfg u msgpack ∅ := ⟨fun _ _ ↦ rfl, le_rfl⟩

/-- A receiver that does not run holds nothing. -/
theorem Bounded.extend (h : s.Bounded cfg u msgpack K) (i : ℕ) : s.Bounded cfg u msgpack (insert i K) := by
  refine ⟨fun j hj ↦ h.running j fun hmem ↦ hj (Finset.mem_insert_of_mem hmem), ?_⟩
  by_cases hi : i ∈ K
  · rw [Finset.insert_eq_of_mem hi]
    exact h.bound
  · have hnone : s.heldBy i = 0 := by rw [heldBy, h.running i hi, Option.elim_none]
    rw [Finset.sum_insert hi, hnone, zero_add]
    exact h.bound

/-- Nothing that counts has changed. -/
theorem Bounded.congr (h : s.Bounded cfg u msgpack K) (hrunning : ∀ i ∉ K, t.receivers i = none)
    (hheld : t.heldBy = s.heldBy) (haccepted : t.accepted = s.accepted)
    (hentries : t.entries cfg u msgpack = s.entries cfg u msgpack) : t.Bounded cfg u msgpack K := by
  refine ⟨hrunning, ?_⟩
  rw [haccepted, hheld, hentries]
  exact h.bound

/-- **One receiver goes on.**  What it gives to the queue and keeps is what it had and was called with. -/
theorem Bounded.receiver (h : s.Bounded cfg u msgpack K) (given called : Multiset Bytes) (hi : i ∈ K)
    (hother : ∀ j ≠ i, t.receivers j = s.receivers j)
    (haccepted : t.accepted = s.accepted + given)
    (hentries : t.entries cfg u msgpack = s.entries cfg u msgpack + called)
    (hheld : t.heldBy i + given ≤ s.heldBy i + called) : t.Bounded cfg u msgpack K := by
  refine ⟨fun j hj ↦ (hother j fun heq ↦ hj (heq ▸ hi)).trans (h.running j hj), ?_⟩
  have hrest : ∑ j ∈ K.erase i, t.heldBy j = ∑ j ∈ K.erase i, s.heldBy j :=
    Finset.sum_congr rfl fun j hj ↦ by rw [heldBy, heldBy, hother j (Finset.ne_of_mem_erase hj)]
  have hbound := h.bound
  rw [← Finset.add_sum_erase K _ hi] at hbound ⊢
  rw [haccepted, hentries, hrest]
  calc s.accepted + given + (t.heldBy i + ∑ j ∈ K.erase i, s.heldBy j)
      = s.accepted + ∑ j ∈ K.erase i, s.heldBy j + (t.heldBy i + given) := by ac_rfl
    _ ≤ s.accepted + ∑ j ∈ K.erase i, s.heldBy j + (s.heldBy i + called) := by gcongr
    _ = s.accepted + (s.heldBy i + ∑ j ∈ K.erase i, s.heldBy j) + called := by ac_rfl
    _ ≤ s.entries cfg u msgpack + called := by gcongr

/-- The receivers have changed in nothing but their registries. -/
theorem Bounded.allow (h : s.Bounded cfg u msgpack K) (allowList : AllowList) :
    (s.allow allowList).Bounded cfg u msgpack K := by
  refine h.congr (fun i hi ↦ ?_) (funext fun i ↦ ?_) rfl rfl
  · show (s.receivers i).map _ = none
    rw [h.running i hi]
    rfl
  · show ((s.receivers i).map _).elim 0 Receiver.held = (s.receivers i).elim 0 Receiver.held
    cases s.receivers i <;> rfl

theorem heldBy_update {r : Receiver} : (s.update i r).heldBy i = r.held := by
  show ((Function.update s.receivers i (some r)) i).elim 0 Receiver.held = _
  rw [Function.update_self]
  rfl

theorem heldBy_eq {r : Receiver} (hr : s.receivers i = some r) : s.heldBy i = r.held := by
  rw [heldBy, hr]
  rfl

/-- A receiver starts, ends, or goes on by itself, and has nothing more than before. -/
theorem Bounded.update (h : s.Bounded cfg u msgpack K) (i : ℕ) {o : Option Receiver}
    (hreceivers : t.receivers = Function.update s.receivers i o) (haccepted : t.accepted = s.accepted)
    (hentries : t.entries cfg u msgpack = s.entries cfg u msgpack)
    (hheld : o.elim 0 Receiver.held ≤ s.heldBy i) : ∃ K, t.Bounded cfg u msgpack K := by
  refine ⟨insert i K, (h.extend i).receiver 0 0 (Finset.mem_insert_self i K) (fun j hj ↦ ?_)
    (haccepted.trans (add_zero _).symm) (hentries.trans (add_zero _).symm) ?_⟩
  · rw [hreceivers, Function.update_of_ne hj]
  · rw [add_zero, add_zero, heldBy, hreceivers, Function.update_self]
    exact hheld

/-- A receiver goes on by itself. -/
theorem Bounded.local_ (h : s.Bounded cfg u msgpack K)
    (hinv : ∀ i r, s.receivers i = some r → r.Inv cfg u msgpack) {a : Receiver.Action}
    (hhandle : ∀ payload source now, a ≠ .handle payload source now)
    (hfinish : ∀ j outcome, a ≠ .finishPush j outcome) (hs : s.local_ cfg u msgpack i a = some t) :
    ∃ K, t.Bounded cfg u msgpack K := by
  obtain ⟨r, hr, hlocal⟩ := Option.bind_eq_some_iff.mp hs
  obtain ⟨r', hstep, rfl⟩ := Option.map_eq_some_iff.mp hlocal
  refine h.update i (o := some r') rfl rfl rfl ?_
  rw [heldBy_eq hr]
  exact Receiver.held_step (hinv i r hr) hhandle hfinish hstep

/-- **Every step keeps the bound.** -/
theorem Bounded.step (h : s.Bounded cfg u msgpack K) (hmsgpack : msgpack.Lawful)
    (hinv : ∀ i r, s.receivers i = some r → r.Inv cfg u msgpack) {a : Action} (hok : s.Ok msgpack okPipeline a)
    (hs : s.step cfg wcfg u msgpack clock a = some t) : ∃ K, t.Bounded cfg u msgpack K := by
  cases a with
  | allowList a =>
      obtain ⟨allowList, -, rfl⟩ := Option.map_eq_some_iff.mp hs
      exact ⟨K, h.allow allowList⟩
  | cmdAddRouter name ip description disabled now =>
      obtain ⟨store, -, rfl⟩ := Option.map_eq_some_iff.mp hs
      exact ⟨K, h.allow _⟩
  | start i =>
      rw [Deployment.step] at hs
      split at hs
      · cases hs
        exact h.update i rfl rfl rfl (Multiset.zero_le _)
      · cases hs
  | kill i =>
      cases hs
      exact h.update i (o := none) rfl rfl rfl (Multiset.zero_le _)
  | handle i payload source now =>
      obtain ⟨r, hr, hlocal⟩ := Option.bind_eq_some_iff.mp hs
      obtain ⟨r', hstep, rfl⟩ := Option.map_eq_some_iff.mp hlocal
      have hnow : now < 2 ^ 64 := Nat.lt_of_lt_of_le hok.2 (Nat.pow_le_pow_right Nat.two_pos (by decide))
      refine ⟨insert i K, (h.extend i).receiver 0
        ↑((⟨payload, source, now, r.ingest.registry⟩ : Call).entry cfg u msgpack).toList
        (Finset.mem_insert_self i K) (fun j hj ↦ Function.update_of_ne hj _ _) (add_zero _).symm ?_ ?_⟩
      · show ((List.filterMap _ (s.handled ++ [_]) : List Bytes) : Multiset Bytes) = _
        rw [List.filterMap_append, ← Multiset.coe_add, entries]
        refine congrArg (_ + ·) ?_
        cases hentry : (⟨payload, source, now, r.ingest.registry⟩ : Call).entry cfg u msgpack with
        | none => rw [List.filterMap_cons_none hentry]; rfl
        | some entry => rw [List.filterMap_cons_some hentry]; rfl
      · rw [add_zero, heldBy_eq hr, ← Receiver.held_handle hmsgpack hok.1 hnow hstep]
        exact heldBy_update.le
  | flush i => exact h.local_ hinv (by simp) (by simp) hs
  | startPush i j now => exact h.local_ hinv (by simp) (by simp) hs
  | push i j reply =>
      obtain ⟨r, hr, hlocal⟩ := Option.bind_eq_some_iff.mp hs
      split at hlocal
      · rename_i batch htask
        obtain ⟨r', hstep, rfl⟩ := Option.map_eq_some_iff.mp hlocal
        have hheld := Receiver.held_finishPush (hinv i r hr) htask hstep
        refine ⟨insert i K, (h.extend i).receiver (if reply.effect then ↑batch else 0) 0
          (Finset.mem_insert_self i K) (fun j hj ↦ Function.update_of_ne hj _ _) ?_ (add_zero _).symm ?_⟩
        · show ((_ : List Bytes) : Multiset Bytes) = _
          split
          · show (((s.pipeline.pushed ++ _).map Entry.payload : List Bytes) : Multiset Bytes) = _
            rw [List.map_append, map_payload_number, ← Multiset.coe_add]
            rfl
          · exact (add_zero _).symm
        · rw [add_zero, heldBy_eq hr, ← hheld]
          refine add_le_add heldBy_update.le ?_
          split
          · exact le_rfl
          · exact Multiset.zero_le _
      · cases hlocal
  | checkBackpressure i maxQueueLength depth now => exact h.local_ hinv (by simp) (by simp) hs
  | pipeline a =>
      obtain ⟨pipeline, -, hpushed, rfl⟩ := exists_pipeline_step hs
      refine ⟨K, h.congr h.running rfl ?_ rfl⟩
      rw [accepted, accepted, hpushed]

theorem bounded_reach (hmsgpack : msgpack.Lawful)
    (hpush : ∀ pipeline payloads reply, okPipeline pipeline (.push payloads reply))
    (h : Reach (system cfg wcfg u msgpack clock) (Ok msgpack okPipeline) s) : ∃ K, s.Bounded cfg u msgpack K := by
  induction h with
  | init hs =>
      obtain rfl := hs
      exact ⟨∅, bounded_empty⟩
  | step hreach hok hs ih =>
      obtain ⟨K, hbounded⟩ := ih
      obtain ⟨past, hsound⟩ := Sound.reach hmsgpack hpush hreach
      exact hbounded.step hmsgpack
        (fun i r hr ↦ Receiver.inv_reach hmsgpack (hsound.receivers i r hr).run) hok hs

/-! ## Once at most -/

/-- **No entry twice in the queue's history.**  In every run, whatever fails: entries of one content have
entered the queue as often at most as there were calls of `handle` that made such an entry. -/
theorem pushed_once (hmsgpack : msgpack.Lawful)
    (h : Reach (system cfg wcfg u msgpack clock) (Ok msgpack fun _ _ ↦ True) s) :
    s.accepted ≤ s.entries cfg u msgpack := by
  obtain ⟨K, hbounded⟩ := bounded_reach hmsgpack (fun _ _ _ ↦ trivial) h
  exact (Multiset.le_add_right _ _).trans hbounded.bound

/-- The one entry of the session. -/
theorem pushed_once_session : ∃ s : Deployment, Reach sessionSystem (Ok msgpackRows fun _ _ ↦ True) s ∧
    s.pipeline.pushed.length = 1 ∧ s.accepted ≤ s.entries ⟨{}, 1⟩ .ascii msgpackRows := by
  obtain ⟨-, t, -, ht, -, -, -, hpushed⟩ := exists_session Clock.seconds_lawful
  exact ⟨t, reach_weaken ht, hpushed, pushed_once msgpackRows_lawful (reach_weaken ht)⟩

/-- **No row twice in the log table.**  In every run in which no worker is killed, no call of a worker or of
maintenance fails, and the scan finds each worker that holds a batch in its snapshot: the log table has as many
rows of one content at most as there were calls of `handle` that made such an entry.  Receivers may be killed,
and their pushes may fail. -/
theorem stored_once (hmsgpack : msgpack.Lawful)
    (h : Reach (system cfg wcfg u msgpack clock)
      (Ok msgpack fun s a ↦ Pipeline.Steady a ∧ s.Distinct a ∧ s.Spares a) s) :
    ((s.pipeline.inserted.map Entry.payload : List Bytes) : Multiset Bytes) ≤ s.entries cfg u msgpack := by
  obtain ⟨past, hsound⟩ := Sound.reach hmsgpack (fun _ _ _ ↦ ⟨trivial, trivial, trivial⟩) h
  have hnodup := (Pipeline.Once.reach (Pipeline.Steady.reach hsound.pipeline)).2.tidy.nodup
  have hsourced := (Pipeline.Sourced.reach hsound.pipeline).inserted
  have hle : (s.pipeline.inserted : Multiset Entry) ≤ s.pipeline.pushed :=
    (Multiset.le_iff_subset (Multiset.coe_nodup.mpr hnodup)).mpr hsourced
  have hmap := Multiset.map_le_map (f := Entry.payload) hle
  rw [Multiset.map_coe, Multiset.map_coe] at hmap
  obtain ⟨K, hbounded⟩ := bounded_reach hmsgpack (fun _ _ _ ↦ ⟨trivial, trivial, trivial⟩) h
  exact hmap.trans ((Multiset.le_add_right _ _).trans hbounded.bound)

/-- A worker inserts the one entry of the session. -/
theorem stored_once_session : ∃ s : Deployment, Reach sessionSystem
      (Ok msgpackRows fun s a ↦ Pipeline.Steady a ∧ s.Distinct a ∧ s.Spares a) s ∧ s.pipeline.inserted.length = 1 ∧
    ((s.pipeline.inserted.map Entry.payload : List Bytes) : Multiset Bytes) ≤
      s.entries ⟨{}, 1⟩ .ascii msgpackRows := by
  obtain ⟨entry, row, hhandle, hdecode, hsome⟩ := exists_entry_sessionLine Clock.seconds_lawful
  obtain ⟨r, hrefreshed, hr, hempty⟩ :=
    exists_refreshed Clock.seconds fun s a ↦ Pipeline.Steady a ∧ s.Distinct a ∧ s.Spares a
  obtain ⟨q, hpushed, hq⟩ := exists_pushed Clock.seconds
    (fun s a ↦ Pipeline.Steady a ∧ s.Distinct a ∧ s.Spares a) hr hhandle
  rw [hempty] at hq
  have hrun : ∃ t : Deployment, sessionSystem.Run
      (Ok msgpackRows fun s a ↦ Pipeline.Steady a ∧ s.Distinct a ∧ s.Spares a) t q
      [.pipeline (.start 0 [] 0 none), .pipeline (.worker 0 (.redis .ok)), .pipeline (.worker 0 .check),
        .pipeline (.worker 0 (.redis .ok)), .pipeline (.worker 0 .check),
        .pipeline (.worker 0 (.insert .ok))] ∧ t.pipeline.inserted.length = 1 := by
    simp [System.Run, Ok, sessionSystem, sessionSystemOf, system, step, hq, Pipeline.Steady, Pipeline.Calm,
      Pipeline.Distinct, Pipeline.Spares, Pipeline.step, Pipeline.workerStep, Pipeline.push, Pipeline.number,
      Pipeline.empty, Pipeline.release, Pipeline.goto, Pipeline.exit, Pipeline.claim, Pipeline.received,
      Pipeline.store, Redis.pushMany, Redis.rpush, Redis.release_eq, Redis.claim_eq, hdecode, Pipeline.decodable, hsome,
      Reply.effect]
  obtain ⟨t, hrun, hone⟩ := hrun
  have hreach := (((Reach.init rfl).run hrefreshed).run hpushed).run hrun
  exact ⟨t, hreach, hone, stored_once msgpackRows_lawful hreach⟩

end Deployment

end LogServer
