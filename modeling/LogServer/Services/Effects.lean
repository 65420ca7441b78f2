import LogServer.Services.Worker

/-!
# What a step of the pipeline can do

The steps of receivers, workers and maintenance are many, and what they do to the entries is little:
they push some, they release, claim or acknowledge a list, or they insert a batch (`Effect`).  The
processes go on with the batches they have (`Continues`), except that a claim hands out a new one.

What is invariant whatever the processes do is derived from `effect_step` alone.  The first such
invariant is that entries come from nowhere else than from a push (`Sourced`).
-/

namespace LogServer

open Transition

def Phase.pending : Phase → Bool
  | .writing _ | .inserting _ => true
  | .starting | .idle | .claiming | .acking _ | .releasing _ | .draining => false

namespace Pipeline

variable {δ : Type} {cfg : WorkerConfig} {msgpack : Msgpack} {clock : Clock δ}

/-! ## Processes that go on -/

/-- A process has just started, or it goes on with the batch it had, or without one. -/
def Continues (s : Pipeline) (a : Action) (p : Nat) (w : Worker) : Prop :=
  (∃ host pid envId, a = .start p host pid envId ∧ s.workers p = none ∧
    w = ⟨host, pid, envId, .starting, false⟩) ∨
  ∃ v, s.workers p = some v ∧ v.key = w.key ∧
    ((w.phase.claimed = [] ∧ w.phase.pending = false) ∨
      (w.phase.claimed = v.phase.claimed ∧ (w.phase.pending → v.phase.pending)))

/-- All processes go on, and nothing is pushed or inserted. -/
structure Quiet (s : Pipeline) (a : Action) (t : Pipeline) : Prop where
  pushed : t.pushed = s.pushed
  inserted : t.inserted = s.inserted
  workers : ∀ p w, t.workers p = some w → s.Continues a p w

section continues

variable {s t : Pipeline} {a : Action} {p : Nat} {w : Worker}

theorem Continues.of_eq (h : s.workers p = some w) : s.Continues a p w :=
  .inr ⟨w, h, rfl, .inr ⟨rfl, id⟩⟩

/-- A process goes on in a phase without a batch. -/
theorem Continues.empty (h : s.workers p = some w) {phase : Phase} (hclaimed : phase.claimed = [])
    (hpending : phase.pending = false) : s.Continues a p { w with phase := phase } :=
  .inr ⟨w, h, rfl, .inl ⟨hclaimed, hpending⟩⟩

/-- A process goes on with its batch. -/
theorem Continues.same (h : s.workers p = some w) {phase : Phase}
    (hclaimed : phase.claimed = w.phase.claimed) (hpending : phase.pending → w.phase.pending) :
    s.Continues a p { w with phase := phase } :=
  .inr ⟨w, h, rfl, .inr ⟨hclaimed, hpending⟩⟩

/-- The processes where one goes on or ends. -/
theorem continues_update {o : Option Worker} (hs : t.workers = Function.update s.workers p o)
    (ho : ∀ w, o = some w → s.Continues a p w) (q : Nat) (v : Worker) (hv : t.workers q = some v) :
    s.Continues a q v := by
  rw [hs, Function.update_apply] at hv
  split at hv
  · rename_i heq
    rw [heq]
    exact ho v hv
  · exact .of_eq hv

theorem Quiet.refl (s : Pipeline) (a : Action) : Quiet s a s := ⟨rfl, rfl, fun _ _ ↦ .of_eq⟩

/-- A process ends. -/
theorem Quiet.exit (hpushed : t.pushed = s.pushed) (hinserted : t.inserted = s.inserted)
    (hworkers : t.workers = s.workers) : Quiet s a (t.exit p) := by
  have hupdate : (t.exit p).workers = Function.update s.workers p none := by rw [← hworkers]; rfl
  exact ⟨hpushed, hinserted, continues_update hupdate fun w hw ↦ by cases hw⟩

/-- A process goes on. -/
theorem Quiet.goto (hpushed : t.pushed = s.pushed) (hinserted : t.inserted = s.inserted)
    (hworkers : t.workers = s.workers) {phase : Phase}
    (hphase : s.Continues a p { w with phase := phase }) : Quiet s a (t.goto p w phase) := by
  have hupdate : (t.goto p w phase).workers =
      Function.update s.workers p (some { w with phase := phase }) := by rw [← hworkers]; rfl
  refine ⟨hpushed, hinserted, continues_update hupdate fun v hv ↦ ?_⟩
  obtain rfl := Option.some.inj hv
  exact hphase

/-- A Redis call returns or raises, and the process has no batch afterwards. -/
theorem Quiet.finish (hw : s.workers p = some w) (hpushed : t.pushed = s.pushed)
    (hinserted : t.inserted = s.inserted) (hworkers : t.workers = s.workers) (reply : Reply) :
    Quiet s a (if reply = .ok then t.goto p w .idle else t.exit p) := by
  split
  · exact .goto hpushed hinserted hworkers (.empty hw rfl rfl)
  · exact .exit hpushed hinserted hworkers

end continues

/-! ## Effects -/

inductive Effect (cfg : WorkerConfig) (msgpack : Msgpack) (s : Pipeline) (a : Action)
    (t : Pipeline) : Prop
  | none (hredis : t.redis = s.redis) (hquiet : Quiet s a t)
  | push (payloads : List Bytes) (reply : Reply) (ha : a = .push payloads reply)
      (ht : t = s.push payloads)
  | release (key : Text) (hredis : t.redis = (s.redis.release key).1) (hquiet : Quiet s a t)
  /-- A claim, of which the worker may not get to know. -/
  | claim (p : Nat) (w : Worker) (reply : Reply) (ha : a = .worker p (.redis reply))
      (hw : s.workers p = some w) (hphase : w.phase = .claiming)
      (hredis : t.redis = (s.redis.claim w.key cfg.batchSize).1) (hpushed : t.pushed = s.pushed)
      (hinserted : t.inserted = s.inserted)
      (hworkers : ∀ q v, t.workers q = some v → s.Continues a q v ∨
        v.key = w.key ∧ v.phase.claimed = s.redis.queue.take cfg.batchSize ∧
          s.redis.queue ≠ [] ∧ reply = .ok)
  | insert (p : Nat) (w : Worker) (claimed : List Entry) (hw : s.workers p = some w)
      (hphase : w.phase = .inserting claimed) (hredis : t.redis = s.redis)
      (hpushed : t.pushed = s.pushed)
      (hinserted : t.inserted = s.inserted ++ claimed.filter (decodable msgpack))
      (hworkers : ∀ q v, t.workers q = some v → s.Continues a q v)
  | ack (p : Nat) (w : Worker) (claimed : List Entry) (hw : s.workers p = some w)
      (hphase : w.phase = .acking claimed) (hredis : t.redis = s.redis.ack w.key)
      (hquiet : Quiet s a t)

section effect

variable {s t : Pipeline} {a : Action} {p : Nat} {w : Worker}

/-- A release that takes effect, or not. -/
theorem effect_release (key : Text) (reply : Reply)
    (hredis : t.redis = (s.release key reply).redis) (hquiet : Quiet s a t) :
    Effect cfg msgpack s a t := by
  rw [release] at hredis
  split at hredis
  · exact .release key hredis hquiet
  · exact .none hredis hquiet

theorem release_pushed (key : Text) (reply : Reply) : (s.release key reply).pushed = s.pushed := by
  unfold release
  split <;> rfl

theorem release_inserted (key : Text) (reply : Reply) :
    (s.release key reply).inserted = s.inserted := by
  unfold release
  split <;> rfl

theorem redis_finish (reply : Reply) :
    (if reply = .ok then s.goto p w .idle else s.exit p).redis = s.redis := by
  split <;> rfl

/-- The release of a process. -/
theorem effect_finish (hw : s.workers p = some w) (key : Text) (reply : Reply) :
    Effect cfg msgpack s a (if reply = .ok then (s.release key reply).goto p w .idle
      else (s.release key reply).exit p) :=
  effect_release key reply (redis_finish reply) (.finish hw (release_pushed key reply)
    (release_inserted key reply) (workers_release key reply) reply)

/-- The workers after a claim has returned. -/
theorem workers_received {r : Redis Entry} (hw : s.workers p = some w) {claimed : List Entry}
    (hclaimed : claimed = s.redis.queue.take cfg.batchSize) {q : Nat} {v : Worker}
    (hv : (({ s with redis := r } : Pipeline).received p w msgpack clock claimed).workers q =
      some v) :
    s.Continues a q v ∨ v.key = w.key ∧ v.phase.claimed = s.redis.queue.take cfg.batchSize ∧
      s.redis.queue ≠ [] := by
  have hgoto : ∀ phase : Phase, phase.claimed = claimed → claimed.isEmpty = false →
      (({ s with redis := r } : Pipeline).goto p w phase).workers q = some v →
      s.Continues a q v ∨ v.key = w.key ∧ v.phase.claimed = s.redis.queue.take cfg.batchSize ∧
        s.redis.queue ≠ [] := by
    intro phase hphase hne hv
    replace hv : Function.update s.workers p (some { w with phase := phase }) q = some v := hv
    rw [Function.update_apply] at hv
    split at hv
    · obtain rfl := Option.some.inj hv
      refine .inr ⟨rfl, hphase.trans hclaimed, fun hnil ↦ ?_⟩
      rw [hclaimed, hnil, List.take_nil] at hne
      cases hne
    · exact .inl (.of_eq hv)
  unfold received at hv
  split at hv
  · exact .inl ((Quiet.goto (s := s) (a := a) rfl rfl rfl (.empty hw rfl rfl)).workers q v hv)
  · rename_i hne
    split at hv
    · exact .inl ((Quiet.exit (s := s) (a := a) rfl rfl rfl).workers q v hv)
    · split at hv
      · exact hgoto (.acking claimed) rfl (by simpa using hne) hv
      · exact hgoto (.writing claimed) rfl (by simpa using hne) hv

theorem redis_received (claimed : List Entry) :
    (s.received p w msgpack clock claimed).redis = s.redis ∧
      (s.received p w msgpack clock claimed).pushed = s.pushed ∧
      (s.received p w msgpack clock claimed).inserted = s.inserted := by
  unfold received
  split
  · exact ⟨rfl, rfl, rfl⟩
  · split
    · exact ⟨rfl, rfl, rfl⟩
    · split <;> exact ⟨rfl, rfl, rfl⟩

/-- A claim ends. -/
theorem effect_claim (hw : s.workers p = some w) (hphase : w.phase = .claiming) (reply : Reply) :
    Effect cfg msgpack s (.worker p (.redis reply)) (s.claim p w cfg msgpack clock reply) := by
  have hclaimed : (s.redis.claim w.key cfg.batchSize).2 = s.redis.queue.take cfg.batchSize := by
    rw [Redis.claim_eq _ _ cfg.batchSize_pos]
  unfold claim
  cases reply with
  | ok =>
      refine .claim p w .ok rfl hw hphase (redis_received _).1 (redis_received _).2.1
        (redis_received _).2.2 fun q v hv ↦ ?_
      rcases workers_received hw hclaimed hv with hold | ⟨hkey, hbatch, hne⟩
      · exact .inl hold
      · exact .inr ⟨hkey, hbatch, hne, rfl⟩
  | lost =>
      exact .claim p w .lost rfl hw hphase rfl rfl rfl fun q v hv ↦
        .inl ((Quiet.goto (s := s) rfl rfl rfl (.empty hw rfl rfl)).workers q v hv)
  | failed => exact .none rfl (.goto rfl rfl rfl (.empty hw rfl rfl))

/-- An insert ends.  Its rows are stored if it took effect, and the worker keeps the batch in any case. -/
theorem effect_store (hw : s.workers p = some w) {claimed : List Entry}
    (hphase : w.phase = .inserting claimed) (reply : Reply) :
    Effect cfg msgpack s a ((s.store msgpack claimed reply).goto p w
      (if reply = .ok then .acking claimed else .writing claimed)) := by
  generalize hphase' : (if reply = .ok then Phase.acking claimed else .writing claimed) = phase'
  have hcontinues : s.Continues a p { w with phase := phase' } := by
    refine .same hw ?_ fun _ ↦ by rw [hphase]; rfl
    rw [hphase, ← hphase']
    split <;> rfl
  have hworkers : ((s.store msgpack claimed reply).goto p w phase').workers =
      Function.update s.workers p (some { w with phase := phase' }) := by
    show Function.update (s.store msgpack claimed reply).workers p _ = _
    rw [workers_store]
  by_cases heffect : reply.effect = true
  · rw [store, if_pos heffect] at hworkers ⊢
    refine .insert p w claimed hw hphase rfl rfl rfl (continues_update hworkers fun v hv ↦ ?_)
    obtain rfl := Option.some.inj hv
    exact hcontinues
  · rw [store, if_neg heffect]
    exact .none rfl (.goto rfl rfl rfl hcontinues)

/-- A step of a worker. -/
theorem effect_workerStep (hw : s.workers p = some w) {x : WorkerAction}
    (hs : s.workerStep p w cfg msgpack clock w.phase x = some t) :
    Effect cfg msgpack s (.worker p x) t := by
  unfold workerStep at hs
  split at hs
  case h_1 reply _ =>
      cases hs
      exact effect_finish hw w.key reply
  case h_2 =>
      cases hs
      refine .none rfl (.goto rfl rfl rfl ?_)
      split <;> exact .empty hw rfl rfl
  case h_3 reply hphase =>
      cases hs
      exact effect_claim hw hphase reply
  case h_4 claimed hphase =>
      cases hs
      refine .none rfl (.goto rfl rfl rfl ?_)
      split
      · exact .same hw (by rw [hphase]; rfl) fun h ↦ by cases h
      · exact .same hw (by rw [hphase]; rfl) fun _ ↦ by rw [hphase]; rfl
  case h_5 claimed reply hphase =>
      cases hs
      exact effect_store hw hphase reply
  case h_6 claimed reply hphase =>
      cases hs
      have hquiet : Quiet s (.worker p (.redis reply)) (if reply = .ok then (s.ack w.key reply).goto p w .idle
          else (s.ack w.key reply).exit p) := by
        refine .finish hw ?_ ?_ (workers_ack _ _) reply <;> (unfold ack; split <;> rfl)
      have hredis := redis_finish (s := s.ack w.key reply) (p := p) (w := w) reply
      by_cases heffect : reply.effect = true
      · refine .ack p w claimed hw hphase (hredis.trans ?_) hquiet
        rw [ack, if_pos heffect]
      · refine .none (hredis.trans ?_) hquiet
        rw [ack, if_neg heffect]
  case h_7 claimed reply _ =>
      cases hs
      exact effect_finish hw w.key reply
  case h_8 reply _ =>
      cases hs
      exact effect_release w.key reply rfl
        (.exit (release_pushed _ _) (release_inserted _ _) (workers_release _ _))
  case h_9 => cases hs

/-- **What a step does to the entries.** -/
theorem effect_step (hs : s.step cfg msgpack clock a = some t) :
    Effect cfg msgpack s a t := by
  cases a with
  | push payloads reply =>
      cases hs
      split
      · exact .push payloads reply rfl rfl
      · exact .none rfl (.refl s _)
  | start p host pid envId =>
      rw [step] at hs
      split at hs
      · rename_i hnone
        cases hs
        refine .none rfl ⟨rfl, rfl, continues_update rfl fun v hv ↦ ?_⟩
        cases hv
        exact .inl ⟨host, pid, envId, rfl, Option.isNone_iff_eq_none.mp hnone, rfl⟩
      · cases hs
  | kill p =>
      cases hs
      exact .none rfl (.exit rfl rfl rfl)
  | stop p =>
      obtain ⟨v, hv, rfl⟩ := Option.map_eq_some_iff.mp hs
      refine .none rfl ⟨rfl, rfl, continues_update rfl fun w hw ↦ ?_⟩
      cases hw
      exact .inr ⟨v, hv, rfl, .inr ⟨rfl, id⟩⟩
  | worker p x =>
      obtain ⟨w, hw, hstep⟩ := Option.bind_eq_some_iff.mp hs
      exact effect_workerStep hw hstep
  | beginRecovery m host entries =>
      rw [step] at hs
      split at hs
      · cases hs
        exact .none rfl ⟨rfl, rfl, fun _ _ ↦ .of_eq⟩
      · cases hs
  | visit m id reply =>
      obtain ⟨live, -, rfl⟩ := Option.map_eq_some_iff.mp hs
      unfold visit
      split
      · exact .none rfl (.refl s _)
      · dsimp only
        split
        · exact effect_release (inflightKey id) reply rfl
            ⟨release_pushed _ _, release_inserted _ _, fun p w hw ↦ .of_eq (by
              rwa [workers_release] at hw)⟩
        · exact effect_release (inflightKey id) reply rfl
            ⟨release_pushed _ _, release_inserted _ _, fun p w hw ↦ .of_eq (by
              replace hw : (s.release (inflightKey id) reply).workers p = some w := hw
              rwa [workers_release] at hw)⟩
  | endRecovery m =>
      cases hs
      exact .none rfl ⟨rfl, rfl, fun _ _ ↦ .of_eq⟩

/-- Nothing else pushes entries. -/
theorem pushed_step (ha : ∀ payloads reply, a ≠ .push payloads reply)
    (hs : s.step cfg msgpack clock a = some t) : t.pushed = s.pushed := by
  cases effect_step hs with
  | none hredis hquiet => exact hquiet.pushed
  | push payloads reply hact ht => exact absurd hact (ha payloads reply)
  | release key hredis hquiet => exact hquiet.pushed
  | claim p w reply hact hw hphase hredis hpushed hinserted hworkers => exact hpushed
  | insert p w claimed hw hphase hredis hpushed hinserted hworkers => exact hpushed
  | ack p w claimed hw hphase hredis hquiet => exact hquiet.pushed

/-! ## Entries come from a push -/

/-- Every entry anywhere was pushed. -/
structure Sourced (s : Pipeline) : Prop where
  queue : s.redis.queue ⊆ s.pushed
  inflight : ∀ key, s.redis.inflight key ⊆ s.pushed
  claimed : ∀ p w, s.workers p = some w → w.phase.claimed ⊆ s.pushed
  inserted : s.inserted ⊆ s.pushed

theorem sourced_empty : empty.Sourced where
  queue := List.nil_subset _
  inflight := fun _ ↦ List.nil_subset _
  claimed := fun p w hw ↦ by cases hw
  inserted := List.nil_subset _

/-- The batch of a process that goes on was pushed. -/
theorem Sourced.continues (h : s.Sourced) (hw : s.Continues a p w) : w.phase.claimed ⊆ s.pushed := by
  rcases hw with ⟨host, pid, envId, -, -, rfl⟩ | ⟨v, hv, -, ⟨hclaimed, -⟩ | ⟨hclaimed, -⟩⟩
  · exact List.nil_subset _
  · rw [hclaimed]
    exact List.nil_subset _
  · rw [hclaimed]
    exact h.claimed p v hv

/-- Lists that are made of pushed entries, while the processes go on. -/
theorem Sourced.quiet (h : s.Sourced) (hquiet : Quiet s a t) (hqueue : t.redis.queue ⊆ s.pushed)
    (hinflight : ∀ key, t.redis.inflight key ⊆ s.pushed) : t.Sourced where
  queue := hquiet.pushed ▸ hqueue
  inflight := hquiet.pushed ▸ hinflight
  claimed := fun p w hw ↦ hquiet.pushed ▸ h.continues (hquiet.workers p w hw)
  inserted := by
    rw [hquiet.pushed, hquiet.inserted]
    exact h.inserted

/-- The in-flight lists where one is given another value. -/
theorem inflight_update_subset {r : Redis Entry} {key : Text} {list xs : List Entry}
    (h : ∀ key, r.inflight key ⊆ xs) (hlist : list ⊆ xs) (key' : Text) :
    Function.update r.inflight key list key' ⊆ xs := by
  rw [Function.update_apply]
  split
  · exact hlist
  · exact h key'

/-- **Every step keeps it.** -/
theorem Sourced.effect (h : s.Sourced) (heffect : Effect cfg msgpack s a t) :
    t.Sourced := by
  cases heffect with
  | none hredis hquiet => exact h.quiet hquiet (hredis ▸ h.queue) (hredis ▸ h.inflight)
  | push payloads reply ha ht =>
      have hsub : s.pushed ⊆ t.pushed := by
        rw [ht]
        exact List.subset_append_left _ _
      rw [ht] at hsub ⊢
      exact ⟨List.append_subset.mpr ⟨List.Subset.trans h.queue hsub, List.subset_append_right _ _⟩,
        fun key ↦ List.Subset.trans (h.inflight key) hsub,
        fun p w hw ↦ List.Subset.trans (h.claimed p w hw) hsub, List.Subset.trans h.inserted hsub⟩
  | release key hredis hquiet =>
      rw [Redis.release_eq] at hredis
      refine h.quiet hquiet ?_ ?_
      · rw [hredis]
        exact List.append_subset.mpr ⟨h.inflight key, h.queue⟩
      · rw [hredis]
        exact inflight_update_subset h.inflight (List.nil_subset _)
  | claim p w reply ha hw hphase hredis hpushed hinserted hworkers =>
      have htake : s.redis.queue.take cfg.batchSize ⊆ s.pushed :=
        List.Subset.trans (List.take_subset _ _) h.queue
      rw [Redis.claim_eq _ _ cfg.batchSize_pos] at hredis
      constructor
      · rw [hredis, hpushed]
        exact List.Subset.trans (List.drop_subset _ _) h.queue
      · rw [hredis, hpushed]
        exact inflight_update_subset h.inflight (List.append_subset.mpr ⟨h.inflight w.key, htake⟩)
      · intro q v hv
        rw [hpushed]
        rcases hworkers q v hv with hold | ⟨-, hclaimed, -⟩
        · exact h.continues hold
        · exact hclaimed ▸ htake
      · rw [hinserted, hpushed]
        exact h.inserted
  | insert p w claimed hw hphase hredis hpushed hinserted hworkers =>
      have hclaimed : claimed ⊆ s.pushed := by
        have hbatch := h.claimed p w hw
        rwa [hphase] at hbatch
      constructor
      · rw [hredis, hpushed]
        exact h.queue
      · rw [hredis, hpushed]
        exact h.inflight
      · intro q v hv
        rw [hpushed]
        exact h.continues (hworkers q v hv)
      · rw [hinserted, hpushed]
        exact List.append_subset.mpr
          ⟨h.inserted, List.Subset.trans List.filter_sublist.subset hclaimed⟩
  | ack p w claimed hw hphase hredis hquiet =>
      refine h.quiet hquiet ?_ ?_
      · rw [hredis]
        exact h.queue
      · rw [hredis]
        exact inflight_update_subset h.inflight (List.nil_subset _)

/-- In every run, whatever happens, every entry was pushed. -/
theorem Sourced.reach {ok : Pipeline → Action → Prop} (h : Reach (system cfg msgpack clock) ok s) :
    s.Sourced := by
  refine Reach.invariant (P := Sourced) ?_ ?_ h
  · rintro s rfl
    exact sourced_empty
  · intro s a t hsourced _ hs
    exact hsourced.effect (effect_step hs)

end effect

end Pipeline

end LogServer
