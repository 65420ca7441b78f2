import LogServer.Services.Provenance
import LogServer.Services.Recovery

/-!
# After a crash

Workers may be killed at any point of a run, and then entries are left in their in-flight lists.  What is
shown here is that nothing else is needed than what the service does by itself: once no worker runs, a
maintenance run and a worker that starts after it bring everything that Redis accepted into the log table,
in as many rounds as there are batches (`recovers`).

A worker goes a round with each batch: it claims it, inserts it and acknowledges it (`Ready.round`), and so
it drains the queue (`Ready.drain`).
-/

namespace LogServer

open Transition

variable {δ : Type}

namespace Pipeline

variable {cfg : WorkerConfig} {msgpack : Msgpack} {clock : Clock δ} {s t : Pipeline} {p : Nat} {w : Worker}

/-! ## Keys -/

/-- Only workers have in-flight lists. -/
def Keyed (s : Pipeline) : Prop :=
  ∀ key, s.redis.inflight key ≠ [] → ∃ id, key = inflightKey id

/-- A list of a worker is given another value. -/
theorem Keyed.update (h : s.Keyed) {key : Text} {list : List Entry}
    (hkey : list ≠ [] → ∃ id, key = inflightKey id)
    (hinflight : t.redis.inflight = Function.update s.redis.inflight key list) : t.Keyed := by
  intro key' hne
  rw [hinflight, Function.update_apply] at hne
  split at hne
  · rename_i heq
    rw [heq]
    exact hkey hne
  · exact h key' hne

/-- Only claims put entries into a list. -/
theorem Keyed.effect {a : Action} (h : s.Keyed) (heffect : Effect cfg msgpack s a t) : t.Keyed := by
  cases heffect with
  | none hredis hquiet => exact fun key hne ↦ h key (hredis ▸ hne)
  | push payloads reply ha ht =>
      subst ht
      exact h
  | release key hredis hquiet =>
      rw [Redis.release_eq] at hredis
      exact h.update (fun hne ↦ absurd rfl hne) (congrArg Redis.inflight hredis)
  | claim p w reply ha hw hphase hredis hpushed hinserted hworkers =>
      rw [Redis.claim_eq _ _ cfg.batchSize_pos] at hredis
      exact h.update (fun _ ↦ ⟨w.id, rfl⟩) (congrArg Redis.inflight hredis)
  | insert p w claimed hw hphase hredis hpushed hinserted hworkers =>
      exact fun key hne ↦ h key (hredis ▸ hne)
  | ack p w claimed hw hphase hredis hquiet =>
      exact h.update (fun hne ↦ absurd rfl hne) (congrArg Redis.inflight hredis)

theorem Keyed.reach {ok : Pipeline → Action → Prop} (h : Reach (system cfg msgpack clock) ok s) :
    s.Keyed := by
  refine Reach.invariant (P := Keyed) ?_ ?_ h
  · rintro s rfl key hne
    exact absurd rfl hne
  · exact fun s a t hs _ hstep ↦ hs.effect (effect_step hstep)

/-! ## A round of a worker -/

/-- The conditions of a run in which nothing is lost. -/
abbrev Clean (msgpack : Msgpack) (s : Pipeline) (a : Action) : Prop :=
  s.Distinct a ∧ ClaimClean msgpack s a

/-- A worker that is about to claim, while no list has entries. -/
structure Ready (s : Pipeline) (p : Nat) (w : Worker) : Prop where
  worker : s.workers p = some w
  idle : w.phase = .idle
  running : w.stop = false
  clean : ∀ key, s.redis.inflight key = []

/-- The entry is one row. -/
def Good (msgpack : Msgpack) (clock : Clock δ) (x : Entry) : Prop :=
  ∃ row, BatchWorker._decode msgpack clock [x.payload] = .ok ([row], 0)

theorem Good.decodable {x : Entry} (h : Good msgpack clock x) : decodable msgpack x = true := by
  obtain ⟨row, hrow⟩ := h
  by_contra hbad
  rw [BatchWorker._decode, decodable_eq_false.mp (by simpa using hbad)] at hrow
  cases hrow

/-- What a worker does with a batch, if nothing fails. -/
def round (p : Nat) : List Action :=
  [.worker p .check, .worker p (.redis .ok), .worker p .check, .worker p (.insert .ok),
    .worker p (.redis .ok)]

def within (s : Pipeline) (p : Nat) (w : Worker) (phase : Phase) (r : Redis Entry)
    (inserted : List Entry) : Pipeline :=
  { s with
    redis := r
    inserted := inserted
    workers := Function.update s.workers p (some { w with phase := phase }) }

section within

variable {phase phase' : Phase} {r : Redis Entry} {inserted : List Entry}

theorem goto_within :
    (s.within p w phase r inserted).goto p { w with phase := phase } phase' =
      s.within p w phase' r inserted := by
  rw [goto, within, Function.update_idem]
  rfl

theorem step_worker {a : WorkerAction} (hw : s.workers p = some w) :
    s.step cfg msgpack clock (.worker p a) = s.workerStep p w cfg msgpack clock w.phase a := by
  rw [step, hw]
  rfl

/-- A step of the worker. -/
theorem step_within {a : WorkerAction} :
    (s.within p w phase r inserted).step cfg msgpack clock (.worker p a) =
      (s.within p w phase r inserted).workerStep p { w with phase := phase } cfg msgpack clock phase a :=
  step_worker (Function.update_self ..)

end within

/-- Entries that decode one by one are decoded together, and none is left out. -/
theorem decode_good {claimed : List Entry} (h : ∀ x ∈ claimed, Good msgpack clock x) :
    (∃ rows, BatchWorker._decode msgpack clock (claimed.map Entry.payload) = .ok (rows, 0) ∧
      rows.length = claimed.length) ∧ claimed.filter (decodable msgpack) = claimed := by
  constructor
  · have hall : ∀ payload ∈ claimed.map Entry.payload, ∃ row,
        BatchWorker._decode msgpack clock [payload] = .ok ([row], 0) ∧ True := by
      intro payload hpayload
      obtain ⟨x, hx, rfl⟩ := List.mem_map.mp hpayload
      obtain ⟨row, hrow⟩ := h x hx
      exact ⟨row, hrow, trivial⟩
    obtain ⟨rows, hrows, hpairs⟩ := Deployment.decode_all hall
    exact ⟨rows, hrows, hpairs.length_eq.trans (List.length_map ..)⟩
  · exact List.filter_eq_self.mpr fun x hx ↦ (h x hx).decodable

/-- A claim that finds entries hands out a batch to write. -/
theorem claim_eq_within (hne : s.redis.queue ≠ [])
    (hgood : ∀ x ∈ s.redis.queue, Good msgpack clock x) :
    (s.within p w .claiming s.redis s.inserted).claim p { w with phase := .claiming } cfg msgpack clock .ok =
      s.within p w (.writing (s.redis.queue.take cfg.batchSize)) (s.redis.claim w.key cfg.batchSize).1
        s.inserted := by
  obtain ⟨⟨rows, hrows, hlength⟩, -⟩ :=
    decode_good fun x (hx : x ∈ s.redis.queue.take cfg.batchSize) ↦ hgood x (List.take_subset _ _ hx)
  have hsome : s.redis.queue.take cfg.batchSize ≠ [] := by
    rw [Ne, List.take_eq_nil_iff]
    exact not_or.mpr ⟨Nat.ne_of_gt cfg.batchSize_pos, hne⟩
  have hrowsSome : rows.isEmpty = false := by
    rw [List.isEmpty_eq_false_iff, ← List.length_pos_iff, hlength]
    exact List.length_pos_iff.mpr hsome
  have hclaimed : (s.redis.claim w.key cfg.batchSize).2 = s.redis.queue.take cfg.batchSize := by
    rw [Redis.claim_eq _ _ cfg.batchSize_pos]
  show received _ p _ msgpack clock (s.redis.claim w.key cfg.batchSize).2 = _
  rw [hclaimed, received, List.isEmpty_eq_false_iff.mpr hsome, hrows]
  dsimp only
  rw [hrowsSome, if_neg Bool.false_ne_true, if_neg Bool.false_ne_true]
  exact goto_within (s := s) (r := (s.redis.claim w.key cfg.batchSize).1)

/-- **A round.**  A batch goes from the queue into the log table, and nothing else changes. -/
theorem Ready.round (h : s.Ready p w) (hne : s.redis.queue ≠ [])
    (hgood : ∀ x ∈ s.redis.queue, Good msgpack clock x) :
    (system cfg msgpack clock).Run (Clean msgpack)
      { s with
        redis := ⟨s.redis.queue.drop cfg.batchSize, s.redis.inflight⟩
        inserted := s.inserted ++ s.redis.queue.take cfg.batchSize } s (round p) := by
  set claimed := s.redis.queue.take cfg.batchSize with hclaimed
  have hfilter : claimed.filter (decodable msgpack) = claimed :=
    (decode_good fun x hx ↦ hgood x (List.take_subset _ _ hx)).2
  set r := (s.redis.claim w.key cfg.batchSize).1 with hr
  have hcheck : s.step cfg msgpack clock (.worker p .check) =
      some (s.within p w .claiming s.redis s.inserted) := by
    rw [step_worker h.worker, h.idle, workerStep, h.running]
    rfl
  have hclaim : (s.within p w .claiming s.redis s.inserted).step cfg msgpack clock (.worker p (.redis .ok)) =
      some (s.within p w (.writing claimed) r s.inserted) := by
    rw [step_within, workerStep, claim_eq_within hne hgood]
  have hwrite : (s.within p w (.writing claimed) r s.inserted).step cfg msgpack clock (.worker p .check) =
      some (s.within p w (.inserting claimed) r s.inserted) := by
    rw [step_within, workerStep, if_neg (show ¬w.stop = true from h.running ▸ Bool.false_ne_true)]
    exact congrArg some goto_within
  have hinsert : (s.within p w (.inserting claimed) r s.inserted).step cfg msgpack clock
      (.worker p (.insert .ok)) = some (s.within p w (.acking claimed) r (s.inserted ++ claimed)) := by
    rw [step_within, workerStep, store, if_pos (show Reply.ok.effect = true from rfl), hfilter]
    exact congrArg some (goto_within (s := s) (r := r))
  have hack : (s.within p w (.acking claimed) r (s.inserted ++ claimed)).step cfg msgpack clock
      (.worker p (.redis .ok)) = some (s.within p w .idle (r.ack w.key) (s.inserted ++ claimed)) := by
    rw [step_within, workerStep, if_pos rfl]
    exact congrArg some (goto_within (s := s) (r := r.ack w.key))
  have hredis : r.ack w.key = ⟨s.redis.queue.drop cfg.batchSize, s.redis.inflight⟩ := by
    rw [hr, Redis.claim_eq _ _ cfg.batchSize_pos, Redis.ack, Function.update_idem, ← h.clean w.key,
      Function.update_eq_self]
  have hend : s.within p w .idle (r.ack w.key) (s.inserted ++ claimed) =
      { s with redis := ⟨s.redis.queue.drop cfg.batchSize, s.redis.inflight⟩,
               inserted := s.inserted ++ claimed } := by
    have hw : ({ w with phase := .idle } : Worker) = w := by rw [← h.idle]
    rw [within, hredis, hw, ← h.worker, Function.update_eq_self]
  rw [← hend]
  refine .cons hcheck ⟨trivial, trivial⟩ (.cons hclaim ⟨trivial, ?_⟩ (.cons hwrite ⟨trivial, trivial⟩
    (.cons hinsert ⟨trivial, trivial⟩ (.cons hack ⟨trivial, ?_⟩ rfl))))
  · intro v _ _ _ x hx
    rw [show (s.within p w .claiming s.redis s.inserted).redis.inflight v.key = [] from h.clean v.key] at hx
    cases hx
  · -- The worker acknowledges, and does not claim.
    intro v hv hphase
    rw [show (s.within p w (.acking claimed) r (s.inserted ++ claimed)).workers p =
      some { w with phase := .acking claimed } from Function.update_self ..] at hv
    cases hv
    cases hphase

/-- **A worker drains the queue**, in as many rounds as there are batches. -/
theorem Ready.drain (k : Nat) (h : s.Ready p w) (hgood : ∀ x ∈ s.redis.queue, Good msgpack clock x)
    (hk : (s.redis.queue.length + cfg.batchSize - 1) / cfg.batchSize = k) :
    (system cfg msgpack clock).Run (Clean msgpack)
      { s with redis := ⟨[], s.redis.inflight⟩, inserted := s.inserted ++ s.redis.queue } s
      (List.replicate k (Pipeline.round p)).flatten := by
  have hpos := cfg.batchSize_pos
  induction k generalizing s with
  | zero =>
      have hsmall : s.redis.queue.length + cfg.batchSize - 1 < cfg.batchSize :=
        (Nat.div_eq_zero_iff_lt hpos).mp hk
      have hnil : s.redis.queue = [] := List.eq_nil_of_length_eq_zero (by omega)
      rw [hnil, List.append_nil, ← hnil]
      exact rfl
  | succ k ih =>
      have hne : s.redis.queue ≠ [] := by
        intro hnil
        rw [hnil, List.length_nil, Nat.div_eq_of_lt (by omega)] at hk
        cases hk
      have hrest : ((s.redis.queue.drop cfg.batchSize).length + cfg.batchSize - 1) / cfg.batchSize = k := by
        rw [List.length_drop]
        have hsome := List.length_pos_iff.mpr hne
        rcases Nat.lt_or_ge s.redis.queue.length cfg.batchSize with hlt | hge
        · rw [Nat.div_eq_of_lt (by omega)]
          have hone : (s.redis.queue.length + cfg.batchSize - 1) / cfg.batchSize = 1 := by
            rw [show s.redis.queue.length + cfg.batchSize - 1 =
              (s.redis.queue.length - 1) + cfg.batchSize by omega, Nat.add_div_right _ hpos,
              Nat.div_eq_of_lt (by omega)]
          omega
        · rw [show s.redis.queue.length + cfg.batchSize - 1 =
              (s.redis.queue.length - cfg.batchSize + cfg.batchSize - 1) + cfg.batchSize by omega,
            Nat.add_div_right _ hpos] at hk
          exact Nat.succ.inj hk
      rw [List.replicate_succ, List.flatten_cons]
      refine (h.round hne hgood).append ?_
      have hnext := ih (s := { s with
          redis := ⟨s.redis.queue.drop cfg.batchSize, s.redis.inflight⟩
          inserted := s.inserted ++ s.redis.queue.take cfg.batchSize })
        ⟨h.worker, h.idle, h.running, h.clean⟩ (fun x hx ↦ hgood x (List.drop_subset _ _ hx)) hrest
      dsimp only at hnext
      rwa [List.append_assoc, List.take_append_drop] at hnext

/-! ## A restart -/

/-- A maintenance run whose scan comes to the given ids, and then a worker that goes `k` rounds. -/
def restart (host : Text) (entries ids : List Text) (p pid : Nat) (envId : Option Text) (k : Nat) :
    List Action :=
  [.endRecovery 0, .beginRecovery 0 host entries] ++ ids.map (fun id ↦ .visit 0 id .ok) ++
    [.start p host pid envId, .worker p (.redis .ok)] ++ (List.replicate k (round p)).flatten

/-- A maintenance run goes on after a visit. -/
theorem recoveries_visit (m : Nat) (live : List Text) (id : Text) :
    (s.visit m live id .ok).recoveries = s.recoveries := by
  unfold visit
  split
  · rfl
  · rw [if_pos rfl]
    unfold release
    split <;> rfl

variable (cfg msgpack clock) in
/-- The visits of a maintenance run. -/
theorem run_visits {live : List Text} (ids : List Text) (hlive : s.recoveries 0 = some live) :
    (system cfg msgpack clock).Run (Clean msgpack) (ids.foldl (fun s id ↦ s.visit 0 live id .ok) s) s
      (ids.map fun id ↦ .visit 0 id .ok) := by
  induction ids generalizing s with
  | nil => rfl
  | cons id ids ih =>
      have hvisit : s.step cfg msgpack clock (.visit 0 id .ok) = some (s.visit 0 live id .ok) := by
        rw [step, hlive]
        rfl
      refine .cons hvisit ⟨trivial, trivial⟩ (ih ?_)
      rw [recoveries_visit]
      exact hlive

variable (cfg msgpack clock) in
/-- A worker starts while no list has entries. -/
theorem run_start (hdown : ∀ p, s.workers p = none) (hclean : ∀ key, s.redis.inflight key = [])
    (p : Nat) (host : Text) (pid : Nat) (envId : Option Text) : ∃ t w,
    (system cfg msgpack clock).Run (Clean msgpack) t s [.start p host pid envId, .worker p (.redis .ok)] ∧
      t.Ready p w ∧ t.redis = s.redis ∧ t.inserted = s.inserted ∧ t.pushed = s.pushed := by
  let w : Worker := ⟨host, pid, envId, .starting, false⟩
  have hstart : s.step cfg msgpack clock (.start p host pid envId) =
      some (s.within p w .starting s.redis s.inserted) := by
    rw [step, hdown p]
    rfl
  have hrelease : (s.within p w .starting s.redis s.inserted).step cfg msgpack clock
      (.worker p (.redis .ok)) = some (s.within p w .idle s.redis s.inserted) := by
    have hnothing : (s.within p w .starting s.redis s.inserted).release w.key .ok =
        s.within p w .starting s.redis s.inserted := by
      rw [release, if_pos (show Reply.ok.effect = true from rfl)]
      show s.within p w .starting (s.redis.release w.key).1 s.inserted = _
      rw [Redis.release_empty (hclean w.key)]
    rw [step_within, workerStep, if_pos rfl]
    show some (((s.within p w .starting s.redis s.inserted).release w.key .ok).goto p
      { w with phase := .starting } .idle) = _
    rw [hnothing, goto_within]
  refine ⟨s.within p w .idle s.redis s.inserted, { w with phase := .idle },
    .cons hstart ⟨?_, trivial⟩ (.cons hrelease ⟨trivial, ?_⟩ rfl),
    ⟨Function.update_self .., rfl, rfl, hclean⟩, rfl, rfl, rfl⟩
  · intro q v hv
    rw [hdown q] at hv
    cases hv
  · intro v hv hphase
    rw [show (s.within p w .starting s.redis s.inserted).workers p = some w from
      Function.update_self ..] at hv
    cases hv
    cases hphase

/-- The queue and the lists after a maintenance run. -/
theorem recoverLoop_scanned {live ids : List Text} (hkeyed : s.Keyed)
    (hscan : Scan s.redis (ids.map inflightKey))
    (hdead : ∀ id ∈ live, s.redis.inflight (inflightKey id) = []) (recovered : Nat) :
    let r := (recoverLoop live (ids.map inflightKey) s.redis recovered).1
    (∀ key, r.inflight key = []) ∧
      (r.queue : Multiset Entry) = s.redis.total (ids.map inflightKey).toFinset := by
  intro r
  have hempty : ∀ key, r.inflight key = [] := by
    intro key
    show (recoverLoop live (ids.map inflightKey) s.redis recovered).1.inflight key = []
    rw [inflight_recoverLoop]
    split
    · rfl
    · rename_i hleft
      by_contra hne
      obtain ⟨id, rfl⟩ := hkeyed key hne
      rw [inflightKey_drop] at hleft
      exact hleft ⟨hscan.complete id hne, fun hlive ↦ hne (hdead id hlive)⟩
  refine ⟨hempty, ?_⟩
  have htotal : r.total (ids.map inflightKey).toFinset = s.redis.total (ids.map inflightKey).toFinset :=
    total_recoverLoop fun key hkey _ _ ↦ List.mem_toFinset.mpr hkey
  rw [← htotal, Redis.total, Finset.sum_eq_zero, add_zero]
  intro key _
  rw [hempty key]
  rfl

/-- The entries of the queue and of the lists. -/
theorem mem_total {x : Entry} {K : Finset Text} :
    x ∈ s.redis.total K ↔ x ∈ s.redis.queue ∨ ∃ key ∈ K, x ∈ s.redis.inflight key := by
  rw [Redis.total, Multiset.mem_add, Multiset.mem_coe, Multiset.mem_sum]
  rfl

/-- Nothing is pushed. -/
theorem restart_no_push {host : Text} {entries ids : List Text} {p pid : Nat} {envId : Option Text}
    {k : Nat} : ∀ a ∈ restart host entries ids p pid envId k, ∀ payloads reply,
    a ≠ .push payloads reply := by
  rintro a ha payloads reply rfl
  simp [restart, round] at ha

/-- **A restart empties Redis into the log table.** -/
theorem run_restart (hkeyed : s.Keyed) (hdown : ∀ p, s.workers p = none) {host : Text}
    {entries ids : List Text} (hscan : Scan s.redis (ids.map inflightKey))
    (hdead : ∀ id ∈ _liveWorkerIds host entries, s.redis.inflight (inflightKey id) = [])
    (hgood : ∀ x ∈ s.redis.total (ids.map inflightKey).toFinset, Good msgpack clock x)
    (p pid : Nat) (envId : Option Text) : ∃ t,
    (system cfg msgpack clock).Run (Clean msgpack) t s (restart host entries ids p pid envId
      (((s.redis.total (ids.map inflightKey).toFinset).card + cfg.batchSize - 1) / cfg.batchSize)) ∧
      t.pushed = s.pushed ∧ t.redis.queue = [] ∧ (∀ key, t.redis.inflight key = []) ∧
      (t.inserted : Multiset Entry) = s.inserted + s.redis.total (ids.map inflightKey).toFinset := by
  set live := _liveWorkerIds host entries with hlive
  let s₁ : Pipeline := { s with recoveries := Function.update s.recoveries 0 none }
  let s₂ : Pipeline := { s₁ with recoveries := Function.update s₁.recoveries 0 (some live) }
  have hend : s.step cfg msgpack clock (.endRecovery 0) = some s₁ := rfl
  have hbegin : s₁.step cfg msgpack clock (.beginRecovery 0 host entries) = some s₂ := by
    have hnone : s₁.recoveries 0 = none :=
      Function.update_self (β := fun _ ↦ Option (List Text)) 0 none s.recoveries
    rw [step, hnone]
    rfl
  have hvisits := run_visits cfg msgpack clock (s := s₂) ids
    (Function.update_self (β := fun _ ↦ Option (List Text)) 0 (some live) s₁.recoveries)
  rw [foldl_visit s₂ 0 live ids 0] at hvisits
  obtain ⟨hclean, hqueue⟩ := recoverLoop_scanned hkeyed hscan hdead 0
  set r := (recoverLoop live (ids.map inflightKey) s.redis 0).1 with hr
  obtain ⟨t, w, hstart, hready, hsame, hinserted, hpushed⟩ :=
    run_start cfg msgpack clock (s := ({ s₂ with redis := r } : Pipeline)) hdown hclean p host pid envId
  have hredis : t.redis = r := hsame
  have hcard : (s.redis.total (ids.map inflightKey).toFinset).card = t.redis.queue.length := by
    rw [hredis, ← hqueue, Multiset.coe_card]
  refine ⟨{ t with redis := ⟨[], t.redis.inflight⟩, inserted := t.inserted ++ t.redis.queue }, ?_,
    hpushed, rfl, hready.clean, ?_⟩
  · rw [hcard]
    refine System.Run.append (System.Run.append (System.Run.append (t := s₂) ?_ hvisits) hstart)
      (hready.drain _ (fun x hx ↦ hgood x ?_) rfl)
    · exact .cons hend ⟨trivial, trivial⟩ (.cons hbegin ⟨trivial, trivial⟩ rfl)
    · rw [← hqueue, Multiset.mem_coe, ← hredis]
      exact hx
  · show ((t.inserted ++ t.redis.queue : List Entry) : Multiset Entry) = _
    rw [← Multiset.coe_add, hinserted, hredis, ← hqueue]

end Pipeline

namespace Deployment

variable {cfg : IngestConfig} {wcfg : WorkerConfig} {u : CharTable} {msgpack : Msgpack}
  {clock : Clock δ} {s : Deployment}

/-- What workers and maintenance do, they do in a deployment. -/
theorem run_pipeline {ok : Pipeline → Pipeline.Action → Prop} {t : Pipeline} {as : List Pipeline.Action}
    (h : (Pipeline.system wcfg msgpack clock).Run ok t s.pipeline as)
    (has : ∀ a ∈ as, ∀ payloads reply, a ≠ .push payloads reply) :
    (system cfg wcfg u msgpack clock).Run (Ok msgpack ok) { s with pipeline := t } s (as.map .pipeline) := by
  induction as generalizing s with
  | nil =>
      obtain rfl : s.pipeline = t := h
      rfl
  | cons a as ih =>
      obtain ⟨ha, hrest⟩ := List.forall_mem_cons.mp has
      rw [System.Run] at h
      split at h
      · rename_i pipeline hstep
        have hs : s.step cfg wcfg u msgpack clock (.pipeline a) = some { s with pipeline := pipeline } := by
          cases a with
          | push payloads reply => exact absurd rfl (ha payloads reply)
          | _ => exact congrArg (Option.map fun q ↦ ({ s with pipeline := q } : Deployment)) hstep
        exact .cons hs h.1 (ih (s := { s with pipeline := pipeline }) h.2 hrest)
      · cases h

/-- **A restart stores what was accepted.**  In every run of workers under distinct ids in which each claim
finds the in-flight list clean: once no worker runs, and unless a process has the number of a worker that
left a list, one maintenance run, whatever the order of its scan, and one worker that starts after it bring
everything into the log table, in as many rounds as there are batches.  Everything that Redis accepted is in
the log table then, and of its entries none was inserted again but those that were in the queue or in an
in-flight list. -/
theorem recovers (hmsgpack : msgpack.Lawful) (hclock : clock.Lawful)
    (h : Reach (system cfg wcfg u msgpack clock)
      (Ok msgpack fun s a ↦ s.Distinct a ∧ Pipeline.ClaimClean msgpack s a) s)
    (hdown : ∀ p, s.pipeline.workers p = none) {host : Text} {entries ids : List Text}
    (hscan : Scan s.pipeline.redis (ids.map inflightKey))
    (hdead : ∀ id ∈ _liveWorkerIds host entries, s.pipeline.redis.inflight (inflightKey id) = [])
    (p pid : Nat) (envId : Option Text) :
    let left := s.pipeline.redis.total (ids.map inflightKey).toFinset
    ∃ t, (system cfg wcfg u msgpack clock).Run
        (Ok msgpack fun s a ↦ s.Distinct a ∧ Pipeline.ClaimClean msgpack s a) t s
        ((Pipeline.restart host entries ids p pid envId
          ((left.card + wcfg.batchSize - 1) / wcfg.batchSize)).map .pipeline) ∧
      t.pipeline.redis.queue = [] ∧ (∀ key, t.pipeline.redis.inflight key = []) ∧
      (∀ x ∈ s.pipeline.pushed, x ∈ t.pipeline.inserted) ∧
      (t.pipeline.inserted : Multiset Entry) = s.pipeline.inserted + left := by
  intro left
  obtain ⟨past, hsound⟩ := Sound.reach hmsgpack (fun _ _ _ ↦ ⟨trivial, trivial⟩) h
  have hsourced := Pipeline.Sourced.reach hsound.pipeline
  have hkeyed := Pipeline.Keyed.reach hsound.pipeline
  have hgood : ∀ x ∈ s.pipeline.pushed, Pipeline.Good msgpack clock x := by
    intro x hx
    obtain ⟨call, -, log, d, horigin⟩ := hsound.exists_origin hmsgpack hclock hx
    exact ⟨_, horigin.decoded⟩
  have hleft : ∀ x ∈ left, Pipeline.Good msgpack clock x := by
    intro x hx
    rcases Pipeline.mem_total.mp hx with hqueue | ⟨key, -, hlist⟩
    · exact hgood x (hsourced.queue hqueue)
    · exact hgood x (hsourced.inflight key hlist)
  obtain ⟨t, hrun, -, hqueue, hclean, hinserted⟩ :=
    Pipeline.run_restart hkeyed hdown hscan hdead hleft p pid envId
  refine ⟨{ s with pipeline := t }, run_pipeline hrun Pipeline.restart_no_push, hqueue, hclean, ?_,
    hinserted⟩
  intro x hx
  rw [← Multiset.mem_coe, hinserted, Multiset.mem_add, Multiset.mem_coe, Pipeline.mem_total]
  rcases (Pipeline.Kept.reach hsound.pipeline).2.safe x hx (hgood x hx).decodable with
    hqueue | ⟨key, hlist⟩ | hdone
  · exact .inr (.inl hqueue)
  · obtain ⟨id, rfl⟩ := hkeyed key (List.ne_nil_of_mem hlist)
    exact .inr (.inr ⟨_, List.mem_toFinset.mpr (hscan.complete id (List.ne_nil_of_mem hlist)), hlist⟩)
  · exact .inl hdone

/-- A worker is killed when it has claimed an entry. -/
theorem exists_crash {s : Deployment} {entry : Bytes} (hs : s.pipeline = Pipeline.empty.push [entry])
    {row : List (Field Int)}
    (hdecode : BatchWorker._decode msgpackRows Clock.seconds [entry] = .ok ([row], 0)) :
    ∃ t : Deployment, sessionSystem.Run
      (Ok msgpackRows fun s a ↦ s.Distinct a ∧ Pipeline.ClaimClean msgpackRows s a) t s
      [.pipeline (.start 0 [] 0 none), .pipeline (.worker 0 (.redis .ok)), .pipeline (.worker 0 .check),
        .pipeline (.worker 0 (.redis .ok)), .pipeline (.kill 0)] ∧
    (∀ p, t.pipeline.workers p = none) ∧ t.pipeline.pushed.length = 1 ∧ t.pipeline.inserted = [] ∧
    t.pipeline.redis.inflight =
      Function.update (fun _ ↦ []) (inflightKey (workerId [] 0 none)) [⟨0, entry⟩] := by
  simp [System.Run, Ok, sessionSystem, sessionSystemOf, system, step, hs, Pipeline.Distinct,
    Pipeline.ClaimClean, Pipeline.step, Pipeline.workerStep, Pipeline.push, Pipeline.number, Pipeline.empty,
    Pipeline.release, Pipeline.goto, Pipeline.exit, Pipeline.claim, Pipeline.received, Redis.pushMany,
    Redis.rpush, Redis.release_eq, Redis.claim_eq, hdecode, Reply.effect]
  rfl

/-- The entry that a killed worker had claimed is stored. -/
theorem recovers_session : ∃ s t : Deployment, ∃ actions : List Action,
    Reach sessionSystem (Ok msgpackRows fun s a ↦ s.Distinct a ∧ Pipeline.ClaimClean msgpackRows s a) s ∧
    s.pipeline.pushed.length = 1 ∧ s.pipeline.inserted = [] ∧
    sessionSystem.Run (Ok msgpackRows fun s a ↦ s.Distinct a ∧ Pipeline.ClaimClean msgpackRows s a) t s actions ∧
    ∀ x ∈ s.pipeline.pushed, x ∈ t.pipeline.inserted := by
  obtain ⟨entry, row, hhandle, hdecode, -⟩ := exists_entry_sessionLine Clock.seconds_lawful
  obtain ⟨r, hrefreshed, hr, hempty⟩ :=
    exists_refreshed Clock.seconds fun s a ↦ s.Distinct a ∧ Pipeline.ClaimClean msgpackRows s a
  obtain ⟨q, hpushed, hq⟩ := exists_pushed Clock.seconds
    (fun s a ↦ s.Distinct a ∧ Pipeline.ClaimClean msgpackRows s a) hr hhandle
  rw [hempty] at hq
  obtain ⟨s, hcrash, hdown, hone, hnone, hlists⟩ := exists_crash hq hdecode
  have hreach := (((Reach.init rfl).run hrefreshed).run hpushed).run hcrash
  have hscan : Scan s.pipeline.redis ([workerId [] 0 none].map inflightKey) := by
    constructor
    · intro key hkey
      exact ⟨_, List.mem_singleton.mp hkey⟩
    · intro id hne
      rw [hlists, Function.update_apply] at hne
      split at hne
      · rename_i heq
        exact List.mem_singleton.mpr heq
      · exact absurd rfl hne
  obtain ⟨t, hrun, -, -, hstored, -⟩ := recovers msgpackRows_lawful Clock.seconds_lawful hreach hdown
    hscan (fun id (hid : id ∈ _liveWorkerIds [] []) ↦ absurd hid List.not_mem_nil) 0 1 none
  exact ⟨s, t, _, hreach, hone, hnone, hrun, hstored⟩

end Deployment

end LogServer
