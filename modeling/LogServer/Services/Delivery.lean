import LogServer.Queue.Msgpack
import LogServer.Services.Worker

/-!
# At-least-once delivery

An entry that was pushed stays in Redis until its row is in the log table.  What could go wrong is
the acknowledgement, which deletes a whole in-flight list and not the batch that was inserted.  The
two agree as long as a claim that returns entries finds the list clean (`ClaimClean`), and then
`delivery` holds along every run: whatever is killed, restarted, released or raised.

They do not agree after a claim whose reply was lost.  The entries it took are in the list, the
worker has not seen them, and it claims again; the acknowledgement of the second batch deletes the
first (`delivery_lost_claim`).
-/

namespace LogServer

open Transition

variable {δ : Type}

/-! ## Decoding -/

/-- A claim without rows has no entry that decodes. -/
theorem BatchWorker.decode_eq_none {msgpack : Msgpack} {clock : Clock δ} {claimed : List Bytes}
    {bad : Nat} (h : _decode msgpack clock claimed = .ok ([], bad)) :
    ∀ payload ∈ claimed, LogQueue.decode msgpack payload = none := by
  induction claimed generalizing bad with
  | nil =>
      intro payload hmem
      cases hmem
  | cons payload claimed ih =>
      rw [_decode] at h
      cases hdecode : LogQueue.decode msgpack payload with
      | some row =>
          rw [hdecode] at h
          dsimp only at h
          cases hstamp : stamp clock row with
          | error e =>
              rw [hstamp] at h
              cases h
          | ok row =>
              rw [hstamp] at h
              cases hrest : _decode msgpack clock claimed with
              | error e =>
                  rw [hrest] at h
                  cases h
              | ok x =>
                  rw [hrest] at h
                  cases h
      | none =>
          rw [hdecode] at h
          dsimp only at h
          cases hrest : _decode msgpack clock claimed with
          | error e =>
              rw [hrest] at h
              cases h
          | ok x =>
              obtain ⟨rows, bad⟩ := x
              rw [hrest] at h
              cases h
              exact List.forall_mem_cons.mpr ⟨hdecode, ih hrest⟩

namespace Pipeline

variable {cfg : WorkerConfig} {msgpack : Msgpack} {clock : Clock δ}

@[simp] theorem decodable_eq_false {x : Entry} :
    decodable msgpack x = false ↔ LogQueue.decode msgpack x.payload = none := by
  rw [decodable, Option.isSome_eq_false_iff, Option.isNone_iff_eq_none]

/-! ## The invariant -/

/-- A claim that returns entries finds no decodable entry of an earlier claim in the worker's
in-flight list. -/
def ClaimClean (msgpack : Msgpack) (s : Pipeline) : Action → Prop
  | .worker p (.redis .ok) =>
      ∀ w, s.workers p = some w → w.phase = .claiming → s.redis.queue ≠ [] →
        ∀ x ∈ s.redis.inflight w.key, decodable msgpack x = false
  | _ => True

/-- An entry is where a later step finds it, or in the log table. -/
def Safe (s : Pipeline) (x : Entry) : Prop :=
  x ∈ s.redis.queue ∨ (∃ key, x ∈ s.redis.inflight key) ∨ x ∈ s.inserted

/-- What a phase promises of the worker's in-flight list. -/
def Covers (msgpack : Msgpack) (list inserted : List Entry) : Phase → Prop
  | .writing claimed | .inserting claimed => ∀ x ∈ list, decodable msgpack x → x ∈ claimed
  | .acking _ => ∀ x ∈ list, decodable msgpack x → x ∈ inserted
  | _ => True

/-- **No entry is forgotten.** -/
structure Kept (msgpack : Msgpack) (s : Pipeline) : Prop where
  safe : ∀ x ∈ s.pushed, decodable msgpack x → s.Safe x
  covers : ∀ p w, s.workers p = some w →
    Covers msgpack (s.redis.inflight w.key) s.inserted w.phase

/-- What is promised of a list is promised of a part of it, with more inserted. -/
theorem Covers.mono {list list' inserted inserted' : List Entry} {phase : Phase}
    (h : Covers msgpack list inserted phase) (hlist : list' ⊆ list)
    (hinserted : inserted ⊆ inserted') : Covers msgpack list' inserted' phase := by
  cases phase with
  | writing claimed => exact fun x hx ↦ h x (hlist hx)
  | inserting claimed => exact fun x hx ↦ h x (hlist hx)
  | acking claimed => exact fun x hx hdec ↦ hinserted (h x (hlist hx) hdec)
  | starting => exact trivial
  | idle => exact trivial
  | claiming => exact trivial
  | releasing claimed => exact trivial
  | draining => exact trivial

namespace Kept

variable {s s' : Pipeline} {p : Nat} {w : Worker}

theorem empty : Kept msgpack empty where
  safe := fun x hx ↦ by cases hx
  covers := fun p w hw ↦ by cases hw

/-! ## The parts of a step -/

/-- Lists that shrink keep the promises, if they do not lose an entry. -/
theorem frame (h : Kept msgpack s)
    (hsafe : ∀ x ∈ s'.pushed, decodable msgpack x → s'.Safe x)
    (hlist : ∀ key, s'.redis.inflight key ⊆ s.redis.inflight key)
    (hinserted : s.inserted ⊆ s'.inserted)
    (hworkers : ∀ p w, s'.workers p = some w → s.workers p = some w) : Kept msgpack s' where
  safe := hsafe
  covers := fun p w hw ↦ (h.covers p w (hworkers p w hw)).mono (hlist w.key) hinserted

/-- A process goes on in a state whose promise holds. -/
theorem update (h : Kept msgpack s)
    (hcovers : Covers msgpack (s.redis.inflight w.key) s.inserted w.phase) :
    Kept msgpack { s with workers := Function.update s.workers p (some w) } where
  safe := h.safe
  covers := by
    intro q v hv
    replace hv : Function.update s.workers p (some w) q = some v := hv
    rw [Function.update_apply] at hv
    split at hv
    · cases hv
      exact hcovers
    · exact h.covers q v hv

theorem goto (h : Kept msgpack s) {phase : Phase}
    (hcovers : Covers msgpack (s.redis.inflight w.key) s.inserted phase) :
    Kept msgpack (s.goto p w phase) := h.update hcovers

theorem exit (h : Kept msgpack s) : Kept msgpack (s.exit p) := by
  refine h.frame h.safe (fun key ↦ List.Subset.refl _) (List.Subset.refl _) ?_
  intro q v hv
  replace hv : Function.update s.workers p none q = some v := hv
  rw [Function.update_apply] at hv
  split at hv
  · cases hv
  · exact hv

/-- A call that returns or raises, in phases that promise nothing. -/
theorem finish (h : Kept msgpack s) (reply : Reply) :
    Kept msgpack (if reply = .ok then s.goto p w .idle else s.exit p) := by
  split
  · exact h.goto trivial
  · exact h.exit

theorem push (h : Kept msgpack s) (payloads : List Bytes) : Kept msgpack (s.push payloads) := by
  refine h.frame ?_ (fun key ↦ List.Subset.refl _) (List.Subset.refl _) fun q v hv ↦ hv
  intro x hx hdec
  rcases List.mem_append.mp hx with hold | hnew
  · rcases h.safe x hold hdec with hqueue | hrest
    · exact .inl (List.mem_append_left _ hqueue)
    · exact .inr hrest
  · exact .inl (List.mem_append_right _ hnew)

/-- What a release takes from a list is at the head of the queue. -/
theorem release (h : Kept msgpack s) (key : Text) (reply : Reply) :
    Kept msgpack (s.release key reply) := by
  unfold Pipeline.release
  split
  · rw [Redis.release_eq]
    refine h.frame ?_ ?_ (List.Subset.refl _) fun q v hv ↦ hv
    · intro x hx hdec
      rcases h.safe x hx hdec with hqueue | ⟨key', hkey'⟩ | hinserted
      · exact .inl (List.mem_append_right _ hqueue)
      · by_cases heq : key' = key
        · exact .inl (List.mem_append_left _ (heq ▸ hkey'))
        · refine .inr (.inl ⟨key', ?_⟩)
          show x ∈ Function.update s.redis.inflight key [] key'
          rwa [Function.update_of_ne heq]
      · exact .inr (.inr hinserted)
    · intro key' x hx
      replace hx : x ∈ Function.update s.redis.inflight key [] key' := hx
      rw [Function.update_apply] at hx
      split at hx
      · cases hx
      · exact hx
  · exact h

/-- An acknowledgement deletes a list whose decodable entries are inserted. -/
theorem ack (h : Kept msgpack s) {key : Text} (reply : Reply)
    (hdone : ∀ x ∈ s.redis.inflight key, decodable msgpack x → x ∈ s.inserted) :
    Kept msgpack (s.ack key reply) := by
  unfold Pipeline.ack
  split
  · refine h.frame ?_ ?_ (List.Subset.refl _) fun q v hv ↦ hv
    · intro x hx hdec
      rcases h.safe x hx hdec with hqueue | ⟨key', hkey'⟩ | hinserted
      · exact .inl hqueue
      · by_cases heq : key' = key
        · exact .inr (.inr (hdone x (heq ▸ hkey') hdec))
        · refine .inr (.inl ⟨key', ?_⟩)
          show x ∈ Function.update s.redis.inflight key [] key'
          rwa [Function.update_of_ne heq]
      · exact .inr (.inr hinserted)
    · intro key' x hx
      replace hx : x ∈ Function.update s.redis.inflight key [] key' := hx
      rw [Function.update_apply] at hx
      split at hx
      · cases hx
      · exact hx
  · exact h

/-- What a claim takes from the queue is in the list of the worker, which has not promised
anything. -/
theorem claim (cfg : WorkerConfig) (h : Kept msgpack s) (hkeys : s.KeysDistinct) (hw : s.workers p = some w)
    (hphase : w.phase = .claiming) :
    Kept msgpack { s with redis := (s.redis.claim w.key cfg.batchSize).1 } := by
  rw [Redis.claim_eq _ _ cfg.batchSize_pos]
  constructor
  · intro x hx hdec
    rcases h.safe x hx hdec with hqueue | ⟨key, hkey⟩ | hinserted
    · rw [← List.take_append_drop cfg.batchSize s.redis.queue, List.mem_append] at hqueue
      rcases hqueue with htake | hdrop
      · refine .inr (.inl ⟨w.key, ?_⟩)
        show x ∈ Function.update s.redis.inflight w.key _ w.key
        rw [Function.update_self]
        exact List.mem_append_right _ htake
      · exact .inl hdrop
    · refine .inr (.inl ⟨key, ?_⟩)
      show x ∈ Function.update s.redis.inflight w.key _ key
      rw [Function.update_apply]
      split
      · rename_i heq
        exact List.mem_append_left _ (heq ▸ hkey)
      · exact hkey
    · exact .inr (.inr hinserted)
  · intro q v hv
    show Covers msgpack (Function.update s.redis.inflight w.key _ v.key) s.inserted v.phase
    by_cases heq : v.key = w.key
    · obtain rfl := hkeys q p v w hv hw heq
      obtain rfl := Option.some.inj (hv.symm.trans hw)
      rw [hphase]
      exact trivial
    · rw [Function.update_of_ne heq]
      exact h.covers q v hv

/-- The log table gets rows. -/
theorem insert (h : Kept msgpack s) (claimed : List Entry) :
    Kept msgpack { s with inserted := s.inserted ++ claimed } := by
  refine h.frame ?_ (fun key ↦ List.Subset.refl _) (List.subset_append_left _ _) fun q v hv ↦ hv
  intro x hx hdec
  rcases h.safe x hx hdec with hqueue | hlist | hinserted
  · exact .inl hqueue
  · exact .inr (.inl hlist)
  · exact .inr (.inr (List.mem_append_left _ hinserted))

/-- A claim that returned to a clean list is the decodable part of that list. -/
theorem received (h : Kept msgpack s) {claimed : List Entry}
    (hclaimed : claimed ≠ [] → ∀ x ∈ s.redis.inflight w.key, decodable msgpack x → x ∈ claimed) :
    Kept msgpack (s.received p w msgpack clock claimed) := by
  unfold Pipeline.received
  split
  · exact h.goto trivial
  · rename_i hne
    have hlist := hclaimed fun hnil ↦ hne (hnil ▸ rfl)
    split
    · exact h.exit
    · rename_i rows bad hdecode
      split
      · rename_i hrows
        rw [List.isEmpty_iff.mp hrows] at hdecode
        refine h.goto fun x hx hdec ↦ ?_
        have hnone := BatchWorker.decode_eq_none hdecode x.payload
          (List.mem_map_of_mem (hlist x hx hdec))
        rw [decodable, hnone] at hdec
        cases hdec
      · exact h.goto hlist

/-! ## The step -/

/-- A step of a worker forgets nothing. -/
theorem workerStep (h : Kept msgpack s) (hkeys : s.KeysDistinct) (hw : s.workers p = some w)
    {a : WorkerAction} (hclean : ClaimClean msgpack s (.worker p a))
    (hs : s.workerStep p w cfg msgpack clock w.phase a = some s') : Kept msgpack s' := by
  have hcovers := h.covers p w hw
  unfold Pipeline.workerStep at hs
  split at hs
  case h_1 reply _ =>
      cases hs
      exact (h.release w.key reply).finish reply
  case h_2 =>
      cases hs
      refine h.goto ?_
      split <;> exact trivial
  case h_3 reply hphase =>
      cases hs
      have hclaim := h.claim cfg hkeys hw hphase
      unfold Pipeline.claim
      cases reply with
      | ok =>
          refine hclaim.received fun hne x hx hdec ↦ ?_
          rw [Redis.claim_eq _ _ cfg.batchSize_pos] at hne hx ⊢
          replace hx : x ∈ Function.update s.redis.inflight w.key _ w.key := hx
          rw [Function.update_self, List.mem_append] at hx
          rcases hx with hold | hnew
          · have hqueue : s.redis.queue ≠ [] := by
              intro hnil
              exact hne (by rw [hnil]; exact List.take_nil)
            rw [hclean w hw hphase hqueue x hold] at hdec
            cases hdec
          · exact hnew
      | failed => exact h.goto trivial
      | lost => exact hclaim.goto trivial
  case h_4 claimed hphase =>
      cases hs
      rw [hphase] at hcovers
      refine h.goto ?_
      split
      · exact trivial
      · exact hcovers
  case h_5 claimed reply hphase =>
      cases hs
      rw [hphase] at hcovers
      unfold Pipeline.store
      cases reply with
      | ok =>
          refine (h.insert _).goto fun x hx hdec ↦ ?_
          exact List.mem_append_right _ (List.mem_filter.mpr ⟨hcovers x hx hdec, hdec⟩)
      | failed => exact h.goto hcovers
      | lost => exact (h.insert _).goto hcovers
  case h_6 claimed reply hphase =>
      cases hs
      rw [hphase] at hcovers
      exact (h.ack reply hcovers).finish reply
  case h_7 claimed reply hphase =>
      cases hs
      exact (h.release w.key reply).finish reply
  case h_8 reply _ =>
      cases hs
      exact (h.release w.key reply).exit
  case h_9 => cases hs

/-- **A step forgets nothing.** -/
theorem step (h : Kept msgpack s) (hkeys : s.KeysDistinct) {a : Action}
    (hclean : ClaimClean msgpack s a) (hs : s.step cfg msgpack clock a = some s') :
    Kept msgpack s' := by
  cases a with
  | push payloads reply =>
      cases hs
      split
      · exact h.push payloads
      · exact h
  | start q host pid envId =>
      rw [Pipeline.step] at hs
      split at hs
      · cases hs
        exact h.update trivial
      · cases hs
  | kill q =>
      cases hs
      exact h.exit
  | stop q =>
      obtain ⟨v, hv, rfl⟩ := Option.map_eq_some_iff.mp hs
      exact h.update (w := { v with stop := true }) (h.covers q v hv)
  | worker q a =>
      obtain ⟨v, hv, hstep⟩ := Option.bind_eq_some_iff.mp hs
      exact h.workerStep hkeys hv hclean hstep
  | beginRecovery m host entries =>
      rw [Pipeline.step] at hs
      split at hs
      · cases hs
        exact ⟨h.safe, h.covers⟩
      · cases hs
  | visit m id reply =>
      obtain ⟨live, -, rfl⟩ := Option.map_eq_some_iff.mp hs
      have hrelease := h.release (inflightKey id) reply
      unfold Pipeline.visit
      split
      · exact h
      · dsimp only
        split
        · exact hrelease
        · exact ⟨hrelease.safe, hrelease.covers⟩
  | endRecovery m =>
      cases hs
      exact ⟨h.safe, h.covers⟩

/-- Nothing is forgotten throughout a run. -/
theorem reach (h : Reach (system cfg msgpack clock)
    (fun s a ↦ s.Distinct a ∧ ClaimClean msgpack s a) s) : s.KeysDistinct ∧ Kept msgpack s := by
  refine Reach.invariant (P := fun s ↦ s.KeysDistinct ∧ Kept msgpack s) ?_ ?_ h
  · rintro s rfl
    exact ⟨fun p q v w hv ↦ (by cases hv), Kept.empty⟩
  · rintro s a s' ⟨hkeys, hkept⟩ ⟨hdistinct, hclean⟩ hs
    exact ⟨hkeys.step hdistinct hs, hkept.step hkeys hclean hs⟩

end Kept

/-! ## Delivery -/

/-- **At-least-once delivery.**  In every run in which each claim that returns entries finds the
in-flight list clean, every entry ever pushed is in the queue, in an in-flight list, inserted or
undecodable, and a list about to be acknowledged has nothing else than inserted and undecodable
entries. -/
theorem delivery {s : Pipeline} (h : Reach (system cfg msgpack clock)
    (fun s a ↦ s.Distinct a ∧ ClaimClean msgpack s a) s) :
    (∀ x ∈ s.pushed, x ∈ s.redis.queue ∨ (∃ key, x ∈ s.redis.inflight key) ∨ x ∈ s.inserted ∨
      LogQueue.decode msgpack x.payload = none) ∧
    ∀ p w claimed, s.workers p = some w → w.phase = .acking claimed →
      ∀ x ∈ s.redis.inflight w.key,
        x ∈ s.inserted ∨ LogQueue.decode msgpack x.payload = none := by
  obtain ⟨-, hsafe, hcovers⟩ := Kept.reach h
  constructor
  · intro x hx
    by_cases hdec : decodable msgpack x
    · rcases hsafe x hx hdec with hqueue | hlist | hinserted
      · exact .inl hqueue
      · exact .inr (.inl hlist)
      · exact .inr (.inr (.inl hinserted))
    · exact .inr (.inr (.inr (decodable_eq_false.mp (by simpa using hdec))))
  · intro p w claimed hw hphase x hx
    have hdone := hcovers p w hw
    rw [hphase] at hdone
    by_cases hdec : decodable msgpack x
    · exact .inl (hdone x hx hdec)
    · exact .inr (decodable_eq_false.mp (by simpa using hdec))

/-! ## Runs -/

/-- An entry that a worker decodes. -/
theorem exists_payload : ∃ payload, (LogQueue.decode msgpackRows payload).isSome ∧
    ∃ row, BatchWorker._decode msgpackRows Clock.seconds [payload] = .ok ([row], 0) := by
  have hfits : ∀ c ∈ List.replicate 11 (Cell.int 0), msgpackRows.Fits c := by
    intro c hc
    cases List.eq_of_mem_replicate hc
    exact show 0 < 2 ^ 64 by decide
  obtain ⟨payload, -, hdecode⟩ :=
    LogQueue.decode_encode msgpackRows_lawful (List.length_replicate ..) hfits
  refine ⟨payload, by rw [hdecode]; rfl, ?_⟩
  rw [BatchWorker._decode, hdecode]
  exact ⟨_, rfl⟩

/-- A batch on its way into the log table. -/
theorem delivery_session : ∃ s, Reach (system ⟨100, by decide⟩ msgpackRows Clock.seconds)
    (fun s a ↦ s.Distinct a ∧ ClaimClean msgpackRows s a) s ∧ s.pushed.length = 1 ∧
    ∀ x ∈ s.pushed, x ∈ s.redis.queue ∨ (∃ key, x ∈ s.redis.inflight key) ∨ x ∈ s.inserted ∨
      LogQueue.decode msgpackRows x.payload = none := by
  obtain ⟨payload, hsome, row, hdecode⟩ := exists_payload
  have hrun : ∃ s, (system ⟨100, by decide⟩ msgpackRows Clock.seconds).Run
      (fun s a ↦ s.Distinct a ∧ ClaimClean msgpackRows s a) s empty
      [.push [payload] .ok, .start 0 [] 0 none, .worker 0 (.redis .ok), .worker 0 .check,
        .worker 0 (.redis .ok), .worker 0 .check, .worker 0 (.insert .ok),
        .worker 0 (.redis .ok)] ∧ s.pushed.length = 1 := by
    simp [System.Run, Distinct, ClaimClean, system, step, workerStep, push, number, empty, release,
      goto, exit, claim, received, store, ack, Reply.effect, Redis.pushMany, Redis.rpush,
      Redis.ack, Redis.release_eq, Redis.claim_eq, hdecode]
  obtain ⟨s, hrun, hlength⟩ := hrun
  have h := (Reach.init rfl).run hrun
  exact ⟨s, h, hlength, (delivery h).1⟩

/-- **A claim whose reply was lost.**  The worker claims twice, and an entry comes in between; the
acknowledgement of the second entry deletes the first. -/
theorem delivery_lost_claim : ∃ s, Reach (system ⟨100, by decide⟩ msgpackRows Clock.seconds)
    Distinct s ∧ ∃ x ∈ s.pushed, x ∉ s.redis.queue ∧ (∀ key, x ∉ s.redis.inflight key) ∧
      x ∉ s.inserted ∧ LogQueue.decode msgpackRows x.payload ≠ none := by
  obtain ⟨payload, hsome, row, hdecode⟩ := exists_payload
  have hrun : ∃ s, (system ⟨100, by decide⟩ msgpackRows Clock.seconds).Run Distinct s empty
      [.push [payload] .ok, .start 0 [] 0 none, .worker 0 (.redis .ok),
        .worker 0 .check, .worker 0 (.redis .lost), .push [payload] .ok, .worker 0 .check,
        .worker 0 (.redis .ok), .worker 0 .check, .worker 0 (.insert .ok),
        .worker 0 (.redis .ok)] ∧
      ⟨0, payload⟩ ∈ s.pushed ∧ s.redis.queue = [] ∧ (∀ key, s.redis.inflight key = []) ∧
      s.inserted = [⟨1, payload⟩] := by
    simp [System.Run, Distinct, system, step, workerStep, push, number, empty, release, goto, exit,
      claim, received, store, ack, Reply.effect, Redis.pushMany, Redis.rpush, Redis.ack,
      Redis.release_eq, Redis.claim_eq, hdecode, decodable, hsome, Worker.key, Worker.id]
  obtain ⟨s, hrun, hpushed, hqueue, hinflight, hinserted⟩ := hrun
  refine ⟨s, (Reach.init rfl).run hrun, _, hpushed, ?_, ?_, ?_, ?_⟩
  · rw [hqueue]
    exact List.not_mem_nil
  · intro key
    rw [hinflight]
    exact List.not_mem_nil
  · rw [hinserted]
    simp
  · rw [← Option.isSome_iff_ne_none]
    exact hsome

end Pipeline

end LogServer
