import LogServer.Lib.History
import LogServer.Services.Delivery

/-!
# Insertion at most once

When nothing is killed and no call fails, an entry is inserted at most once: the queue and the
in-flight lists never share an entry, and a worker deletes the list of a batch it has inserted
before it claims again.

Maintenance is the one party that takes entries out of a list it does not own.  It decides by name:
a list is left alone if its worker's id is in a snapshot of ids made of the host name and the
numbers in `/proc`.  `Once.reach` is the invariant along runs in which the scan finds each worker
that holds a batch in its snapshot (`Spares`).  When that is the case is a matter of who the workers
are and when they started, which a `Chronicle` of the run tells: the scan only comes to the batches of
workers under their default id, on the host of the maintenance run, started before its snapshot
(`Sheltered`).  Then `insert_once` holds.  With a worker that was started after the snapshot, or runs
on another host, or has an id of its own, a batch may be inserted twice (`insert_once_late_worker`).
-/

namespace LogServer

open Transition

variable {δ : Type}

theorem inflightKey_inj {id id' : Text} : inflightKey id = inflightKey id' ↔ id = id' :=
  List.append_right_inj INFLIGHT_PREFIX

namespace Pipeline

variable {cfg : WorkerConfig} {msgpack : Msgpack} {clock : Clock δ}

/-! ## Conditions -/

/-- No process is killed, and no call fails. -/
def Calm : Action → Prop
  | .push _ reply => reply = .ok
  | .kill _ => False
  | .worker _ (.redis reply) => reply = .ok
  | .worker _ (.insert reply) => reply = .ok
  | .visit _ _ reply => reply = .ok
  | _ => True

/-- The scan of a maintenance run finds a worker that holds a batch in the run's snapshot. -/
def Spares (s : Pipeline) : Action → Prop
  | .visit m id _ => ∀ live, s.recoveries m = some live → ∀ p w, s.workers p = some w →
      w.id = id → w.phase.claimed ≠ [] → id ∈ live
  | _ => True

/-! ## Entries in one place -/

/-- No entry is in two places in Redis, none that was inserted is in the queue, and their numbers
are below `n`. -/
structure Tidy (r : Redis Entry) (inserted : List Entry) (n : Nat) : Prop where
  total : ∀ K, (r.total K).Nodup
  fresh : ∀ K, ∀ x ∈ r.total K, x.id < n
  nodup : inserted.Nodup
  done : ∀ x ∈ inserted, x.id < n ∧ x ∉ r.queue

namespace Tidy

variable {r : Redis Entry} {inserted : List Entry} {n : Nat} {key : Text}

theorem empty : Tidy ⟨[], fun _ ↦ []⟩ [] 0 where
  total := fun K ↦ by simp [Redis.total]
  fresh := fun K x hx ↦ by simp [Redis.total] at hx
  nodup := List.nodup_nil
  done := fun x hx ↦ by cases hx

/-- The queue and a list share no entry. -/
theorem disjoint (h : Tidy r inserted n) (key : Text) : r.queue.Disjoint (r.inflight key) := by
  have htotal := h.total {key}
  rw [Redis.total, Finset.sum_singleton, Multiset.coe_add, Multiset.coe_nodup] at htotal
  exact List.disjoint_of_nodup_append htotal

theorem nodup_inflight (h : Tidy r inserted n) (key : Text) : (r.inflight key).Nodup := by
  have htotal := h.total {key}
  rw [Redis.total, Finset.sum_singleton, Multiset.coe_add, Multiset.coe_nodup] at htotal
  exact htotal.of_append_right

/-- Two lists share no entry. -/
theorem disjoint_inflight (h : Tidy r inserted n) {key key' : Text} (hne : key ≠ key') :
    (r.inflight key).Disjoint (r.inflight key') := by
  have htotal := h.total {key, key'}
  rw [Redis.total, Finset.sum_pair hne, Multiset.coe_add, Multiset.coe_add,
    Multiset.coe_nodup] at htotal
  exact List.disjoint_of_nodup_append htotal.of_append_right

/-- Entries that move inside Redis, none of those inserted into the queue. -/
theorem move (h : Tidy r inserted n) {r' : Redis Entry}
    (htotal : ∀ K, ∃ K', r'.total K ≤ r.total K')
    (hqueue : ∀ x ∈ inserted, x ∉ r'.queue) : Tidy r' inserted n where
  total := fun K ↦ by
    obtain ⟨K', hle⟩ := htotal K
    exact Multiset.nodup_of_le hle (h.total K')
  fresh := fun K x hx ↦ by
    obtain ⟨K', hle⟩ := htotal K
    exact h.fresh K' x (Multiset.mem_of_le hle hx)
  nodup := h.nodup
  done := fun x hx ↦ ⟨(h.done x hx).1, hqueue x hx⟩

theorem release (h : Tidy r inserted n) (hlist : ∀ x ∈ inserted, x ∉ r.inflight key) :
    Tidy (r.release key).1 inserted n := by
  refine h.move (fun K ↦ ⟨insert key K, ?_⟩) fun x hx ↦ ?_
  · rw [← Redis.total_release (r := r) (Finset.mem_insert_self key K)]
    exact Redis.total_mono (Finset.subset_insert key K)
  · rw [Redis.release_eq, List.mem_append, not_or]
    exact ⟨hlist x hx, (h.done x hx).2⟩

theorem claim (h : Tidy r inserted n) {count : Nat} (hcount : 0 < count) :
    Tidy (r.claim key count).1 inserted n := by
  refine h.move (fun K ↦ ⟨insert key K, ?_⟩) fun x hx ↦ ?_
  · rw [← Redis.total_claim (r := r) (Finset.mem_insert_self key K) hcount]
    exact Redis.total_mono (Finset.subset_insert key K)
  · rw [Redis.claim_eq _ _ hcount]
    exact fun hmem ↦ (h.done x hx).2 (List.mem_of_mem_drop hmem)

theorem ack (h : Tidy r inserted n) : Tidy (r.ack key) inserted n :=
  h.move (fun K ↦ ⟨K, Redis.total_ack_le⟩) fun x hx ↦ (h.done x hx).2

/-- A part of a list is inserted, none of it for the second time. -/
theorem insert (h : Tidy r inserted n) {rows : List Entry}
    (hrows : rows.Sublist (r.inflight key)) (hlist : ∀ x ∈ inserted, x ∉ r.inflight key) :
    Tidy r (inserted ++ rows) n where
  total := h.total
  fresh := h.fresh
  nodup := h.nodup.append ((h.nodup_inflight key).sublist hrows)
    fun x hx hrow ↦ hlist x hx (hrows.subset hrow)
  done := fun x hx ↦ by
    rcases List.mem_append.mp hx with hold | hnew
    · exact h.done x hold
    · have hmem := hrows.subset hnew
      exact ⟨h.fresh {key} x (Redis.mem_total_inflight (Finset.mem_singleton_self key) hmem),
        fun hqueue ↦ h.disjoint key hqueue hmem⟩

/-- The numbers of new entries. -/
theorem number_bounds {n : Nat} {payloads : List Bytes} {x : Entry}
    (hx : x ∈ number n payloads) : n ≤ x.id ∧ x.id < n + payloads.length := by
  induction payloads generalizing n with
  | nil => cases hx
  | cons payload payloads ih =>
      rw [List.length_cons]
      rcases List.mem_cons.mp hx with rfl | hrest
      · exact ⟨Nat.le_refl n, Nat.lt_add_of_pos_right (Nat.succ_pos _)⟩
      · obtain ⟨hle, hlt⟩ := ih hrest
        exact ⟨by omega, by omega⟩

theorem nodup_number (n : Nat) (payloads : List Bytes) : (number n payloads).Nodup := by
  induction payloads generalizing n with
  | nil => exact List.nodup_nil
  | cons payload payloads ih =>
      refine List.nodup_cons.mpr ⟨fun hmem ↦ ?_, ih (n + 1)⟩
      have hle : n + 1 ≤ n := (number_bounds hmem).1
      omega

theorem length_number (n : Nat) (payloads : List Bytes) :
    (number n payloads).length = payloads.length := by
  induction payloads generalizing n with
  | nil => rfl
  | cons payload payloads ih => exact congrArg Nat.succ (ih (n + 1))

/-- New entries are in no other place. -/
theorem push (h : Tidy r inserted n) (payloads : List Bytes) :
    Tidy (r.pushMany (number n payloads)) inserted (n + payloads.length) where
  total := fun K ↦ by
    rw [Redis.total_pushMany, Multiset.nodup_add, Multiset.coe_nodup, Multiset.disjoint_left]
    refine ⟨h.total K, nodup_number n payloads, fun hx hnew ↦ ?_⟩
    exact absurd (h.fresh K _ hx) (Nat.not_lt.mpr (number_bounds hnew).1)
  fresh := fun K x hx ↦ by
    rw [Redis.total_pushMany, Multiset.mem_add] at hx
    rcases hx with hold | hnew
    · exact Nat.lt_of_lt_of_le (h.fresh K x hold) (Nat.le_add_right n _)
    · exact (number_bounds hnew).2
  nodup := h.nodup
  done := fun x hx ↦ by
    obtain ⟨hlt, hqueue⟩ := h.done x hx
    refine ⟨Nat.lt_of_lt_of_le hlt (Nat.le_add_right n _), fun hmem ↦ ?_⟩
    rcases List.mem_append.mp hmem with hold | hnew
    · exact hqueue hold
    · exact absurd hlt (Nat.not_lt.mpr (number_bounds hnew).1)

end Tidy

/-! ## The invariant -/

/-- **A batch is inserted once.** -/
structure Once (s : Pipeline) : Prop where
  tidy : Tidy s.redis s.inserted s.pushed.length
  /-- The list of a worker is the batch it holds. -/
  holds : ∀ p w, s.workers p = some w → w.phase ≠ .starting →
    s.redis.inflight w.key = w.phase.claimed
  /-- An inserted entry that is still in a list is about to be acknowledged. -/
  acking : ∀ x ∈ s.inserted, ∀ key, x ∈ s.redis.inflight key →
    ∃ p w claimed, s.workers p = some w ∧ w.key = key ∧ w.phase = .acking claimed

namespace Once

variable {s s' : Pipeline} {p : Nat} {w : Worker}

theorem empty : Once empty where
  tidy := Tidy.empty
  holds := fun p w hw ↦ by cases hw
  acking := fun x hx ↦ by cases hx

/-- The list of a worker that does not acknowledge has nothing inserted. -/
theorem not_inserted (h : Once s) (hkeys : s.KeysDistinct) (hw : s.workers p = some w)
    (hphase : ∀ claimed, w.phase ≠ .acking claimed) :
    ∀ x ∈ s.inserted, x ∉ s.redis.inflight w.key := by
  intro x hx hmem
  obtain ⟨q, v, claimed, hv, hkey, hacking⟩ := h.acking x hx w.key hmem
  obtain rfl := hkeys q p v w hv hw hkey
  obtain rfl := Option.some.inj (hv.symm.trans hw)
  exact hphase claimed hacking

/-- A worker that moves touches its own list alone, and answers for it. -/
theorem own (h : Once s) (hkeys : s.KeysDistinct) (hw : s.workers p = some w) {o : Option Worker}
    (hworkers : s'.workers = Function.update s.workers p o)
    (htidy : Tidy s'.redis s'.inserted s'.pushed.length)
    (hother : ∀ key, key ≠ w.key → s'.redis.inflight key = s.redis.inflight key)
    (hinserted : ∀ x ∈ s'.inserted, x ∈ s.inserted ∨ x ∈ s.redis.inflight w.key)
    (hholds : ∀ v, o = some v → v.key = w.key ∧
      (v.phase ≠ .starting → s'.redis.inflight w.key = v.phase.claimed))
    (hacking : ∀ x ∈ s'.inserted, x ∈ s'.redis.inflight w.key →
      ∃ v claimed, o = some v ∧ v.phase = .acking claimed) : Once s' where
  tidy := htidy
  holds := by
    intro q v hv hphase
    rw [hworkers, Function.update_apply] at hv
    split at hv
    · obtain ⟨hkey, hlist⟩ := hholds v hv
      rw [hkey]
      exact hlist hphase
    · rename_i hqp
      have hne : v.key ≠ w.key := fun hkey ↦ hqp (hkeys q p v w hv hw hkey)
      rw [hother v.key hne]
      exact h.holds q v hv hphase
  acking := by
    intro x hx key hmem
    by_cases hkey : key = w.key
    · subst hkey
      obtain ⟨v, claimed, hv, hphase⟩ := hacking x hx hmem
      exact ⟨p, v, claimed, by rw [hworkers, Function.update_self, hv], (hholds v hv).1, hphase⟩
    · rw [hother key hkey] at hmem
      rcases hinserted x hx with hold | hlist
      · obtain ⟨q, v, claimed, hv, hvkey, hphase⟩ := h.acking x hold key hmem
        refine ⟨q, v, claimed, ?_, hvkey, hphase⟩
        have hqp : q ≠ p := by
          rintro rfl
          obtain rfl := Option.some.inj (hv.symm.trans hw)
          exact hkey hvkey.symm
        rw [hworkers, Function.update_of_ne hqp, hv]
      · exact absurd hmem (h.tidy.disjoint_inflight (Ne.symm hkey) hlist)

/-! ## The steps of a worker -/

/-- A worker checks the stop event. -/
theorem check (h : Once s) (hkeys : s.KeysDistinct) (hw : s.workers p = some w) {phase : Phase}
    (hphase : ∀ claimed, w.phase ≠ .acking claimed) (hstart : w.phase ≠ .starting)
    (hclaimed : phase.claimed = w.phase.claimed) : Once (s.goto p w phase) := by
  refine h.own hkeys hw (o := some { w with phase := phase }) rfl h.tidy (fun _ _ ↦ rfl)
    (fun x hx ↦ .inl hx) ?_ ?_
  · rintro v ⟨⟩
    exact ⟨rfl, fun _ ↦ (h.holds p w hw hstart).trans hclaimed.symm⟩
  · intro x hx hmem
    exact absurd hmem (h.not_inserted hkeys hw hphase x hx)

/-- A worker releases its list. -/
theorem release (h : Once s) (hkeys : s.KeysDistinct) (hw : s.workers p = some w)
    {o : Option Worker} (hphase : ∀ claimed, w.phase ≠ .acking claimed)
    (ho : ∀ v, o = some v → v.key = w.key ∧ v.phase.claimed = []) :
    Once { s.release w.key .ok with workers := Function.update s.workers p o } := by
  have hlist := h.not_inserted hkeys hw hphase
  refine h.own hkeys hw (o := o) rfl (h.tidy.release hlist) ?_ (fun x hx ↦ .inl hx) ?_ ?_
  · intro key hkey
    show (s.redis.release w.key).1.inflight key = _
    rw [Redis.release_eq]
    exact Function.update_of_ne hkey _ _
  · intro v hv
    refine ⟨(ho v hv).1, fun _ ↦ ?_⟩
    show (s.redis.release w.key).1.inflight w.key = _
    rw [Redis.release_eq, (ho v hv).2]
    exact Function.update_self ..
  · intro x hx hmem
    replace hmem : x ∈ (s.redis.release w.key).1.inflight w.key := hmem
    rw [Redis.release_eq] at hmem
    replace hmem : x ∈ Function.update s.redis.inflight w.key [] w.key := hmem
    rw [Function.update_self] at hmem
    cases hmem

/-- A worker claims a batch. -/
theorem claim (cfg : WorkerConfig) (h : Once s) (hkeys : s.KeysDistinct) (hw : s.workers p = some w)
    (hphase : w.phase = .claiming) {o : Option Worker}
    (ho : ∀ v, o = some v → v.key = w.key ∧
      v.phase.claimed = (s.redis.claim w.key cfg.batchSize).2) :
    Once { s with
      redis := (s.redis.claim w.key cfg.batchSize).1
      workers := Function.update s.workers p o } := by
  have hempty : s.redis.inflight w.key = [] := by
    have hlist := h.holds p w hw (by rw [hphase]; exact Phase.noConfusion)
    rwa [hphase] at hlist
  have hlist : (s.redis.claim w.key cfg.batchSize).1.inflight w.key =
      s.redis.queue.take cfg.batchSize := by
    rw [Redis.claim_eq _ _ cfg.batchSize_pos, hempty]
    exact Function.update_self ..
  refine h.own hkeys hw (o := o) rfl (h.tidy.claim cfg.batchSize_pos) ?_ (fun x hx ↦ .inl hx) ?_ ?_
  · intro key hkey
    show (s.redis.claim w.key cfg.batchSize).1.inflight key = _
    rw [Redis.claim_eq _ _ cfg.batchSize_pos]
    exact Function.update_of_ne hkey _ _
  · intro v hv
    refine ⟨(ho v hv).1, fun _ ↦ ?_⟩
    show (s.redis.claim w.key cfg.batchSize).1.inflight w.key = _
    rw [hlist, (ho v hv).2, Redis.claim_eq _ _ cfg.batchSize_pos]
  · intro x hx hmem
    replace hmem : x ∈ (s.redis.claim w.key cfg.batchSize).1.inflight w.key := hmem
    rw [hlist] at hmem
    exact absurd (List.mem_of_mem_take hmem) (h.tidy.done x hx).2

/-- The log table takes the batch of a worker. -/
theorem insert (h : Once s) (hkeys : s.KeysDistinct) (hw : s.workers p = some w)
    {claimed : List Entry} (hphase : w.phase = .inserting claimed) :
    Once (({ s with inserted := s.inserted ++ claimed.filter (decodable msgpack) } :
      Pipeline).goto p w (.acking claimed)) := by
  have hlist : s.redis.inflight w.key = claimed := by
    have hlist := h.holds p w hw (by rw [hphase]; exact Phase.noConfusion)
    rwa [hphase] at hlist
  have hsub : (claimed.filter (decodable msgpack)).Sublist (s.redis.inflight w.key) := by
    rw [hlist]
    exact List.filter_sublist
  have hnew := h.not_inserted hkeys hw fun claimed' ↦ by rw [hphase]; exact Phase.noConfusion
  refine h.own hkeys hw (o := some { w with phase := .acking claimed }) rfl
    (h.tidy.insert hsub hnew) (fun _ _ ↦ rfl) ?_ ?_ ?_
  · intro x hx
    exact (List.mem_append.mp hx).imp_right fun hrow ↦ hsub.subset hrow
  · rintro v ⟨⟩
    exact ⟨rfl, fun _ ↦ hlist⟩
  · exact fun x hx hmem ↦ ⟨_, claimed, rfl, rfl⟩

/-- A worker deletes its list. -/
theorem ack (h : Once s) (hkeys : s.KeysDistinct) (hw : s.workers p = some w) :
    Once ((s.ack w.key .ok).goto p w .idle) := by
  have hlist : (s.redis.ack w.key).inflight w.key = [] := Function.update_self ..
  refine h.own hkeys hw (o := some { w with phase := .idle }) rfl h.tidy.ack ?_
    (fun x hx ↦ .inl hx) ?_ ?_
  · exact fun key hkey ↦ Function.update_of_ne hkey _ _
  · rintro v ⟨⟩
    exact ⟨rfl, fun _ ↦ hlist⟩
  · intro x hx hmem
    replace hmem : x ∈ (s.redis.ack w.key).inflight w.key := hmem
    rw [hlist] at hmem
    cases hmem

/-- A step of a worker inserts nothing twice. -/
theorem workerStep (h : Once s) (hkeys : s.KeysDistinct) (hw : s.workers p = some w)
    {a : WorkerAction} (hcalm : Calm (.worker p a))
    (hs : s.workerStep p w cfg msgpack clock w.phase a = some s') : Once s' := by
  unfold Pipeline.workerStep at hs
  split at hs
  case h_1 reply hphase =>
      obtain rfl : reply = .ok := hcalm
      cases hs
      refine h.release hkeys hw (o := some { w with phase := .idle }) ?_ ?_
      · rw [hphase]
        exact fun claimed ↦ Phase.noConfusion
      · rintro v ⟨⟩
        exact ⟨rfl, rfl⟩
  case h_2 hphase =>
      cases hs
      refine h.check hkeys hw ?_ ?_ ?_
      · rw [hphase]
        exact fun claimed ↦ Phase.noConfusion
      · rw [hphase]
        exact Phase.noConfusion
      · rw [hphase]
        split <;> rfl
  case h_3 reply hphase =>
      obtain rfl : reply = .ok := hcalm
      cases hs
      have hclaim := fun o ↦ h.claim cfg (o := o) hkeys hw hphase
      unfold Pipeline.claim
      dsimp only
      unfold Pipeline.received
      split
      · rename_i hnil
        refine hclaim (some { w with phase := .idle }) ?_
        rintro v ⟨⟩
        exact ⟨rfl, (List.isEmpty_iff.mp hnil).symm⟩
      · split
        · exact hclaim none fun v hv ↦ by cases hv
        · split
          · refine hclaim (some { w with phase := .acking _ }) ?_
            rintro v ⟨⟩
            exact ⟨rfl, rfl⟩
          · refine hclaim (some { w with phase := .writing _ }) ?_
            rintro v ⟨⟩
            exact ⟨rfl, rfl⟩
  case h_4 claimed hphase =>
      cases hs
      refine h.check hkeys hw ?_ ?_ ?_
      · rw [hphase]
        exact fun claimed ↦ Phase.noConfusion
      · rw [hphase]
        exact Phase.noConfusion
      · rw [hphase]
        split <;> rfl
  case h_5 claimed reply hphase =>
      obtain rfl : reply = .ok := hcalm
      cases hs
      exact h.insert hkeys hw hphase
  case h_6 claimed reply hphase =>
      obtain rfl : reply = .ok := hcalm
      cases hs
      exact h.ack hkeys hw
  case h_7 claimed reply hphase =>
      obtain rfl : reply = .ok := hcalm
      cases hs
      refine h.release hkeys hw (o := some { w with phase := .idle }) ?_ ?_
      · rw [hphase]
        exact fun claimed ↦ Phase.noConfusion
      · rintro v ⟨⟩
        exact ⟨rfl, rfl⟩
  case h_8 reply hphase =>
      obtain rfl : reply = .ok := hcalm
      cases hs
      refine h.release hkeys hw (o := none) ?_ fun v hv ↦ by cases hv
      rw [hphase]
      exact fun claimed ↦ Phase.noConfusion
  case h_9 => cases hs

/-! ## The other steps -/

/-- Maintenance releases a list whose worker holds no batch. -/
theorem recover (h : Once s) {key : Text} (hfree : ∀ p w, s.workers p = some w → w.key = key →
    w.phase.claimed = []) : Once (s.release key .ok) := by
  have hlist : ∀ x ∈ s.inserted, x ∉ s.redis.inflight key := by
    intro x hx hmem
    obtain ⟨p, w, claimed, hw, hkey, hphase⟩ := h.acking x hx key hmem
    have hholds := h.holds p w hw (by rw [hphase]; exact Phase.noConfusion)
    rw [hkey, hfree p w hw hkey] at hholds
    rw [hholds] at hmem
    cases hmem
  have hredis : (s.release key .ok).redis.inflight = Function.update s.redis.inflight key [] := by
    show (s.redis.release key).1.inflight = _
    rw [Redis.release_eq]
  refine ⟨h.tidy.release hlist, ?_, ?_⟩
  · intro p w hw hphase
    rw [hredis, Function.update_apply]
    split
    · rename_i hkey
      exact (hfree p w hw hkey).symm
    · exact h.holds p w hw hphase
  · intro x hx key' hmem
    rw [hredis, Function.update_apply] at hmem
    split at hmem
    · cases hmem
    · exact h.acking x hx key' hmem

theorem push (h : Once s) (payloads : List Bytes) : Once (s.push payloads) where
  tidy := by
    have htidy := h.tidy.push payloads
    rw [← Tidy.length_number s.pushed.length payloads, ← List.length_append] at htidy
    exact htidy
  holds := h.holds
  acking := h.acking

/-- A new process has promised nothing. -/
theorem start (h : Once s) (hnone : s.workers p = none) (hphase : w.phase = .starting) :
    Once { s with workers := Function.update s.workers p (some w) } where
  tidy := h.tidy
  holds := by
    intro q v hv hne
    replace hv : Function.update s.workers p (some w) q = some v := hv
    rw [Function.update_apply] at hv
    split at hv
    · cases hv
      exact absurd hphase hne
    · exact h.holds q v hv hne
  acking := by
    intro x hx key hmem
    obtain ⟨q, v, claimed, hv, hkey, hacking⟩ := h.acking x hx key hmem
    refine ⟨q, v, claimed, ?_, hkey, hacking⟩
    have hqp : q ≠ p := by
      rintro rfl
      rw [hnone] at hv
      cases hv
    exact (Function.update_of_ne hqp _ _).trans hv

theorem stop (h : Once s) (hkeys : s.KeysDistinct) (hw : s.workers p = some w) :
    Once { s with workers := Function.update s.workers p (some { w with stop := true }) } := by
  refine h.own hkeys hw (o := some { w with stop := true }) rfl h.tidy (fun _ _ ↦ rfl)
    (fun x hx ↦ .inl hx) ?_ ?_
  · rintro v ⟨⟩
    exact ⟨rfl, h.holds p w hw⟩
  · intro x hx hmem
    obtain ⟨q, v, claimed, hv, hkey, hacking⟩ := h.acking x hx w.key hmem
    obtain rfl := hkeys q p v w hv hw hkey
    obtain rfl := Option.some.inj (hv.symm.trans hw)
    exact ⟨_, claimed, rfl, hacking⟩

/-- **A step inserts nothing twice.** -/
theorem step (h : Once s) (hkeys : s.KeysDistinct) {a : Action} (hcalm : Calm a)
    (hspares : s.Spares a) (hs : s.step cfg msgpack clock a = some s') : Once s' := by
  cases a with
  | push payloads reply =>
      cases hs
      split
      · exact h.push payloads
      · exact h
  | start q host pid envId =>
      rw [Pipeline.step] at hs
      split at hs
      · rename_i hnone
        cases hs
        exact h.start (Option.isNone_iff_eq_none.mp hnone) rfl
      · cases hs
  | kill q => cases hcalm
  | stop q =>
      obtain ⟨v, hv, rfl⟩ := Option.map_eq_some_iff.mp hs
      exact h.stop hkeys hv
  | worker q a =>
      obtain ⟨v, hv, hstep⟩ := Option.bind_eq_some_iff.mp hs
      exact h.workerStep hkeys hv hcalm hstep
  | beginRecovery m host entries =>
      rw [Pipeline.step] at hs
      split at hs
      · cases hs
        exact ⟨h.tidy, h.holds, h.acking⟩
      · cases hs
  | visit m id reply =>
      obtain rfl : reply = .ok := hcalm
      obtain ⟨live, hlive, rfl⟩ := Option.map_eq_some_iff.mp hs
      unfold Pipeline.visit
      split
      · exact h
      · rename_i hdead
        refine h.recover fun p w hw hkey ↦ ?_
        by_contra hne
        exact hdead (hspares live hlive p w hw (inflightKey_inj.mp hkey) hne)
  | endRecovery m =>
      cases hs
      exact ⟨h.tidy, h.holds, h.acking⟩

/-- Nothing is inserted twice throughout a run. -/
theorem reach (h : Reach (system cfg msgpack clock)
    (fun s a ↦ Calm a ∧ s.Distinct a ∧ s.Spares a) s) : s.KeysDistinct ∧ Once s := by
  refine Reach.invariant (P := fun s ↦ s.KeysDistinct ∧ Once s) ?_ ?_ h
  · rintro s rfl
    exact ⟨fun p q v w hv ↦ (by cases hv), Once.empty⟩
  · rintro s a s' ⟨hkeys, honce⟩ ⟨hcalm, hdistinct, hspares⟩ hs
    exact ⟨hkeys.step hdistinct hs, honce.step hkeys hcalm hspares hs⟩

end Once

/-! ## Starts and snapshots -/

/-- When the processes were started, and when and on which host the maintenance runs took their
snapshots.  Time is the number of steps. -/
structure Chronicle where
  now : Nat
  started : Nat → Nat
  taken : Nat → Nat
  host : Nat → Text

namespace Chronicle

def start (_ : Pipeline) : Chronicle := ⟨0, fun _ ↦ 0, fun _ ↦ 0, fun _ ↦ []⟩

def note (n : Chronicle) (_ : Pipeline) : Action → Pipeline → Chronicle
  | .start p _ _ _, _ => { n with now := n.now + 1, started := Function.update n.started p n.now }
  | .beginRecovery m host _, _ =>
      { n with
        now := n.now + 1
        taken := Function.update n.taken m n.now
        host := Function.update n.host m host }
  | _, _ => { n with now := n.now + 1 }

end Chronicle

/-- The whole system, with a chronicle. -/
def chronicled (cfg : WorkerConfig) (msgpack : Msgpack) (clock : Clock δ) :
    System (Pipeline × Chronicle) Action :=
  (system cfg msgpack clock).noting Chronicle.start Chronicle.note

/-- `/proc` has an entry for each running worker of the host. -/
def Listed (s : Pipeline) : Action → Prop
  | .beginRecovery _ host entries => ∀ p w, s.workers p = some w → w.host = host →
      Nat.toDigits 10 w.pid ∈ entries
  | _ => True

/-- A worker that holds a batch when the scan comes to its list has its default id, runs on the host of
the maintenance run, and was started before the snapshot. -/
def Sheltered (x : Pipeline × Chronicle) : Action → Prop
  | .visit m id _ => ∀ p w, x.1.workers p = some w → w.id = id → w.phase.claimed ≠ [] →
      w.envId.getD [] = [] ∧ w.host = x.2.host m ∧ x.2.started p < x.2.taken m
  | _ => True

section chronicle

variable {s s' : Pipeline} {p : Nat} {w : Worker} {a : Action}

/-- A worker that runs after a step was started by it, or ran before under the same host and number. -/
theorem workers_step (hs : s.step cfg msgpack clock a = some s') (hw : s'.workers p = some w) :
    (∃ host pid envId, a = .start p host pid envId) ∨
      ∃ v, s.workers p = some v ∧ w.host = v.host ∧ w.pid = v.pid := by
  have hsame : ∀ t : Pipeline, t.workers = s.workers → t.workers p = some w →
      ∃ v, s.workers p = some v ∧ w.host = v.host ∧ w.pid = v.pid :=
    fun t ht hw ↦ ⟨w, by rw [← ht, hw], rfl, rfl⟩
  cases a with
  | push payloads reply =>
      cases hs
      refine .inr (hsame _ ?_ hw)
      split <;> rfl
  | start q host pid envId =>
      rw [Pipeline.step] at hs
      split at hs
      · cases hs
        by_cases hqp : p = q
        · subst hqp
          exact .inl ⟨host, pid, envId, rfl⟩
        · exact .inr ⟨w, by rw [← hw]; exact (Function.update_of_ne hqp _ _).symm, rfl, rfl⟩
      · cases hs
  | kill q =>
      cases hs
      replace hw : Function.update s.workers q none p = some w := hw
      rw [Function.update_apply] at hw
      split at hw
      · cases hw
      · exact .inr ⟨w, hw, rfl, rfl⟩
  | stop q =>
      obtain ⟨v, hv, rfl⟩ := Option.map_eq_some_iff.mp hs
      replace hw : Function.update s.workers q (some { v with stop := true }) p = some w := hw
      rw [Function.update_apply] at hw
      split at hw
      · rename_i hpq
        cases hw
        exact .inr ⟨v, hpq ▸ hv, rfl, rfl⟩
      · exact .inr ⟨w, hw, rfl, rfl⟩
  | worker q a =>
      obtain ⟨v, hv, hstep⟩ := Option.bind_eq_some_iff.mp hs
      rcases moves_workerStep hstep with hmoves | ⟨phase, hmoves⟩
      all_goals
        rw [hmoves, Function.update_apply] at hw
        split at hw
      · cases hw
      · exact .inr ⟨w, hw, rfl, rfl⟩
      · rename_i hpq
        cases hw
        exact .inr ⟨v, hpq ▸ hv, rfl, rfl⟩
      · exact .inr ⟨w, hw, rfl, rfl⟩
  | beginRecovery m host entries =>
      rw [Pipeline.step] at hs
      split at hs
      · cases hs
        exact .inr (hsame _ rfl hw)
      · cases hs
  | visit m id reply =>
      obtain ⟨live, -, rfl⟩ := Option.map_eq_some_iff.mp hs
      exact .inr (hsame _ (workers_visit _ _ _ _) hw)
  | endRecovery m =>
      cases hs
      exact .inr (hsame _ rfl hw)

theorem recoveries_release (key : Text) (reply : Reply) :
    (s.release key reply).recoveries = s.recoveries := by
  unfold release
  split <;> rfl

theorem recoveries_workerStep {phase : Phase} {b : WorkerAction}
    (hs : s.workerStep p w cfg msgpack clock phase b = some s') : s'.recoveries = s.recoveries := by
  unfold Pipeline.workerStep at hs
  split at hs
  case h_1 reply =>
      obtain rfl := Option.some.inj hs
      split <;> exact recoveries_release _ _
  case h_2 =>
      obtain rfl := Option.some.inj hs
      rfl
  case h_3 reply =>
      obtain rfl := Option.some.inj hs
      unfold claim
      cases reply with
      | ok =>
          dsimp only
          unfold received
          split
          · rfl
          · split
            · rfl
            · split <;> rfl
      | failed => rfl
      | lost => rfl
  case h_4 =>
      obtain rfl := Option.some.inj hs
      rfl
  case h_5 claimed reply =>
      obtain rfl := Option.some.inj hs
      unfold store
      split <;> rfl
  case h_6 reply =>
      obtain rfl := Option.some.inj hs
      unfold ack
      split <;> split <;> rfl
  case h_7 reply =>
      obtain rfl := Option.some.inj hs
      split <;> exact recoveries_release _ _
  case h_8 reply =>
      obtain rfl := Option.some.inj hs
      exact recoveries_release _ _
  case h_9 => cases hs

/-- A maintenance run in progress after a step has just taken its snapshot, or had it before. -/
theorem recoveries_step {m : Nat} {live : List Text} (hs : s.step cfg msgpack clock a = some s')
    (hlive : s'.recoveries m = some live) :
    (∃ host entries, a = .beginRecovery m host entries ∧ live = _liveWorkerIds host entries) ∨
      s.recoveries m = some live := by
  cases a with
  | push payloads reply =>
      cases hs
      refine .inr ?_
      rw [← hlive]
      split <;> rfl
  | start q host pid envId =>
      rw [Pipeline.step] at hs
      split at hs
      · cases hs
        exact .inr hlive
      · cases hs
  | kill q =>
      cases hs
      exact .inr hlive
  | stop q =>
      obtain ⟨v, -, rfl⟩ := Option.map_eq_some_iff.mp hs
      exact .inr hlive
  | worker q a =>
      obtain ⟨v, -, hstep⟩ := Option.bind_eq_some_iff.mp hs
      rw [recoveries_workerStep hstep] at hlive
      exact .inr hlive
  | beginRecovery k host entries =>
      rw [Pipeline.step] at hs
      split at hs
      · cases hs
        replace hlive : Function.update s.recoveries k _ m = some live := hlive
        rw [Function.update_apply] at hlive
        split at hlive
        · rename_i hmk
          cases hlive
          exact .inl ⟨host, entries, by rw [hmk], rfl⟩
        · exact .inr hlive
      · cases hs
  | visit k id reply =>
      obtain ⟨ids, -, rfl⟩ := Option.map_eq_some_iff.mp hs
      unfold visit at hlive
      split at hlive
      · exact .inr hlive
      · dsimp only at hlive
        split at hlive
        · rw [recoveries_release] at hlive
          exact .inr hlive
        · replace hlive : Function.update (s.release (inflightKey id) reply).recoveries k none m =
            some live := hlive
          rw [recoveries_release, Function.update_apply] at hlive
          split at hlive
          · cases hlive
          · exact .inr hlive
  | endRecovery k =>
      cases hs
      replace hlive : Function.update s.recoveries k none m = some live := hlive
      rw [Function.update_apply] at hlive
      split at hlive
      · cases hlive
      · exact .inr hlive

end chronicle

/-- A snapshot lies in the past, and has the default ids of the workers of its host that were started
before it and still run. -/
structure Chronicle.Sound (x : Pipeline × Chronicle) : Prop where
  past : ∀ m live, x.1.recoveries m = some live → x.2.taken m < x.2.now
  listed : ∀ m live, x.1.recoveries m = some live → ∀ p w, x.1.workers p = some w →
    w.host = x.2.host m → x.2.started p < x.2.taken m →
      processId w.host (Nat.toDigits 10 w.pid) ∈ live

namespace Chronicle

variable {s s' : Pipeline} {n : Chronicle} {a : Action}

/-- An entry of `/proc` gives a default id. -/
theorem mem_liveWorkerIds {host : Text} {entries : List Text} {pid : Nat}
    (h : Nat.toDigits 10 pid ∈ entries) :
    processId host (Nat.toDigits 10 pid) ∈ _liveWorkerIds host entries := by
  refine List.mem_map_of_mem (List.mem_filter.mpr ⟨h, ?_⟩)
  rw [Bool.and_eq_true]
  constructor
  · have hpos : 0 < (Nat.toDigits 10 pid).length := Nat.length_toDigits_pos
    rw [Bool.not_eq_true', List.isEmpty_eq_false_iff]
    exact List.ne_nil_of_length_pos hpos
  · exact List.all_eq_true.mpr fun c hc ↦ Nat.isDigit_of_mem_toDigits (b := 10) (by decide) (by decide) hc

/-- The clock goes on with every step. -/
theorem now_note : (note n s a s').now = n.now + 1 := by
  cases a <;> rfl

/-- **Each step keeps the chronicle sound.** -/
theorem Sound.step (h : Sound (s, n)) (hlisted : s.Listed a)
    (hs : s.step cfg msgpack clock a = some s') : Sound (s', note n s a s') := by
  -- The time and the host of a snapshot that is not new are those noted before.
  have hold : ∀ m live, s'.recoveries m = some live → s.recoveries m = some live →
      (note n s a s').taken m = n.taken m ∧ (note n s a s').host m = n.host m := by
    intro m live _ hlive
    cases a with
    | beginRecovery k host entries =>
        have hmk : m ≠ k := by
          rintro rfl
          rw [Pipeline.step, hlive] at hs
          cases hs
        exact ⟨Function.update_of_ne hmk _ _, Function.update_of_ne hmk _ _⟩
    | _ => exact ⟨rfl, rfl⟩
  constructor
  · intro m live hlive
    rw [now_note]
    rcases recoveries_step hs hlive with ⟨host, entries, rfl, -⟩ | hbefore
    · show Function.update n.taken m n.now m < n.now + 1
      rw [Function.update_self]
      exact Nat.lt_succ_self _
    · rw [(hold m live hlive hbefore).1]
      exact Nat.lt_succ_of_lt (h.past m live hbefore)
  · intro m live hlive p w hw hhost hstarted
    rcases recoveries_step hs hlive with ⟨host, entries, rfl, rfl⟩ | hbefore
    · -- The snapshot is new, and `/proc` listed the worker.
      rcases workers_step hs hw with ⟨_, _, _, heq⟩ | ⟨v, hv, hvhost, hvpid⟩
      · cases heq
      · replace hhost : w.host = Function.update n.host m host m := hhost
        rw [Function.update_self] at hhost
        rw [hhost, hvpid]
        exact mem_liveWorkerIds (hlisted p v hv (hvhost ▸ hhost))
    · obtain ⟨htaken, hsame⟩ := hold m live hlive hbefore
      rw [htaken] at hstarted
      rw [hsame] at hhost
      rcases workers_step hs hw with ⟨host, pid, envId, rfl⟩ | ⟨v, hv, hvhost, hvpid⟩
      · -- A worker that starts now was not started before the snapshot.
        replace hstarted : Function.update n.started p n.now p < n.taken m := hstarted
        rw [Function.update_self] at hstarted
        exact absurd (h.past m live hbefore) (Nat.lt_asymm hstarted)
      · rw [hvhost, hvpid]
        refine h.listed m live hbefore p v hv (hvhost ▸ hhost) ?_
        cases a with
        | start q host pid envId =>
            have hpq : p ≠ q := by
              rintro rfl
              rw [Pipeline.step, hv] at hs
              cases hs
            replace hstarted : Function.update n.started q n.now p < n.taken m := hstarted
            rwa [Function.update_of_ne hpq] at hstarted
        | _ => exact hstarted

/-- The chronicle is sound throughout a run. -/
theorem Sound.reach {ok : Pipeline × Chronicle → Action → Prop} (hok : ∀ x a, ok x a → x.1.Listed a)
    {x : Pipeline × Chronicle} (h : Reach (chronicled cfg msgpack clock) ok x) : Sound x := by
  refine Reach.invariant (P := Sound) ?_ ?_ h
  · rintro ⟨s, n⟩ ⟨hs, -⟩
    obtain rfl : s = empty := hs
    constructor
    · intro m live hlive
      cases hlive
    · intro m live hlive
      cases hlive
  · rintro ⟨s, n⟩ a ⟨t, n'⟩ hsound ha hs
    obtain ⟨hstep, hnote⟩ := System.step_noting.mp hs
    obtain rfl : n' = note n s a t := hnote
    exact hsound.step (hok _ _ ha) hstep

/-- **The scan spares the workers it meets**, where it only meets such as were listed. -/
theorem Sound.spares {x : Pipeline × Chronicle} (h : Sound x) (hsheltered : Sheltered x a) :
    x.1.Spares a := by
  cases a with
  | visit m id reply =>
      intro live hlive p w hw hid hclaimed
      obtain ⟨henv, hhost, hstarted⟩ := hsheltered p w hw hid hclaimed
      have hdefault : w.id = processId w.host (Nat.toDigits 10 w.pid) := by
        unfold Worker.id workerId
        cases hv : w.envId with
        | none => rfl
        | some id =>
            rw [hv] at henv
            exact if_pos henv
      rw [← hid, hdefault]
      exact h.listed m live hlive p w hw hhost hstarted
  | _ => exact trivial

end Chronicle

/-! ## At most once -/

/-- **Insertion at most once.**  In every run without kills and failures in which `/proc` lists the
running workers and the scan only comes to the batches of workers that were there, under their default
id, when the snapshot was taken, no entry is inserted twice. -/
theorem insert_once {x : Pipeline × Chronicle} (h : Reach (chronicled cfg msgpack clock)
    (fun x a ↦ Calm a ∧ x.1.Distinct a ∧ x.1.Listed a ∧ Sheltered x a) x) :
    x.1.inserted.Nodup ∧ ∀ p w, x.1.workers p = some w → w.phase.claimed ≠ [] →
      x.1.redis.inflight w.key = w.phase.claimed := by
  have hrun : Reach (system cfg msgpack clock) (fun s a ↦ Calm a ∧ s.Distinct a ∧ s.Spares a) x.1 := by
    refine (Simulation.noting fun y a _ hy hok _ ↦ ?_).reach h
    obtain ⟨hcalm, hdistinct, -, hsheltered⟩ := hok
    have hsound : Chronicle.Sound y := Chronicle.Sound.reach (fun _ _ hok ↦ hok.2.2.1) hy
    exact ⟨hcalm, hdistinct, hsound.spares hsheltered⟩
  obtain ⟨-, honce⟩ := Once.reach hrun
  refine ⟨honce.tidy.nodup, fun p w hw hclaimed ↦ honce.holds p w hw fun hphase ↦ ?_⟩
  rw [hphase] at hclaimed
  exact hclaimed rfl

/-- The key of a worker under its default id. -/
theorem key_default (phase : Phase) (stop : Bool) :
    (⟨['h'], 7, none, phase, stop⟩ : Worker).key = inflightKey ['h', '-', '7'] := by
  show inflightKey (['h'] ++ ['-'] ++ Nat.toDigits 10 7) = _
  rw [show Nat.toDigits 10 7 = ['7'] by decide]
  rfl

/-- Maintenance visits a worker of its snapshot in the middle of an insert. -/
theorem insert_once_session : ∃ x, Reach (chronicled ⟨100, by decide⟩ msgpackRows Clock.seconds)
    (fun x a ↦ Calm a ∧ x.1.Distinct a ∧ x.1.Listed a ∧ Sheltered x a) x ∧ x.1.inserted.length = 1 ∧
    x.1.inserted.Nodup := by
  obtain ⟨payload, hsome, row, hdecode⟩ := exists_payload
  have hrun : ∃ x, (chronicled ⟨100, by decide⟩ msgpackRows Clock.seconds).Run
      (fun x a ↦ Calm a ∧ x.1.Distinct a ∧ x.1.Listed a ∧ Sheltered x a) x
      (empty, Chronicle.start empty)
      [.push [payload] .ok, .start 0 ['h'] 7 none, .beginRecovery 0 ['h'] [['7']],
        .worker 0 (.redis .ok), .worker 0 .check, .worker 0 (.redis .ok), .worker 0 .check,
        .worker 0 (.insert .ok), .visit 0 ['h', '-', '7'] .ok, .worker 0 (.redis .ok)] ∧
      x.1.inserted.length = 1 := by
    have hseven : Nat.toDigits 10 7 = ['7'] := by decide
    simp [System.Run, chronicled, System.noting, Chronicle.start, Chronicle.note, Calm, Distinct,
      Listed, Sheltered, system, step, workerStep, push, number, empty, release, goto, exit, claim,
      received, store, ack, visit, Reply.effect, Redis.pushMany, Redis.rpush, Redis.ack,
      Redis.release_eq, Redis.claim_eq, hdecode, decodable, hsome, key_default, _liveWorkerIds,
      processId, Function.update_apply, hseven]
  obtain ⟨x, hrun, hlength⟩ := hrun
  have hinit : (chronicled ⟨100, by decide⟩ msgpackRows Clock.seconds).init
      (empty, Chronicle.start empty) := ⟨rfl, rfl⟩
  have h := (Reach.init hinit).run hrun
  exact ⟨x, h, hlength, (insert_once h).1⟩

/-- **A worker that started after the snapshot.**  Its list is released between the insert and the
acknowledgement, and it claims and inserts the entry again. -/
theorem insert_once_late_worker : ∃ s, Reach (system ⟨100, by decide⟩ msgpackRows Clock.seconds)
    (fun s a ↦ Calm a ∧ s.Distinct a ∧ s.Listed a) s ∧ ¬s.inserted.Nodup := by
  obtain ⟨payload, hsome, row, hdecode⟩ := exists_payload
  have hrun : ∃ s, (system ⟨100, by decide⟩ msgpackRows Clock.seconds).Run
      (fun s a ↦ Calm a ∧ s.Distinct a ∧ s.Listed a) s empty
      [.push [payload] .ok, .beginRecovery 0 ['h'] [], .start 0 ['h'] 7 none,
        .worker 0 (.redis .ok), .worker 0 .check, .worker 0 (.redis .ok), .worker 0 .check,
        .worker 0 (.insert .ok), .visit 0 ['h', '-', '7'] .ok, .worker 0 (.redis .ok),
        .worker 0 .check, .worker 0 (.redis .ok), .worker 0 .check, .worker 0 (.insert .ok)] ∧
      s.inserted = [⟨0, payload⟩, ⟨0, payload⟩] := by
    simp [System.Run, Calm, Distinct, Listed, system, step, workerStep, push, number, empty, release,
      goto, exit, claim, received, store, ack, visit, Reply.effect, Redis.pushMany, Redis.rpush,
      Redis.ack, Redis.release_eq, Redis.claim_eq, hdecode, decodable, hsome, key_default,
      _liveWorkerIds]
  obtain ⟨s, hrun, hinserted⟩ := hrun
  refine ⟨s, (Reach.init rfl).run hrun, ?_⟩
  rw [hinserted]
  simp

end Pipeline

end LogServer
