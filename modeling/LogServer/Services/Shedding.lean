import LogServer.Lib.Binary64
import LogServer.Parser.RoundTrip
import LogServer.Services.IngestRun

/-!
# Load shedding

`run_flusher` sleeps, has the buffer flushed, and after some of its ticks asks for the depth of the queue.
Where the queue is too deep, `_push` tasks drop what they take for the next five seconds.  Here every sleep
lasts as long as its interval, and calls of Redis take no time.  Everything else is up to the environment:
what arrives and when, when a task that was created gets to run, and what Redis answers.

A pause bridges the time to the next check if that is less than five seconds away, and not if it is just
five seconds away (`shedding_continuous_iff`).
-/

namespace LogServer

open Transition

/-! ## The flusher -/

structure FlusherConfig where
  ingest : IngestConfig
  pushIntervalMs : ℕ := 200
  maxQueueLength : ℕ := 5000000
  pushIntervalMs_bounds : 10 ≤ pushIntervalMs ∧ pushIntervalMs ≤ 5000 := by decide

namespace FlusherConfig

variable (cfg : FlusherConfig)

/-- The seconds between two ticks. -/
def interval : ℚ := Binary64.round (cfg.pushIntervalMs / 1000)

def checkEvery : ℕ := max 1 ⌊Binary64.round (2 / cfg.interval)⌋₊

end FlusherConfig

inductive FlusherPhase where
  | asleep (wakes : ℚ)
  /-- It asks for the depth of the queue. -/
  | measuring
  /-- It has the depth, and sets the gauge. -/
  | measured (depth : Int)
deriving DecidableEq

/-- A receiver process with its flusher, and the time since that was started. -/
structure Flusher where
  receiver : Receiver
  now : ℚ
  tick : ℕ
  phase : FlusherPhase

namespace Flusher

inductive Action where
  /-- Time passes while the flusher sleeps. -/
  | wait (later : ℚ)
  /-- The flusher wakes. -/
  | wake
  | measure (depth : Int)
  | check
  | handle (payload : Bytes) (source : Text) (now : Nat)
  /-- The `_push` task runs. -/
  | push (outcome : PushOutcome)
  | refresh (registry : Finset Text)

variable (cfg : FlusherConfig) (u : CharTable) (msgpack : Msgpack)

/-- The whole `_push` task, since the call of Redis takes no time. -/
def push (s : Receiver) (now : ℚ) (outcome : PushOutcome) : Option Receiver :=
  (s.step cfg.ingest u msgpack (.startPush 0 now)).map fun s ↦
    (s.step cfg.ingest u msgpack (.finishPush 0 outcome)).getD s

def step (s : Flusher) : Action → Option Flusher
  | .wait later =>
      match s.phase with
      | .asleep wakes => if s.now ≤ later ∧ later ≤ wakes then some { s with now := later } else none
      | _ => none
  | .wake =>
      match s.phase with
      | .asleep wakes =>
          if s.now = wakes then
            some { s with
              receiver := { s.receiver with ingest := s.receiver.ingest._scheduleFlush }
              tick := s.tick + 1
              phase := if (s.tick + 1) % cfg.checkEvery = 0 then .measuring
                else .asleep (s.now + cfg.interval) }
          else none
      | _ => none
  | .measure depth =>
      match s.phase with
      | .measuring => some { s with phase := .measured depth }
      | _ => none
  | .check =>
      match s.phase with
      | .measured depth =>
          let ingest := s.receiver.ingest._checkBackpressure cfg.maxQueueLength depth s.now
          some { s with
            receiver := { s.receiver with ingest := ingest }
            phase := .asleep (s.now + cfg.interval) }
      | _ => none
  | .handle payload source now =>
      (s.receiver.step cfg.ingest u msgpack (.handle payload source now)).map fun receiver ↦
        { s with receiver := receiver }
  | .push outcome => (push cfg u msgpack s.receiver s.now outcome).map fun receiver ↦
        { s with receiver := receiver }
  | .refresh registry =>
      (s.receiver.step cfg.ingest u msgpack (.refresh registry)).map fun receiver ↦
        { s with receiver := receiver }

/-- A receiver process from the start of its flusher on. -/
def system : System Flusher Action where
  init s := ∃ registry, s = ⟨⟨Ingest.start registry, [], []⟩, 0, 0, .asleep cfg.interval⟩
  step := step cfg u msgpack

/-! ## What shedding is -/

/-- The check that is under way has found the queue too deep. -/
def Deep (s : Flusher) : Prop := ∃ depth : Int, s.phase = .measured depth ∧ cfg.maxQueueLength < depth

/-- A `_push` task that runs now pushes nothing, and the batch that it takes is counted as dropped. -/
def Sheds (s : Flusher) : Prop :=
  ∀ outcome t, s.step cfg u msgpack (.push outcome) = some t →
    t.receiver.redis = s.receiver.redis ∧ t.receiver.ingest.buffer = [] ∧
      t.receiver.ingest.counts = s.receiver.ingest.counts.incr .droppedBackpressure
        s.receiver.ingest.buffer.length

/-- Whatever runs as a `_push` task is shed. -/
def PushSheds (s : Flusher) (a : Action) : Prop := (∃ outcome, a = .push outcome) → s.Sheds cfg u msgpack

/-- **Shedding is continuous**: from a check that finds the queue too deep to the next one that does, and as
long as it is that time, nothing is pushed. -/
def Continuous : Prop :=
  ∀ s t as bs, Reach (system cfg u msgpack) (fun _ _ ↦ True) s → s.Deep cfg →
    (∀ a ∈ as, a ≠ .check) →
    (system cfg u msgpack).Run (fun _ _ ↦ True) t s (.check :: as) → t.Deep cfg →
    (∀ a ∈ bs, ∀ later, a ≠ .wait later) →
    (system cfg u msgpack).Along (PushSheds cfg u msgpack) s (.check :: (as ++ .check :: bs))

end Flusher

/-! ## The time between two checks -/

namespace FlusherConfig

variable {cfg : FlusherConfig}

theorem pushIntervalMs_pos : (0 : ℚ) < cfg.pushIntervalMs / 1000 := by
  have hpos : 0 < cfg.pushIntervalMs := Nat.lt_of_lt_of_le (by decide) cfg.pushIntervalMs_bounds.1
  have hcast : (0 : ℚ) < cfg.pushIntervalMs := Nat.cast_pos.mpr hpos
  positivity

theorem interval_pos : 0 < cfg.interval := by
  refine lt_of_lt_of_le ?_ (Binary64.le_round pushIntervalMs_pos)
  exact mul_pos pushIntervalMs_pos (by norm_num)

theorem checkEvery_pos : 0 < cfg.checkEvery := Nat.lt_of_lt_of_le Nat.one_pos (Nat.le_max_left _ _)

/-- A pause bridges the time to the next check. -/
theorem checkEvery_interval_lt (h : cfg.pushIntervalMs < 5000) :
    cfg.checkEvery * cfg.interval < 5 := by
  have hpos := cfg.interval_pos
  rcases max_cases 1 ⌊Binary64.round (2 / cfg.interval)⌋₊ with ⟨heq, -⟩ | ⟨heq, -⟩
  · have hms : (cfg.pushIntervalMs : ℚ) ≤ 4999 := by exact_mod_cast Nat.le_of_lt_succ h
    have hround := Binary64.round_le cfg.pushIntervalMs_pos
    rw [checkEvery, heq, Nat.cast_one, one_mul]
    calc cfg.interval ≤ cfg.pushIntervalMs / 1000 * (1 + 1 / 2 ^ 53) := hround
      _ ≤ 4999 / 1000 * (1 + 1 / 2 ^ 53) := by gcongr
      _ < 5 := by norm_num
  · have hquotient : 0 < 2 / cfg.interval := by positivity
    have hround := Binary64.round_le hquotient
    have hnonneg : 0 ≤ Binary64.round (2 / cfg.interval) :=
      (mul_nonneg hquotient.le (by norm_num)).trans (Binary64.le_round hquotient)
    rw [checkEvery, heq]
    calc (⌊Binary64.round (2 / cfg.interval)⌋₊ : ℚ) * cfg.interval
        ≤ 2 / cfg.interval * (1 + 1 / 2 ^ 53) * cfg.interval := by
          gcongr
          exact (Nat.floor_le hnonneg).trans hround
      _ = 2 * (1 + 1 / 2 ^ 53) := by field_simp
      _ < 5 := by norm_num

/-- With the longest interval there is a check at every tick, and five seconds between them. -/
theorem interval_eq_five (h : cfg.pushIntervalMs = 5000) : cfg.interval = 5 ∧ cfg.checkEvery = 1 := by
  have hinterval : cfg.interval = 5 := by
    have hfive : ((5000 : ℕ) : ℚ) / 1000 = (5 : ℕ) := by norm_num
    rw [interval, h, hfive, Binary64.round_natCast (by decide) (by decide)]
    rfl
  refine ⟨hinterval, ?_⟩
  have hquotient : (0 : ℚ) < 2 / 5 := by norm_num
  have hround := Binary64.round_le hquotient
  have hfloor : ⌊Binary64.round (2 / 5)⌋₊ = 0 := by
    rw [Nat.floor_eq_zero]
    refine lt_of_le_of_lt hround ?_
    norm_num
  rw [checkEvery, hinterval, hfloor]
  rfl

end FlusherConfig

/-! ## What the steps keep -/

namespace Ingest

/-- There is no `_push` task, or there is one that has not run. -/
def Ready (self : Ingest) : Prop :=
  self.pushing = false ∧ self.tasks = [] ∨ self.pushing = true ∧ self.tasks = [.scheduled]

/-- The end of the pause is kept, and so is that no `_push` task is under way. -/
def Keeps (self self' : Ingest) : Prop :=
  self'.pausedUntil = self.pausedUntil ∧ (self.Ready → self'.Ready)

variable {self self' self'' : Ingest}

theorem Keeps.trans (h : self.Keeps self') (h' : self'.Keeps self'') : self.Keeps self'' :=
  ⟨h'.1.trans h.1, fun hready ↦ h'.2 (h.2 hready)⟩

theorem keeps_incr {name : Counter} {value : Nat} : self.Keeps (self.incr name value) := ⟨rfl, id⟩

theorem keeps_scheduleFlush : self.Keeps self._scheduleFlush := by
  unfold _scheduleFlush
  split
  · rename_i hidle
    refine ⟨rfl, ?_⟩
    rintro (⟨-, htasks⟩ | ⟨hpushing, -⟩)
    · exact .inr ⟨rfl, congrArg (· ++ [PushTask.scheduled]) htasks⟩
    · rw [hpushing] at hidle
      cases hidle
  · exact ⟨rfl, id⟩

theorem keeps_append {cfg : IngestConfig} {entry : Bytes} : self.Keeps (self.append cfg entry) := by
  unfold append
  dsimp only
  split
  · exact Keeps.trans ⟨rfl, id⟩ keeps_scheduleFlush
  · exact ⟨rfl, id⟩

theorem keeps_handle {cfg : IngestConfig} {u : CharTable} {msgpack : Msgpack} {payload : Bytes}
    {source : Text} {now : Nat} : self.Keeps (self.handle cfg u msgpack payload source now).1 := by
  have hcount : self.Keeps (self.count payload) := keeps_incr.trans keeps_incr
  unfold handle
  dsimp only
  split
  · exact hcount.trans keeps_incr
  · split
    · exact hcount.trans keeps_incr
    · split
      · exact hcount.trans keeps_incr
      · exact (hcount.trans keeps_incr).trans keeps_append

end Ingest

namespace Flusher

variable {cfg : FlusherConfig} {u : CharTable} {msgpack : Msgpack}

section pushes

variable {r r' : Receiver} {now : ℚ} {outcome : PushOutcome}

/-- With no task that waits for Redis, none comes to its end. -/
theorem finishPush_getD (hr : r.ingest.tasks = []) :
    (r.step cfg.ingest u msgpack (.finishPush 0 outcome)).getD r = r := by
  rw [Receiver.step, hr]
  rfl

/-- The `_push` task runs if there is one. -/
theorem push_eq_some (hready : r.ingest.Ready) (h : push cfg u msgpack r now outcome = some r') :
    (r.ingest.pushing = true ∧ r.ingest.tasks = [.scheduled]) ∧
      r' = (Receiver.step cfg.ingest u msgpack { r with ingest := r.ingest.startPush 0 now }
        (.finishPush 0 outcome)).getD { r with ingest := r.ingest.startPush 0 now } := by
  rcases hready with ⟨-, htasks⟩ | hready
  · have hstart : r.step cfg.ingest u msgpack (.startPush 0 now) = none := by
      rw [Receiver.step, htasks]
      rfl
    rw [push, hstart] at h
    cases h
  · have hstart : r.step cfg.ingest u msgpack (.startPush 0 now) =
        some { r with ingest := r.ingest.startPush 0 now } := by
      rw [Receiver.step, hready.2]
      rfl
    rw [push, hstart, Option.map_some] at h
    exact ⟨hready, (Option.some.inj h).symm⟩

/-- **A task that runs** leaves none, and keeps the end of the pause. -/
theorem push_keeps (hready : r.ingest.Ready) (h : push cfg u msgpack r now outcome = some r') :
    r'.ingest.pausedUntil = r.ingest.pausedUntil ∧ r'.ingest.Ready := by
  obtain ⟨⟨-, htasks⟩, rfl⟩ := push_eq_some hready h
  have herase : r.ingest.tasks.eraseIdx 0 = [] := by
    rw [htasks]
    rfl
  unfold Ingest.startPush
  dsimp only
  split
  · rw [finishPush_getD herase]
    exact ⟨rfl, .inl ⟨rfl, herase⟩⟩
  · split
    · rw [finishPush_getD herase]
      exact ⟨rfl, .inl ⟨rfl, herase⟩⟩
    · rw [Receiver.step, htasks]
      cases outcome with
      | accepted => exact ⟨rfl, .inl ⟨rfl, rfl⟩⟩
      | raised => exact ⟨rfl, .inl ⟨rfl, rfl⟩⟩

/-- **During a pause** the batch is dropped, and counted. -/
theorem push_paused (hready : r.ingest.Ready) (h : push cfg u msgpack r now outcome = some r')
    (hnow : now < r.ingest.pausedUntil) :
    r'.redis = r.redis ∧ r'.ingest.buffer = [] ∧ r'.ingest.counts =
      r.ingest.counts.incr .droppedBackpressure r.ingest.buffer.length := by
  obtain ⟨⟨-, htasks⟩, rfl⟩ := push_eq_some hready h
  have herase : r.ingest.tasks.eraseIdx 0 = [] := by
    rw [htasks]
    rfl
  unfold Ingest.startPush
  dsimp only
  rw [if_pos hnow]
  split
  · rename_i hempty
    rw [finishPush_getD herase, List.isEmpty_iff.mp hempty]
    refine ⟨rfl, rfl, ?_⟩
    ext name
    exact (ite_self (r.ingest.counts name)).symm
  · rw [finishPush_getD herase]
    exact ⟨rfl, rfl, rfl⟩

end pushes

/-! ## The schedule -/

/-- The flusher keeps its schedule, from the check at time `T` on: it wakes once in an interval, and asks
for the depth of the queue again after `checkEvery` of them. -/
structure Scheduled (cfg : FlusherConfig) (T : ℚ) (s : Flusher) : Prop where
  ready : s.receiver.ingest.Ready
  asleep : ∀ wakes, s.phase = .asleep wakes →
    s.now ≤ wakes ∧ wakes = T + ((s.tick % cfg.checkEvery + 1 : ℕ) : ℚ) * cfg.interval
  awake : (∀ wakes, s.phase ≠ .asleep wakes) →
    s.tick % cfg.checkEvery = 0 ∧ s.now = T + cfg.checkEvery * cfg.interval

section schedule

variable {s t : Flusher} {T : ℚ} {a : Action}

theorem scheduled_init (registry : Finset Text) :
    Scheduled cfg 0 ⟨⟨Ingest.start registry, [], []⟩, 0, 0, .asleep cfg.interval⟩ := by
  refine ⟨.inl ⟨rfl, rfl⟩, ?_, fun h ↦ absurd rfl (h _)⟩
  rintro wakes ⟨⟩
  refine ⟨cfg.interval_pos.le, ?_⟩
  rw [Nat.zero_mod]
  norm_num

/-- The next check is not yet over. -/
theorem Scheduled.now_le (h : Scheduled cfg T s) : s.now ≤ T + cfg.checkEvery * cfg.interval := by
  cases hphase : s.phase with
  | asleep wakes =>
      obtain ⟨hle, rfl⟩ := h.asleep wakes hphase
      have htick : s.tick % cfg.checkEvery + 1 ≤ cfg.checkEvery := Nat.mod_lt _ cfg.checkEvery_pos
      have hpos := cfg.interval_pos
      refine hle.trans ?_
      gcongr
  | measuring => exact (h.awake fun wakes hw ↦ by rw [hphase] at hw; cases hw).2.le
  | measured depth => exact (h.awake fun wakes hw ↦ by rw [hphase] at hw; cases hw).2.le

/-- What happens elsewhere does not touch the schedule. -/
theorem Scheduled.receiver (h : Scheduled cfg T s) {r : Receiver} (hready : r.ingest.Ready) :
    Scheduled cfg T { s with receiver := r } := ⟨hready, h.asleep, h.awake⟩

/-- One more tick: as many as there are from check to check, or one more since the last check. -/
theorem tick_cases (n : ℕ) {c : ℕ} (hc : 0 < c) :
    (n + 1) % c = 0 ∧ n % c + 1 = c ∨ (n + 1) % c ≠ 0 ∧ (n + 1) % c = n % c + 1 := by
  rw [← Nat.mod_add_mod]
  rcases (Nat.add_one_le_iff.mpr (Nat.mod_lt n hc)).eq_or_lt with heq | hlt
  · exact .inl ⟨by rw [heq, Nat.mod_self], heq⟩
  · rw [Nat.mod_eq_of_lt hlt]
    exact .inr ⟨Nat.succ_ne_zero _, rfl⟩

/-- The flusher wakes. -/
theorem Scheduled.wake (h : Scheduled cfg T s) (hs : s.step cfg u msgpack .wake = some t) :
    Scheduled cfg T t ∧ t.receiver.ingest.pausedUntil = s.receiver.ingest.pausedUntil := by
  rw [Flusher.step] at hs
  split at hs
  · rename_i wakes hphase
    obtain ⟨-, hwakes⟩ := h.asleep wakes hphase
    split at hs
    · rename_i hnow
      cases hs
      refine ⟨⟨Ingest.keeps_scheduleFlush.2 h.ready, ?_, ?_⟩, Ingest.keeps_scheduleFlush.1⟩
      all_goals dsimp only
      all_goals rcases tick_cases s.tick cfg.checkEvery_pos with ⟨hcheck, hticks⟩ | ⟨hcheck, hticks⟩
      · rw [if_pos hcheck]
        nofun
      · rw [if_neg hcheck, hticks]
        rintro _ ⟨⟩
        refine ⟨le_add_of_nonneg_right cfg.interval_pos.le, ?_⟩
        rw [hnow, hwakes]
        push_cast
        ring
      · rw [hnow, hwakes, hticks]
        exact fun _ ↦ ⟨hcheck, rfl⟩
      · rw [if_neg hcheck]
        exact fun hawake ↦ absurd rfl (hawake _)
    · cases hs
  · cases hs

/-- A check is over.  The next one is a whole round away. -/
theorem Scheduled.check (h : Scheduled cfg T s) (hs : s.step cfg u msgpack .check = some t) :
    Scheduled cfg s.now t ∧ t.now = s.now ∧ t.phase = .asleep (s.now + cfg.interval) ∧
      (s.Deep cfg → t.receiver.ingest.pausedUntil = s.now + 5) := by
  rw [Flusher.step] at hs
  split at hs
  · rename_i depth hphase
    cases hs
    have hready : (s.receiver.ingest._checkBackpressure cfg.maxQueueLength depth s.now).Ready := by
      unfold Ingest._checkBackpressure
      split
      · exact h.ready
      · split
        · exact h.ready
        · exact h.ready
    have htick := (h.awake fun wakes hw ↦ by rw [hphase] at hw; cases hw).1
    refine ⟨⟨hready, ?_, fun hawake ↦ absurd rfl (hawake _)⟩, rfl, rfl, ?_⟩
    · rintro _ ⟨⟩
      refine ⟨le_add_of_nonneg_right cfg.interval_pos.le, ?_⟩
      dsimp only
      rw [htick]
      norm_num
    · rintro ⟨depth', hdepth', hdeep⟩
      rw [hphase] at hdepth'
      cases hdepth'
      have hnonneg : ¬depth < 0 := by omega
      dsimp only
      rw [Ingest._checkBackpressure, if_neg hnonneg, if_pos hdeep]
  · cases hs

/-- **Every other step** keeps the schedule and the end of the pause. -/
theorem Scheduled.step (h : Scheduled cfg T s) (hcheck : a ≠ .check)
    (hs : s.step cfg u msgpack a = some t) :
    Scheduled cfg T t ∧ t.receiver.ingest.pausedUntil = s.receiver.ingest.pausedUntil := by
  cases a with
  | wait later =>
      rw [Flusher.step] at hs
      split at hs
      · rename_i wakes hphase
        split at hs
        · rename_i hlater
          cases hs
          refine ⟨⟨h.ready, fun wakes' hwakes' ↦ ?_, fun hawake ↦ absurd hphase (hawake _)⟩, rfl⟩
          rw [hphase] at hwakes'
          cases hwakes'
          exact ⟨hlater.2, (h.asleep wakes hphase).2⟩
        · cases hs
      · cases hs
  | wake => exact h.wake hs
  | measure depth =>
      rw [Flusher.step] at hs
      split at hs
      · rename_i hphase
        cases hs
        have hawake := h.awake fun wakes hw ↦ by rw [hphase] at hw; cases hw
        exact ⟨⟨h.ready, nofun, fun _ ↦ hawake⟩, rfl⟩
      · cases hs
  | check => exact absurd rfl hcheck
  | handle payload source now =>
      cases hs
      exact ⟨h.receiver (Ingest.keeps_handle.2 h.ready), Ingest.keeps_handle.1⟩
  | push outcome =>
      obtain ⟨r, hr, rfl⟩ := Option.map_eq_some_iff.mp hs
      obtain ⟨hpaused, hready⟩ := push_keeps h.ready hr
      exact ⟨h.receiver hready, hpaused⟩
  | refresh registry =>
      cases hs
      exact ⟨h.receiver h.ready, rfl⟩

/-- **The schedule is kept** throughout every run. -/
theorem scheduled_reach (h : Reach (system cfg u msgpack) (fun _ _ ↦ True) s) :
    ∃ T, Scheduled cfg T s := by
  refine Reach.invariant (P := fun s ↦ ∃ T, Scheduled cfg T s) ?_ ?_ h
  · rintro s ⟨registry, rfl⟩
    exact ⟨0, scheduled_init registry⟩
  · rintro s a t ⟨T, hT⟩ - hs
    change s.step cfg u msgpack a = some t at hs
    by_cases hcheck : a = .check
    · subst hcheck
      exact ⟨s.now, (hT.check hs).1⟩
    · exact ⟨T, (hT.step hcheck hs).1⟩

/-- Until the pause is over, nothing is pushed. -/
theorem sheds_of_lt (hready : s.receiver.ingest.Ready) (h : s.now < s.receiver.ingest.pausedUntil) :
    s.Sheds cfg u msgpack := by
  intro outcome t hs
  obtain ⟨r, hr, rfl⟩ := Option.map_eq_some_iff.mp hs
  exact push_paused hready hr h

/-- While time stands still, a flusher that sleeps goes on sleeping. -/
theorem step_asleep {wakes : ℚ} (hphase : s.phase = .asleep wakes) (hnow : s.now < wakes)
    (hwait : ∀ later, a ≠ .wait later) (hready : s.receiver.ingest.Ready)
    (hs : s.step cfg u msgpack a = some t) :
    t.phase = .asleep wakes ∧ t.now = s.now ∧ t.receiver.ingest.Ready ∧
      t.receiver.ingest.pausedUntil = s.receiver.ingest.pausedUntil := by
  cases a with
  | wait later => exact absurd rfl (hwait later)
  | wake =>
      rw [Flusher.step, hphase] at hs
      dsimp only at hs
      rw [if_neg hnow.ne] at hs
      cases hs
  | measure depth =>
      rw [Flusher.step, hphase] at hs
      cases hs
  | check =>
      rw [Flusher.step, hphase] at hs
      cases hs
  | handle payload source now =>
      cases hs
      exact ⟨hphase, rfl, Ingest.keeps_handle.2 hready, Ingest.keeps_handle.1⟩
  | push outcome =>
      obtain ⟨r, hr, rfl⟩ := Option.map_eq_some_iff.mp hs
      obtain ⟨hpaused, hready'⟩ := push_keeps hready hr
      exact ⟨hphase, rfl, hready', hpaused⟩
  | refresh registry =>
      cases hs
      exact ⟨hphase, rfl, hready, rfl⟩

/-- A check is no push. -/
theorem pushSheds_check (s : Flusher) : s.PushSheds cfg u msgpack .check := by
  rintro ⟨outcome, ha⟩
  cases ha

/-- **Shedding is continuous** if a pause bridges the time to the next check. -/
theorem continuous_of_lt (h : cfg.pushIntervalMs < 5000) : Continuous cfg u msgpack := by
  intro s t as bs hreach hdeep has hrun hdeep' hbs
  have hbridge := cfg.checkEvery_interval_lt h
  obtain ⟨T, hT⟩ := scheduled_reach hreach
  -- between the two checks
  have hstep : ∀ s₁ a s₂, Scheduled cfg s.now s₁ ∧ s₁.receiver.ingest.pausedUntil = s.now + 5 →
      a ≠ Action.check → s₁.step cfg u msgpack a = some s₂ →
      Scheduled cfg s.now s₂ ∧ s₂.receiver.ingest.pausedUntil = s.now + 5 := by
    rintro s₁ a s₂ ⟨hscheduled, hpaused⟩ ha hs
    have hnext := hscheduled.step ha hs
    exact ⟨hnext.1, hnext.2.trans hpaused⟩
  have hsheds : ∀ s₁ a, Scheduled cfg s.now s₁ ∧ s₁.receiver.ingest.pausedUntil = s.now + 5 →
      PushSheds cfg u msgpack s₁ a := by
    rintro s₁ a ⟨hscheduled, hpaused⟩ -
    refine sheds_of_lt hscheduled.ready (hscheduled.now_le.trans_lt ?_)
    rw [hpaused]
    linarith
  rw [System.Run] at hrun
  split at hrun
  · rename_i s₁ hs₁
    change s.step cfg u msgpack .check = some s₁ at hs₁
    obtain ⟨hscheduled, -, -, hpaused⟩ := hT.check hs₁
    have hwindow := hrun.2.keeps hstep has ⟨hscheduled, hpaused hdeep⟩
    -- the tick of the second check
    have hlast : (system cfg u msgpack).Along (PushSheds cfg u msgpack) t (.check :: bs) := by
      intro t₁ ht₁
      change t.step cfg u msgpack .check = some t₁ at ht₁
      obtain ⟨hscheduled', hnow, hphase, hpaused'⟩ := hwindow.1.check ht₁
      refine ⟨pushSheds_check t, System.along_of_mem (P := fun t₂ ↦ t₂.phase = .asleep (t.now + cfg.interval) ∧
        t₂.now = t.now ∧ t₂.receiver.ingest.Ready ∧ t₂.receiver.ingest.pausedUntil = t.now + 5)
        ?_ ?_ hbs ⟨hphase, hnow, hscheduled'.ready, hpaused' hdeep'⟩⟩
      · rintro t₂ a ⟨-, hnow₂, hready₂, hpaused₂⟩ -
        refine sheds_of_lt hready₂ ?_
        rw [hnow₂, hpaused₂]
        linarith
      · rintro t₂ a t₃ ⟨hphase₂, hnow₂, hready₂, hpaused₂⟩ ha hs
        have hasleep : t₂.now < t.now + cfg.interval := by
          rw [hnow₂]
          exact lt_add_of_pos_right _ cfg.interval_pos
        obtain ⟨hphase₃, hnow₃, hready₃, hpaused₃⟩ := step_asleep hphase₂ hasleep ha hready₂ hs
        exact ⟨hphase₃, hnow₃.trans hnow₂, hready₃, hpaused₃.trans hpaused₂⟩
    intro s₂ hs₂
    obtain rfl : s₁ = s₂ := Option.some.inj (hs₁.symm.trans hs₂)
    exact ⟨pushSheds_check s, hrun.2.along_append
      (System.along_of_mem hsheds hstep has ⟨hscheduled, hpaused hdeep⟩) hlast⟩
  · cases hrun

end schedule

/-! ## The process without time -/

/-- The wire format can hold what is received: the second, and texts as long as the payload gives. -/
def CallOk (msgpack : Msgpack) (_ : Flusher) : Action → Prop
  | .handle payload source now => msgpack.Carries payload source ∧ now < 2 ^ 64
  | _ => True

/-- **A run of the flusher** is a run of its process. -/
theorem reach_receiver {s : Flusher} (h : Reach (system cfg u msgpack) (CallOk msgpack) s) :
    Reach (Receiver.system cfg.ingest u msgpack) (Receiver.CallOk msgpack) s.receiver := by
  induction h with
  | init hs =>
      obtain ⟨registry, rfl⟩ := hs
      exact .init ⟨registry, rfl⟩
  | @step s t a hreach hcall hs ih =>
      change s.step cfg u msgpack a = some t at hs
      cases a with
      | wait later =>
          rw [Flusher.step] at hs
          split at hs
          · split at hs <;> cases hs
            exact ih
          · cases hs
      | wake =>
          rw [Flusher.step] at hs
          split at hs
          · split at hs <;> cases hs
            exact ih.step (a := .flush) trivial rfl
          · cases hs
      | measure depth =>
          rw [Flusher.step] at hs
          split at hs <;> cases hs
          exact ih
      | check =>
          rw [Flusher.step] at hs
          split at hs <;> cases hs
          exact ih.step (a := .checkBackpressure _ _ _) trivial rfl
      | handle payload source now =>
          cases hs
          exact ih.step (a := Receiver.Action.handle payload source now) hcall rfl
      | push outcome =>
          obtain ⟨r, hr, rfl⟩ := Option.map_eq_some_iff.mp hs
          obtain ⟨r₁, hstart, rfl⟩ := Option.map_eq_some_iff.mp hr
          have hstarted := ih.step (a := Receiver.Action.startPush 0 s.now) trivial hstart
          cases hfinish : r₁.step cfg.ingest u msgpack (.finishPush 0 outcome) with
          | none => exact hstarted
          | some r₂ => exact hstarted.step (a := Receiver.Action.finishPush 0 outcome) trivial hfinish
      | refresh registry =>
          cases hs
          exact ih.step (a := .refresh registry) trivial rfl

/-! ## The longest interval -/

section longest

/-- Records that wait are flushed. -/
theorem tasks_scheduleFlush {i : Ingest} (hready : i.Ready) (hbuffer : i.buffer ≠ []) :
    i._scheduleFlush.tasks = [.scheduled] := by
  have hempty : i.buffer.isEmpty = false := List.isEmpty_eq_false_iff.mpr hbuffer
  unfold Ingest._scheduleFlush
  rcases hready with ⟨hpushing, htasks⟩ | ⟨hpushing, htasks⟩
  · rw [hpushing, hempty, htasks]
    rfl
  · rw [hpushing]
    exact htasks

/-- After a pause the batch is pushed. -/
theorem push_open {r : Receiver} {now : ℚ} (htasks : r.ingest.tasks = [.scheduled])
    (hbuffer : r.ingest.buffer ≠ []) (hnow : r.ingest.pausedUntil ≤ now) :
    ∃ r', push cfg u msgpack r now .accepted = some r' ∧
      r'.redis = r.redis ++ r.ingest.buffer := by
  have hstart : r.step cfg.ingest u msgpack (.startPush 0 now) =
      some { r with ingest := { r.ingest with buffer := [], tasks := [.pushing r.ingest.buffer] } } := by
    have hempty : r.ingest.buffer.isEmpty = false := List.isEmpty_eq_false_iff.mpr hbuffer
    rw [Receiver.step, htasks]
    unfold Ingest.startPush
    dsimp only
    rw [hempty, if_neg (not_lt.mpr hnow), htasks]
    rfl
  rw [push, hstart]
  exact ⟨_, rfl, rfl⟩

section rounds

variable {r : Receiver} {w : ℚ} {k : ℕ} {depth : Int}

/-- The flusher sleeps for an interval. -/
theorem step_wait {later : ℚ} (h : w ≤ later) : (system cfg u msgpack).step
    ⟨r, w, k, .asleep later⟩ (.wait later) = some ⟨r, later, k, .asleep later⟩ :=
  if_pos ⟨h, le_rfl⟩

/-- It wakes, where every tick has a check. -/
theorem step_wake (h : cfg.checkEvery = 1) :
    (system cfg u msgpack).step ⟨r, w, k, .asleep w⟩ .wake =
      some ⟨{ r with ingest := r.ingest._scheduleFlush }, w, k + 1, .measuring⟩ := by
  have hcheck : (k + 1) % cfg.checkEvery = 0 := by rw [h, Nat.mod_one]
  unfold system Flusher.step
  dsimp only
  rw [if_pos rfl, if_pos hcheck]

/-- It finds the queue too deep. -/
theorem step_check (hdepth : cfg.maxQueueLength < depth) :
    (system cfg u msgpack).step ⟨r, w, k, .measured depth⟩ .check =
      some ⟨{ r with ingest := { r.ingest with pausedUntil := w + 5 } }, w, k,
        .asleep (w + cfg.interval)⟩ := by
  have hnonneg : ¬depth < 0 := by omega
  unfold system Flusher.step
  dsimp only
  rw [Ingest._checkBackpressure, if_neg hnonneg, if_pos hdepth]

end rounds

/-- **A pause that ends with the next check** lets its batch through. -/
theorem not_continuous_of_eq (hmsgpack : msgpack.Lawful) (h : cfg.pushIntervalMs = 5000) :
    ¬Continuous cfg u msgpack := by
  intro hcontinuous
  obtain ⟨hinterval, hevery⟩ := cfg.interval_eq_five h
  obtain ⟨record, hparse⟩ := Receiver.exists_record_sessionLine cfg.ingest.parser u
  have hcarries := Receiver.carries_sessionLine hmsgpack
  generalize Receiver.sessionLine = payload at hparse hcarries
  have hdepth : (cfg.maxQueueLength : Int) < cfg.maxQueueLength + 1 := Int.lt_succ _
  -- the first check
  let i₀ := Ingest.start {Receiver.sessionRouter}
  let s : Flusher := ⟨⟨i₀, [], []⟩, cfg.interval, 1, .measured (cfg.maxQueueLength + 1)⟩
  have hinit : Reach (system cfg u msgpack) (fun _ _ ↦ True)
      ⟨⟨i₀, [], []⟩, 0, 0, .asleep cfg.interval⟩ := .init ⟨_, rfl⟩
  have hwaited : Reach (system cfg u msgpack) (fun _ _ ↦ True)
      ⟨⟨i₀, [], []⟩, cfg.interval, 0, .asleep cfg.interval⟩ :=
    hinit.step (a := .wait cfg.interval) trivial (step_wait cfg.interval_pos.le)
  have hwoken : Reach (system cfg u msgpack) (fun _ _ ↦ True)
      ⟨⟨i₀, [], []⟩, cfg.interval, 1, .measuring⟩ :=
    hwaited.step (a := .wake) trivial (step_wake hevery)
  have hreach : Reach (system cfg u msgpack) (fun _ _ ↦ True) s :=
    hwoken.step (a := .measure (cfg.maxQueueLength + 1)) trivial rfl
  -- a record arrives just before the second
  let i₁ : Ingest := { i₀ with pausedUntil := cfg.interval + 5 }
  obtain ⟨entry, -, hhandle⟩ : ∃ entry, _ ∧ i₁.handle cfg.ingest u msgpack payload _ 0 = _ :=
    Ingest.exists_handle hmsgpack hcarries (Nat.two_pow_pos 64)
      (Finset.mem_singleton_self Receiver.sessionRouter) hparse
  let i₂ := ((i₁.count payload).incr .parsed).append cfg.ingest entry
  have hkeeps : i₁.Keeps i₂ := Ingest.keeps_incr.trans
    (Ingest.keeps_incr.trans (Ingest.keeps_incr.trans Ingest.keeps_append))
  have hbuffer : i₂._scheduleFlush.buffer = [entry] := by
    rw [Ingest.buffer_scheduleFlush, Ingest.buffer_append]
    rfl
  have htasks : i₂._scheduleFlush.tasks = [.scheduled] := by
    refine tasks_scheduleFlush (hkeeps.2 (.inl ⟨rfl, rfl⟩)) ?_
    rw [← Ingest.buffer_scheduleFlush, hbuffer]
    nofun
  have hpaused : i₂._scheduleFlush.pausedUntil = cfg.interval + cfg.interval := by
    rw [Ingest.keeps_scheduleFlush.1, hkeeps.1]
    exact congrArg (cfg.interval + ·) hinterval.symm
  let r : Receiver := ⟨i₂, [], [⟨payload, Receiver.sessionRouter, 0, i₁.registry⟩]⟩
  obtain ⟨r', hr', hredis⟩ : ∃ r', push cfg u msgpack { r with ingest := i₂._scheduleFlush }
      (cfg.interval + cfg.interval) .accepted = some r' ∧
        r'.redis = r.redis ++ i₂._scheduleFlush.buffer :=
    push_open htasks (hbuffer ▸ List.cons_ne_nil entry []) hpaused.le
  -- the run
  let t : Flusher := ⟨r', cfg.interval + cfg.interval, 2, .measured (cfg.maxQueueLength + 1)⟩
  let later := cfg.interval + cfg.interval
  have hs₁ : (system cfg u msgpack).step s .check =
      some ⟨⟨i₁, [], []⟩, cfg.interval, 1, .asleep later⟩ := step_check hdepth
  have hs₂ : (system cfg u msgpack).step ⟨⟨i₁, [], []⟩, cfg.interval, 1, .asleep later⟩
      (.wait later) = some ⟨⟨i₁, [], []⟩, later, 1, .asleep later⟩ :=
    step_wait (le_add_of_nonneg_right cfg.interval_pos.le)
  have hs₃ : (system cfg u msgpack).step ⟨⟨i₁, [], []⟩, later, 1, .asleep later⟩
      (.handle payload Receiver.sessionRouter 0) = some ⟨r, later, 1, .asleep later⟩ := by
    unfold system Flusher.step
    dsimp only
    rw [Receiver.step, hhandle]
    rfl
  have hs₄ : (system cfg u msgpack).step ⟨r, later, 1, .asleep later⟩ .wake =
      some ⟨{ r with ingest := i₂._scheduleFlush }, later, 2, .measuring⟩ := step_wake hevery
  have hs₅ : (system cfg u msgpack).step
      ⟨{ r with ingest := i₂._scheduleFlush }, later, 2, .measuring⟩ (.push .accepted) =
        some ⟨r', later, 2, .measuring⟩ := by
    unfold system Flusher.step
    dsimp only
    rw [hr']
    rfl
  have hrun : (system cfg u msgpack).Run (fun _ _ ↦ True) t s [.check, .wait later,
      .handle payload Receiver.sessionRouter 0, .wake, .push .accepted,
      .measure (cfg.maxQueueLength + 1)] :=
    .cons hs₁ trivial (.cons hs₂ trivial (.cons hs₃ trivial (.cons hs₄ trivial
      (.cons hs₅ trivial (.cons rfl trivial rfl)))))
  have halong := hcontinuous s t _ [] hreach ⟨_, rfl, hdepth⟩ (by simp) hrun ⟨_, rfl, hdepth⟩
    fun a ha ↦ absurd ha List.not_mem_nil
  have hpush := ((((((halong _ hs₁).2 _ hs₂).2 _ hs₃).2 _ hs₄).2 _ hs₅).1 ⟨_, rfl⟩ _ _ hs₅).1
  rw [hredis, hbuffer] at hpush
  cases hpush

/-- **Shedding is continuous** exactly if ticks are less than five seconds apart. -/
theorem shedding_continuous_iff (cfg : FlusherConfig) (u : CharTable) {msgpack : Msgpack}
    (hmsgpack : msgpack.Lawful) : Continuous cfg u msgpack ↔ cfg.pushIntervalMs < 5000 := by
  refine ⟨fun h ↦ ?_, continuous_of_lt⟩
  by_contra hlt
  have hmax : cfg.pushIntervalMs = 5000 :=
    Nat.le_antisymm cfg.pushIntervalMs_bounds.2 (Nat.not_lt.mp hlt)
  exact not_continuous_of_eq hmsgpack hmax h

/-- The default interval. -/
theorem shedding_continuous_default : Continuous ⟨⟨{}, 500⟩, 200, 5000000, by decide⟩ .ascii
    msgpackRows := (shedding_continuous_iff _ _ msgpackRows_lawful).mpr (by decide)

/-- The longest interval. -/
theorem shedding_not_continuous : ¬∀ cfg : FlusherConfig, Continuous cfg .ascii msgpackRows := by
  intro h
  exact not_continuous_of_eq msgpackRows_lawful rfl (h ⟨⟨{}, 500⟩, 5000, 5000000, by decide⟩)

end longest

end Flusher

end LogServer
