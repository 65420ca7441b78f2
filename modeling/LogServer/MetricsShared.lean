import LogServer.Lib.Tally
import LogServer.Lib.Transition
import LogServer.Services.Ingest
import Mathlib.Algebra.BigOperators.Group.Finset.Basic
import Mathlib.Algebra.Order.Field.Basic
import Mathlib.Tactic.Positivity

/-!
# The shared counters

All processes flush their counters into one hash, and the API reads the hash whenever it is asked.  A
flush is a pipeline of `HINCRBY` commands, which Redis executes one at a time, between the commands of
others, and perhaps after the process has given up on the pipeline and folded the deltas back.  So the
hash need not say what happened.  It still says nothing absurd: as `handle` counts a payload as received
before it counts it as parsed, and the dictionary keeps that order, there are never more logs parsed than
received (`parsed_le_received`).

The order of the keys is what matters here, and so the dictionaries are `Tally`s.
-/

namespace LogServer

open Transition

/-! ## What the processes count -/

/-- The increments of a call of `handle`, in order. -/
def Ingest.increments (self : Ingest) (cfg : IngestConfig) (u : CharTable) (payload : Bytes)
    (source : Text) : List (Counter × Nat) :=
  [(.received, 1), (.bytesReceived, payload.length),
    (if source ∉ self.registry then .droppedUnknownRouter
      else if (cfg.parser.parseBytes u payload).1.isSome then .parsed else .parserErrors, 1)]

/-- `handle` makes them, between two points where other tasks may run. -/
theorem Ingest.counts_handle {self : Ingest} {cfg : IngestConfig} {u : CharTable} {msgpack : Msgpack}
    {payload : Bytes} {source : Text} {now : Nat} :
    (self.handle cfg u msgpack payload source now).1.counts =
      (self.increments cfg u payload source).foldl (fun counts x ↦ counts.incr x.1 x.2)
        self.counts := by
  rw [increments]
  by_cases hsource : source ∈ self.registry
  · rw [if_neg (not_not.mpr hsource)]
    cases hparse : cfg.parser.parseBytes u payload with
    | mk log _ =>
        rw [handle]
        dsimp only
        rw [if_neg (show ¬source ∉ (self.count payload).registry from not_not.mpr hsource), hparse]
        cases log with
        | none => rfl
        | some record =>
            dsimp only
            cases LogQueue.encode msgpack (record.asRow now source) with
            | error e => rfl
            | ok entry => exact counts_append
  · rw [if_pos hsource, handle_unknown hsource]
    rfl

/-- The runs of increments in the program that no other task can interrupt. -/
inductive CountedTogether : List (Counter × Nat) → Prop where
  | handle (self : Ingest) (cfg : IngestConfig) (u : CharTable) (payload : Bytes) (source : Text) :
      CountedTogether (self.increments cfg u payload source)
  /-- `_push` sheds load. -/
  | shed (batch : Nat) : CountedTogether [(.droppedBackpressure, batch)]
  | redisError (batch : Nat) : CountedTogether [(.droppedRedisError, batch)]
  /-- `_write_with_retry` met entries that it cannot decode. -/
  | undecodable (bad : Nat) : CountedTogether [(.parserErrors, bad)]
  | insertError : CountedTogether [(.chInsertErrors, 1)]
  /-- An insert of rows was acknowledged. -/
  | stored {rows : Nat} (h : 0 < rows) : CountedTogether [(.stored, rows), (.chInsertBatches, 1)]

/-! ## The system -/

/-- The dictionary of a process, and the flush that waits: what it has taken, and the number of its
pipeline. -/
structure LocalCounts where
  counts : Tally Counter
  pending : Option (Tally Counter × Nat)

/-- The processes, what Redis has not executed of each pipeline that was sent, and the hash. -/
structure SharedCounts where
  processes : Nat → Option LocalCounts
  wire : List (Tally Counter)
  redis : Counter → Nat

namespace SharedCounts

inductive Action where
  | start (p : Nat)
  | kill (p : Nat)
  | count (p : Nat) (block : List (Counter × Nat))
  /-- `flush`, up to its suspension. -/
  | flush (p : Nat)
  /-- Redis executes the next command of a pipeline. -/
  | hincrby (i : Nat)
  /-- All replies are there. -/
  | executed (p : Nat)
  | raised (p : Nat)
  | cancelled (p : Nat)
  /-- `POST /system/metrics/reset`. -/
  | reset

def empty : SharedCounts := ⟨fun _ ↦ none, [], fun _ ↦ 0⟩

variable (s : SharedCounts)

def update (p : Nat) (w : LocalCounts) : SharedCounts :=
  { s with processes := Function.update s.processes p (some w) }

def step : Action → Option SharedCounts
  | .start p => if (s.processes p).isNone then some (s.update p ⟨[], none⟩) else none
  | .kill p => some { s with processes := Function.update s.processes p none }
  | .count p block => (s.processes p).map fun w ↦ s.update p { w with counts := w.counts.count block }
  | .flush p =>
      (s.processes p).bind fun w ↦
        if w.pending.isSome then none
        else if w.counts.isEmpty then some s
        else some { s.update p ⟨[], some (w.counts, s.wire.length)⟩ with wire := s.wire ++ [w.counts] }
  | .hincrby i =>
      match s.wire[i]? with
      | some ((name, value) :: rest) =>
          some { s with
            wire := s.wire.set i rest
            redis := Function.update s.redis name (s.redis name + value) }
      | _ => none
  | .executed p =>
      (s.processes p).bind fun w ↦ w.pending.bind fun x ↦
        if s.wire[x.2]? = some [] then some (s.update p { w with pending := none }) else none
  | .raised p =>
      (s.processes p).bind fun w ↦ w.pending.map fun x ↦
        s.update p ⟨w.counts.count x.1, none⟩
  | .cancelled p =>
      (s.processes p).bind fun w ↦ w.pending.map fun _ ↦ s.update p { w with pending := none }
  | .reset => some { s with redis := fun _ ↦ 0 }

/-- All processes, and Redis, from an empty hash on. -/
def system : System SharedCounts Action where
  init s := s = empty
  step := step

/-! ## A lead -/

/-- The names of a block are led, and a reset falls between no lead and its names. -/
def Leading (lead : Counter) (names : Finset Counter) (s : SharedCounts) : Action → Prop
  | .count _ block =>
      Tally.Ordered lead names block ∧ Tally.amount names block ≤ Tally.amount {lead} block
  | .reset => ∀ rest ∈ s.wire, rest.debt lead names = 0
  | _ => True

/-- **What the hash owes.**  What is in the hash under the names, and what the pipelines will still add to
it without adding to the lead, is no more than what is there under the lead. -/
structure Led (lead : Counter) (names : Finset Counter) (s : SharedCounts) : Prop where
  counts : ∀ p w, s.processes p = some w → w.counts.Leads lead names
  pending : ∀ p w x, s.processes p = some w → w.pending = some x → x.1.Leads lead names
  wire : ∀ rest ∈ s.wire, rest.Rest lead names
  owed : ∑ name ∈ names, s.redis name + (s.wire.map (Tally.debt lead names)).sum ≤ s.redis lead

section led

variable {s t : SharedCounts} {lead : Counter} {names : Finset Counter} {p : Nat} {w : LocalCounts}

theorem led_empty : Led lead names empty where
  counts := fun p w hw ↦ by cases hw
  pending := fun p w x hw ↦ by cases hw
  wire := fun rest hrest ↦ by cases hrest
  owed := by simp [empty]

/-- A process goes on. -/
theorem Led.update (h : s.Led lead names) (hcounts : w.counts.Leads lead names)
    (hpending : ∀ x, w.pending = some x → x.1.Leads lead names) : (s.update p w).Led lead names := by
  have hor : ∀ q v, (s.update p w).processes q = some v → s.processes q = some v ∨ v = w := by
    intro q v hv
    replace hv : Function.update s.processes p (some w) q = some v := hv
    rw [Function.update_apply] at hv
    split at hv
    · exact .inr (Option.some.inj hv).symm
    · exact .inl hv
  refine ⟨fun q v hv ↦ ?_, fun q v x hv hx ↦ ?_, h.wire, h.owed⟩
  · rcases hor q v hv with hold | rfl
    · exact h.counts q v hold
    · exact hcounts
  · rcases hor q v hv with hold | rfl
    · exact h.pending q v x hold hx
    · exact hpending x hx

/-- The hash where one name is given more. -/
theorem sum_update (redis : Counter → Nat) (name : Counter) (value : Nat) :
    ∑ n ∈ names, Function.update redis name (redis name + value) n =
      ∑ n ∈ names, redis n + if name ∈ names then value else 0 := by
  split
  · rename_i hmem
    rw [Finset.sum_update_of_mem hmem, ← Finset.add_sum_erase names redis hmem,
      Finset.sdiff_singleton_eq_erase]
    omega
  · rename_i hmem
    rw [Finset.sum_update_of_notMem hmem]
    rfl

/-- **Redis executes a command.** -/
theorem Led.hincrby (h : s.Led lead names) {i : Nat} {x : Counter × Nat} {rest : Tally Counter}
    (hi : s.wire[i]? = some (x :: rest)) :
    Led lead names { s with
      wire := s.wire.set i rest
      redis := Function.update s.redis x.1 (s.redis x.1 + x.2) } := by
  obtain ⟨hlt, hget⟩ := List.getElem?_eq_some_iff.mp hi
  obtain ⟨hrest, hdebt⟩ := (h.wire _ (List.mem_of_getElem? hi)).tail
  refine ⟨h.counts, h.pending, fun other hother ↦ ?_, ?_⟩
  · rcases List.mem_or_eq_of_mem_set hother with hold | rfl
    · exact h.wire other hold
    · exact hrest
  · have howed := h.owed
    have hsplit := List.take_append_drop i s.wire
    have hdrop : s.wire.drop i = (x :: rest) :: s.wire.drop (i + 1) := by
      rw [List.drop_eq_getElem_cons hlt, hget]
    dsimp only
    rw [sum_update, List.set_eq_take_append_cons_drop, if_pos hlt]
    rw [← hsplit, hdrop] at howed
    simp only [List.map_append, List.map_cons, List.sum_append, List.sum_cons] at howed ⊢
    have hlead : Function.update s.redis x.1 (s.redis x.1 + x.2) lead =
        s.redis lead + if x.1 = lead then x.2 else 0 := by
      rw [Function.update_apply]
      by_cases heq : x.1 = lead
      · rw [if_pos heq.symm, if_pos heq, heq]
      · rw [if_neg (Ne.symm heq), if_neg heq, Nat.add_zero]
    rw [hlead]
    omega

/-- **Every step keeps it.** -/
theorem Led.step (h : s.Led lead names) {a : Action} (hok : s.Leading lead names a)
    (hs : s.step a = some t) : t.Led lead names := by
  cases a with
  | start p =>
      rw [SharedCounts.step] at hs
      split at hs <;> cases hs
      exact h.update Tally.leads_nil fun x hx ↦ by cases hx
  | kill p =>
      cases hs
      have hsome : ∀ q v, Function.update s.processes p none q = some v → s.processes q = some v := by
        intro q v hv
        rw [Function.update_apply] at hv
        split at hv
        · cases hv
        · exact hv
      exact ⟨fun q v hv ↦ h.counts q v (hsome q v hv),
        fun q v x hv ↦ h.pending q v x (hsome q v hv), h.wire, h.owed⟩
  | count p block =>
      obtain ⟨w, hw, rfl⟩ := Option.map_eq_some_iff.mp hs
      exact h.update ((h.counts p w hw).count hok.1 hok.2) fun x hx ↦ h.pending p w x hw hx
  | flush p =>
      obtain ⟨w, hw, hs⟩ := Option.bind_eq_some_iff.mp hs
      split at hs
      · cases hs
      · split at hs <;> cases hs
        · exact h
        · have hcounts := h.counts p w hw
          have hnew := h.update (p := p) (w := ⟨[], some (w.counts, s.wire.length)⟩)
            Tally.leads_nil fun x hx ↦ by
              cases hx
              exact hcounts
          refine ⟨hnew.counts, hnew.pending, ?_, ?_⟩
          · exact List.forall_mem_append.mpr ⟨h.wire, List.forall_mem_singleton.mpr (.inl hcounts)⟩
          · -- What has not begun owes nothing.
            simpa [SharedCounts.update, hcounts.debt_eq] using h.owed
  | hincrby i =>
      rw [SharedCounts.step] at hs
      split at hs
      · rename_i name value rest hi
        cases hs
        exact h.hincrby hi
      · cases hs
  | executed p =>
      obtain ⟨w, hw, hs⟩ := Option.bind_eq_some_iff.mp hs
      obtain ⟨x, hx, hs⟩ := Option.bind_eq_some_iff.mp hs
      split at hs <;> cases hs
      exact h.update (h.counts p w hw) fun x hx ↦ by cases hx
  | raised p =>
      obtain ⟨w, hw, hs⟩ := Option.bind_eq_some_iff.mp hs
      obtain ⟨x, hx, rfl⟩ := Option.map_eq_some_iff.mp hs
      -- To fold the deltas back is to count them again.
      have hpending := h.pending p w x hw hx
      exact h.update ((h.counts p w hw).count hpending.ordered hpending.amount_le) fun x hx ↦ by
        cases hx
  | cancelled p =>
      obtain ⟨w, hw, hs⟩ := Option.bind_eq_some_iff.mp hs
      obtain ⟨x, hx, rfl⟩ := Option.map_eq_some_iff.mp hs
      exact h.update (h.counts p w hw) fun x hx ↦ by cases hx
  | reset =>
      cases hs
      refine ⟨h.counts, h.pending, h.wire, ?_⟩
      have hzero : (s.wire.map (Tally.debt lead names)).sum = 0 :=
        List.sum_eq_zero (List.forall_mem_map.mpr hok)
      dsimp only
      rw [hzero, Finset.sum_const_zero]

theorem led_reach (h : Reach system (Leading lead names) s) : s.Led lead names := by
  refine Reach.invariant (P := Led lead names) ?_ ?_ h
  · rintro s rfl
    exact led_empty
  · exact fun s a t hs hok hstep ↦ hs.step hok hstep

end led

/-! ## What the API reads -/

/-- What is counted is what the program counts, and a reset falls into no pipeline. -/
def Ok (s : SharedCounts) : Action → Prop
  | .count _ block => CountedTogether block
  | .reset => ∀ rest ∈ s.wire, rest.debt .received {.parsed, .droppedUnknownRouter} = 0 ∧
      rest.debt .stored {.chInsertBatches} = 0
  | _ => True

/-- `parse_success_pct`, before it is rounded. -/
def parseSuccessPct (redis : Counter → Nat) : ℚ :=
  if redis .received = 0 then 0 else redis .parsed / redis .received * 100

/-- What the program counts together has received payloads in the lead. -/
theorem CountedTogether.received {block : List (Counter × Nat)} (h : CountedTogether block) :
    Tally.Ordered .received {.parsed, .droppedUnknownRouter} block ∧
      Tally.amount {.parsed, .droppedUnknownRouter} block ≤ Tally.amount {.received} block := by
  cases h with
  | handle self cfg u payload source =>
      rw [Ingest.increments]
      refine ⟨⟨by decide, .inl rfl⟩, ?_⟩
      split
      · simp
      · split <;> simp
  | _ => simp [Tally.Ordered]

/-- And stored rows in the lead of the batches. -/
theorem CountedTogether.stored_lead {block : List (Counter × Nat)} (h : CountedTogether block) :
    Tally.Ordered .stored {.chInsertBatches} block ∧
      Tally.amount {.chInsertBatches} block ≤ Tally.amount {.stored} block := by
  cases h with
  | handle self cfg u payload source =>
      rw [Ingest.increments]
      split
      · simp [Tally.Ordered]
      · split <;> simp [Tally.Ordered]
  | stored hrows =>
      refine ⟨⟨show Counter.stored ∉ _ by decide, .inl rfl⟩, ?_⟩
      simpa [Nat.one_le_iff_ne_zero] using hrows.ne'
  | _ => simp [Tally.Ordered]

/-- **The counters say nothing absurd.**  In every interleaving of any number of processes that count,
flush, fold back, are cancelled or are killed, and of Redis, which executes the commands of their
pipelines one by one and as far as it does, the hash at every moment has no more logs parsed and dropped
for an unknown router than received, and no more batches than rows stored, as long as no reset falls
between the commands of a pipeline; so `parse_success_pct` is a percentage. -/
theorem parsed_le_received {s : SharedCounts} (h : Reach system Ok s) :
    s.redis .parsed + s.redis .droppedUnknownRouter ≤ s.redis .received ∧
      s.redis .chInsertBatches ≤ s.redis .stored ∧
      0 ≤ parseSuccessPct s.redis ∧ parseSuccessPct s.redis ≤ 100 := by
  have hreceived : s.Led .received {.parsed, .droppedUnknownRouter} := by
    refine led_reach (h.mono fun s a hok ↦ ?_)
    cases a with
    | count p block => exact CountedTogether.received hok
    | reset => exact fun rest hrest ↦ (hok rest hrest).1
    | _ => exact trivial
  have hstored : s.Led .stored {.chInsertBatches} := by
    refine led_reach (h.mono fun s a hok ↦ ?_)
    cases a with
    | count p block => exact CountedTogether.stored_lead hok
    | reset => exact fun rest hrest ↦ (hok rest hrest).2
    | _ => exact trivial
  have hle : s.redis .parsed + s.redis .droppedUnknownRouter ≤ s.redis .received := by
    have howed := hreceived.owed
    rw [Finset.sum_pair (by decide)] at howed
    omega
  refine ⟨hle, ?_, ?_, ?_⟩
  · have howed := hstored.owed
    rw [Finset.sum_singleton] at howed
    omega
  · rw [parseSuccessPct]
    split
    · exact le_rfl
    · positivity
  · rw [parseSuccessPct]
    split
    · norm_num
    · rename_i hpos
      have hcast : (s.redis .parsed : ℚ) ≤ s.redis .received := by
        exact_mod_cast (Nat.le_add_right _ _).trans hle
      have hdiv : (s.redis .parsed : ℚ) / s.redis .received ≤ 1 :=
        div_le_one_of_le₀ hcast (Nat.cast_nonneg _)
      linarith

/-- A process gives up on a pipeline of which Redis has executed one command, and folds back. -/
theorem parsed_le_received_session : ∃ s, Reach system Ok s ∧ s.redis .received = 2 ∧
    s.redis .droppedUnknownRouter = 1 ∧
    s.redis .parsed + s.redis .droppedUnknownRouter ≤ s.redis .received := by
  let self : Ingest := Ingest.start ∅
  have hrun : ∃ s, system.Run Ok s empty
      [.start 0, .count 0 (self.increments ⟨{}, 1⟩ .ascii [] []), .flush 0, .hincrby 0, .raised 0,
        .flush 0, .hincrby 1, .hincrby 1, .hincrby 1] ∧ s.redis .received = 2 ∧
      s.redis .droppedUnknownRouter = 1 := by
    simp [System.Run, Ok, system, step, empty, update, Ingest.increments, self, Ingest.start,
      Tally.count, Tally.incr]
    simpa [Ingest.increments, self, Ingest.start] using CountedTogether.handle self ⟨{}, 1⟩ .ascii [] []
  obtain ⟨s, hrun, hreceived, hunknown⟩ := hrun
  have h := (Reach.init rfl).run hrun
  exact ⟨s, h, hreceived, hunknown, (parsed_le_received h).1⟩

end SharedCounts

end LogServer
