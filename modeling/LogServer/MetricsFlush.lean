import LogServer.Lib.Transition

/-!
# Flushing the counters

A process keeps its increments in a dictionary, and flushes them to Redis from time to time: it takes
the dictionary, leaves an empty one behind, and waits for a pipeline of `HINCRBY` commands.  Meanwhile
the process goes on counting.  If the pipeline raises, everything that was taken is folded back; if the
flush is cancelled, which `stop` does, nothing is.

The pipeline is no transaction, so either can happen when Redis has applied any part of the commands.
What is folded back although it was applied is counted twice, and what is not folded back although it
was not applied is lost.  So the counters are right whenever no flush is in progress exactly if nothing
was applied where the pipeline raised, and everything where it was cancelled (`counters_exact_iff`).
-/

namespace LogServer

open Transition

universe u

variable {ν : Type u} [DecidableEq ν]

/-! ## Dictionaries of increments -/

/-- The increments under each name. -/
abbrev Deltas (ν : Type u) := AList fun _ : ν ↦ ℤ

namespace Deltas

def get (counts : Deltas ν) (name : ν) : ℤ := (counts.lookup name).getD 0

def incr (counts : Deltas ν) (name : ν) (value : ℤ) : Deltas ν :=
  counts.insert name (get counts name + value)

def foldBack (counts pending : Deltas ν) : Deltas ν :=
  pending.entries.foldl (fun counts x ↦ incr counts x.1 x.2) counts

def amount (entries : List (Sigma fun _ : ν ↦ ℤ)) (name : ν) : ℤ :=
  (entries.map fun x ↦ if x.1 = name then x.2 else 0).sum

section get

variable {counts pending : Deltas ν} {name : ν}

@[simp] theorem get_empty : get (∅ : Deltas ν) name = 0 := rfl

theorem get_incr (n : ν) (value : ℤ) :
    get (incr counts n value) name = get counts name + if n = name then value else 0 := by
  unfold get incr
  by_cases h : n = name
  · subst h
    rw [AList.lookup_insert, if_pos rfl]
    rfl
  · rw [AList.lookup_insert_ne (Ne.symm h), if_neg h, add_zero]

omit [DecidableEq ν] in
@[simp] theorem amount_cons [DecidableEq ν] (x : Sigma fun _ : ν ↦ ℤ)
    (entries : List (Sigma fun _ : ν ↦ ℤ)) :
    amount (x :: entries) name = (if x.1 = name then x.2 else 0) + amount entries name := by
  rw [amount, List.map_cons, List.sum_cons, amount]

/-- A dictionary has under a name what its one entry says, if it has one. -/
theorem amount_entries (counts : Deltas ν) (name : ν) :
    amount counts.entries name = get counts name := by
  obtain ⟨entries, hnodup⟩ := counts
  show amount entries name = (entries.dlookup name).getD 0
  induction entries with
  | nil => rfl
  | cons x entries ih =>
      obtain ⟨n, value⟩ := x
      obtain ⟨hn, hrest⟩ := List.nodupKeys_cons.mp hnodup
      rw [amount_cons, ih hrest]
      by_cases h : n = name
      · subst h
        rw [List.dlookup_eq_none.mpr hn, List.dlookup_cons_eq, if_pos rfl]
        exact add_zero value
      · rw [List.dlookup_cons_ne _ _ (Ne.symm h), if_neg h, zero_add]

/-- **Folding back adds up.** -/
theorem get_foldBack (counts pending : Deltas ν) (name : ν) :
    get (foldBack counts pending) name = get counts name + get pending name := by
  rw [← amount_entries pending, foldBack]
  induction pending.entries generalizing counts with
  | nil => exact (add_zero _).symm
  | cons x entries ih => rw [List.foldl_cons, ih, get_incr, amount_cons, add_assoc]

end get

end Deltas

/-- The commands of a pipeline that Redis has applied. -/
def hincrby (redis : ν → ℤ) (commands : List (Sigma fun _ : ν ↦ ℤ)) : ν → ℤ :=
  commands.foldl (fun redis x ↦ Function.update redis x.1 (redis x.1 + x.2)) redis

/-- **What Redis has after some commands.** -/
theorem hincrby_apply (redis : ν → ℤ) (commands : List (Sigma fun _ : ν ↦ ℤ)) (name : ν) :
    hincrby redis commands name = redis name + Deltas.amount commands name := by
  rw [hincrby]
  induction commands generalizing redis with
  | nil => exact (add_zero _).symm
  | cons x commands ih =>
      rw [List.foldl_cons, ih, Deltas.amount_cons, ← add_assoc]
      by_cases h : x.1 = name
      · subst h
        rw [Function.update_self, if_pos rfl]
      · rw [Function.update_of_ne (Ne.symm h), if_neg h, add_zero]

/-- The commands for some of the names. -/
theorem hincrby_filter (redis : ν → ℤ) (pending : Deltas ν) (applied : ν → Bool) (name : ν) :
    hincrby redis (pending.entries.filter fun x ↦ applied x.1) name =
      redis name + if applied name then Deltas.get pending name else 0 := by
  rw [hincrby_apply, ← Deltas.amount_entries]
  congr 1
  induction pending.entries with
  | nil => exact (ite_self 0).symm
  | cons x entries ih =>
      rw [List.filter_cons, Deltas.amount_cons]
      by_cases h : x.1 = name
      · subst h
        cases happlied : applied x.1 <;> simp [happlied] at ih ⊢ <;> exact ih
      · rw [if_neg h, zero_add, ← ih]
        split
        · rw [Deltas.amount_cons, if_neg h, zero_add]
        · rfl

/-! ## A process -/

inductive MetricsPhase where
  | running
  /-- `stop` has cancelled a flush of the loop, which has not ended yet. -/
  | cancelled
  /-- The loop has ended; the last flush is to be made. -/
  | last
  | stopped
deriving DecidableEq, Repr

/-- How the pipeline of a flush ends: with all commands applied, or with an exception or a
cancellation and the commands of some names applied. -/
inductive ExecuteOutcome (ν : Type u) where
  | ok
  | raised (applied : ν → Bool)
  | cancelled (applied : ν → Bool)

/-- The local counters, what the flush in progress has taken, and the counters in Redis.  The state
remembers all increments. -/
structure Metrics (ν : Type u) where
  counts : Deltas ν
  pending : Option (Deltas ν)
  phase : MetricsPhase
  redis : ν → ℤ
  total : ν → ℤ

namespace Metrics

inductive Action (ν : Type u) where
  | incr (name : ν) (value : ℤ)
  /-- `flush`, up to its suspension: by the loop, or by `stop` at last. -/
  | flush
  /-- The pipeline is over. -/
  | execute (outcome : ExecuteOutcome ν)
  | stop

def start : Metrics ν := ⟨∅, none, .running, fun _ ↦ 0, fun _ ↦ 0⟩

variable (s : Metrics ν)

def MetricsPhase.flushed : MetricsPhase → MetricsPhase
  | .last => .stopped
  | phase => phase

def ended (pending : Deltas ν) : ExecuteOutcome ν → Option (Metrics ν)
  | .ok =>
      if s.phase = .cancelled then none
      else some { s with
        redis := hincrby s.redis pending.entries
        pending := none
        phase := MetricsPhase.flushed s.phase }
  | .raised applied =>
      if s.phase = .cancelled then none
      else some { s with
        redis := hincrby s.redis (pending.entries.filter fun x ↦ applied x.1)
        counts := s.counts.foldBack pending
        pending := none
        phase := MetricsPhase.flushed s.phase }
  | .cancelled applied =>
      -- `CancelledError` is no `Exception`, so that nothing is folded back.
      if s.phase = .cancelled then
        some { s with
          redis := hincrby s.redis (pending.entries.filter fun x ↦ applied x.1)
          pending := none
          phase := .last }
      else none

def step : Action ν → Option (Metrics ν)
  | .incr name value =>
      some { s with
        counts := s.counts.incr name value
        total := Function.update s.total name (s.total name + value) }
  | .flush =>
      if s.pending.isNone ∧ (s.phase = .running ∨ s.phase = .last) then
        if s.counts = ∅ then some { s with phase := MetricsPhase.flushed s.phase }
        else some { s with counts := ∅, pending := some s.counts }
      else none
  | .execute outcome => s.pending.bind fun pending ↦ s.ended pending outcome
  | .stop =>
      if s.phase = .running then
        some { s with phase := if s.pending.isSome then .cancelled else .last }
      else none

def system : System (Metrics ν) (Action ν) where
  init s := s = start
  step := step

/-! ## Conditions -/

/-- The counters are right: in Redis and in the process together there is what was counted. -/
def Right : Prop :=
  s.pending = none → ∀ name, s.redis name + s.counts.get name = s.total name

/-- A pipeline that raises has applied nothing, and one that is cancelled has applied everything, up
to increments by zero. -/
def AllOrNothing : Action ν → Prop
  | .execute (.raised applied) =>
      ∀ pending, s.pending = some pending → ∀ name, applied name → pending.get name = 0
  | .execute (.cancelled applied) =>
      ∀ pending, s.pending = some pending → ∀ name, ¬applied name → pending.get name = 0
  | _ => True

/-! ## Exactness -/

section exact

variable {s} {t : Metrics ν} {pending : Deltas ν} {applied : ν → Bool}

def taken (s : Metrics ν) (name : ν) : ℤ := s.pending.elim 0 fun pending ↦ pending.get name

/-- Nothing is lost or counted twice, if the flush in progress is taken into account. -/
def Balanced (s : Metrics ν) : Prop :=
  ∀ name, s.redis name + s.counts.get name + s.taken name = s.total name

theorem Balanced.right (h : s.Balanced) : s.Right := by
  intro hnone name
  rw [← h name, taken, hnone, Option.elim_none, add_zero]

theorem balanced_start : (start : Metrics ν).Balanced := fun _ ↦ rfl

/-- A flush that ends by itself. -/
theorem Balanced.ok (h : s.Balanced) (hpending : s.pending = some pending)
    (hs : s.ended pending .ok = some t) : t.Balanced := by
  rw [ended] at hs
  split at hs
  · cases hs
  · cases hs
    intro name
    have hbalanced := h name
    rw [taken, hpending, Option.elim_some] at hbalanced
    show hincrby s.redis pending.entries name + s.counts.get name + 0 = s.total name
    rw [hincrby_apply, Deltas.amount_entries, ← hbalanced]
    abel

/-- After an exception, what was applied is counted twice. -/
theorem Balanced.raised (h : s.Balanced) (hpending : s.pending = some pending)
    (hs : s.ended pending (.raised applied) = some t) : t.pending = none ∧
      ∀ name, t.redis name + t.counts.get name =
        t.total name + if applied name then pending.get name else 0 := by
  rw [ended] at hs
  split at hs
  · cases hs
  · cases hs
    refine ⟨rfl, fun name ↦ ?_⟩
    have hbalanced := h name
    rw [taken, hpending, Option.elim_some] at hbalanced
    show hincrby s.redis (pending.entries.filter fun x ↦ applied x.1) name +
      (s.counts.foldBack pending).get name = s.total name + _
    rw [hincrby_filter, Deltas.get_foldBack, ← hbalanced]
    abel

/-- After a cancellation, what was not applied is lost. -/
theorem Balanced.cancelled (h : s.Balanced) (hpending : s.pending = some pending)
    (hs : s.ended pending (.cancelled applied) = some t) : t.pending = none ∧
      ∀ name, t.redis name + t.counts.get name + (if applied name then 0 else pending.get name) =
        t.total name := by
  rw [ended] at hs
  split at hs
  · cases hs
    refine ⟨rfl, fun name ↦ ?_⟩
    have hbalanced := h name
    rw [taken, hpending, Option.elim_some] at hbalanced
    show hincrby s.redis (pending.entries.filter fun x ↦ applied x.1) name + s.counts.get name + _ =
      s.total name
    rw [hincrby_filter, ← hbalanced]
    split <;> abel
  · cases hs

/-- With no flush in progress, being right is being balanced. -/
theorem balanced_of_none (hnone : t.pending = none)
    (h : ∀ name, t.redis name + t.counts.get name = t.total name) : t.Balanced := by
  intro name
  rw [taken, hnone, Option.elim_none, add_zero, h]

/-- **A step that meets the condition keeps the balance.** -/
theorem Balanced.step (h : s.Balanced) {a : Action ν} (hok : s.AllOrNothing a)
    (hs : s.step a = some t) : t.Balanced := by
  cases a with
  | incr name value =>
      cases hs
      intro n
      have hbalanced := h n
      show s.redis n + (s.counts.incr name value).get n + s.taken n =
        Function.update s.total name (s.total name + value) n
      rw [Deltas.get_incr]
      by_cases hn : name = n
      · subst hn
        rw [if_pos rfl, Function.update_self, ← hbalanced]
        abel
      · rw [if_neg hn, Function.update_of_ne (Ne.symm hn), add_zero, hbalanced]
  | flush =>
      rw [Metrics.step] at hs
      split at hs
      · rename_i hidle
        have hnone : s.pending = none := Option.isNone_iff_eq_none.mp hidle.1
        split at hs
        · cases hs
          exact h
        · cases hs
          intro name
          have hbalanced := h.right hnone name
          show s.redis name + 0 + s.counts.get name = s.total name
          rw [add_zero, hbalanced]
      · cases hs
  | execute outcome =>
      obtain ⟨pending, hpending, hended⟩ := Option.bind_eq_some_iff.mp hs
      cases outcome with
      | ok => exact h.ok hpending hended
      | raised applied =>
          obtain ⟨hnone, hdouble⟩ := h.raised hpending hended
          refine balanced_of_none hnone fun name ↦ ?_
          rw [hdouble name]
          split
          · rw [hok pending hpending name ‹_›, add_zero]
          · rw [add_zero]
      | cancelled applied =>
          obtain ⟨hnone, hlost⟩ := h.cancelled hpending hended
          refine balanced_of_none hnone fun name ↦ ?_
          rw [← hlost name]
          split
          · rw [add_zero]
          · rw [hok pending hpending name ‹_›, add_zero]
  | stop =>
      rw [Metrics.step] at hs
      split at hs
      · cases hs
        exact h
      · cases hs

/-- A step that does not meet the condition makes the counters wrong. -/
theorem Balanced.not_right (h : s.Balanced) {a : Action ν} (hbad : ¬s.AllOrNothing a)
    (hs : s.step a = some t) : ¬t.Right := by
  intro hright
  cases a with
  | incr name value => exact hbad trivial
  | flush => exact hbad trivial
  | stop => exact hbad trivial
  | execute outcome =>
      obtain ⟨pending, hpending, hended⟩ := Option.bind_eq_some_iff.mp hs
      cases outcome with
      | ok => exact hbad trivial
      | raised applied =>
          obtain ⟨hnone, hdouble⟩ := h.raised hpending hended
          refine hbad fun pending' hpending' name happlied ↦ ?_
          obtain rfl := Option.some.inj (hpending.symm.trans hpending')
          have heq := hdouble name
          rw [hright hnone name, if_pos happlied] at heq
          exact add_eq_left.mp heq.symm
      | cancelled applied =>
          obtain ⟨hnone, hlost⟩ := h.cancelled hpending hended
          refine hbad fun pending' hpending' name happlied ↦ ?_
          obtain rfl := Option.some.inj (hpending.symm.trans hpending')
          have heq := hlost name
          rw [hright hnone name, if_neg happlied] at heq
          exact add_eq_left.mp heq

/-- **When increments are neither lost nor counted twice.**  In every run the counters are right
wherever no flush is in progress exactly if each pipeline that raises has applied nothing, and each one
that `stop` cancels has applied everything. -/
theorem counters_exact_iff (as : List (Action ν)) :
    system.Always Right (start : Metrics ν) as ↔ system.Along AllOrNothing start as :=
  have hexact : Exact (@system ν _) AllOrNothing Balanced Right :=
    ⟨fun _ h ↦ h.right, fun _ _ _ h hok hs ↦ h.step hok hs, fun _ _ _ h hbad hs ↦ h.not_right hbad hs⟩
  hexact.always_iff balanced_start as

/-- **An exception after the commands were applied.**  One increment ends up as two. -/
theorem counters_applied_twice : ¬system.Always Right (start : Metrics Unit)
    [.incr () 1, .flush, .execute (.raised fun _ ↦ true)] := by
  intro h
  have hcounted := h.2 _ rfl
  have hne : Deltas.incr ∅ () 1 ≠ (∅ : Deltas Unit) := by
    intro hempty
    have hone : (1 : ℤ) = 0 := congrArg (Deltas.get · ()) hempty
    cases hone
  have htaken := hcounted.2 _ (if_neg hne)
  have hraised : Right _ := htaken.2 _ rfl
  have htwice := hraised rfl ()
  revert htwice
  decide

end exact

end Metrics

end LogServer
