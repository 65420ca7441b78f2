import LogServer.Lib.Transition

/-!
# Systems that remember their past

A property of runs such as "this was the case before" is made a property of states by a history
variable.  `System.noting` is a system with a note that each step brings up to date.  Taking notes
neither enables nor prevents a step: a noted run is a run of the system (`Simulation.noting`), and every
run can be noted (`Reach.exists_noted`).  What a condition says of the order of steps, it says of the note.

`System.recording` notes everything that was observed of the states so far, the present one included, and
what is recorded was observed of a state the system did reach (`Recorded.exists_of_mem`).
`Recorded.invariant` is the induction rule for what a state owes to its past.
-/

universe u v w

namespace Transition

variable {σ : Type u} {α : Type v} {ω : Type w}

/-! ## Notes -/

/-- A system with a note, which is begun with the initial state and brought up to date from the action
and the states before and after it. -/
def System.noting (S : System σ α) (start : σ → ω) (note : ω → σ → α → σ → ω) : System (σ × ω) α where
  init x := S.init x.1 ∧ x.2 = start x.1
  step x a := (S.step x.1 a).map fun t ↦ (t, note x.2 x.1 a t)

section noting

variable {S : System σ α} {start : σ → ω} {note : ω → σ → α → σ → ω} {s : σ}

theorem System.step_noting {x x' : σ × ω} {a : α} : (S.noting start note).step x a = some x' ↔
    S.step x.1 a = some x'.1 ∧ x'.2 = note x.2 x.1 a x'.1 := by
  rw [System.noting, Option.map_eq_some_iff]
  constructor
  · rintro ⟨t, hs, rfl⟩
    exact ⟨hs, rfl⟩
  · rintro ⟨hs, hnote⟩
    exact ⟨x'.1, hs, by rw [← hnote]⟩

/-- **A noted run is a run**, under any condition that the one on noted steps entails. -/
theorem Simulation.noting {ok : σ × ω → α → Prop} {ok' : σ → α → Prop}
    (h : ∀ x a x', Reach (S.noting start note) ok x → ok x a →
      (S.noting start note).step x a = some x' → ok' x.1 a) :
    Simulation (S.noting start note) ok S ok' Prod.fst where
  init _ hs := hs.1
  step x a x' hreach hok hs := .inr ⟨a, h x a x' hreach hok hs, (System.step_noting.mp hs).1⟩

/-- Every run can be noted. -/
theorem Reach.exists_noted {ok : σ → α → Prop} (start : σ → ω) (note : ω → σ → α → σ → ω)
    (h : Reach S ok s) : ∃ n, Reach (S.noting start note) (fun x a ↦ ok x.1 a) (s, n) := by
  induction h with
  | @init s hs => exact ⟨start s, .init ⟨hs, rfl⟩⟩
  | @step s t a _ hok hs ih =>
      obtain ⟨n, hn⟩ := ih
      exact ⟨note n s a t, Reach.step hn hok (System.step_noting.mpr ⟨hs, rfl⟩)⟩

end noting

/-! ## Records -/

/-- A system with the list of what was observed of its states. -/
def System.recording (S : System σ α) (f : σ → ω) : System (σ × List ω) α :=
  S.noting (fun s ↦ [f s]) fun past _ _ t ↦ past ++ [f t]

/-- A state that is reached by steps that meet a condition, with its past. -/
def Recorded (S : System σ α) (f : σ → ω) (ok : σ → α → Prop) (past : List ω) (s : σ) : Prop :=
  Reach (S.recording f) (fun x a ↦ ok x.1 a) (s, past)

variable {S : System σ α} {f : σ → ω} {ok : σ → α → Prop} {s t : σ} {past : List ω}

/-- A step of a recorded system. -/
theorem System.step_recording {x x' : σ × List ω} {a : α} :
    (S.recording f).step x a = some x' ↔
      S.step x.1 a = some x'.1 ∧ x'.2 = x.2 ++ [f x'.1] := System.step_noting

namespace Recorded

theorem init (hs : S.init s) : Recorded S f ok [f s] s :=
  Reach.init ⟨hs, rfl⟩

theorem step (h : Recorded S f ok past s) {a : α} (hok : ok s a) (hs : S.step s a = some t) :
    Recorded S f ok (past ++ [f t]) t :=
  Reach.step h hok (System.step_recording.mpr ⟨hs, rfl⟩)

/-- **The invariant rule with a past.**  The relation holds initially, between a state and what is
observed of it, and each step from a state that was recorded itself keeps it. -/
theorem invariant {R : List ω → σ → Prop} (hinit : ∀ s, S.init s → R [f s] s)
    (hstep : ∀ past s a t, R past s → f s ∈ past → ok s a → S.step s a = some t →
      R (past ++ [f t]) t)
    (h : Recorded S f ok past s) : R past s := by
  refine (Reach.invariant (P := fun x ↦ f x.1 ∈ x.2 ∧ R x.2 x.1) ?_ ?_ h).2
  · rintro x ⟨hs, hpast⟩
    rw [hpast]
    exact ⟨List.mem_singleton_self _, hinit _ hs⟩
  · rintro x a x' ⟨hmem, hrel⟩ hok hs
    obtain ⟨hs, hpast⟩ := System.step_recording.mp hs
    rw [hpast]
    exact ⟨List.mem_append_right _ (List.mem_singleton_self _), hstep _ _ _ _ hrel hmem hok hs⟩

/-- A recorded run is a run. -/
theorem reach (h : Recorded S f ok past s) : Reach S ok s := by
  have hsim : Simulation (S.recording f) (fun x a ↦ ok x.1 a) S ok Prod.fst :=
    .noting fun _ _ _ _ hok _ ↦ hok
  exact hsim.reach (s := (s, past)) h

/-- What is recorded was observed of a state that was reached. -/
theorem exists_of_mem (h : Recorded S f ok past s) : ∀ o ∈ past, ∃ t, Reach S ok t ∧ f t = o := by
  have hall : Reach S ok s ∧ ∀ o ∈ past, ∃ t, Reach S ok t ∧ f t = o := by
    refine h.invariant (R := fun past s ↦ Reach S ok s ∧ ∀ o ∈ past, ∃ t, Reach S ok t ∧ f t = o)
      ?_ ?_
    · intro s hs
      refine ⟨.init hs, fun o ho ↦ ⟨s, .init hs, ?_⟩⟩
      exact (List.mem_singleton.mp ho).symm
    · rintro past s a t ⟨hs, hpast⟩ _ hok hstep
      have ht := hs.step hok hstep
      refine ⟨ht, fun o ho ↦ ?_⟩
      rcases List.mem_append.mp ho with hold | hnew
      · exact hpast o hold
      · exact ⟨t, ht, (List.mem_singleton.mp hnew).symm⟩
  exact hall.2

end Recorded

/-- Every run can be recorded. -/
theorem Reach.exists_recorded (f : σ → ω) (h : Reach S ok s) : ∃ past, Recorded S f ok past s :=
  h.exists_noted _ _

end Transition
