import Mathlib

/-!
# Transition systems with executable steps

A `System` is a set of initial states together with a *function* giving the state after an
action, `none` where the action is not enabled.  All nondeterminism lives in the action: which
party moves, and what the environment answers.  A step is therefore something that can be
evaluated, and a run is a list of actions.

`Reach S ok s` says that `s` ends a run of `S` **each of whose steps meets the condition `ok`**,
a condition on the action and on the state before it.  Taking `ok` to be constantly true gives
ordinary reachability (`Reach.weaken`).  Every state along such a run is itself reached, so a
property proved of `Reach S ok` holds throughout the run.

* `Reach.invariant` is the induction rule for invariants.
* `Reach.run` reaches the end of a concrete run.
* `Exact.always_iff` says that a property holds all along a run exactly if every step meets a condition.
* `Simulation.reach` carries runs of a concrete system to runs of an abstract one.
-/

universe u v w

namespace Transition

/-- States, the initial ones among them, and what an action does to a state. -/
structure System (σ : Type u) (α : Type v) where
  /-- The states a run may start in. -/
  init : σ → Prop
  /-- The state after an action, `none` where the action is not enabled. -/
  step : σ → α → Option σ

variable {σ : Type u} {α : Type v} {τ : Type w} {β : Type*}

/-- The states reached by runs all of whose steps meet `ok`. -/
inductive Reach (S : System σ α) (ok : σ → α → Prop) : σ → Prop
  /-- A run may consist of its initial state alone. -/
  | init {s : σ} : S.init s → Reach S ok s
  /-- A run is extended by a step that meets the condition. -/
  | step {s s' : σ} {a : α} : Reach S ok s → ok s a → S.step s a = some s' → Reach S ok s'

namespace Reach

variable {S : System σ α} {ok ok' : σ → α → Prop}

/-- **The invariant rule.**  What holds initially and is preserved by each step that meets the
condition holds of every state reached. -/
theorem invariant {P : σ → Prop} (hinit : ∀ s, S.init s → P s)
    (hstep : ∀ s a s', P s → ok s a → S.step s a = some s' → P s')
    {s : σ} (h : Reach S ok s) : P s := by
  induction h with
  | init hs => exact hinit _ hs
  | step _ hok hs ih => exact hstep _ _ _ ih hok hs

/-- A weaker condition admits more runs. -/
theorem mono (hok : ∀ s a, ok s a → ok' s a) {s : σ} (h : Reach S ok s) : Reach S ok' s := by
  induction h with
  | init hs => exact .init hs
  | step _ ha hs ih => exact .step ih (hok _ _ ha) hs

/-- Forgetting the condition. -/
theorem weaken {s : σ} (h : Reach S ok s) : Reach S (fun _ _ ↦ True) s :=
  h.mono fun _ _ _ ↦ trivial

end Reach

/-- The actions lead from one state to another, by steps that meet the condition. -/
def System.Run (S : System σ α) (ok : σ → α → Prop) (s' : σ) : σ → List α → Prop
  | s, [] => s = s'
  | s, a :: as =>
      match S.step s a with
      | some t => ok s a ∧ Run S ok s' t as
      | none => False

/-- A run is extended at its start. -/
theorem System.Run.cons {S : System σ α} {ok : σ → α → Prop} {s s' t : σ} {a : α} {as : List α}
    (hs : S.step s a = some t) (hok : ok s a) (h : S.Run ok s' t as) : S.Run ok s' s (a :: as) := by
  rw [System.Run, hs]
  exact ⟨hok, h⟩

/-- A run is extended at its end. -/
theorem System.Run.append {S : System σ α} {ok : σ → α → Prop} {s s' t : σ} {as bs : List α}
    (has : S.Run ok t s as) (hbs : S.Run ok s' t bs) : S.Run ok s' s (as ++ bs) := by
  induction as generalizing s with
  | nil => exact has ▸ hbs
  | cons a as ih =>
      rw [System.Run] at has
      split at has
      · rename_i u hs
        exact .cons hs has.1 (ih has.2)
      · cases has

/-- The end of a concrete run is reached. -/
theorem Reach.run {S : System σ α} {ok : σ → α → Prop} {s s' : σ} {as : List α}
    (h : Reach S ok s) (hrun : S.Run ok s' s as) : Reach S ok s' := by
  induction as generalizing s with
  | nil => exact hrun ▸ h
  | cons a as ih =>
      rw [System.Run] at hrun
      split at hrun
      · rename_i t hs
        exact ih (h.step hrun.1 hs) hrun.2
      · cases hrun

/-! ## Exact conditions -/

/-- A property holds in every state that a list of actions leads through. -/
def System.Always (S : System σ α) (Q : σ → Prop) : σ → List α → Prop
  | s, [] => Q s
  | s, a :: as => Q s ∧ ∀ t, S.step s a = some t → Always S Q t as

/-- A condition is met by every step of a list of actions. -/
def System.Along (S : System σ α) (ok : σ → α → Prop) : σ → List α → Prop
  | _, [] => True
  | s, a :: as => ∀ t, S.step s a = some t → ok s a ∧ Along S ok t as

/-- Conditions that are the same for the actions of a list. -/
theorem System.along_congr {S : System σ α} {ok ok' : σ → α → Prop} {as : List α}
    (h : ∀ a ∈ as, ∀ s, ok s a ↔ ok' s a) (s : σ) : S.Along ok s as ↔ S.Along ok' s as := by
  induction as generalizing s with
  | nil => exact Iff.rfl
  | cons a as ih =>
      apply forall_congr'
      intro t
      exact imp_congr_right fun _ ↦ and_congr (h a List.mem_cons_self s)
        (ih (fun a' ha' ↦ h a' (List.mem_cons_of_mem a ha')) t)

/-- A condition that an invariant ensures, where the actions of a list keep it. -/
theorem System.along_of_mem {S : System σ α} {ok : σ → α → Prop} {P : σ → Prop} {good : α → Prop}
    (hok : ∀ s a, P s → ok s a) (hstep : ∀ s a t, P s → good a → S.step s a = some t → P t)
    {as : List α} (has : ∀ a ∈ as, good a) {s : σ} (h : P s) : S.Along ok s as := by
  induction as generalizing s with
  | nil => exact trivial
  | cons a as ih =>
      obtain ⟨ha, has⟩ := List.forall_mem_cons.mp has
      exact fun t hs ↦ ⟨hok s a h, ih has (hstep s a t h ha hs)⟩

/-- A condition that an invariant ensures. -/
theorem System.along_of_invariant {S : System σ α} {ok : σ → α → Prop} {P : σ → Prop}
    (hok : ∀ s a, P s → ok s a) (hstep : ∀ s a t, P s → S.step s a = some t → P t) {s : σ}
    (h : P s) (as : List α) : S.Along ok s as :=
  S.along_of_mem hok (fun s a t hs (_ : True) ↦ hstep s a t hs) (fun _ _ ↦ trivial) h

/-- What the actions of a list keep holds at their end. -/
theorem System.Run.keeps {S : System σ α} {ok : σ → α → Prop} {P : σ → Prop} {good : α → Prop}
    (hstep : ∀ s a t, P s → good a → S.step s a = some t → P t) {as : List α}
    (has : ∀ a ∈ as, good a) {s s' : σ} (hrun : S.Run ok s' s as) (h : P s) : P s' := by
  induction as generalizing s with
  | nil => exact hrun ▸ h
  | cons a as ih =>
      obtain ⟨ha, has⟩ := List.forall_mem_cons.mp has
      rw [System.Run] at hrun
      split at hrun
      · rename_i t hs
        exact ih has hrun.2 (hstep s a t h ha hs)
      · cases hrun

/-- A condition along one list and, from its end on, along another. -/
theorem System.Run.along_append {S : System σ α} {ok ok' : σ → α → Prop} {as bs : List α} {s s' : σ}
    (hrun : S.Run ok' s' s as) (has : S.Along ok s as) (hbs : S.Along ok s' bs) :
    S.Along ok s (as ++ bs) := by
  induction as generalizing s with
  | nil => exact hrun ▸ hbs
  | cons a as ih =>
      rw [System.Run] at hrun
      split at hrun
      · rename_i t hs
        intro t' hs'
        obtain rfl : t = t' := Option.some.inj (hs.symm.trans hs')
        exact ⟨(has t hs).1, ih hrun.2 (has t hs).2⟩
      · cases hrun

/-- A condition on steps that is exact for a property: with an invariant `P`, steps that meet it keep
the invariant, and steps that do not meet it break the property at once. -/
structure Exact (S : System σ α) (ok : σ → α → Prop) (P Q : σ → Prop) : Prop where
  holds : ∀ s, P s → Q s
  keep : ∀ s a t, P s → ok s a → S.step s a = some t → P t
  breaks : ∀ s a t, P s → ¬ok s a → S.step s a = some t → ¬Q t

/-- A property that holds all along a run holds at its start. -/
theorem System.Always.head {S : System σ α} {Q : σ → Prop} {s : σ} {as : List α}
    (h : S.Always Q s as) : Q s := by
  cases as with
  | nil => exact h
  | cons a as => exact h.1

/-- **An exact condition.**  From a state that satisfies the invariant, the property holds all along a
run exactly if every step of the run meets the condition. -/
theorem Exact.always_iff {S : System σ α} {ok : σ → α → Prop} {P Q : σ → Prop}
    (hexact : Exact S ok P Q) {s : σ} (h : P s) (as : List α) :
    S.Always Q s as ↔ S.Along ok s as := by
  induction as generalizing s with
  | nil => exact iff_of_true (hexact.holds s h) trivial
  | cons a as ih =>
      rw [System.Always, System.Along]
      constructor
      · rintro ⟨-, halways⟩ t hs
        have hok : ok s a := by
          by_contra hbad
          exact hexact.breaks s a t h hbad hs (halways t hs).head
        exact ⟨hok, (ih (hexact.keep s a t h hok hs)).mp (halways t hs)⟩
      · intro halong
        refine ⟨hexact.holds s h, fun t hs ↦ ?_⟩
        obtain ⟨hok, hrest⟩ := halong t hs
        exact (ih (hexact.keep s a t h hok hs)).mpr hrest

/-! ## Simulations -/

/-- An abstract system follows a concrete one through `f`: each concrete step that meets `ok` is
an abstract step meeting `okA`, or leaves the abstract state alone. -/
structure Simulation (C : System σ α) (ok : σ → α → Prop) (A : System τ β)
    (okA : τ → β → Prop) (f : σ → τ) : Prop where
  init : ∀ s, C.init s → A.init (f s)
  step : ∀ s a s', Reach C ok s → ok s a → C.step s a = some s' →
    f s' = f s ∨ ∃ b, okA (f s) b ∧ A.step (f s) b = some (f s')

/-- Reached states are carried along a simulation. -/
theorem Simulation.reach {C : System σ α} {ok : σ → α → Prop} {A : System τ β}
    {okA : τ → β → Prop} {f : σ → τ} (hsim : Simulation C ok A okA f) {s : σ}
    (h : Reach C ok s) : Reach A okA (f s) := by
  induction h with
  | init hs => exact .init (hsim.init _ hs)
  | step hr hok hs ih =>
      rcases hsim.step _ _ _ hr hok hs with heq | ⟨b, hb, hstep⟩
      · exact heq ▸ ih
      · exact .step ih hb hstep

end Transition
