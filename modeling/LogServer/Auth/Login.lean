import LogServer.Api.Routers
import LogServer.Lib.Transition

/-!
# Login throttling

A login request asks Redis how many attempts have failed, verifies the password if they are few
enough, and then counts a failure or deletes the counter.  These are separate steps, and the requests
for one user name from one address interleave, within an API process as well as between several.

A request that was let through is counted only when its password has turned out to be wrong.  So
requests that are under way at the same time are let through together, however few failures are left.
The number of wrong passwords that are verified between two resets of the counter is bounded if a
request is let through only while the failures counted, the failures about to be counted and the
requests yet to be verified are together fewer than the bound (`guesses_bounded`).
-/

namespace LogServer

open Transition

structure AuthConfig where
  maxFailedLogins : Nat := 5
  maxFailedLogins_bounds : 1 ≤ maxFailedLogins ∧ maxFailedLogins ≤ 100 := by decide

def HTTPException.tooManyRequests (remaining : Int) : HTTPException :=
  let minutes := max 1 (max remaining 0 / 60).toNat
  ⟨429, "Too many failed attempts. Try again in ".toList ++ Nat.toDigits 10 minutes ++
    " minute(s).".toList⟩

/-- The answer to a wrong password, whether or not the user exists. -/
def HTTPException.unauthorized : HTTPException := ⟨401, "Incorrect username or password.".toList⟩

inductive LoginPhase where
  /-- Let through by `check`. -/
  | allowed
  /-- `check` has found too many failures, and asks for the time that remains. -/
  | locked
  /-- The password is wrong; `record_failure` is under way. -/
  | failed
  /-- The password is right; `clear` is under way. -/
  | verified
  | answered (answer : Except HTTPException Unit)
deriving DecidableEq

/-- The counter in Redis, and the requests for one user name from one address in the order they
came.  The state remembers how many wrong passwords were verified since the last reset. -/
structure Login where
  counter : Option Nat
  requests : List LoginPhase
  guesses : Nat
deriving DecidableEq

namespace Login

inductive Action where
  /-- A request reads the counter. -/
  | check
  /-- The time that remains until the counter expires. -/
  | ttl (i : Nat) (remaining : Int)
  /-- The password is verified. -/
  | verify (i : Nat) (ok : Bool)
  | recordFailure (i : Nat)
  | clear (i : Nat)
  /-- The counter expires. -/
  | expire

def start : Login := ⟨none, [], 0⟩

variable (cfg : AuthConfig) (s : Login)

/-- `LoginThrottle.check`: no counter, or too few failures. -/
def allows : Bool := s.counter.all (· < cfg.maxFailedLogins)

def goto (i : Nat) (phase : LoginPhase) : Login := { s with requests := s.requests.set i phase }

def step : Action → Option Login
  | .check =>
      some { s with
        requests := s.requests ++ [if s.allows cfg then LoginPhase.allowed else .locked] }
  | .ttl i remaining =>
      if s.requests[i]? = some .locked then
        some (s.goto i (.answered (.error (.tooManyRequests remaining))))
      else none
  | .verify i ok =>
      if s.requests[i]? = some .allowed then
        if ok then some (s.goto i .verified)
        else some ({ s with guesses := s.guesses + 1 }.goto i .failed)
      else none
  | .recordFailure i =>
      if s.requests[i]? = some .failed then
        some ({ s with counter := some (s.counter.getD 0 + 1) }.goto i
          (.answered (.error .unauthorized)))
      else none
  | .clear i =>
      if s.requests[i]? = some .verified then
        some ({ s with counter := none, guesses := 0 }.goto i (.answered (.ok ())))
      else none
  | .expire => if s.counter.isSome then some { s with counter := none, guesses := 0 } else none

def system : System Login Action where
  init s := s = start
  step s := s.step cfg

/-- A request is let through only while the failures counted, those about to be counted, and the
requests yet to be verified leave one attempt. -/
def Reserved : Action → Prop
  | .check => s.allows cfg →
      s.counter.getD 0 + s.requests.count .failed + s.requests.count .allowed < cfg.maxFailedLogins
  | _ => True

/-! ## The bound -/

section bound

variable {cfg s} {t : Login} {i : Nat}

/-- A request that goes on leaves its phase and enters another. -/
theorem count_goto {phase : LoginPhase} (h : s.requests[i]? = some phase) (phase' q : LoginPhase) :
    (s.goto i phase').requests.count q + (if phase = q then 1 else 0) =
      s.requests.count q + if phase' = q then 1 else 0 := by
  obtain ⟨hi, hphase⟩ := List.getElem?_eq_some_iff.mp h
  have hpos : phase = q → 0 < s.requests.count q := by
    rintro rfl
    exact List.count_pos_iff.mpr (List.mem_of_getElem? h)
  rw [goto, List.count_set hi, hphase]
  simp only [beq_iff_eq]
  split <;> split <;> simp_all

/-- Requests that run alone are let through as they should. -/
theorem Reserved.of_alone (hfailed : .failed ∉ s.requests) (hallowed : .allowed ∉ s.requests) :
    s.Reserved cfg .check := by
  intro hallows
  rw [List.count_eq_zero.mpr hfailed, List.count_eq_zero.mpr hallowed]
  cases hcounter : s.counter with
  | none => exact cfg.maxFailedLogins_bounds.1
  | some n =>
      rw [allows, hcounter] at hallows
      exact of_decide_eq_true hallows

/-- There are attempts left for the requests yet to be verified, and every wrong password is counted
or about to be. -/
structure Bounded (cfg : AuthConfig) (s : Login) : Prop where
  left : s.guesses + s.requests.count .allowed ≤ cfg.maxFailedLogins
  counted : s.guesses ≤ s.counter.getD 0 + s.requests.count .failed

theorem bounded_start : start.Bounded cfg := ⟨Nat.zero_le _, Nat.le_refl 0⟩

/-- **Every step that meets the condition keeps the bound.** -/
theorem Bounded.step (h : s.Bounded cfg) {a : Action} (hok : s.Reserved cfg a)
    (hs : s.step cfg a = some t) : t.Bounded cfg := by
  obtain ⟨hleft, hcounted⟩ := h
  cases a with
  | check =>
      cases hs
      cases hallows : s.allows cfg with
      | true =>
          have hroom := hok hallows
          constructor
          · simp [List.count_append]
            omega
          · simpa [List.count_append] using hcounted
      | false => exact ⟨by simpa [List.count_append] using hleft,
          by simpa [List.count_append] using hcounted⟩
  | ttl i remaining =>
      rw [Login.step] at hs
      split at hs
      · rename_i hi
        cases hs
        have hallowed := count_goto hi (.answered (.error (.tooManyRequests remaining))) .allowed
        have hfailed := count_goto hi (.answered (.error (.tooManyRequests remaining))) .failed
        simp only [reduceCtorEq, if_false, add_zero] at hallowed hfailed
        exact ⟨hallowed ▸ hleft, hfailed ▸ hcounted⟩
      · cases hs
  | verify i ok =>
      rw [Login.step] at hs
      split at hs
      · rename_i hi
        split at hs
        · cases hs
          have hallowed := count_goto hi .verified .allowed
          have hfailed := count_goto hi .verified .failed
          simp only [reduceCtorEq, if_true, if_false, add_zero] at hallowed hfailed
          refine ⟨?_, hfailed ▸ hcounted⟩
          show s.guesses + _ ≤ _
          omega
        · cases hs
          have hallowed := count_goto hi .failed .allowed
          have hfailed := count_goto hi .failed .failed
          simp only [reduceCtorEq, if_true, if_false, add_zero] at hallowed hfailed
          constructor
          · show s.guesses + 1 + (s.goto i .failed).requests.count .allowed ≤ _
            omega
          · show s.guesses + 1 ≤ s.counter.getD 0 + (s.goto i .failed).requests.count .failed
            omega
      · cases hs
  | recordFailure i =>
      rw [Login.step] at hs
      split at hs
      · rename_i hi
        cases hs
        have hallowed := count_goto hi (.answered (.error .unauthorized)) .allowed
        have hfailed := count_goto hi (.answered (.error .unauthorized)) .failed
        simp only [reduceCtorEq, if_true, if_false, add_zero] at hallowed hfailed
        refine ⟨hallowed ▸ hleft, ?_⟩
        show s.guesses ≤ s.counter.getD 0 + 1 +
          (s.goto i (.answered (.error .unauthorized))).requests.count .failed
        omega
      · cases hs
  | clear i =>
      rw [Login.step] at hs
      split at hs
      · rename_i hi
        cases hs
        have hallowed := count_goto hi (.answered (.ok ())) .allowed
        simp only [reduceCtorEq, if_false, add_zero] at hallowed
        refine ⟨?_, Nat.zero_le _⟩
        show 0 + (s.goto i (.answered (.ok ()))).requests.count .allowed ≤ _
        omega
      · cases hs
  | expire =>
      rw [Login.step] at hs
      split at hs
      · cases hs
        refine ⟨?_, Nat.zero_le _⟩
        show 0 + s.requests.count .allowed ≤ _
        omega
      · cases hs

/-- **Password guesses are bounded.**  In every run in which requests are let through only while an
attempt is left for each of them, no more wrong passwords than the bound are verified between two
resets of the counter. -/
theorem guesses_bounded (h : Reach (system cfg) (Reserved cfg) s) :
    s.guesses ≤ cfg.maxFailedLogins := by
  have hbounded : s.Bounded cfg := by
    refine Reach.invariant (P := Bounded cfg) ?_ ?_ h
    · rintro s rfl
      exact bounded_start
    · rintro s a t hs hok hstep
      exact hs.step hok hstep
  exact (Nat.le_add_right _ _).trans hbounded.left

/-- Two overlapping requests with wrong passwords, with a bound of two; a third one is locked out. -/
theorem guesses_bounded_session : ∃ s,
    Reach (system { maxFailedLogins := 2 }) (Reserved { maxFailedLogins := 2 }) s ∧
      s.guesses = 2 ∧ s.guesses ≤ 2 := by
  have hrun : (system { maxFailedLogins := 2 }).Run (Reserved { maxFailedLogins := 2 })
      ⟨some 2, [.answered (.error .unauthorized), .answered (.error .unauthorized), .locked], 2⟩ start
      [.check, .check, .verify 1 false, .verify 0 false, .recordFailure 0, .recordFailure 1, .check] :=
    ⟨fun _ ↦ by decide, fun _ ↦ by decide, trivial, trivial, trivial, trivial,
      fun h ↦ absurd h (by decide), rfl⟩
  have h := (Reach.init rfl).run hrun
  exact ⟨_, h, rfl, guesses_bounded h⟩

/-- **Two requests at once.**  Both are let through before either is counted, and with a bound of one
two wrong passwords are verified. -/
theorem guesses_unbounded : ∃ s, Reach (system { maxFailedLogins := 1 }) (fun _ _ ↦ True) s ∧
    s.guesses = 2 ∧ ¬s.guesses ≤ ({ maxFailedLogins := 1 } : AuthConfig).maxFailedLogins := by
  have hrun : (system { maxFailedLogins := 1 }).Run (fun _ _ ↦ True)
      ⟨none, [.failed, .failed], 2⟩ start [.check, .check, .verify 0 false, .verify 1 false] :=
    ⟨trivial, trivial, trivial, trivial, rfl⟩
  exact ⟨_, (Reach.init rfl).run hrun, rfl, by decide⟩

end bound

end Login

end LogServer
