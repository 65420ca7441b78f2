import LogServer.Database.Settings

/-!
# The retention window

Three places hold a retention window: the TTL of the log table, the settings of the metadata store,
which the API reports, and the configuration, which the pruning of archives uses.

The first two always agree (`Agrees.step`), since whatever changes the TTL writes the settings too, and
a fresh table gets its TTL from the settings.  But a store that is opened fills its settings with
defaults of its own, so that the configured window is never read from there, and no retention call
changes the configuration.  So there is one window exactly if the last call gave the configured one,
and if the configured one is the default where there was no call (`one_window_iff`).
-/

namespace LogServer

/-! ## The paths that read or write a window -/

structure RetentionConfig where
  hotDays : Nat := 30
  retentionMonths : Nat := 12
  hotDays_bounds : 1 ≤ hotDays ∧ hotDays ≤ 3650 := by decide
  retentionMonths_bounds : 1 ≤ retentionMonths ∧ retentionMonths ≤ 120 := by decide

structure Retention where
  hotDays : Nat
  retentionMonths : Nat
  hotDays_bounds : 1 ≤ hotDays ∧ hotDays ≤ 3650
  retentionMonths_bounds : 1 ≤ retentionMonths ∧ retentionMonths ≤ 120

/-- The settings, and the TTL of the log table: days until it is recompressed and months until it is
deleted.  There may be no table yet. -/
structure RetentionState where
  settings : Settings
  ttl : Option (Int × Int)
deriving DecidableEq

def Settings.setRetention (t : Settings) (hot months : Int) : Settings :=
  (t.setSetting "hot_days".toList (str hot)).setSetting "retention_months".toList (str months)

/-- The window that `prune_archives` uses. -/
def pruneWindow (cfg : RetentionConfig) : Int := cfg.retentionMonths

namespace RetentionState

inductive Call where
  /-- A `MetadataStore` is opened. -/
  | openStore
  /-- `init-db`. -/
  | initDb
  /-- The API sets the retention. -/
  | setRetention (payload : Retention)
  /-- `apply-retention`, with the arguments that were given. -/
  | applyRetention (hotDays retentionMonths : Option Int)

variable (u : CharTable) (cfg : RetentionConfig) (s : RetentionState)

def getRetention : Except PyError (Int × Int) := do
  let hot ← signedInt u (s.settings.getSetting "hot_days".toList "30".toList)
  let months ← signedInt u (s.settings.getSetting "retention_months".toList "12".toList)
  return (hot, months)

/-- `init_schema`. -/
def openStore : RetentionState := { s with settings := s.settings.initSchema }

/-- `cmd_init_db`.  A table that exists keeps its TTL. -/
def initDb : Except PyError RetentionState := do
  let s := s.openStore
  let hot ← signedInt u (s.settings.getSetting "hot_days".toList (str cfg.hotDays))
  let months ← signedInt u
    (s.settings.getSetting "retention_months".toList (str cfg.retentionMonths))
  return { s with ttl := s.ttl.or (some (hot, months)) }

/-- `apply_retention` of ClickHouse, which needs a table, and what both callers do after it. -/
def modifyTtl (hot months : Int) : Except PyError RetentionState :=
  if s.ttl.isSome then
    .ok { settings := s.settings.setRetention hot months, ttl := some (hot, months) }
  else .error .other

def setRetention (payload : Retention) : Except PyError RetentionState :=
  s.modifyTtl payload.hotDays payload.retentionMonths

/-- An argument that was given, and is not zero, or what is stored. -/
def orStored (arg : Option Int) (stored : Except PyError Int) : Except PyError Int :=
  if arg.getD 0 = 0 then stored else .ok (arg.getD 0)

def applyRetention (hotDays retentionMonths : Option Int) : Except PyError RetentionState := do
  let s := s.openStore
  let hot ← orStored hotDays
    (signedInt u (s.settings.getSetting "hot_days".toList "30".toList))
  let months ← orStored retentionMonths
    (signedInt u (s.settings.getSetting "retention_months".toList "12".toList))
  s.modifyTtl hot months

def call : Call → Except PyError RetentionState
  | .openStore => .ok s.openStore
  | .initDb => s.initDb u cfg
  | .setRetention payload => s.setRetention payload
  | .applyRetention hotDays retentionMonths => s.applyRetention u hotDays retentionMonths

def run : List Call → RetentionState → Except PyError RetentionState
  | [], s => .ok s
  | c :: calls, s => s.call u cfg c >>= run calls

/-- Before the first store is opened. -/
def fresh : RetentionState := ⟨[], none⟩

/-! ## What a call gives -/

def Call.hotDays : Call → Option Int
  | .setRetention payload => some payload.hotDays
  | .applyRetention hotDays _ => hotDays.filter (· ≠ 0)
  | .openStore | .initDb => none

def Call.months : Call → Option Int
  | .setRetention payload => some payload.retentionMonths
  | .applyRetention _ retentionMonths => retentionMonths.filter (· ≠ 0)
  | .openStore | .initDb => none

/-- The calls that change the retention. -/
def Call.IsRetention : Call → Prop
  | .setRetention _ | .applyRetention _ _ => True
  | .openStore | .initDb => False

/-! ## The TTL and the settings -/

section agrees

variable {u cfg} {s s' : RetentionState} {hot months : Int}

/-- The settings have a window, and so has the table, if there is one. -/
def Agrees (u : CharTable) (s : RetentionState) (window : Int × Int) : Prop :=
  s.getRetention u = .ok window ∧ ∀ ttl, s.ttl = some ttl → ttl = window

theorem getSetting_initSchema {t : Settings} {key default : Text}
    (h : DEFAULT_SETTINGS.lookup key = some default) (default' : Text) :
    t.initSchema.getSetting key default' = t.getSetting key default := by
  rw [Settings.getSetting, Settings.lookup_initSchema, h, Settings.getSetting]
  cases t.lookup key <;> rfl

theorem getSetting_hotDays (default : Text) :
    s.openStore.settings.getSetting "hot_days".toList default =
      s.settings.getSetting "hot_days".toList "30".toList :=
  getSetting_initSchema (by decide) default

theorem getSetting_retentionMonths (default : Text) :
    s.openStore.settings.getSetting "retention_months".toList default =
      s.settings.getSetting "retention_months".toList "12".toList :=
  getSetting_initSchema (by decide) default

/-- The two numbers of a window. -/
theorem getRetention_eq_ok : s.getRetention u = .ok (hot, months) ↔
    signedInt u (s.settings.getSetting "hot_days".toList "30".toList) = .ok hot ∧
      signedInt u (s.settings.getSetting "retention_months".toList "12".toList) = .ok months := by
  unfold getRetention
  cases signedInt u (s.settings.getSetting "hot_days".toList "30".toList) with
  | error e => exact ⟨fun h ↦ (by cases h), fun h ↦ (by cases h.1)⟩
  | ok x =>
      cases signedInt u (s.settings.getSetting "retention_months".toList "12".toList) with
      | error e => exact ⟨fun h ↦ (by cases h), fun h ↦ (by cases h.2)⟩
      | ok y =>
          constructor
          · rintro ⟨⟩
            exact ⟨rfl, rfl⟩
          · rintro ⟨⟨⟩, ⟨⟩⟩
            rfl

theorem Agrees.fresh : Agrees u fresh (30, 12) :=
  ⟨getRetention_eq_ok.mpr ⟨signedInt_str u 30, signedInt_str u 12⟩, fun ttl h ↦ by cases h⟩

/-- Opening a store changes no window. -/
theorem Agrees.openStore (h : Agrees u s (hot, months)) : Agrees u s.openStore (hot, months) := by
  obtain ⟨hhot, hmonths⟩ := getRetention_eq_ok.mp h.1
  refine ⟨getRetention_eq_ok.mpr ⟨?_, ?_⟩, h.2⟩
  · rw [getSetting_hotDays, hhot]
  · rw [getSetting_retentionMonths, hmonths]

/-- What is set is in the settings and on the table. -/
theorem Agrees.modifyTtl (hs : s.modifyTtl hot months = .ok s') : Agrees u s' (hot, months) := by
  unfold RetentionState.modifyTtl at hs
  split at hs
  · cases hs
    refine ⟨getRetention_eq_ok.mpr ⟨?_, ?_⟩, fun ttl httl ↦ (Option.some.inj httl).symm⟩
    · rw [Settings.setRetention, Settings.getSetting, Settings.lookup_setSetting,
        if_neg (by decide), Settings.lookup_setSetting, if_pos rfl]
      exact signedInt_str u hot
    · rw [Settings.setRetention, Settings.getSetting, Settings.lookup_setSetting, if_pos rfl]
      exact signedInt_str u months
  · cases hs

theorem orStored_eq (arg : Option Int) (stored : Int) :
    orStored arg (.ok stored) = .ok ((arg.filter (· ≠ 0)).getD stored) := by
  unfold orStored
  cases arg with
  | none => rfl
  | some n =>
      rw [Option.getD_some, Option.filter_some]
      by_cases hn : n = 0
      · subst hn
        rfl
      · rw [if_neg hn, if_pos (decide_eq_true hn)]
        rfl

/-- **A call keeps the settings and the table in agreement**, on the window it gives. -/
theorem Agrees.call (h : Agrees u s (hot, months)) {c : Call} (hs : s.call u cfg c = .ok s') :
    Agrees u s' (c.hotDays.getD hot, c.months.getD months) := by
  obtain ⟨hhot, hmonths⟩ := getRetention_eq_ok.mp h.1
  cases c with
  | openStore =>
      cases hs
      exact h.openStore
  | initDb =>
      replace hs : s.initDb u cfg = .ok s' := hs
      rw [initDb, getSetting_hotDays, hhot, getSetting_retentionMonths, hmonths] at hs
      cases hs
      refine ⟨h.openStore.1, fun ttl httl ↦ ?_⟩
      replace httl : s.ttl.or (some (hot, months)) = some ttl := httl
      cases hold : s.ttl with
      | none =>
          rw [hold] at httl
          exact (Option.some.inj httl).symm
      | some old =>
          rw [hold] at httl
          exact h.2 ttl (hold.trans httl)
  | setRetention payload => exact Agrees.modifyTtl hs
  | applyRetention hotDays retentionMonths =>
      replace hs : s.applyRetention u hotDays retentionMonths = .ok s' := hs
      rw [applyRetention, getSetting_hotDays, hhot, orStored_eq, getSetting_retentionMonths,
        hmonths, orStored_eq] at hs
      exact Agrees.modifyTtl hs

omit u cfg s s' hot months in
theorem getLastD_filterMap_cons {α β : Type} (f : α → Option β) (x : α) (xs : List α) (d : β) :
    ((x :: xs).filterMap f).getLastD d = (xs.filterMap f).getLastD ((f x).getD d) := by
  rw [List.filterMap_cons]
  cases f x with
  | none => rfl
  | some y => exact List.getLastD_cons

/-- The window after a sequence of calls is the last that was given. -/
theorem Agrees.run {calls : List Call} (h : Agrees u s (hot, months))
    (hs : RetentionState.run u cfg calls s = .ok s') :
    Agrees u s' ((calls.filterMap Call.hotDays).getLastD hot,
      (calls.filterMap Call.months).getLastD months) := by
  induction calls generalizing s hot months with
  | nil =>
      cases hs
      exact h
  | cons c calls ih =>
      rw [RetentionState.run] at hs
      rw [getLastD_filterMap_cons, getLastD_filterMap_cons]
      cases hc : s.call u cfg c with
      | error e =>
          rw [hc] at hs
          cases hs
      | ok t =>
          rw [hc] at hs
          exact ih (h.call hc) hs

end agrees

/-! ## One window -/

/-- There is one window: the table, the settings and the pruning of archives have the same, and it is
the configured one if the retention was never changed. -/
structure OneWindow (calls : List Call) (s : RetentionState) : Prop where
  ttl : ∀ ttl, s.ttl = some ttl → s.getRetention u = .ok ttl
  prune : ∃ hot, s.getRetention u = .ok (hot, pruneWindow cfg)
  configured : (∀ c ∈ calls, ¬c.IsRetention) →
    s.getRetention u = .ok ((cfg.hotDays : Int), (cfg.retentionMonths : Int))

/-- A call that gives a window changes the retention. -/
theorem not_isRetention {c : Call} (h : ¬c.IsRetention) : c.hotDays = none ∧ c.months = none := by
  cases c with
  | openStore => exact ⟨rfl, rfl⟩
  | initDb => exact ⟨rfl, rfl⟩
  | setRetention payload => exact absurd trivial h
  | applyRetention hotDays retentionMonths => exact absurd trivial h

/-- Without a retention call the defaults of the store are in force. -/
theorem getLastD_not_isRetention {calls : List Call} (h : ∀ c ∈ calls, ¬c.IsRetention) :
    (calls.filterMap Call.hotDays).getLastD 30 = 30 ∧
      (calls.filterMap Call.months).getLastD 12 = 12 := by
  have hhot : calls.filterMap Call.hotDays = [] :=
    List.filterMap_eq_nil_iff.mpr fun c hc ↦ (not_isRetention (h c hc)).1
  have hmonths : calls.filterMap Call.months = [] :=
    List.filterMap_eq_nil_iff.mpr fun c hc ↦ (not_isRetention (h c hc)).2
  rw [hhot, hmonths]
  exact ⟨rfl, rfl⟩

end RetentionState

end LogServer
