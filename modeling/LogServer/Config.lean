import LogServer.Api.SearchRequest
import LogServer.Auth.Accounts
import LogServer.Auth.Login
import LogServer.Services.Retention
import LogServer.Services.Shedding
import LogServer.Services.Worker

/-!
# Configuration

A service reads two files when it starts: the secrets from `.env`, and the tunables from a YAML file.  The
lines of `.env` become variables of the environment, but where a variable is there already it stays, and so
does the first of two lines for one variable.  The secrets are then taken from the environment, everything
is checked, and a service that finds a value out of bounds does not start.

What is shown is that `.env` is read as it was written (`loadEnvFile_render`), and when a configuration comes
out of the two files and which (`config_of_files`).  A `Config` carries the bounds that were checked, and
these are the bounds that the models of the receiver, the worker, the search and the login carry.

YAML and the conversion of its values are PyYAML's and pydantic's: a YAML file is given by the values of its
fields.  `log_level` and the fields that are texts or flags without a check are left out.
-/

namespace LogServer

/-! ## Reading `.env` -/

/-- The characters at which `str.splitlines` splits. -/
def isLineBreak (c : Char) : Bool := c.toNat ∈ [10, 11, 12, 13, 28, 29, 30, 0x85, 0x2028, 0x2029]

def splitlines : Text → List Text
  | [] => []
  | '\r' :: '\n' :: rest => [] :: splitlines rest
  | c :: rest =>
      if isLineBreak c then [] :: splitlines rest
      else
        match splitlines rest with
        | [] => [[c]]
        | line :: lines => (c :: line) :: lines

/-- `str.strip`, of the characters that meet a condition. -/
def stripBy (p : Char → Bool) (t : Text) : Text := ((t.dropWhile p).reverse.dropWhile p).reverse

def stripChar (q : Char) (t : Text) : Text := stripBy (· == q) t

/-- `os.environ`. -/
abbrev Environ := Text → Option Text

/-- `os.environ.setdefault`.  The system takes no variable without a name, and no null byte. -/
def Environ.setdefault (env : Environ) (key value : Text) : Except PyError Environ :=
  if (env key).isSome then .ok env
  else if '\x00' ∈ key ∨ '\x00' ∈ value then .error (.valueError "embedded null byte".toList)
  else if key = [] then .error .other
  else .ok (Function.update env key (some value))

variable (u : CharTable)

/-- What a line of `.env` assigns, if anything. -/
def assignment (raw : Text) : Option (Text × Text) :=
  let line := strip u raw
  if line = [] ∨ line.head? = some '#' ∨ '=' ∉ line then none
  else
    let key := line.takeWhile (· != '=')
    let value := (line.dropWhile (· != '=')).drop 1
    some (strip u key, stripChar '\'' (stripChar '"' (strip u value)))

/-- `_load_env_file`, of a file that may be missing. -/
def _loadEnvFile (file : Option Text) (env : Environ) : Except PyError Environ :=
  match file with
  | none => .ok env
  | some text =>
      (splitlines text).foldlM (fun env raw ↦
        match assignment u raw with
        | none => .ok env
        | some (key, value) => env.setdefault key value) env

/-! ## Fields -/

/-- A field with a whole number, its default, and its bounds.  The default is within them. -/
structure IntField where
  group : Text
  name : Text
  default : Int
  ge : Int
  le : Option Int
  default_within : ge ≤ default ∧ ∀ bound ∈ le, default ≤ bound := by decide

namespace IntField

variable (f : IntField)

/-- Where an error finds the field. -/
def path : Text := f.group ++ '.' :: f.name

def Within (n : Int) : Prop := f.ge ≤ n ∧ ∀ bound ∈ f.le, n ≤ bound

/-- The check of a value.  A default is not checked. -/
def check : Option Int → Checked Int
  | none => .ok f.default
  | some n =>
      match f.le with
      | some bound =>
          if bound < n then .error [(f.path, .lessThanEqual bound)]
          else if n < f.ge then .error [(f.path, .greaterThanEqual f.ge)]
          else .ok n
      | none => if n < f.ge then .error [(f.path, .greaterThanEqual f.ge)] else .ok n

end IntField

def portField (group name : String) (default : Int)
    (h : 1 ≤ default ∧ ∀ bound ∈ some (65535 : Int), default ≤ bound) : IntField :=
  ⟨group.toList, name.toList, default, 1, some 65535, h⟩

namespace ServerConfig

def port : IntField := portField "server" "port" 8088 (by decide)
def workers : IntField :=
  { group := "server".toList, name := "workers".toList, default := 2, ge := 1, le := some 32 }

end ServerConfig

namespace ReceiverConfig

def udpPort : IntField := portField "receiver" "udp_port" 514 (by decide)
def tcpPort : IntField := portField "receiver" "tcp_port" 514 (by decide)
def workers : IntField :=
  { group := "receiver".toList, name := "workers".toList, default := 0, ge := 0, le := some 64 }
def soRcvbuf : IntField :=
  { group := "receiver".toList, name := "so_rcvbuf".toList,
    default := 16 * 1024 * 1024, ge := 65536, le := none }
def maxDatagram : IntField :=
  { group := "receiver".toList, name := "max_datagram".toList,
    default := 4096, ge := 512, le := some 65535 }
def pushBatch : IntField :=
  { group := "receiver".toList, name := "push_batch".toList, default := 500, ge := 1, le := some 50000 }
def pushIntervalMs : IntField :=
  { group := "receiver".toList, name := "push_interval_ms".toList,
    default := 200, ge := 10, le := some 5000 }
def routerRefreshSeconds : IntField :=
  { group := "receiver".toList, name := "router_refresh_seconds".toList,
    default := 15, ge := 1, le := some 3600 }

end ReceiverConfig

namespace RedisConfig

def port : IntField := portField "redis" "port" 6379 (by decide)
def db : IntField := { group := "redis".toList, name := "db".toList, default := 0, ge := 0, le := some 15 }
def maxQueueLength : IntField :=
  { group := "redis".toList, name := "max_queue_length".toList, default := 5000000, ge := 1000, le := none }

end RedisConfig

namespace ClickHouseConfig

def port : IntField := portField "clickhouse" "port" 8123 (by decide)
def batchSize : IntField :=
  { group := "clickhouse".toList, name := "batch_size".toList,
    default := 20000, ge := 100, le := some 1000000 }
def batchIntervalMs : IntField :=
  { group := "clickhouse".toList, name := "batch_interval_ms".toList,
    default := 1000, ge := 50, le := some 60000 }
def insertTimeoutSeconds : IntField :=
  { group := "clickhouse".toList, name := "insert_timeout_seconds".toList,
    default := 60, ge := 5, le := some 600 }
def maxExecutionTime : IntField :=
  { group := "clickhouse".toList, name := "max_execution_time".toList,
    default := 30, ge := 1, le := some 600 }
def maxResultRowsField : IntField :=
  { group := "clickhouse".toList, name := "max_result_rows".toList,
    default := 10000, ge := 100, le := some 1000000 }

end ClickHouseConfig

namespace RetentionConfig

def hotDaysField : IntField :=
  { group := "retention".toList, name := "hot_days".toList, default := 30, ge := 1, le := some 3650 }
def retentionMonthsField : IntField :=
  { group := "retention".toList, name := "retention_months".toList, default := 12, ge := 1, le := some 120 }

end RetentionConfig

namespace AuthConfig

def sessionHours : IntField :=
  { group := "auth".toList, name := "session_hours".toList, default := 12, ge := 1, le := some 720 }
def maxFailedLoginsField : IntField :=
  { group := "auth".toList, name := "max_failed_logins".toList, default := 5, ge := 1, le := some 100 }
def lockoutSeconds : IntField :=
  { group := "auth".toList, name := "lockout_seconds".toList, default := 300, ge := 10, le := some 86400 }

end AuthConfig

/-- The fields in the order in which they are checked. -/
def intFields : List IntField :=
  [ServerConfig.port, ServerConfig.workers,
    ReceiverConfig.udpPort, ReceiverConfig.tcpPort, ReceiverConfig.workers, ReceiverConfig.soRcvbuf,
    ReceiverConfig.maxDatagram, ReceiverConfig.pushBatch, ReceiverConfig.pushIntervalMs,
    ReceiverConfig.routerRefreshSeconds,
    RedisConfig.port, RedisConfig.db, RedisConfig.maxQueueLength,
    ClickHouseConfig.port, ClickHouseConfig.batchSize, ClickHouseConfig.batchIntervalMs,
    ClickHouseConfig.insertTimeoutSeconds, ClickHouseConfig.maxExecutionTime,
    ClickHouseConfig.maxResultRowsField,
    RetentionConfig.hotDaysField, RetentionConfig.retentionMonthsField,
    AuthConfig.sessionHours, AuthConfig.maxFailedLoginsField, AuthConfig.lockoutSeconds]

/-! ## Checking -/

/-- The values that the YAML file gives, and later the environment. -/
structure ConfigData where
  ints : Text → Text → Option Int
  secretKey : Option Text
  clickhousePassword : Option Text
  redisPassword : Option Text

structure Config where
  int : IntField → Int
  secretKey : Text
  clickhousePassword : Text
  redisPassword : Option Text
  int_within : ∀ f ∈ intFields, f.Within (int f)
  secretKey_length : 32 ≤ secretKey.length

namespace ConfigData

variable (data : ConfigData)

def value (f : IntField) : Int := (data.ints f.group f.name).getD f.default

/-- `_secret_required`. -/
def secretErrors : List (Text × FieldError) :=
  if (data.secretKey.getD []).length < 32 then
    [("secret_key".toList, .valueError ("NLS_SECRET_KEY must be at least 32 characters. ".toList ++
      "install.bash generates one; do not run with a default.".toList))]
  else []

def errors : List (Text × FieldError) :=
  intFields.flatMap (fun f ↦ (f.check (data.ints f.group f.name)).errors) ++ data.secretErrors

/-- The secrets come from the environment, where it has them.  An empty password for Redis counts as none. -/
def withSecrets (env : Environ) : ConfigData :=
  { data with
    secretKey := some ((env "NLS_SECRET_KEY".toList).getD (data.secretKey.getD []))
    clickhousePassword := some ((env "NLS_CLICKHOUSE_PASSWORD".toList).getD (data.clickhousePassword.getD []))
    redisPassword :=
      match env "NLS_REDIS_PASSWORD".toList with
      | some password => if password = [] then data.redisPassword else some password
      | none => data.redisPassword }

end ConfigData

namespace IntField

variable {f : IntField}

/-- A value is let through if it is within the bounds. -/
theorem errors_check_eq_nil {o : Option Int} : (f.check o).errors = [] ↔ f.Within (o.getD f.default) := by
  cases o with
  | none => exact iff_of_true rfl f.default_within
  | some n =>
      rw [check, Within, Option.getD_some]
      cases f.le with
      | none =>
          dsimp only
          split
          · rename_i hlow
            exact iff_of_false (List.cons_ne_nil _ _) fun h ↦ absurd h.1 (not_le.mpr hlow)
          · rename_i hlow
            exact iff_of_true rfl ⟨not_lt.mp hlow, fun _ h ↦ by cases h⟩
      | some bound =>
          dsimp only
          split
          · rename_i hhigh
            exact iff_of_false (List.cons_ne_nil _ _) fun h ↦ absurd (h.2 bound rfl) (not_le.mpr hhigh)
          · rename_i hhigh
            split
            · rename_i hlow
              exact iff_of_false (List.cons_ne_nil _ _) fun h ↦ absurd h.1 (not_le.mpr hlow)
            · rename_i hlow
              refine iff_of_true rfl ⟨not_lt.mp hlow, fun b hb ↦ ?_⟩
              cases hb
              exact not_lt.mp hhigh

/-- An error names the field that it is about. -/
theorem path_of_mem_errors {o : Option Int} {x : Text × FieldError} (h : x ∈ (f.check o).errors) :
    x.1 = f.path := by
  cases o with
  | none => cases h
  | some n =>
      rw [check] at h
      cases hle : f.le with
      | none =>
          rw [hle] at h
          dsimp only at h
          split at h
          · exact congrArg Prod.fst (List.mem_singleton.mp h)
          · cases h
      | some bound =>
          rw [hle] at h
          dsimp only at h
          split at h
          · exact congrArg Prod.fst (List.mem_singleton.mp h)
          · split at h
            · exact congrArg Prod.fst (List.mem_singleton.mp h)
            · cases h

end IntField

namespace ConfigData

variable {data : ConfigData}

theorem errors_eq_nil : data.errors = [] ↔
    (∀ f ∈ intFields, f.Within (data.value f)) ∧ 32 ≤ (data.secretKey.getD []).length := by
  rw [errors, List.append_eq_nil_iff, List.flatMap_eq_nil_iff]
  refine and_congr (forall₂_congr fun f _ ↦ IntField.errors_check_eq_nil) ?_
  rw [secretErrors]
  split
  · rename_i hshort
    exact iff_of_false (List.cons_ne_nil _ _) (not_le.mpr hshort)
  · rename_i hlong
    exact iff_of_true rfl (not_lt.mp hlong)

end ConfigData

/-- `Config(**data)`. -/
def ConfigData.validate (data : ConfigData) : Checked Config :=
  if h : data.errors = [] then
    .ok ⟨data.value, data.secretKey.getD [], data.clickhousePassword.getD [], data.redisPassword,
      (ConfigData.errors_eq_nil.mp h).1, (ConfigData.errors_eq_nil.mp h).2⟩
  else .error data.errors

inductive ConfigError where
  | environ (e : PyError)
  | invalid (errors : List (Text × FieldError))

/-- `get_config`, with the environment that it leaves. -/
def getConfig (envFile : Option Text) (yaml : ConfigData) (env : Environ) :
    Except ConfigError (Environ × Config) :=
  match _loadEnvFile u envFile env with
  | .error e => .error (.environ e)
  | .ok env =>
      match (yaml.withSecrets env).validate with
      | .error errors => .error (.invalid errors)
      | .ok config => .ok (env, config)

/-! ## What the services read of it -/

namespace Config

variable (c : Config)

/-- A field that is not negative, as a natural number. -/
theorem toNat_bounds {f : IntField} {lo hi : ℕ} (hf : f ∈ intFields) (hge : f.ge = lo)
    (hle : f.le = some (hi : Int)) : lo ≤ (c.int f).toNat ∧ (c.int f).toNat ≤ hi := by
  obtain ⟨hlow, hhigh⟩ := c.int_within f hf
  rw [hge] at hlow
  have hhi := hhigh hi hle
  omega

def worker : WorkerConfig where
  batchSize := (c.int ClickHouseConfig.batchSize).toNat
  batchSize_pos :=
    have hbounds : 100 ≤ (c.int ClickHouseConfig.batchSize).toNat ∧
        (c.int ClickHouseConfig.batchSize).toNat ≤ 1000000 :=
      c.toNat_bounds (by simp [intFields]) rfl rfl
    Nat.lt_of_lt_of_le (by decide) hbounds.1

def flusher (parser : MikroTikParser) : FlusherConfig where
  ingest := ⟨parser, (c.int ReceiverConfig.pushBatch).toNat⟩
  pushIntervalMs := (c.int ReceiverConfig.pushIntervalMs).toNat
  maxQueueLength := (c.int RedisConfig.maxQueueLength).toNat
  pushIntervalMs_bounds := c.toNat_bounds (by simp [intFields]) rfl rfl

def clickhouse : ClickHouseConfig where
  maxResultRows := c.int ClickHouseConfig.maxResultRowsField
  maxResultRows_bounds :=
    have hbounds := c.int_within ClickHouseConfig.maxResultRowsField (by simp [intFields])
    ⟨hbounds.1, hbounds.2 _ rfl⟩

def retention : RetentionConfig where
  hotDays := (c.int RetentionConfig.hotDaysField).toNat
  retentionMonths := (c.int RetentionConfig.retentionMonthsField).toNat
  hotDays_bounds := c.toNat_bounds (by simp [intFields]) rfl rfl
  retentionMonths_bounds := c.toNat_bounds (by simp [intFields]) rfl rfl

def auth : AuthConfig where
  maxFailedLogins := (c.int AuthConfig.maxFailedLoginsField).toNat
  maxFailedLogins_bounds := c.toNat_bounds (by simp [intFields]) rfl rfl

def session : SessionConfig where
  secretKey := c.secretKey
  sessionHours := (c.int AuthConfig.sessionHours).toNat
  sessionHours_bounds := c.toNat_bounds (by simp [intFields]) rfl rfl

end Config

/-! ## Writing `.env` -/

inductive EnvLine where
  | blank
  | comment (text : Text)
  | assign (key value : Text)

namespace EnvLine

def render : EnvLine → Text
  | .blank => []
  | .comment text => '#' :: text
  | .assign key value => key ++ '=' :: value

/-- Nothing is stripped from the ends. -/
def Bare (p : Char → Bool) (t : Text) : Prop :=
  (∀ c ∈ t.head?, p c = false) ∧ ∀ c ∈ t.getLast?, p c = false

/-- A line that is read as it was written. -/
def WellFormed : EnvLine → Prop
  | .blank => True
  | .comment text => ∀ c ∈ text, isLineBreak c = false
  | .assign key value =>
      (key ≠ [] ∧ ∀ c ∈ key, c ≠ '=' ∧ c ≠ '#' ∧ c ≠ '\x00' ∧ u.isSpace c = false ∧
        isLineBreak c = false) ∧
      (∀ c ∈ value, c ≠ '\x00' ∧ isLineBreak c = false) ∧
      Bare u.isSpace value ∧ Bare (· == '"') value ∧ Bare (· == '\'') value

def valueOf (key : Text) : EnvLine → Option Text
  | .assign key' value => if key' = key then some value else none
  | .blank => none
  | .comment _ => none

/-- The value of a variable, in the first line for it. -/
def lookup (lines : List EnvLine) (key : Text) : Option Text := lines.findSome? (valueOf key)

end EnvLine

def renderEnv (lines : List EnvLine) : Text := lines.flatMap fun line ↦ line.render ++ ['\n']

section read

variable {u}

/-- A line is split off. -/
theorem splitlines_append {line rest : Text} (h : ∀ c ∈ line, isLineBreak c = false) :
    splitlines (line ++ '\n' :: rest) = line :: splitlines rest := by
  induction line with
  | nil => rfl
  | cons c line ih =>
      obtain ⟨hc, hline⟩ := List.forall_mem_cons.mp h
      have hreturn : c ≠ '\r' := by
        rintro rfl
        exact absurd hc (by decide)
      rw [List.cons_append, splitlines]
      · rw [if_neg (by rw [hc]; exact Bool.false_ne_true), ih hline]
      · exact fun _ hcr ↦ absurd hcr hreturn

/-- The lines of a file. -/
theorem splitlines_flatMap {lines : List Text} (h : ∀ line ∈ lines, ∀ c ∈ line, isLineBreak c = false) :
    splitlines (lines.flatMap fun line ↦ line ++ ['\n']) = lines := by
  induction lines with
  | nil => rfl
  | cons line lines ih =>
      obtain ⟨hline, hlines⟩ := List.forall_mem_cons.mp h
      rw [List.flatMap_cons, List.append_assoc, List.singleton_append, splitlines_append hline, ih hlines]

theorem stripBy_eq_self {p : Char → Bool} {t : Text} (h : EnvLine.Bare p t) : stripBy p t = t := by
  have hfront : ∀ s : Text, (∀ c ∈ s.head?, p c = false) → s.dropWhile p = s := by
    intro s hs
    cases s with
    | nil => rfl
    | cons c s => exact List.dropWhile_cons_of_neg (by rw [hs c rfl]; exact Bool.false_ne_true)
  have hback : t.reverse.dropWhile p = t.reverse := by
    apply hfront
    rw [List.head?_reverse]
    exact h.2
  rw [stripBy, hfront t h.1, hback, List.reverse_reverse]

theorem strip_eq_self {t : Text} (h : EnvLine.Bare u.isSpace t) : strip u t = t := stripBy_eq_self h

/-- A first character that is not stripped stays the first. -/
theorem head?_strip {c : Char} {t : Text} (hc : u.isSpace c = false) : (strip u (c :: t)).head? = some c := by
  have hfront : strip u (c :: t) = (c :: t).rdropWhile u.isSpace := by
    rw [strip, List.dropWhile_cons_of_neg (by rw [hc]; exact Bool.false_ne_true)]
    rfl
  obtain ⟨rest, hrest⟩ := List.rdropWhile_prefix u.isSpace (l := c :: t)
  rw [hfront]
  cases hs : (c :: t).rdropWhile u.isSpace with
  | nil =>
      have hall := List.rdropWhile_eq_nil_iff.mp hs c List.mem_cons_self
      rw [hc] at hall
      cases hall
  | cons d s =>
      rw [hs] at hrest
      exact congrArg some (List.cons.inj hrest).1

/-- A line that is no assignment assigns nothing. -/
theorem assignment_eq_none {line : EnvLine} (h : ∀ key value, line ≠ .assign key value) :
    assignment u line.render = none := by
  cases line with
  | blank =>
      show assignment u [] = none
      rw [assignment]
      exact if_pos (Or.inl rfl)
  | comment text =>
      have hsharp : u.isSpace '#' = false := by
        rw [u.isSpace_ascii _ (by decide)]
        rfl
      exact if_pos (Or.inr (Or.inl (head?_strip hsharp)))
  | assign key value => exact absurd rfl (h key value)

/-- An assignment is read as it was written. -/
theorem assignment_render {key value : Text} (h : (EnvLine.assign key value).WellFormed u) :
    assignment u (EnvLine.assign key value).render = some (key, value) := by
  obtain ⟨⟨hne, hkey⟩, -, hblanks, hdouble, hsingle⟩ := h
  have hequals : u.isSpace '=' = false := by
    rw [u.isSpace_ascii _ (by decide)]
    rfl
  have hkeyBare : EnvLine.Bare u.isSpace key :=
    ⟨fun c hc ↦ (hkey c (List.mem_of_mem_head? hc)).2.2.2.1,
      fun c hc ↦ (hkey c (List.mem_of_mem_getLast? hc)).2.2.2.1⟩
  have hhead : ∀ c ∈ (key ++ '=' :: value).head?, c ∈ key := by
    intro c hc
    obtain ⟨d, key, rfl⟩ := List.exists_cons_of_ne_nil hne
    cases hc
    exact List.mem_cons_self
  have hline : EnvLine.Bare u.isSpace (key ++ '=' :: value) := by
    refine ⟨fun c hc ↦ (hkey c (hhead c hc)).2.2.2.1, fun c hc ↦ ?_⟩
    rw [List.getLast?_append_of_ne_nil _ (List.cons_ne_nil _ _)] at hc
    cases hvalue : value with
    | nil =>
        rw [hvalue] at hc
        cases hc
        exact hequals
    | cons d rest =>
        rw [hvalue, List.getLast?_cons_cons, ← hvalue] at hc
        exact hblanks.2 c hc
  have hassigns : ¬(key ++ '=' :: value = [] ∨ (key ++ '=' :: value).head? = some '#' ∨
      '=' ∉ key ++ '=' :: value) := by
    rintro (hnil | hsharp | hnone)
    · exact List.append_ne_nil_of_left_ne_nil hne _ hnil
    · exact (hkey '#' (hhead '#' hsharp)).2.1 rfl
    · exact hnone (List.mem_append_right _ List.mem_cons_self)
  have htake : (key ++ '=' :: value).takeWhile (· != '=') = key := by
    rw [List.takeWhile_append_of_pos fun c hc ↦ bne_iff_ne.mpr (hkey c hc).1,
      List.takeWhile_cons_of_neg (by simp), List.append_nil]
  have hdrop : (key ++ '=' :: value).dropWhile (· != '=') = '=' :: value := by
    rw [List.dropWhile_append_of_pos fun c hc ↦ bne_iff_ne.mpr (hkey c hc).1,
      List.dropWhile_cons_of_neg (by simp)]
  show assignment u (key ++ '=' :: value) = _
  rw [assignment, strip_eq_self hline]
  dsimp only
  rw [if_neg hassigns, htake, hdrop, List.drop_one, List.tail_cons, strip_eq_self hkeyBare,
    strip_eq_self hblanks, stripChar, stripChar, stripBy_eq_self hdouble, stripBy_eq_self hsingle]

/-- A variable is set where there is none. -/
theorem setdefault_eq_ok {env : Environ} {key value : Text} (hne : key ≠ []) (hkey : '\x00' ∉ key)
    (hvalue : '\x00' ∉ value) :
    env.setdefault key value =
      .ok fun key' ↦ (env key').or (if key = key' then some value else none) := by
  rw [Environ.setdefault]
  split
  · rename_i hsome
    refine congrArg Except.ok (funext fun key' ↦ ?_)
    by_cases heq : key = key'
    · subst heq
      rw [Option.or_of_isSome hsome]
    · rw [if_neg heq, Option.or_none]
  · rename_i hnone
    rw [if_neg (not_or.mpr ⟨hkey, hvalue⟩)]
    refine congrArg Except.ok (funext fun key' ↦ ?_)
    by_cases heq : key = key'
    · subst heq
      rw [Function.update_self, if_pos rfl, Option.not_isSome_iff_eq_none.mp hnone, Option.none_or]
    · rw [Function.update_of_ne (Ne.symm heq), if_neg heq, Option.or_none]

/-- **`.env` is read as it was written.**  Variables that are there already win, and then the first line. -/
theorem loadEnvFile_render {lines : List EnvLine} (h : ∀ line ∈ lines, line.WellFormed u) (env : Environ) :
    _loadEnvFile u (some (renderEnv lines)) env = .ok fun key ↦ (env key).or (EnvLine.lookup lines key) := by
  have hbreaks : ∀ line ∈ lines, ∀ c ∈ line.render, isLineBreak c = false := by
    intro line hline c hc
    cases line with
    | blank => cases hc
    | comment text =>
        rcases List.mem_cons.mp hc with rfl | hc
        · rfl
        · exact h _ hline c hc
    | assign key value =>
        obtain ⟨⟨-, hkey⟩, hvalue, -⟩ := h _ hline
        rcases List.mem_append.mp hc with hc | hc
        · exact (hkey c hc).2.2.2.2
        · rcases List.mem_cons.mp hc with rfl | hc
          · rfl
          · exact (hvalue c hc).2
  have hlines : splitlines (renderEnv lines) = lines.map EnvLine.render := by
    rw [renderEnv, ← splitlines_flatMap (List.forall_mem_map.mpr hbreaks), List.flatMap_map]
  rw [_loadEnvFile, hlines]
  clear hlines hbreaks
  induction lines generalizing env with
  | nil => exact congrArg Except.ok (funext fun key ↦ (Option.or_none).symm)
  | cons line lines ih =>
      obtain ⟨hline, hlines⟩ := List.forall_mem_cons.mp h
      rw [List.map_cons, List.foldlM_cons]
      cases line with
      | assign key value =>
          have hassign := assignment_render hline
          obtain ⟨⟨hne, hkey⟩, hvalue, -⟩ := hline
          rw [hassign]
          dsimp only
          rw [setdefault_eq_ok hne (fun hmem ↦ (hkey _ hmem).2.2.1 rfl) fun hmem ↦ (hvalue _ hmem).1 rfl]
          refine (ih hlines _).trans (congrArg Except.ok (funext fun key' ↦ ?_))
          rw [Option.or_assoc]
          refine congrArg (Option.or (env key')) ?_
          rw [EnvLine.lookup, EnvLine.lookup, List.findSome?_cons, EnvLine.valueOf]
          by_cases heq : key = key'
          · rw [if_pos heq, Option.some_or]
          · rw [if_neg heq, Option.none_or]
      | blank =>
          rw [assignment_eq_none fun _ _ hassign ↦ by cases hassign]
          exact ih hlines env
      | comment text =>
          rw [assignment_eq_none fun _ _ hassign ↦ by cases hassign]
          exact ih hlines env

/-- No two fields have one path, and the secret has its own. -/
theorem nodup_paths : ("secret_key".toList :: intFields.map IntField.path).Nodup := by decide +kernel

/-- The errors are about the fields that are out of bounds, and about no others. -/
theorem ConfigData.exists_error_iff {data : ConfigData} {f : IntField} (hf : f ∈ intFields) :
    (∃ x ∈ data.errors, x.1 = f.path) ↔ ¬f.Within (data.value f) := by
  obtain ⟨hsecret, hpaths⟩ := List.nodup_cons.mp nodup_paths
  constructor
  · rintro ⟨x, hx, hpath⟩ hwithin
    rcases List.mem_append.mp hx with hfield | hkey
    · obtain ⟨g, hg, hcheck⟩ := List.mem_flatMap.mp hfield
      obtain rfl : g = f := List.inj_on_of_nodup_map hpaths hg hf
        ((IntField.path_of_mem_errors hcheck).symm.trans hpath)
      rw [IntField.errors_check_eq_nil.mpr hwithin] at hcheck
      cases hcheck
    · rw [ConfigData.secretErrors] at hkey
      split at hkey
      · rw [List.mem_singleton.mp hkey] at hpath
        exact hsecret ((show "secret_key".toList = f.path from hpath) ▸ List.mem_map_of_mem hf)
      · cases hkey
  · intro hout
    have herrors : (f.check (data.ints f.group f.name)).errors ≠ [] :=
      fun hnil ↦ hout (IntField.errors_check_eq_nil.mp hnil)
    obtain ⟨x, hx⟩ := List.exists_mem_of_ne_nil _ herrors
    exact ⟨x, List.mem_append_left _ (List.mem_flatMap.mpr ⟨f, hf, hx⟩), IntField.path_of_mem_errors hx⟩

/-- **What a service starts with.**  Whatever lines `.env` has, a service starts if and only if each value of
the YAML file is within its bounds and the secret is long enough.  Then every field has the value of the YAML
file or its default, and each secret is the one of the environment, else the one of the first line of `.env`
for it, and only then the one of the YAML file.  An empty `NLS_REDIS_PASSWORD` counts as none.  Where it does
not start, the errors name the fields that are out of bounds and no others. -/
theorem config_of_files {lines : List EnvLine} (hlines : ∀ line ∈ lines, line.WellFormed u)
    (yaml : ConfigData) (env : Environ) :
    let merged : Environ := fun key ↦ (env key).or (EnvLine.lookup lines key)
    let secret := (merged "NLS_SECRET_KEY".toList).getD (yaml.secretKey.getD [])
    let outcome := getConfig u (some (renderEnv lines)) yaml env
    ((∃ result, outcome = .ok result) ↔
      (∀ f ∈ intFields, f.Within (yaml.value f)) ∧ 32 ≤ secret.length) ∧
    (∀ left c, outcome = .ok (left, c) → left = merged ∧ (∀ f, c.int f = yaml.value f) ∧
      c.secretKey = secret ∧
      c.clickhousePassword =
        (merged "NLS_CLICKHOUSE_PASSWORD".toList).getD (yaml.clickhousePassword.getD []) ∧
      c.redisPassword = ((merged "NLS_REDIS_PASSWORD".toList).filter (· ≠ [])).or yaml.redisPassword) ∧
    ∀ e, outcome = .error e → ∃ errors, e = .invalid errors ∧ ∀ f ∈ intFields,
      (∃ x ∈ errors, x.1 = f.path) ↔ ¬f.Within (yaml.value f) := by
  intro merged secret outcome
  set data := yaml.withSecrets merged with hdata
  have houtcome : outcome =
      match data.validate with
      | .error errors => .error (.invalid errors)
      | .ok config => .ok (merged, config) := by
    show getConfig u (some (renderEnv lines)) yaml env = _
    rw [getConfig, loadEnvFile_render hlines]
  have hvalue : ∀ f, data.value f = yaml.value f := fun _ ↦ rfl
  have hvalid : data.errors = [] ↔
      (∀ f ∈ intFields, f.Within (yaml.value f)) ∧ 32 ≤ secret.length := ConfigData.errors_eq_nil
  rw [houtcome, ConfigData.validate]
  by_cases h : data.errors = []
  · rw [dif_pos h]
    refine ⟨iff_of_true ⟨_, rfl⟩ (hvalid.mp h), ?_, fun e he ↦ by cases he⟩
    rintro left c hc
    cases hc
    refine ⟨rfl, fun _ ↦ rfl, rfl, rfl, ?_⟩
    show (match merged "NLS_REDIS_PASSWORD".toList with
      | some password => if password = [] then yaml.redisPassword else some password
      | none => yaml.redisPassword) = _
    cases merged "NLS_REDIS_PASSWORD".toList with
    | none => rfl
    | some password =>
        rw [Option.filter_some]
        by_cases hempty : password = [] <;> simp [hempty]
  · rw [dif_neg h]
    refine ⟨iff_of_false ?_ fun hall ↦ h (hvalid.mpr hall), ?_, ?_⟩
    · rintro ⟨result, he⟩
      cases he
    · intro left c he
      cases he
    · intro e he
      cases he
      exact ⟨_, rfl, fun f hf ↦ ConfigData.exists_error_iff hf⟩

/-- The `.env` that `install.bash` writes. -/
def generated (secret clickhouse redis : Text) : List EnvLine :=
  [.comment " Generated by install.bash. Do not commit this file.".toList,
    .assign "NLS_SECRET_KEY".toList secret, .assign "NLS_CLICKHOUSE_PASSWORD".toList clickhouse,
    .assign "NLS_REDIS_PASSWORD".toList redis]

/-- ASCII letters and digits are nothing else. -/
theorem toNat_bounds_of_isAlphanum {c : Char} (h : c.isAlphanum = true) : 48 ≤ c.toNat ∧ c.toNat < 123 := by
  simp only [Char.isAlphanum, Char.isAlpha, Char.isUpper, Char.isLower, Char.isDigit, Bool.or_eq_true,
    Bool.and_eq_true, decide_eq_true_eq, ge_iff_le, UInt32.le_iff_toNat_le] at h
  have hval : c.val.toNat = c.toNat := rfl
  rw [hval] at h
  have hA : 'A'.val.toNat = 65 := rfl
  have hZ : 'Z'.val.toNat = 90 := rfl
  have ha : 'a'.val.toNat = 97 := rfl
  have hz : 'z'.val.toNat = 122 := rfl
  have h0 : '0'.val.toNat = 48 := rfl
  have h9 : '9'.val.toNat = 57 := rfl
  omega

/-- A secret of letters and digits is a value of a well-formed line. -/
theorem EnvLine.wellFormed_assign {key value : Text} (hne : key ≠ [])
    (hkey : ∀ c ∈ key, c.isAlphanum = true ∨ c = '_') (hvalue : ∀ c ∈ value, c.isAlphanum = true) :
    (EnvLine.assign key value).WellFormed u := by
  have hplain : ∀ c : Char, c.isAlphanum = true ∨ c = '_' → 48 ≤ c.toNat ∧ c.toNat < 123 := by
    rintro c (hc | rfl)
    · exact toNat_bounds_of_isAlphanum hc
    · decide
  have hspace : ∀ c : Char, c.isAlphanum = true ∨ c = '_' → u.isSpace c = false := by
    intro c hc
    obtain ⟨hlow, hhigh⟩ := hplain c hc
    rw [u.isSpace_ascii c (by omega), asciiSpace, decide_eq_false_iff_not]
    intro hmem
    simp at hmem
    omega
  have hbreak : ∀ c : Char, c.isAlphanum = true ∨ c = '_' → isLineBreak c = false := by
    intro c hc
    obtain ⟨hlow, hhigh⟩ := hplain c hc
    rw [isLineBreak, decide_eq_false_iff_not]
    intro hmem
    simp at hmem
    omega
  have hother : ∀ {c d : Char}, c.isAlphanum = true ∨ c = '_' → (d.isAlphanum = false ∧ d ≠ '_') → c ≠ d := by
    rintro c d (hc | rfl) ⟨hd, hne⟩ rfl
    · rw [hc] at hd
      cases hd
    · exact hne rfl
  have hbare : ∀ p : Char → Bool, (∀ c : Char, c.isAlphanum = true → p c = false) → Bare p value :=
    fun p hp ↦ ⟨fun c hc ↦ hp c (hvalue c (List.mem_of_mem_head? hc)),
      fun c hc ↦ hp c (hvalue c (List.mem_of_mem_getLast? hc))⟩
  refine ⟨⟨hne, fun c hc ↦ ⟨hother (hkey c hc) (by decide), hother (hkey c hc) (by decide),
    hother (hkey c hc) (by decide), hspace c (hkey c hc), hbreak c (hkey c hc)⟩⟩,
    fun c hc ↦ ⟨hother (.inl (hvalue c hc)) (by decide), hbreak c (.inl (hvalue c hc))⟩,
    hbare _ fun c hc ↦ hspace c (.inl hc),
    hbare _ fun c hc ↦ beq_false_of_ne (hother (.inl hc) (by decide)),
    hbare _ fun c hc ↦ beq_false_of_ne (hother (.inl hc) (by decide))⟩

/-- The `.env` of an installation is well formed. -/
theorem generated_wellFormed {secret clickhouse redis : Text} (hsecret : ∀ c ∈ secret, c.isAlphanum = true)
    (hclickhouse : ∀ c ∈ clickhouse, c.isAlphanum = true) (hredis : ∀ c ∈ redis, c.isAlphanum = true) :
    ∀ line ∈ generated secret clickhouse redis, line.WellFormed u := by
  have hkeys : ∀ key ∈ ["NLS_SECRET_KEY".toList, "NLS_CLICKHOUSE_PASSWORD".toList,
      "NLS_REDIS_PASSWORD".toList], key ≠ [] ∧ ∀ c ∈ key, c.isAlphanum = true ∨ c = '_' := by decide
  have hcomment : ∀ c ∈ " Generated by install.bash. Do not commit this file.".toList,
      isLineBreak c = false := by decide
  simp only [List.forall_mem_cons, List.not_mem_nil, false_implies, implies_true, and_true] at hkeys
  obtain ⟨⟨hne, hkey⟩, ⟨hne', hkey'⟩, hne'', hkey''⟩ := hkeys
  intro line hline
  simp only [generated, List.mem_cons, List.not_mem_nil, or_false] at hline
  rcases hline with rfl | rfl | rfl | rfl
  · exact hcomment
  · exact EnvLine.wellFormed_assign hne hkey hsecret
  · exact EnvLine.wellFormed_assign hne' hkey' hclickhouse
  · exact EnvLine.wellFormed_assign hne'' hkey'' hredis

/-- An installation starts, with its secret and the defaults. -/
theorem config_of_files_installed : ∃ left c, getConfig .ascii
      (some (renderEnv (generated (List.replicate 64 'a') ['b'] ['c']))) ⟨fun _ _ ↦ none, none, none, none⟩
      (fun _ ↦ none) = .ok (left, c) ∧
    c.secretKey = List.replicate 64 'a' ∧ c.clickhousePassword = ['b'] ∧ c.redisPassword = some ['c'] ∧
    c.worker.batchSize = 20000 := by
  have hletters : ∀ n (d : Char), d.isAlphanum = true → ∀ c ∈ List.replicate n d, c.isAlphanum = true := by
    intro n d hd c hc
    rw [List.eq_of_mem_replicate hc]
    exact hd
  obtain ⟨hstarts, hvalues, -⟩ := config_of_files (u := .ascii)
    (generated_wellFormed (hletters 64 'a' rfl) (hletters 1 'b' rfl) (hletters 1 'c' rfl))
    ⟨fun _ _ ↦ none, none, none, none⟩ (fun _ ↦ none)
  obtain ⟨⟨left, c⟩, hc⟩ := hstarts.mpr ⟨fun f _ ↦ f.default_within, by decide +kernel⟩
  obtain ⟨-, hints, hsecret, hclickhouse, hredis⟩ := hvalues left c hc
  refine ⟨left, c, hc, hsecret, hclickhouse, hredis, ?_⟩
  show (c.int ClickHouseConfig.batchSize).toNat = 20000
  rw [hints]
  rfl

end read

end LogServer
