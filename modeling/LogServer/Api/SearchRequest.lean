import LogServer.Api.Paging
import LogServer.Api.Routers
import LogServer.Database.Meta
import LogServer.Lib.Datetime

/-!
# Search requests

The body of a search, the checks of its fields, and the query that is made of it.  The window of a query
is checked by comparing its two ends, of which the request may leave out one or both.

`search_window_iff`: a request gives a window that was checked, or an answer that says what is wrong with
it, exactly if its ends can be compared and the default of its start lies in the calendar.
-/

namespace LogServer

def MAX_WINDOW_DAYS : Nat := 400

/-! ## Validation -/

inductive FieldError where
  | greaterThanEqual (bound : Int)
  | lessThanEqual (bound : Int)
  | stringTooLong (bound : Nat)
  | valueError (message : Text)
deriving DecidableEq

/-- A value that was checked, or what was found wrong with its fields. -/
abbrev Checked (α : Type) := Except (List (Text × FieldError)) α

def Checked.errors {α : Type} : Checked α → List (Text × FieldError)
  | .ok _ => []
  | .error es => es

/-- One more field.  It is checked also when something was found wrong before. -/
def Checked.field {α β : Type} (f : Checked (α → β)) (x : Checked α) : Checked β :=
  match f, x with
  | .ok f, .ok a => .ok (f a)
  | f, x => .error (f.errors ++ x.errors)

section checks

variable {α β : Type} {f : Checked (α → β)} {x : Checked α}

/-- A record is let through if each of its fields is. -/
theorem Checked.field_eq_ok {b : β} :
    f.field x = .ok b ↔ ∃ g a, f = .ok g ∧ x = .ok a ∧ g a = b := by
  constructor
  · intro h
    cases f with
    | error es => cases h
    | ok g =>
        cases x with
        | error es => cases h
        | ok a => exact ⟨g, a, rfl, rfl, Except.ok.inj h⟩
  · rintro ⟨g, a, rfl, rfl, rfl⟩
    rfl

/-- What is wrong with a record is what is wrong with its fields. -/
theorem Checked.errors_field : (f.field x).errors = f.errors ++ x.errors := by
  cases f with
  | error es => rfl
  | ok g => cases x <;> rfl

end checks

structure SearchForm where
  timeFrom : Option Datetime := none
  timeTo : Option Datetime := none
  routerIp : Option Text := none
  privateIp : Option Text := none
  publicIp : Option Text := none
  destIp : Option Text := none
  privatePort : Option Int := none
  publicPort : Option Int := none
  destPort : Option Int := none
  protocol : Option Text := none
  subscriberId : Option Text := none
  subscriberPartial : Bool := false
  limit : Int := 100
  offset : Int := 0
  orderBy : Text := "timestamp".toList
  descending : Bool := true

/-- An address in its canonical form, or none. -/
abbrev Address := {v : Option Text // ∀ t ∈ v, IsIpv4 t}

/-- A text that is not empty, or none. -/
abbrev Word (bound : Nat) := {v : Option Text // ∀ t ∈ v, t ≠ [] ∧ t.length ≤ bound}

structure SearchRequest where
  timeFrom : Option Datetime
  timeTo : Option Datetime
  routerIp : Address
  privateIp : Address
  publicIp : Address
  destIp : Address
  privatePort : Option (Set.Icc (0 : Int) 65535)
  publicPort : Option (Set.Icc (0 : Int) 65535)
  destPort : Option (Set.Icc (0 : Int) 65535)
  protocol : Word 16
  subscriberId : Word 128
  subscriberPartial : Bool
  limit : Set.Icc (1 : Int) 10000
  offset : Set.Icc (0 : Int) 1000000
  orderBy : {column : Text // column ∈ SORTABLE}
  descending : Bool

section validators

variable (u : CharTable)

def validIp (ipv6Address : Text → Bool) (repr : Text → Text) (v : Option Text) :
    Except Text (Option Text) :=
  match v with
  | none | some [] => .ok none
  | some v =>
      match ipv4Address (strip u v) with
      | some addr => .ok (some addr.text)
      | none =>
          if ipv6Address (strip u v) then .error "Only IPv4 addresses are stored".toList
          else .error (repr v ++ " is not a valid IP address".toList)

def validOrder (repr : Text → Text) (v : Text) : Except Text Text :=
  if v ∈ SORTABLE then .ok v else .error ("Cannot sort by ".toList ++ repr v)

def blankToNone (v : Option Text) : Option Text :=
  let v := strip u (v.getD [])
  if v = [] then none else some v

theorem isIpv4_of_validIp {ipv6Address : Text → Bool} {repr : Text → Text} {v ip : Option Text}
    (h : validIp u ipv6Address repr v = .ok ip) : ∀ t ∈ ip, IsIpv4 t := by
  unfold validIp at h
  split at h
  · cases h
    nofun
  · cases h
    nofun
  · split at h
    · rename_i addr _
      cases h
      rintro t ⟨⟩
      exact ⟨addr, rfl⟩
    · split at h <;> cases h

theorem mem_sortable_of_validOrder {repr : Text → Text} {v column : Text}
    (h : validOrder repr v = .ok column) : column ∈ SORTABLE := by
  unfold validOrder at h
  split at h
  · cases h
    assumption
  · cases h

/-- Stripping makes no text longer. -/
theorem length_strip_le (t : Text) : (strip u t).length ≤ t.length := by
  have hleft := (List.dropWhile_suffix (l := t) u.isSpace).length_le
  have hright := (List.dropWhile_suffix (l := (t.dropWhile u.isSpace).reverse) u.isSpace).length_le
  rw [List.length_reverse] at hright
  rw [strip, List.length_reverse]
  exact hright.trans hleft

theorem blankToNone_bounds {v : Option Text} {bound : Nat} (h : ∀ t ∈ v, t.length ≤ bound) :
    ∀ t ∈ blankToNone u v, t ≠ [] ∧ t.length ≤ bound := by
  rintro t ht
  dsimp only [blankToNone] at ht
  split at ht
  · cases ht
  · rename_i hne
    cases ht
    refine ⟨hne, (length_strip_le u _).trans ?_⟩
    cases v with
    | none => exact Nat.zero_le _
    | some t => exact h t rfl

end validators

namespace SearchRequest

section fields

variable (u : CharTable) (ipv6Address : Text → Bool) (repr : Text → Text) (name : Text)

/-- `Field(ge=lo, le=hi)`. -/
def number (lo hi n : Int) : Checked (Set.Icc lo hi) :=
  if hlo : lo ≤ n then
    if hhi : n ≤ hi then .ok ⟨n, hlo, hhi⟩ else .error [(name, .lessThanEqual hi)]
  else .error [(name, .greaterThanEqual lo)]

def port (n : Option Int) : Checked (Option (Set.Icc (0 : Int) 65535)) :=
  match n with
  | none => .ok none
  | some n => (number name 0 65535 n).map some

def address (v : Option Text) : Checked Address :=
  match h : validIp u ipv6Address repr v with
  | .ok ip => .ok ⟨ip, isIpv4_of_validIp u h⟩
  | .error message => .error [(name, .valueError message)]

/-- A field with `Field(max_length=bound)`, on which `_blank_to_none` follows. -/
def word (bound : Nat) (v : Option Text) : Checked (Word bound) :=
  if h : ∀ t ∈ v, t.length ≤ bound then .ok ⟨blankToNone u v, blankToNone_bounds u h⟩
  else .error [(name, .stringTooLong bound)]

def order (v : Text) : Checked {column : Text // column ∈ SORTABLE} :=
  match h : validOrder repr v with
  | .ok column => .ok ⟨column, mem_sortable_of_validOrder h⟩
  | .error message => .error [(name, .valueError message)]

end fields

/-- The body of a search is let through if nothing is wrong with any of its fields. -/
def validate (u : CharTable) (ipv6Address : Text → Bool) (repr : Text → Text) (form : SearchForm) :
    Checked SearchRequest :=
  let address := address u ipv6Address repr
  (Checked.field (.ok (SearchRequest.mk form.timeFrom form.timeTo))
    (address "router_ip".toList form.routerIp))
    |>.field (address "private_ip".toList form.privateIp)
    |>.field (address "public_ip".toList form.publicIp)
    |>.field (address "dest_ip".toList form.destIp)
    |>.field (port "private_port".toList form.privatePort)
    |>.field (port "public_port".toList form.publicPort)
    |>.field (port "dest_port".toList form.destPort)
    |>.field (word u "protocol".toList 16 form.protocol)
    |>.field (word u "subscriber_id".toList 128 form.subscriberId)
    |>.field (.ok form.subscriberPartial)
    |>.field (number "limit".toList 1 10000 form.limit)
    |>.field (number "offset".toList 0 1000000 form.offset)
    |>.field (order repr "order_by".toList form.orderBy)
    |>.field (.ok form.descending)

section validation

variable {u : CharTable} {ipv6Address : Text → Bool} {repr : Text → Text} {name : Text}
  {form : SearchForm} {r : SearchRequest}

theorem number_eq_ok {lo hi n : Int} {m : Set.Icc lo hi} (h : number name lo hi n = .ok m) :
    m.val = n := by
  unfold number at h
  split at h
  · split at h <;> cases h
    rfl
  · cases h

theorem port_eq_ok {n : Option Int} {m : Option (Set.Icc (0 : Int) 65535)}
    (h : port name n = .ok m) : m.map Subtype.val = n := by
  cases n with
  | none =>
      cases h
      rfl
  | some n =>
      change (number name 0 65535 n).map some = .ok m at h
      cases hn : number name 0 65535 n with
      | error es =>
          rw [hn] at h
          cases h
      | ok k =>
          rw [hn] at h
          cases h
          exact congrArg some (number_eq_ok hn)

theorem address_eq_ok {v : Option Text} {ip : Address}
    (h : address u ipv6Address repr name v = .ok ip) :
    validIp u ipv6Address repr v = .ok ip.val := by
  unfold address at h
  split at h
  · rename_i hvalid
    cases h
    exact hvalid
  · cases h

theorem word_eq_ok {bound : Nat} {v : Option Text} {w : Word bound}
    (h : word u name bound v = .ok w) :
    (∀ t ∈ v, t.length ≤ bound) ∧ w.val = blankToNone u v := by
  unfold word at h
  split at h
  · rename_i hbound
    cases h
    exact ⟨hbound, rfl⟩
  · cases h

theorem order_eq_ok {v : Text} {column : {column : Text // column ∈ SORTABLE}}
    (h : order repr name v = .ok column) : column.val = v := by
  unfold order at h
  split at h
  · rename_i hvalid
    cases h
    unfold validOrder at hvalid
    split at hvalid <;> cases hvalid
    rfl
  · cases h

/-- A request has what its form says, the texts stripped and the addresses in canonical form. -/
structure Validated (u : CharTable) (ipv6Address : Text → Bool) (repr : Text → Text)
    (form : SearchForm) (r : SearchRequest) : Prop where
  times : r.timeFrom = form.timeFrom ∧ r.timeTo = form.timeTo
  routerIp : validIp u ipv6Address repr form.routerIp = .ok r.routerIp.val
  privateIp : validIp u ipv6Address repr form.privateIp = .ok r.privateIp.val
  publicIp : validIp u ipv6Address repr form.publicIp = .ok r.publicIp.val
  destIp : validIp u ipv6Address repr form.destIp = .ok r.destIp.val
  privatePort : r.privatePort.map Subtype.val = form.privatePort
  publicPort : r.publicPort.map Subtype.val = form.publicPort
  destPort : r.destPort.map Subtype.val = form.destPort
  protocol : (∀ t ∈ form.protocol, t.length ≤ 16) ∧ r.protocol.val = blankToNone u form.protocol
  subscriberId : (∀ t ∈ form.subscriberId, t.length ≤ 128) ∧
    r.subscriberId.val = blankToNone u form.subscriberId
  subscriberPartial : r.subscriberPartial = form.subscriberPartial
  limit : r.limit.val = form.limit
  offset : r.offset.val = form.offset
  orderBy : r.orderBy.val = form.orderBy
  descending : r.descending = form.descending

/-- **A request that is let through** has what its form says. -/
theorem validated_of_validate (h : validate u ipv6Address repr form = .ok r) :
    Validated u ipv6Address repr form r := by
  obtain ⟨_, descending, h₁, hdescending, rfl⟩ := Checked.field_eq_ok.mp h
  obtain ⟨_, orderBy, h₂, horderBy, rfl⟩ := Checked.field_eq_ok.mp h₁
  obtain ⟨_, offset, h₃, hoffset, rfl⟩ := Checked.field_eq_ok.mp h₂
  obtain ⟨_, limit, h₄, hlimit, rfl⟩ := Checked.field_eq_ok.mp h₃
  obtain ⟨_, subscriberPartial, h₅, hpart, rfl⟩ := Checked.field_eq_ok.mp h₄
  obtain ⟨_, subscriberId, h₆, hsubscriberId, rfl⟩ := Checked.field_eq_ok.mp h₅
  obtain ⟨_, protocol, h₇, hprotocol, rfl⟩ := Checked.field_eq_ok.mp h₆
  obtain ⟨_, destPort, h₈, hdestPort, rfl⟩ := Checked.field_eq_ok.mp h₇
  obtain ⟨_, publicPort, h₉, hpublicPort, rfl⟩ := Checked.field_eq_ok.mp h₈
  obtain ⟨_, privatePort, h₁₀, hprivatePort, rfl⟩ := Checked.field_eq_ok.mp h₉
  obtain ⟨_, destIp, h₁₁, hdestIp, rfl⟩ := Checked.field_eq_ok.mp h₁₀
  obtain ⟨_, publicIp, h₁₂, hpublicIp, rfl⟩ := Checked.field_eq_ok.mp h₁₁
  obtain ⟨_, privateIp, h₁₃, hprivateIp, rfl⟩ := Checked.field_eq_ok.mp h₁₂
  obtain ⟨_, routerIp, h₁₄, hrouterIp, rfl⟩ := Checked.field_eq_ok.mp h₁₃
  cases h₁₄
  exact {
    times := ⟨rfl, rfl⟩
    routerIp := address_eq_ok hrouterIp
    privateIp := address_eq_ok hprivateIp
    publicIp := address_eq_ok hpublicIp
    destIp := address_eq_ok hdestIp
    privatePort := port_eq_ok hprivatePort
    publicPort := port_eq_ok hpublicPort
    destPort := port_eq_ok hdestPort
    protocol := word_eq_ok hprotocol
    subscriberId := word_eq_ok hsubscriberId
    subscriberPartial := (Except.ok.inj hpart).symm
    limit := number_eq_ok hlimit
    offset := number_eq_ok hoffset
    orderBy := order_eq_ok horderBy
    descending := (Except.ok.inj hdescending).symm }

/-- A check that names its field in what it finds wrong. -/
def Names {α : Type} (name : Text) (x : Checked α) : Prop := (x.errors.map Prod.fst).Sublist [name]

theorem names_number {lo hi n : Int} : Names name (number name lo hi n) := by
  rw [Names, number]
  split
  · split
    · exact List.nil_sublist _
    · exact List.Sublist.refl _
  · exact List.Sublist.refl _

theorem names_port {n : Option Int} : Names name (port name n) := by
  cases n with
  | none => exact List.nil_sublist _
  | some n =>
      have hnumber : Names name (number name 0 65535 n) := names_number
      rw [Names, port]
      cases hn : number name 0 65535 n with
      | error es =>
          rw [hn] at hnumber
          exact hnumber
      | ok k => exact List.nil_sublist _

theorem names_address {v : Option Text} : Names name (address u ipv6Address repr name v) := by
  rw [Names, address]
  split
  · exact List.nil_sublist _
  · exact List.Sublist.refl _

theorem names_word {bound : Nat} {v : Option Text} : Names name (word u name bound v) := by
  rw [Names, word]
  split
  · exact List.nil_sublist _
  · exact List.Sublist.refl _

theorem names_order {v : Text} : Names name (order repr name v) := by
  rw [Names, order]
  split
  · exact List.nil_sublist _
  · exact List.Sublist.refl _

def checkedFields : List Text :=
  [] ++ ["router_ip".toList] ++ ["private_ip".toList] ++ ["public_ip".toList] ++ ["dest_ip".toList] ++
    ["private_port".toList] ++ ["public_port".toList] ++ ["dest_port".toList] ++ ["protocol".toList] ++
      ["subscriber_id".toList] ++ ["limit".toList] ++ ["offset".toList] ++ ["order_by".toList]

/-- One more field. -/
theorem Names.field {α β : Type} {names : List Text} {f : Checked (α → β)} {x : Checked α}
    (hf : (f.errors.map Prod.fst).Sublist names) (hx : Names name x) :
    ((f.field x).errors.map Prod.fst).Sublist (names ++ [name]) := by
  rw [Checked.errors_field, List.map_append]
  exact hf.append hx

/-- A field that is not checked. -/
theorem names_unchecked {α β : Type} {names : List Text} {f : Checked (α → β)} {a : α}
    (hf : (f.errors.map Prod.fst).Sublist names) :
    ((f.field (.ok a)).errors.map Prod.fst).Sublist names := by
  rw [Checked.errors_field]
  exact (List.append_nil f.errors).symm ▸ hf

/-- **What is wrong with a form** is said once for each field, in the order of the fields. -/
theorem names_validate :
    ((validate u ipv6Address repr form).errors.map Prod.fst).Sublist checkedFields := by
  unfold validate checkedFields
  refine names_unchecked (Names.field ?_ names_order)
  refine Names.field (Names.field ?_ names_number) names_number
  refine names_unchecked (Names.field (Names.field ?_ names_word) names_word)
  refine Names.field (Names.field (Names.field ?_ names_port) names_port) names_port
  refine Names.field (Names.field (Names.field ?_ names_address) names_address) names_address
  exact Names.field (List.nil_sublist _) names_address

end validation

/-! ## The query -/

section queries

variable (u : CharTable) (r : SearchRequest)

/-- An attribute of a request; its value is none if there is no such attribute. -/
def getattr (name : Text) : PyValue :=
  let text (v : Option Text) : PyValue := v.elim .none .str
  let number (n : Option (Set.Icc (0 : Int) 65535)) : PyValue := n.elim .none (.int ·.val)
  let attributes := [("router_ip".toList, text r.routerIp), ("private_ip".toList, text r.privateIp),
    ("public_ip".toList, text r.publicIp), ("dest_ip".toList, text r.destIp),
    ("private_port".toList, number r.privatePort), ("public_port".toList, number r.publicPort),
    ("dest_port".toList, number r.destPort), ("protocol".toList, text r.protocol)]
  (attributes.lookup name).getD .none

/-- The value of a filter.  The protocol is compared in upper case. -/
def filterValue (name : Text) : PyValue :=
  match r.getattr name with
  | .str t => if name = "protocol".toList then .str (upper u t) else .str t
  | value => value

/-- The dictionary of the filters that are given. -/
def exact : List (Text × PyValue) :=
  (EXACT_FILTERS.map Prod.fst).filterMap fun name ↦
    if (r.getattr name).blank then none else some (name, r.filterValue u name)

theorem exact_names : ((r.exact u).map Prod.fst).Sublist (EXACT_FILTERS.map Prod.fst) := by
  have hfilter : ∀ names : List Text, ((names.filterMap fun name ↦
      if (r.getattr name).blank then none else some (name, r.filterValue u name)).map
        Prod.fst).Sublist names := by
    intro names
    induction names with
    | nil => exact .slnil
    | cons name names ih =>
        rw [List.filterMap_cons]
        cases (r.getattr name).blank with
        | true => exact ih.cons name
        | false => exact ih.cons_cons name
  exact hfilter _

/-- The keys of the dictionary are pairwise different. -/
theorem exact_nodup : ((r.exact u).map Prod.fst).Nodup := (r.exact_names u).nodup (by decide)

/-- A filter that is given is in the dictionary. -/
theorem lookup_exact {name : Text} (hname : name ∈ EXACT_FILTERS.map Prod.fst)
    (hblank : (r.getattr name).blank = false) :
    (r.exact u).lookup name = some (r.filterValue u name) := by
  have hfilter : ∀ names : List Text, name ∈ names → (names.filterMap fun name ↦
      if (r.getattr name).blank then none else some (name, r.filterValue u name)).lookup name =
        some (r.filterValue u name) := by
    intro names hmem
    induction names with
    | nil => cases hmem
    | cons first names ih =>
        rw [List.filterMap_cons]
        by_cases hfirst : name = first
        · subst hfirst
          rw [hblank]
          exact List.lookup_cons_self
        · have ih := ih ((List.mem_cons.mp hmem).resolve_left hfirst)
          cases (r.getattr first).blank with
          | true => exact ih
          | false =>
              rw [if_neg Bool.false_ne_true, List.lookup_cons, beq_false_of_ne hfirst]
              exact ih
  exact hfilter _ hname

/-- The filter of the protocol. -/
theorem lookup_exact_protocol {t : Text} (h : r.protocol.val = some t) :
    (r.exact u).lookup "protocol".toList = some (.str (upper u t)) := by
  have hne : t ≠ [] := (r.protocol.2 t h).1
  have hattr : r.getattr "protocol".toList = .str t := by
    show r.protocol.val.elim PyValue.none PyValue.str = .str t
    rw [h]
    rfl
  have hblank : (r.getattr "protocol".toList).blank = false := by
    rw [hattr]
    exact List.isEmpty_eq_false_iff.mpr hne
  rw [lookup_exact u r (by decide) hblank, filterValue, hattr]
  rfl

/-- An exception of the arithmetic of datetimes, which is no `ValueError`. -/
def raising {α : Type} (x : Except Datetime.Error α) : Except PyError α :=
  x.mapError fun _ ↦ .other

def ends (now : Datetime) : Except PyError (Datetime × Datetime) := do
  let timeTo := r.timeTo.getD now
  match r.timeFrom with
  | some timeFrom => return (timeFrom, timeTo)
  | none => return (← raising (timeTo.earlier Datetime.day), timeTo)

def checkWindow (timeFrom timeTo : Datetime) : Except PyError Unit := do
  if ← raising (timeFrom.gt timeTo) then
    throw (.valueError "The start of the range is after the end.".toList)
  if MAX_WINDOW_DAYS * Datetime.day < (← raising (timeTo.sub timeFrom)) then
    throw (.valueError ("Narrow the range to ".toList ++ Nat.toDigits 10 MAX_WINDOW_DAYS ++
      " days or fewer.".toList))

def query (timeFrom timeTo : Datetime) : SearchQuery Datetime where
  timeFrom := timeFrom
  timeTo := timeTo
  exact := r.exact u
  subscriberId := r.subscriberId
  subscriberPartial := r.subscriberPartial
  limit := r.limit
  offset := r.offset
  orderBy := r.orderBy
  descending := r.descending
  exact_nodup := r.exact_nodup u

def toQuery (now : Datetime) : Except PyError (SearchQuery Datetime) := do
  let (timeFrom, timeTo) ← r.ends now
  checkWindow timeFrom timeTo
  return r.query u timeFrom timeTo

end queries

end SearchRequest

/-! ## The endpoints -/

namespace SearchApi

/-- What a handler raises: an answer, or an exception that it does not expect. -/
inductive Raised where
  | http (e : HTTPException)
  | escaped (e : PyError)
deriving DecidableEq

variable {α : Type} (u : CharTable) (now : Datetime) (service : SearchQuery Datetime → Except PyError α)
  (payload : SearchRequest)

/-- A handler: the query is made, and the service answers it. -/
def handle (unavailable : Text) : Except Raised (SearchQuery Datetime × α) :=
  match payload.toQuery u now with
  | .ok query =>
      match service query with
      | .ok result => .ok (query, result)
      | .error _ => .error (.http ⟨503, unavailable⟩)
  | .error (.valueError message) => .error (.http ⟨400, message⟩)
  | .error e => .error (.escaped e)

/-- `search`, up to its answer. -/
def searchQuery : Except Raised (SearchQuery Datetime × α) :=
  handle u now service payload
    "The log database did not answer. Check ClickHouse and try again.".toList

/-- `count`, up to its answer. -/
def countQuery : Except Raised (SearchQuery Datetime × α) :=
  handle u now service payload "Counting timed out. Narrow the time range and try again.".toList

end SearchApi

namespace SearchRequest

variable (u : CharTable) (r : SearchRequest) (now : Datetime)

/-- A window that starts no later than it ends, and is no longer than is allowed. -/
def InWindow (q : SearchQuery Datetime) : Prop :=
  q.timeFrom.le q.timeTo = .ok true ∧
    ∃ span, q.timeTo.sub q.timeFrom = .ok span ∧ span ≤ MAX_WINDOW_DAYS * Datetime.day

/-- The window is checked: a query has one that is allowed, and what else is raised the endpoints turn
into an answer. -/
def WindowChecked : Prop :=
  (∃ q, r.toQuery u now = .ok q ∧ InWindow q) ∨
    ∃ message, r.toQuery u now = .error (.valueError message) ∧
      ∀ (α : Type) (service : SearchQuery Datetime → Except PyError α),
        SearchApi.searchQuery u now service r = .error (.http ⟨400, message⟩) ∧
          SearchApi.countQuery u now service r = .error (.http ⟨400, message⟩)

/-- The ends of the window can be compared; where its start is left out, there is a day before its end. -/
def Timed : Prop :=
  match r.timeFrom with
  | some timeFrom => timeFrom.Comparable (r.timeTo.getD now)
  | none => Datetime.day ≤ (r.timeTo.getD now).wall

section windows

variable {u r now} {timeFrom timeTo : Datetime}

/-- **Two ends that can be compared** make a window that is allowed, or are rejected. -/
theorem checkWindow_of_comparable (h : timeFrom.Comparable timeTo) :
    checkWindow timeFrom timeTo = .ok () ∧ timeFrom.instant ≤ timeTo.instant ∧
        timeTo.instant - timeFrom.instant ≤ MAX_WINDOW_DAYS * Datetime.day ∨
      ∃ message, checkWindow timeFrom timeTo = .error (.valueError message) := by
  rw [checkWindow, Datetime.gt_of_comparable h, Datetime.sub_of_comparable h.symm]
  by_cases hafter : timeTo.instant < timeFrom.instant
  · rw [decide_eq_true hafter]
    exact .inr ⟨_, rfl⟩
  · rw [decide_eq_false hafter]
    by_cases hlong : MAX_WINDOW_DAYS * Datetime.day < timeTo.instant - timeFrom.instant
    · exact .inr ⟨_, if_pos hlong⟩
    · exact .inl ⟨if_neg hlong, not_lt.mp hafter, not_lt.mp hlong⟩

/-- Two ends that cannot be compared raise what no handler expects. -/
theorem checkWindow_of_not_comparable (h : ¬timeFrom.Comparable timeTo) :
    checkWindow timeFrom timeTo = .error .other := by
  rw [checkWindow, Datetime.gt_of_not_comparable h]
  rfl

/-- The ends of a window that is timed. -/
theorem exists_ends (h : r.Timed now) :
    ∃ timeFrom timeTo, r.ends now = .ok (timeFrom, timeTo) ∧ timeFrom.Comparable timeTo := by
  rw [Timed] at h
  rw [ends]
  cases hfrom : r.timeFrom with
  | some timeFrom =>
      rw [hfrom] at h
      exact ⟨timeFrom, _, rfl, h⟩
  | none =>
      rw [hfrom] at h
      obtain ⟨timeFrom, hok, hcomparable, -⟩ := Datetime.exists_earlier h
      refine ⟨timeFrom, _, ?_, hcomparable⟩
      rw [hok]
      rfl

/-- A window that is not timed raises what no handler expects. -/
theorem toQuery_of_not_timed (h : ¬r.Timed now) : r.toQuery u now = .error .other := by
  rw [Timed] at h
  rw [toQuery, ends]
  cases hfrom : r.timeFrom with
  | some timeFrom =>
      rw [hfrom] at h
      show (checkWindow _ _ >>= _) = _
      rw [checkWindow_of_not_comparable h]
      rfl
  | none =>
      rw [hfrom] at h
      rw [Datetime.earlier_of_lt (not_le.mp h)]
      rfl

/-- **A window that is timed** is checked. -/
theorem windowChecked_of_timed (h : r.Timed now) : WindowChecked u r now := by
  obtain ⟨timeFrom, timeTo, hends, hcomparable⟩ := exists_ends h
  have hquery : r.toQuery u now =
      checkWindow timeFrom timeTo >>= fun _ ↦ .ok (r.query u timeFrom timeTo) := by
    rw [toQuery, hends]
    rfl
  rcases checkWindow_of_comparable hcomparable with ⟨hok, hle, hspan⟩ | ⟨message, herror⟩
  · rw [hok] at hquery
    refine .inl ⟨_, hquery, ?_, _, Datetime.sub_of_comparable hcomparable.symm, hspan⟩
    exact (Datetime.le_of_comparable hcomparable).trans (congrArg _ (decide_eq_true hle))
  · rw [herror] at hquery
    refine .inr ⟨message, hquery, fun α service ↦ ⟨?_, ?_⟩⟩
    · rw [SearchApi.searchQuery, SearchApi.handle, hquery]
      rfl
    · rw [SearchApi.countQuery, SearchApi.handle, hquery]
      rfl

theorem not_windowChecked_of_not_timed (h : ¬r.Timed now) : ¬WindowChecked u r now := by
  rw [WindowChecked, toQuery_of_not_timed h]
  rintro (⟨q, hq, -⟩ | ⟨message, hmessage, -⟩)
  · cases hq
  · cases hmessage

/-- A query is that of its request for some window. -/
theorem exists_query_of_toQuery {q : SearchQuery Datetime} (h : r.toQuery u now = .ok q) :
    ∃ timeFrom timeTo, q = r.query u timeFrom timeTo := by
  rw [toQuery] at h
  cases hends : r.ends now with
  | error e =>
      rw [hends] at h
      cases h
  | ok ends =>
      rw [hends] at h
      change (checkWindow ends.1 ends.2 >>= _) = _ at h
      cases hcheck : checkWindow ends.1 ends.2 with
      | error e =>
          rw [hcheck] at h
          cases h
      | ok x =>
          rw [hcheck] at h
          exact ⟨ends.1, ends.2, (Except.ok.inj h).symm⟩

/-- **A query has the bounds of its request**, and filters that the service knows. -/
theorem valid_of_toQuery {q : SearchQuery Datetime} (h : r.toQuery u now = .ok q) :
    q.Valid ∧ q.Known := by
  obtain ⟨timeFrom, timeTo, rfl⟩ := exists_query_of_toQuery h
  refine ⟨⟨r.limit.2, r.offset.2, r.orderBy.2⟩, fun item hitem ↦ ?_⟩
  exact (r.exact_names u).subset (List.mem_map_of_mem hitem)

/-- **The window of a search is checked** exactly if it is timed. -/
theorem search_window_iff (u : CharTable) (r : SearchRequest) (n : Fin Datetime.limit) :
    WindowChecked u r (.naive n) ↔ r.Timed (.naive n) :=
  ⟨fun h ↦ of_not_not fun htimed ↦ not_windowChecked_of_not_timed htimed h, windowChecked_of_timed⟩

/-- A start with an offset, and no end. -/
theorem search_window_not_checked : ¬∀ (form : SearchForm) (r : SearchRequest)
    (n : Fin Datetime.limit), validate .ascii (fun _ ↦ false) id form = .ok r →
      WindowChecked .ascii r (.naive n) := by
  intro h
  have hchecked := h { timeFrom := some ⟨63839664000000000, some 0, by decide, by decide⟩ }
    _ ⟨63839700000000000, by decide⟩ rfl
  refine not_windowChecked_of_not_timed (fun hsome ↦ ?_) hchecked
  exact absurd (show true = false from hsome) (by decide)

end windows

end SearchRequest

end LogServer
