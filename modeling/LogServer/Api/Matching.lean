import LogServer.Api.Paging
import LogServer.Api.SearchRequest
import LogServer.Services.Rows

/-!
# What a search finds

The clauses of a search as ClickHouse understands them: a column and a parameter are read as values of the
type of the parameter, and compared.  A search of known filters selects the rows that have all that it asks
for (`holds_clauses`), and of the row of a record this means what the form says: the fields of the record are
those of the filters, and its subscriber is the one that is looked for (`holds_inserted_iff`).
-/

namespace LogServer

variable {δ : Type}

/-! ## Types -/

inductive Datum where
  | second (n : Int)
  | address (x : Ipv4)
  | number (n : Int)
  | string (t : Text)
deriving DecidableEq

/-- A field read as a value of a type; another field is none of its values. -/
def Datum.read (clock : Clock δ) (chType : Text) : Field δ → Option Datum
  | .datetime d => if chType = "DateTime".toList then some (.second (clock.timestamp d)) else none
  | .value (.str t) =>
      if chType = "IPv4".toList then (ipv4Address t).map .address
      else if chType = "String".toList then some (.string t) else none
  | .value (.int n) =>
      if chType = "UInt16".toList ∧ 0 ≤ n ∧ n < 2 ^ 16 then some (.number n) else none
  | _ => none

theorem parseOctet_octetText : ∀ n : Fin 256, parseOctet (octetText n) = some n := by decide +kernel

/-- The canonical form of an address is read back. -/
theorem ipv4Address_text (x : Ipv4) : ipv4Address x.text = some x := by
  have hdot : ∀ n : Fin 256, '.' ∉ octetText n := by
    intro n hmem
    exact absurd (isDigit_of_mem_octetText hmem) (by decide)
  rw [ipv4Address, Ipv4.text, List.splitOn_append_cons_self_of_not_mem (hdot x.a),
    List.splitOn_append_cons_self_of_not_mem (hdot x.b),
    List.splitOn_append_cons_self_of_not_mem (hdot x.c), List.splitOn_eq_singleton (hdot x.d)]
  dsimp only
  rw [parseOctet_octetText, parseOctet_octetText, parseOctet_octetText, parseOctet_octetText]
  rfl

inductive Canonical : Text → PyValue → Prop
  | address {t : Text} : IsIpv4 t → Canonical "IPv4".toList (.str t)
  | number {n : Int} : 0 ≤ n → n < 2 ^ 16 → Canonical "UInt16".toList (.int n)
  | string {t : Text} : Canonical "String".toList (.str t)

theorem read_datetime (clock : Clock δ) (x : δ) :
    Datum.read clock "DateTime".toList (.datetime x) = some (.second (clock.timestamp x)) := by
  rw [Datum.read, if_pos rfl]

theorem read_string (clock : Clock δ) (t : Text) :
    Datum.read clock "String".toList (.value (.str t)) = some (.string t) := by
  rw [Datum.read, if_neg (by decide), if_pos rfl]

/-- Values that are written canonically are equal if they are read as equal. -/
theorem Canonical.read_eq_iff (clock : Clock δ) {chType : Text} {x y : PyValue}
    (hx : Canonical chType x) (hy : Canonical chType y) :
    (∃ v, Datum.read clock chType (.value x) = some v ∧ Datum.read clock chType (.value y) = some v) ↔
      x = y := by
  have haddress : ∀ a : Ipv4, Datum.read clock "IPv4".toList (.value (.str a.text)) =
      some (.address a) := by
    intro a
    rw [Datum.read, if_pos rfl, ipv4Address_text]
    rfl
  have hnumber : ∀ n : Int, 0 ≤ n → n < 2 ^ 16 →
      Datum.read clock "UInt16".toList (.value (.int n)) = some (.number n) :=
    fun n hn hlt ↦ if_pos ⟨rfl, hn, hlt⟩
  have hstring : ∀ t : Text, Datum.read clock "String".toList (.value (.str t)) =
      some (.string t) := read_string clock
  generalize htype : chType = type at hy
  cases hx with
  | address hx =>
      cases hy with
      | address hy =>
          obtain ⟨a, rfl⟩ := hx
          obtain ⟨b, rfl⟩ := hy
          rw [haddress, haddress]
          constructor
          · rintro ⟨v, hv, hv'⟩
            cases hv
            cases hv'
            rfl
          · intro heq
            refine ⟨_, rfl, ?_⟩
            have hread := haddress b
            rw [← PyValue.str.inj heq, haddress] at hread
            exact hread.symm
      | number => exact absurd htype (by decide)
      | string => exact absurd htype (by decide)
  | number hn hlt =>
      cases hy with
      | address => exact absurd htype (by decide)
      | number hn' hlt' =>
          rw [hnumber _ hn hlt, hnumber _ hn' hlt']
          constructor
          · rintro ⟨v, hv, hv'⟩
            cases hv
            cases hv'
            rfl
          · rintro ⟨⟩
            exact ⟨_, rfl, rfl⟩
      | string => exact absurd htype (by decide)
  | string =>
      cases hy with
      | address => exact absurd htype (by decide)
      | number => exact absurd htype (by decide)
      | string =>
          rw [hstring, hstring]
          constructor
          · rintro ⟨v, hv, hv'⟩
            cases hv
            cases hv'
            rfl
          · rintro ⟨⟩
            exact ⟨_, rfl, rfl⟩

/-! ## Clauses -/

def columnOf (row : List (Field δ)) (column : Text) : Option (Field δ) := (COLUMNS.zip row).lookup column

/-- `positionCaseInsensitive` knows the letters of ASCII. -/
def asciiLower (t : Text) : Text := t.map Char.toLower

namespace Clause

def compares : Clause → Datum → Datum → Bool
  | timeFrom, .second a, .second b => b ≤ a
  | timeTo, .second a, .second b => a ≤ b
  | equals _ _ _, x, y => x = y
  | subscriberPartial, .string t, .string id => asciiLower id <:+: asciiLower t
  | subscriber, x, y => x = y
  | _, _, _ => false

variable (clock : Clock δ) (row : List (Field δ))

/-- A clause holds of a row, for a value of its parameter. -/
def holdsFor (value : Field δ) (clause : Clause) : Bool :=
  match (columnOf row clause.column).bind (Datum.read clock clause.parameter.2),
      Datum.read clock clause.parameter.2 value with
  | some x, some y => clause.compares x y
  | _, _ => false

/-- A clause holds of a row, for the parameters of a statement. -/
def holds (params : Params δ) (clause : Clause) : Bool :=
  (params.lookup clause.parameter.1).any fun value ↦ clause.holdsFor clock row value

end Clause

/-- ClickHouse compares as its types say. -/
def LogTable.Lawful {κ : Type} (clock : Clock δ) (t : LogTable δ (List (Field δ)) κ) : Prop :=
  ∀ clauses params row, t.holds clauses params row =
    clauses.all fun clause ↦ clause.holds clock row params

/-- A clause holds of a row if the two values of its type compare. -/
theorem Clause.holdsFor_iff {clock : Clock δ} {row : List (Field δ)} {clause : Clause}
    {field value : Field δ} (hcolumn : columnOf row clause.column = some field) :
    clause.holdsFor clock row value = true ↔ ∃ x y,
      Datum.read clock clause.parameter.2 field = some x ∧
        Datum.read clock clause.parameter.2 value = some y ∧ clause.compares x y = true := by
  rw [Clause.holdsFor, hcolumn, Option.bind_some]
  cases Datum.read clock clause.parameter.2 field with
  | none => exact ⟨nofun, fun ⟨x, y, hx, _⟩ ↦ by cases hx⟩
  | some x =>
      cases Datum.read clock clause.parameter.2 value with
      | none => exact ⟨nofun, fun ⟨x, y, _, hy, _⟩ ↦ by cases hy⟩
      | some y =>
          constructor
          · exact fun h ↦ ⟨x, y, rfl, rfl, h⟩
          · rintro ⟨_, _, ⟨⟩, ⟨⟩, h⟩
            exact h

/-- In a dictionary a key has one value. -/
theorem lookup_eq_some_iff_mem {β : Type} {items : List (Text × β)} (hnodup : (items.map Prod.fst).Nodup)
    {name : Text} {value : β} : items.lookup name = some value ↔ (name, value) ∈ items := by
  rw [List.lookup_eq_some_iff]
  constructor
  · rintro ⟨before, after, rfl, -⟩
    exact List.mem_append_right before List.mem_cons_self
  · intro hmem
    obtain ⟨before, after, rfl⟩ := List.append_of_mem hmem
    rw [List.map_append, List.nodup_append] at hnodup
    refine ⟨before, after, rfl, fun x hx ↦ bne_iff_ne.mpr fun heq ↦ ?_⟩
    exact hnodup.2.2 x.1 (List.mem_map_of_mem hx) name List.mem_cons_self heq.symm

/-- What is in one of two lists that match has a counterpart in the other. -/
theorem exists_mem_of_forall₂ {α β : Type} {R : α → β → Prop} {l : List α} {l' : List β}
    (h : List.Forall₂ R l l') {a : α} (ha : a ∈ l) : ∃ b ∈ l', R a b := by
  induction h with
  | nil => cases ha
  | cons hab h ih =>
      rcases List.mem_cons.mp ha with rfl | ha
      · exact ⟨_, List.mem_cons_self, hab⟩
      · obtain ⟨b, hb, hr⟩ := ih ha
        exact ⟨b, List.mem_cons_of_mem _ hb, hr⟩

section holds

variable {q : SearchQuery δ} {clock : Clock δ} {row : List (Field δ)}

/-- A parameter of a query is found under its name. -/
theorem lookup_params (h : q.Known) {name : Text} {value : Field δ} (hmem : (name, value) ∈ q.params) :
    q.params.lookup name = some value := by
  have hnodup : ((q.params ++ []).map Prod.fst).Nodup := nodup_names h (List.nil_sublist _)
  rw [List.append_nil] at hnodup
  exact (lookup_eq_some_iff_mem hnodup).mpr hmem

/-- The value that a clause asks for is the one that is bound. -/
theorem SearchQuery.Asks.mem_params {clause : Clause} {value : Field δ} (h : q.Asks clause value) :
    (clause.parameter.1, value) ∈ q.params := by
  cases h with
  | timeFrom => exact List.mem_append_left _ (List.mem_append_left _ List.mem_cons_self)
  | timeTo =>
      exact List.mem_append_left _ (List.mem_append_left _ (List.mem_cons_of_mem _ List.mem_cons_self))
  | exact hexact hblank hfilter =>
      refine List.mem_append_left _ (List.mem_append_right _ (List.mem_map.mpr ?_))
      exact ⟨_, mem_filters.mpr ⟨hexact, hblank⟩, rfl⟩
  | subscriberPartial hid hne hpart =>
      rw [SearchQuery.params, subscriber_eq_some.mpr ⟨hid, hne⟩]
      exact List.mem_append_right _ List.mem_cons_self
  | subscriber hid hne hpart =>
      rw [SearchQuery.params, subscriber_eq_some.mpr ⟨hid, hne⟩]
      exact List.mem_append_right _ List.mem_cons_self

/-- Each clause asks for something. -/
theorem exists_asks (h : q.Known) {clause : Clause} (hclause : clause ∈ q.clauses) :
    ∃ value, q.Asks clause value := by
  obtain ⟨param, -, -, hasks⟩ := exists_mem_of_forall₂ (forall₂_params h) hclause
  exact ⟨param.2, hasks⟩

/-- **A search selects the rows that have what it asks for.** -/
theorem holds_clauses (h : q.Known) :
    (q.clauses.all fun clause ↦ clause.holds clock row q.params) = true ↔
      ∀ clause value, q.Asks clause value → clause.holdsFor clock row value = true := by
  have hholds : ∀ clause value, q.Asks clause value →
      clause.holds clock row q.params = clause.holdsFor clock row value := by
    intro clause value hasks
    rw [Clause.holds, lookup_params h hasks.mem_params]
    rfl
  rw [List.all_eq_true]
  constructor
  · intro hall clause value hasks
    rw [← hholds clause value hasks]
    exact hall clause hasks.mem_clauses
  · intro hall clause hclause
    obtain ⟨value, hasks⟩ := exists_asks h hclause
    rw [hholds clause value hasks]
    exact hall clause value hasks

end holds

/-! ## Records -/

/-- What a record has under the names of the equality filters. -/
def ParsedLog.attributes (log : ParsedLog) (routerIp : Text) : List (Text × PyValue) :=
  [("router_ip".toList, .str routerIp), ("private_ip".toList, .str log.privateIp),
    ("public_ip".toList, .str log.publicIp), ("dest_ip".toList, .str log.destIp),
    ("private_port".toList, .int log.privatePort), ("public_port".toList, .int log.publicPort),
    ("dest_port".toList, .int log.destPort), ("protocol".toList, .str log.protocol)]

/-- The filters that are given are written canonically. -/
def SearchQuery.Typed (q : SearchQuery δ) : Prop :=
  ∀ item ∈ q.filters, ∀ filter ∈ EXACT_FILTERS, filter.1 = item.1 → Canonical filter.2.2 item.2

/-- A record has all that a query asks for. -/
structure ParsedLog.Answers (log : ParsedLog) (clock : Clock δ) (d : δ) (routerIp : Text)
    (q : SearchQuery δ) : Prop where
  window : clock.timestamp q.timeFrom ≤ clock.timestamp d ∧
    clock.timestamp d ≤ clock.timestamp q.timeTo
  filters : ∀ item ∈ q.filters, item ∈ log.attributes routerIp
  subscriber : ∀ id ∈ q.subscriber, if q.subscriberPartial = true then
    asciiLower id <:+: asciiLower log.subscriberId else log.subscriberId = id

section records

variable {clock : Clock δ} {log : ParsedLog} {d : δ} {routerIp : Text} {q : SearchQuery δ}

theorem columnOf_inserted {column : Text} {value : Field δ}
    (hmem : (column, value) ∈ COLUMNS.zip (log.inserted d routerIp)) :
    columnOf (log.inserted d routerIp) column = some value := by
  have hlength : COLUMNS.length ≤ (log.inserted d routerIp).length := le_rfl
  refine (lookup_eq_some_iff_mem ?_).mpr hmem
  rw [List.map_fst_zip hlength]
  decide +kernel

theorem lookup_attributes {name : Text} {value : PyValue} :
    (log.attributes routerIp).lookup name = some value ↔ (name, value) ∈ log.attributes routerIp := by
  have hnodup : ((log.attributes routerIp).map Prod.fst).Nodup :=
    show (EXACT_FILTERS.map Prod.fst).Nodup by decide +kernel
  exact lookup_eq_some_iff_mem hnodup

/-- **The filters and the columns agree**: the column of a filter holds what the record has under the name
of the filter. -/
theorem forall₂_attributes (hlog : log.WellFormed) (hrouter : IsIpv4 routerIp) :
    List.Forall₂ (fun filter (item : Text × PyValue) ↦ filter.1 = item.1 ∧
        columnOf (log.inserted d routerIp) filter.2.1 = some (.value item.2) ∧
          Canonical filter.2.2 item.2) EXACT_FILTERS (log.attributes routerIp) := by
  have hport : ∀ {n : Nat}, n ≤ 65535 → Canonical "UInt16".toList (.int n) :=
    fun h ↦ .number (by omega) (by omega)
  have hcolumn : ∀ {column : Text} {value : Field δ},
      (column, value) ∈ COLUMNS.zip (log.inserted d routerIp) →
        columnOf (log.inserted d routerIp) column = some value := columnOf_inserted
  rw [zip_columns_inserted] at hcolumn
  refine .cons ⟨rfl, hcolumn (by simp), .address hrouter⟩ ?_
  refine .cons ⟨rfl, hcolumn (by simp), .address hlog.privateIp⟩ ?_
  refine .cons ⟨rfl, hcolumn (by simp), .address hlog.publicIp⟩ ?_
  refine .cons ⟨rfl, hcolumn (by simp), .address hlog.destIp⟩ ?_
  refine .cons ⟨rfl, hcolumn (by simp), hport hlog.privatePort⟩ ?_
  refine .cons ⟨rfl, hcolumn (by simp), hport hlog.publicPort⟩ ?_
  refine .cons ⟨rfl, hcolumn (by simp), hport hlog.destPort⟩ ?_
  exact .cons ⟨rfl, hcolumn (by simp), .string⟩ .nil

/-- A filter holds of a record that has its value. -/
theorem holdsFor_equals_iff (hlog : log.WellFormed) (hrouter : IsIpv4 routerIp)
    {filter : Text × Text × Text} (hfilter : filter ∈ EXACT_FILTERS) {value : PyValue}
    (hvalue : Canonical filter.2.2 value) :
    (Clause.equals filter.2.1 filter.1 filter.2.2).holdsFor clock (log.inserted d routerIp)
      (.value value) = true ↔ (filter.1, value) ∈ log.attributes routerIp := by
  obtain ⟨item, hitem, hname, hcolumn, hcanonical⟩ :=
    exists_mem_of_forall₂ (forall₂_attributes (d := d) hlog hrouter) hfilter
  have hsame : (filter.1, value) ∈ log.attributes routerIp ↔ item.2 = value := by
    rw [← lookup_attributes, hname, lookup_attributes.mpr hitem, Option.some.injEq]
  rw [hsame, ← hcanonical.read_eq_iff clock hvalue, Clause.holdsFor_iff hcolumn]
  constructor
  · rintro ⟨x, y, hx, hy, heq⟩
    obtain rfl := of_decide_eq_true heq
    exact ⟨x, hx, hy⟩
  · rintro ⟨x, hx, hy⟩
    exact ⟨x, x, hx, hy, decide_eq_true rfl⟩

/-- The bounds of the window hold of a record of that time. -/
theorem holdsFor_times {t : δ} :
    (Clause.timeFrom.holdsFor clock (log.inserted d routerIp) (.datetime t) = true ↔
      clock.timestamp t ≤ clock.timestamp d) ∧
    (Clause.timeTo.holdsFor clock (log.inserted d routerIp) (.datetime t) = true ↔
      clock.timestamp d ≤ clock.timestamp t) := by
  have hcolumn : columnOf (log.inserted d routerIp) "timestamp".toList = some (.datetime d) :=
    columnOf_inserted (zip_columns_inserted log d routerIp ▸ List.mem_cons_self)
  constructor
  · rw [Clause.holdsFor_iff hcolumn]
    constructor
    · rintro ⟨x, y, hx, hy, hle⟩
      obtain rfl := Option.some.inj ((read_datetime clock d).symm.trans hx)
      obtain rfl := Option.some.inj ((read_datetime clock t).symm.trans hy)
      exact of_decide_eq_true hle
    · exact fun hle ↦ ⟨_, _, read_datetime clock d, read_datetime clock t, decide_eq_true hle⟩
  · rw [Clause.holdsFor_iff hcolumn]
    constructor
    · rintro ⟨x, y, hx, hy, hle⟩
      obtain rfl := Option.some.inj ((read_datetime clock d).symm.trans hx)
      obtain rfl := Option.some.inj ((read_datetime clock t).symm.trans hy)
      exact of_decide_eq_true hle
    · exact fun hle ↦ ⟨_, _, read_datetime clock d, read_datetime clock t, decide_eq_true hle⟩

/-- The subscriber is looked for by the whole name or by a part of it. -/
theorem holdsFor_subscriber {id : Text} :
    (Clause.subscriber.holdsFor clock (log.inserted d routerIp) (.value (.str id)) = true ↔
      log.subscriberId = id) ∧
    (Clause.subscriberPartial.holdsFor clock (log.inserted d routerIp) (.value (.str id)) = true ↔
      asciiLower id <:+: asciiLower log.subscriberId) := by
  have hcolumn : columnOf (log.inserted d routerIp) "subscriber_id".toList =
      some (.value (.str log.subscriberId)) :=
    columnOf_inserted (zip_columns_inserted log d routerIp ▸
      List.mem_cons_of_mem _ (List.mem_cons_of_mem _ List.mem_cons_self))
  constructor
  · rw [Clause.holdsFor_iff hcolumn]
    constructor
    · rintro ⟨x, y, hx, hy, heq⟩
      obtain rfl := Option.some.inj ((read_string clock log.subscriberId).symm.trans hx)
      obtain rfl := Option.some.inj ((read_string clock id).symm.trans hy)
      exact Datum.string.inj (of_decide_eq_true heq)
    · rintro rfl
      exact ⟨_, _, read_string _ _, read_string _ _, decide_eq_true rfl⟩
  · rw [Clause.holdsFor_iff hcolumn]
    constructor
    · rintro ⟨x, y, hx, hy, hinfix⟩
      obtain rfl := Option.some.inj ((read_string clock log.subscriberId).symm.trans hx)
      obtain rfl := Option.some.inj ((read_string clock id).symm.trans hy)
      exact of_decide_eq_true hinfix
    · exact fun hinfix ↦ ⟨_, _, read_string _ _, read_string _ _, decide_eq_true hinfix⟩

/-- **What a query finds of the rows**: its clauses hold of the row of a record exactly if the record has
all that it asks for. -/
theorem holds_inserted_iff (hlog : log.WellFormed) (hrouter : IsIpv4 routerIp) (h : q.Known)
    (htyped : q.Typed) :
    (q.clauses.all fun clause ↦ clause.holds clock (log.inserted d routerIp) q.params) = true ↔
      log.Answers clock d routerIp q := by
  rw [holds_clauses h]
  constructor
  · intro hall
    refine ⟨⟨holdsFor_times.1.mp (hall _ _ .timeFrom), holdsFor_times.2.mp (hall _ _ .timeTo)⟩,
      ?_, ?_⟩
    · rintro ⟨name, value⟩ hitem
      obtain ⟨hexact, hblank⟩ := mem_filters.mp hitem
      obtain ⟨filter, hfilter, rfl⟩ := List.mem_map.mp (h _ hexact)
      have hvalue := htyped _ hitem filter hfilter rfl
      exact (holdsFor_equals_iff hlog hrouter hfilter hvalue).mp (hall _ _ (.exact hexact hblank hfilter))
    · intro id hid
      obtain ⟨hid, hne⟩ := subscriber_eq_some.mp hid
      cases hpart : q.subscriberPartial with
      | true => exact holdsFor_subscriber.2.mp (hall _ _ (.subscriberPartial hid hne hpart))
      | false => exact holdsFor_subscriber.1.mp (hall _ _ (.subscriber hid hne hpart))
  · intro hanswers clause value hasks
    cases hasks with
    | timeFrom => exact holdsFor_times.1.mpr hanswers.window.1
    | timeTo => exact holdsFor_times.2.mpr hanswers.window.2
    | exact hexact hblank hfilter =>
        have hitem := mem_filters.mpr ⟨hexact, hblank⟩
        have hvalue := htyped _ hitem _ hfilter rfl
        exact (holdsFor_equals_iff hlog hrouter hfilter hvalue).mpr (hanswers.filters _ hitem)
    | subscriberPartial hid hne hpart =>
        have hid := hanswers.subscriber _ (subscriber_eq_some.mpr ⟨hid, hne⟩)
        rw [if_pos hpart] at hid
        exact holdsFor_subscriber.2.mpr hid
    | subscriber hid hne hpart =>
        have hid := hanswers.subscriber _ (subscriber_eq_some.mpr ⟨hid, hne⟩)
        rw [if_neg (by rw [hpart]; exact Bool.false_ne_true)] at hid
        exact holdsFor_subscriber.1.mpr hid

end records

/-! ## Requests -/

namespace SearchRequest

/-- A record has what the fields of a request ask for.  The protocol is asked for in upper case, and where
that is empty it is not asked for. -/
structure Finds (u : CharTable) (r : SearchRequest) (log : ParsedLog) (source : Text) : Prop where
  routerIp : ∀ ip ∈ r.routerIp.val, ip = source
  privateIp : ∀ ip ∈ r.privateIp.val, ip = log.privateIp
  publicIp : ∀ ip ∈ r.publicIp.val, ip = log.publicIp
  destIp : ∀ ip ∈ r.destIp.val, ip = log.destIp
  privatePort : ∀ n ∈ r.privatePort, n.val = log.privatePort
  publicPort : ∀ n ∈ r.publicPort, n.val = log.publicPort
  destPort : ∀ n ∈ r.destPort, n.val = log.destPort
  protocol : ∀ t ∈ r.protocol.val, upper u t ≠ [] → upper u t = log.protocol
  subscriberId : ∀ id ∈ r.subscriberId.val, if r.subscriberPartial = true then
    asciiLower id <:+: asciiLower log.subscriberId else log.subscriberId = id

/-- A request asks for a value under the name of a filter. -/
def Wants (u : CharTable) (r : SearchRequest) (name : Text) (value : PyValue) : Prop :=
  (r.getattr name).blank = false ∧ value = r.filterValue u name ∧ value.blank = false

section requests

variable {u : CharTable} {r : SearchRequest} {timeFrom timeTo : Datetime} {clock : Clock Datetime}
  {log : ParsedLog} {d : Datetime} {source : Text}

/-- The filters of a request. -/
theorem mem_filters_query {item : Text × PyValue} : item ∈ (r.query u timeFrom timeTo).filters ↔
    item.1 ∈ EXACT_FILTERS.map Prod.fst ∧ r.Wants u item.1 item.2 := by
  rw [SearchQuery.filters, List.mem_filter, Bool.not_eq_true']
  constructor
  · rintro ⟨hexact, hblank⟩
    obtain ⟨name, hname, hsome⟩ := List.mem_filterMap.mp hexact
    split at hsome
    · cases hsome
    · rename_i hgiven
      cases hsome
      exact ⟨hname, Bool.eq_false_iff.mpr hgiven, rfl, hblank⟩
  · rintro ⟨hname, hgiven, hvalue, hblank⟩
    refine ⟨List.mem_filterMap.mpr ⟨item.1, hname, ?_⟩, hblank⟩
    rw [hgiven, if_neg Bool.false_ne_true, ← hvalue]

theorem filterValue_of_ne {name : Text} (hname : name ≠ "protocol".toList) :
    r.filterValue u name = r.getattr name := by
  rw [filterValue]
  split
  · rename_i t ht
    rw [if_neg hname, ht]
  · rfl

theorem ne_nil_of_isIpv4 {t : Text} (h : IsIpv4 t) : t ≠ [] := by
  obtain ⟨x, rfl⟩ := h
  rw [Ipv4.text]
  exact List.append_ne_nil_of_right_ne_nil _ (List.cons_ne_nil _ _)

/-- A filter by an address. -/
theorem wants_address {name : Text} {v : Address} (hattr : r.getattr name = v.val.elim .none .str)
    (hname : name ≠ "protocol".toList) {value : PyValue} :
    r.Wants u name value ↔ ∃ ip ∈ v.val, IsIpv4 ip ∧ value = .str ip := by
  rw [Wants, filterValue_of_ne hname, hattr]
  obtain ⟨ip, hip⟩ := v
  cases ip with
  | none =>
      constructor
      · rintro ⟨hblank, -⟩
        cases hblank
      · rintro ⟨ip, hmem, -⟩
        cases hmem
  | some ip =>
      have hblank : (PyValue.str ip).blank = false :=
        List.isEmpty_eq_false_iff.mpr (ne_nil_of_isIpv4 (hip ip rfl))
      constructor
      · rintro ⟨-, hvalue, -⟩
        exact ⟨ip, rfl, hip ip rfl, hvalue⟩
      · rintro ⟨_, ⟨⟩, -, rfl⟩
        exact ⟨hblank, rfl, hblank⟩

/-- A filter by a port. -/
theorem wants_port {name : Text} {v : Option (Set.Icc (0 : Int) 65535)}
    (hattr : r.getattr name = v.elim .none (.int ·.val)) (hname : name ≠ "protocol".toList)
    {value : PyValue} : r.Wants u name value ↔ ∃ n ∈ v, value = .int n.val := by
  rw [Wants, filterValue_of_ne hname, hattr]
  cases v with
  | none =>
      constructor
      · rintro ⟨hblank, -⟩
        cases hblank
      · rintro ⟨n, hmem, -⟩
        cases hmem
  | some n =>
      constructor
      · rintro ⟨-, hvalue, -⟩
        exact ⟨n, rfl, hvalue⟩
      · rintro ⟨_, ⟨⟩, rfl⟩
        exact ⟨rfl, rfl, rfl⟩

/-- The filter by the protocol. -/
theorem wants_protocol {value : PyValue} : r.Wants u "protocol".toList value ↔
    ∃ t ∈ r.protocol.val, upper u t ≠ [] ∧ value = .str (upper u t) := by
  have hattr : r.getattr "protocol".toList = r.protocol.val.elim .none .str := rfl
  rw [Wants, filterValue, hattr]
  obtain ⟨protocol, hprotocol⟩ := r.protocol
  cases protocol with
  | none =>
      constructor
      · rintro ⟨hblank, -⟩
        cases hblank
      · rintro ⟨t, hmem, -⟩
        cases hmem
  | some t =>
      constructor
      · rintro ⟨-, hvalue, hblank⟩
        dsimp only [Option.elim] at hvalue
        rw [if_pos rfl] at hvalue
        subst hvalue
        exact ⟨t, rfl, List.isEmpty_eq_false_iff.mp hblank, rfl⟩
      · rintro ⟨_, ⟨⟩, hne, rfl⟩
        exact ⟨List.isEmpty_eq_false_iff.mpr (hprotocol t rfl).1, (if_pos rfl).symm,
          List.isEmpty_eq_false_iff.mpr hne⟩

/-- The filters of a request are written canonically. -/
theorem typed_query : (r.query u timeFrom timeTo).Typed := by
  have hnames : ∀ filter ∈ EXACT_FILTERS, ∀ value, r.Wants u filter.1 value →
      Canonical filter.2.2 value := by
    have haddress : ∀ {name : Text} {v : Address}, r.getattr name = v.val.elim .none .str →
        name ≠ "protocol".toList → ∀ value, r.Wants u name value →
          Canonical "IPv4".toList value := by
      intro name v hattr hname value hwants
      obtain ⟨ip, -, hip, rfl⟩ := (wants_address hattr hname).mp hwants
      exact .address hip
    have hport : ∀ {name : Text} {v : Option (Set.Icc (0 : Int) 65535)},
        r.getattr name = v.elim .none (.int ·.val) → name ≠ "protocol".toList →
          ∀ value, r.Wants u name value → Canonical "UInt16".toList value := by
      intro name v hattr hname value hwants
      obtain ⟨n, -, rfl⟩ := (wants_port hattr hname).mp hwants
      exact .number n.2.1 (Int.lt_of_le_of_lt n.2.2 (by decide))
    refine List.forall_mem_cons.mpr ⟨haddress (v := r.routerIp) rfl (by decide), ?_⟩
    refine List.forall_mem_cons.mpr ⟨haddress (v := r.privateIp) rfl (by decide), ?_⟩
    refine List.forall_mem_cons.mpr ⟨haddress (v := r.publicIp) rfl (by decide), ?_⟩
    refine List.forall_mem_cons.mpr ⟨haddress (v := r.destIp) rfl (by decide), ?_⟩
    refine List.forall_mem_cons.mpr ⟨hport (v := r.privatePort) rfl (by decide), ?_⟩
    refine List.forall_mem_cons.mpr ⟨hport (v := r.publicPort) rfl (by decide), ?_⟩
    refine List.forall_mem_cons.mpr ⟨hport (v := r.destPort) rfl (by decide), ?_⟩
    refine List.forall_mem_singleton.mpr fun value hwants ↦ ?_
    obtain ⟨t, -, -, rfl⟩ := wants_protocol.mp hwants
    exact .string
  rintro item hitem filter hfilter hname
  obtain ⟨-, hwants⟩ := mem_filters_query.mp hitem
  exact hnames filter hfilter item.2 (hname ▸ hwants)

/-- A filter by an address, for a record. -/
theorem forall_wants_address {name a : Text} {v : Address}
    (hattr : r.getattr name = v.val.elim .none .str) (hname : name ≠ "protocol".toList)
    (hlookup : (log.attributes source).lookup name = some (.str a)) :
    (∀ value, r.Wants u name value → (log.attributes source).lookup name = some value) ↔
      ∀ ip ∈ v.val, ip = a := by
  rw [hlookup]
  constructor
  · intro h ip hip
    have hsome := h (.str ip) ((wants_address hattr hname).mpr ⟨ip, hip, v.2 ip hip, rfl⟩)
    exact (PyValue.str.inj (Option.some.inj hsome)).symm
  · intro h value hwants
    obtain ⟨ip, hip, -, rfl⟩ := (wants_address hattr hname).mp hwants
    rw [h ip hip]

/-- A filter by a port, for a record. -/
theorem forall_wants_port {name : Text} {n : Nat} {v : Option (Set.Icc (0 : Int) 65535)}
    (hattr : r.getattr name = v.elim .none (.int ·.val)) (hname : name ≠ "protocol".toList)
    (hlookup : (log.attributes source).lookup name = some (.int n)) :
    (∀ value, r.Wants u name value → (log.attributes source).lookup name = some value) ↔
      ∀ m ∈ v, m.val = n := by
  rw [hlookup]
  constructor
  · intro h m hm
    have hsome := h (.int m.val) ((wants_port hattr hname).mpr ⟨m, hm, rfl⟩)
    exact (PyValue.int.inj (Option.some.inj hsome)).symm
  · intro h value hwants
    obtain ⟨m, hm, rfl⟩ := (wants_port hattr hname).mp hwants
    rw [h m hm]

/-- The filter by the protocol, for a record. -/
theorem forall_wants_protocol :
    (∀ value, r.Wants u "protocol".toList value →
      (log.attributes source).lookup "protocol".toList = some value) ↔
        ∀ t ∈ r.protocol.val, upper u t ≠ [] → upper u t = log.protocol := by
  have hlookup : (log.attributes source).lookup "protocol".toList = some (.str log.protocol) := rfl
  rw [hlookup]
  constructor
  · intro h t ht hne
    have hsome := h (.str (upper u t)) (wants_protocol.mpr ⟨t, ht, hne, rfl⟩)
    exact (PyValue.str.inj (Option.some.inj hsome)).symm
  · intro h value hwants
    obtain ⟨t, ht, hne, rfl⟩ := wants_protocol.mp hwants
    rw [h t ht hne]

/-- **What a request finds**: a record has what its query asks for exactly if its time is within the window
and it has what each of the fields of the request asks for. -/
theorem answers_query_iff : log.Answers clock d source (r.query u timeFrom timeTo) ↔
    (clock.timestamp timeFrom ≤ clock.timestamp d ∧ clock.timestamp d ≤ clock.timestamp timeTo) ∧
      r.Finds u log source := by
  have hfilters : (∀ item ∈ (r.query u timeFrom timeTo).filters, item ∈ log.attributes source) ↔
      ∀ name ∈ EXACT_FILTERS.map Prod.fst, ∀ value, r.Wants u name value →
        (log.attributes source).lookup name = some value := by
    constructor
    · intro h name hname value hwants
      exact lookup_attributes.mpr (h (name, value) (mem_filters_query.mpr ⟨hname, hwants⟩))
    · intro h item hitem
      obtain ⟨hname, hwants⟩ := mem_filters_query.mp hitem
      exact lookup_attributes.mp (h item.1 hname item.2 hwants)
  have hsubscriber : ∀ id, id ∈ (r.query u timeFrom timeTo).subscriber ↔ id ∈ r.subscriberId.val :=
    fun id ↦ subscriber_eq_some.trans ⟨And.left, fun hid ↦ ⟨hid, (r.subscriberId.2 id hid).1⟩⟩
  constructor
  · rintro ⟨hwindow, hall, hid⟩
    obtain ⟨h₁, hall⟩ := List.forall_mem_cons.mp (hfilters.mp hall)
    obtain ⟨h₂, hall⟩ := List.forall_mem_cons.mp hall
    obtain ⟨h₃, hall⟩ := List.forall_mem_cons.mp hall
    obtain ⟨h₄, hall⟩ := List.forall_mem_cons.mp hall
    obtain ⟨h₅, hall⟩ := List.forall_mem_cons.mp hall
    obtain ⟨h₆, hall⟩ := List.forall_mem_cons.mp hall
    obtain ⟨h₇, hall⟩ := List.forall_mem_cons.mp hall
    exact ⟨hwindow, {
      routerIp := (forall_wants_address rfl (by decide) rfl).mp h₁
      privateIp := (forall_wants_address rfl (by decide) rfl).mp h₂
      publicIp := (forall_wants_address rfl (by decide) rfl).mp h₃
      destIp := (forall_wants_address rfl (by decide) rfl).mp h₄
      privatePort := (forall_wants_port rfl (by decide) rfl).mp h₅
      publicPort := (forall_wants_port rfl (by decide) rfl).mp h₆
      destPort := (forall_wants_port rfl (by decide) rfl).mp h₇
      protocol := forall_wants_protocol.mp (List.forall_mem_singleton.mp hall)
      subscriberId := fun id h ↦ hid id ((hsubscriber id).mpr h) }⟩
  · rintro ⟨hwindow, h⟩
    refine ⟨hwindow, hfilters.mpr ?_, fun id hid ↦ h.subscriberId id ((hsubscriber id).mp hid)⟩
    refine List.forall_mem_cons.mpr ⟨(forall_wants_address rfl (by decide) rfl).mpr h.routerIp, ?_⟩
    refine List.forall_mem_cons.mpr ⟨(forall_wants_address rfl (by decide) rfl).mpr h.privateIp, ?_⟩
    refine List.forall_mem_cons.mpr ⟨(forall_wants_address rfl (by decide) rfl).mpr h.publicIp, ?_⟩
    refine List.forall_mem_cons.mpr ⟨(forall_wants_address rfl (by decide) rfl).mpr h.destIp, ?_⟩
    refine List.forall_mem_cons.mpr ⟨(forall_wants_port rfl (by decide) rfl).mpr h.privatePort, ?_⟩
    refine List.forall_mem_cons.mpr ⟨(forall_wants_port rfl (by decide) rfl).mpr h.publicPort, ?_⟩
    refine List.forall_mem_cons.mpr ⟨(forall_wants_port rfl (by decide) rfl).mpr h.destPort, ?_⟩
    exact List.forall_mem_singleton.mpr (forall_wants_protocol.mpr h.protocol)

end requests

end SearchRequest

end LogServer
