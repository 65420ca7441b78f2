import LogServer.Database.ClickHouse
import LogServer.Lib.Template

/-!
# Search statements

`_where` assembles the clauses of a search and a dictionary of parameters side by side, and `search` and
`count` put the clauses into the text of a statement.  The text depends on which filters are given and
on the order, never on the values; the clauses and the parameters match.
-/

namespace LogServer

open Template

/-! ## Tables -/

structure ClickHouseConfig where
  database : Text := "network_logs".toList
  table : Text := "nat_logs".toList
  maxResultRows : Int := 10000
  maxResultRows_bounds : 100 ≤ maxResultRows ∧ maxResultRows ≤ 1000000 := by decide

/-- `ClickHouseService.table`. -/
def ClickHouseConfig.name (cfg : ClickHouseConfig) : Text := cfg.database ++ '.' :: cfg.table

def SELECT_COLUMNS : List Text := COLUMNS ++ ["session_start_time".toList]

def SORTABLE : List Text :=
  ["timestamp".toList, "router_ip".toList, "subscriber_id".toList, "private_ip".toList,
    "private_port".toList, "public_ip".toList, "public_port".toList, "dest_ip".toList,
    "dest_port".toList, "protocol".toList]

/-- Equality filters: form field, column and type. -/
def EXACT_FILTERS : List (Text × Text × Text) :=
  [("router_ip".toList, "router_ip".toList, "IPv4".toList),
    ("private_ip".toList, "private_ip".toList, "IPv4".toList),
    ("public_ip".toList, "public_ip".toList, "IPv4".toList),
    ("dest_ip".toList, "dest_ip".toList, "IPv4".toList),
    ("private_port".toList, "private_port".toList, "UInt16".toList),
    ("public_port".toList, "public_port".toList, "UInt16".toList),
    ("dest_port".toList, "dest_port".toList, "UInt16".toList),
    ("protocol".toList, "protocol".toList, "String".toList)]

variable {δ : Type}

/-- One search request.  The keys of a dictionary are pairwise different. -/
structure SearchQuery (δ : Type) where
  timeFrom : δ
  timeTo : δ
  exact : List (Text × PyValue) := []
  subscriberId : Option Text := none
  subscriberPartial : Bool := false
  limit : Int := 100
  offset : Int := 0
  orderBy : Text := "timestamp".toList
  descending : Bool := true
  exact_nodup : (exact.map Prod.fst).Nodup

/-- `value in (None, "")`. -/
def PyValue.blank : PyValue → Bool
  | .none => true
  | .str t => t.isEmpty
  | _ => false

abbrev Params (δ : Type) := List (Text × Field δ)

/-- `params[name] = value`. -/
def Params.setItem (params : Params δ) (name : Text) (value : Field δ) : Params δ :=
  if name ∈ params.map Prod.fst then
    params.map fun item ↦ if item.1 = name then (name, value) else item
  else params ++ [(name, value)]

/-! ## Statements -/

inductive Clause where
  | timeFrom
  | timeTo
  | equals (column name chType : Text)
  | subscriberPartial
  | subscriber
deriving DecidableEq

namespace Clause

/-- The name of the parameter of a clause, and its type. -/
def parameter : Clause → Text × Text
  | timeFrom => ("time_from".toList, "DateTime".toList)
  | timeTo => ("time_to".toList, "DateTime".toList)
  | equals _ name chType => (name, chType)
  | subscriberPartial => ("subscriber_id".toList, "String".toList)
  | subscriber => ("subscriber_id".toList, "String".toList)

def text (clause : Clause) : Text :=
  let written := placeholder clause.parameter.1 clause.parameter.2
  match clause with
  | timeFrom => "timestamp >= ".toList ++ written
  | timeTo => "timestamp <= ".toList ++ written
  | equals column _ _ => column ++ (" = ".toList ++ written)
  | subscriberPartial =>
      "positionCaseInsensitive(subscriber_id, ".toList ++ (written ++ ") > 0".toList)
  | subscriber => "subscriber_id = ".toList ++ written

end Clause

/-- A search as a statement, with the parameters of its clauses. -/
structure Select (δ : Type) where
  clauses : List Clause
  params : Params δ
  orderColumn : Text
  descending : Bool
  limit : Int
  offset : Int

/-- `params` when the statement is sent. -/
def Select.parameters (st : Select δ) : Params δ :=
  (st.params.setItem "limit".toList (.value (.int st.limit))).setItem "offset".toList
    (.value (.int st.offset))

/-- `' AND '.join(clauses)`. -/
def whereText (clauses : List Clause) : Text :=
  " AND ".toList.intercalate (clauses.map Clause.text)

def Select.text (cfg : ClickHouseConfig) (st : Select δ) : Text :=
  "SELECT ".toList ++ ", ".toList.intercalate SELECT_COLUMNS ++ " FROM ".toList ++ cfg.name ++
    " WHERE ".toList ++ whereText st.clauses ++
    (" ORDER BY ".toList ++ st.orderColumn ++ " ".toList ++
      (if st.descending then "DESC".toList else "ASC".toList) ++
      " LIMIT ".toList ++ placeholder "limit".toList "UInt32".toList) ++
    (" OFFSET ".toList ++ placeholder "offset".toList "UInt32".toList)

namespace ClickHouseService

variable (cfg : ClickHouseConfig) (q : SearchQuery δ)

/-- One round of the loop over the equality filters.  A name that is not one of theirs raises. -/
def exactFilter (found : List Clause × Params δ) (item : Text × PyValue) :
    Except PyError (List Clause × Params δ) :=
  if item.2.blank then .ok found
  else
    match EXACT_FILTERS.lookup item.1 with
    | none => .error .other
    | some (column, chType) =>
        .ok (found.1 ++ [.equals column item.1 chType], found.2.setItem item.1 (.value item.2))

def where_ : Except PyError (List Clause × Params δ) := do
  let (clauses, params) ← q.exact.foldlM exactFilter
    ([.timeFrom, .timeTo],
      [("time_from".toList, .datetime q.timeFrom), ("time_to".toList, .datetime q.timeTo)])
  match q.subscriberId with
  | some (c :: id) =>
      let clause := if q.subscriberPartial then Clause.subscriberPartial else .subscriber
      return (clauses ++ [clause], params.setItem "subscriber_id".toList (.value (.str (c :: id))))
  | _ => return (clauses, params)

def select : Except PyError (Select δ) := do
  let (clauses, params) ← where_ q
  return {
    clauses, params
    orderColumn := if q.orderBy ∈ SORTABLE then q.orderBy else "timestamp".toList
    descending := q.descending
    limit := min q.limit cfg.maxResultRows + 1
    offset := q.offset }

def searchSql : Except PyError (Text × Params δ) := do
  let st ← select cfg q
  return (st.text cfg, st.parameters)

def countSql : Except PyError (Text × Params δ) := do
  let (clauses, params) ← where_ q
  return ("SELECT count() FROM ".toList ++ cfg.name ++ " WHERE ".toList ++ whereText clauses, params)

end ClickHouseService

/-! ## The filters of a query -/

namespace SearchQuery

variable (q : SearchQuery δ)

def filters : List (Text × PyValue) := q.exact.filter fun item ↦ !item.2.blank

/-- The subscriber that is given: an empty text is none. -/
def subscriber : Option Text := q.subscriberId.filter fun id ↦ !id.isEmpty

/-- The keys of the dictionary are names of equality filters. -/
def Known : Prop := ∀ item ∈ q.exact, item.1 ∈ EXACT_FILTERS.map Prod.fst

/-- Two queries give the same filters in the same order, and order the rows in the same way. -/
structure SameShape (q q' : SearchQuery δ) : Prop where
  filters : q.filters.map Prod.fst = q'.filters.map Prod.fst
  subscriber : q.subscriber.isSome = q'.subscriber.isSome
  subscriberPartial : q.subscriberPartial = q'.subscriberPartial
  orderBy : q.orderBy = q'.orderBy ∨ q.orderBy ∉ SORTABLE ∧ q'.orderBy ∉ SORTABLE
  descending : q.descending = q'.descending

/-- What a query asks of the rows: conditions, each with its value. -/
inductive Asks (q : SearchQuery δ) : Clause → Field δ → Prop
  | timeFrom : Asks q .timeFrom (.datetime q.timeFrom)
  | timeTo : Asks q .timeTo (.datetime q.timeTo)
  | exact {name column chType : Text} {value : PyValue} : (name, value) ∈ q.exact →
      value.blank = false → (name, column, chType) ∈ EXACT_FILTERS →
        Asks q (.equals column name chType) (.value value)
  | subscriberPartial {id : Text} : q.subscriberId = some id → id ≠ [] →
      q.subscriberPartial = true → Asks q .subscriberPartial (.value (.str id))
  | subscriber {id : Text} : q.subscriberId = some id → id ≠ [] →
      q.subscriberPartial = false → Asks q .subscriber (.value (.str id))

end SearchQuery

def exactClause (name : Text) : Option Clause :=
  (EXACT_FILTERS.lookup name).map fun filter ↦ .equals filter.1 name filter.2

/-- The clauses of a search, by the names of its filters. -/
def shapeClauses (names : List Text) (subscriber subscriberPartial : Bool) : List Clause :=
  [.timeFrom, .timeTo] ++ names.filterMap exactClause ++
    if subscriber then [if subscriberPartial then .subscriberPartial else .subscriber] else []

def SearchQuery.params (q : SearchQuery δ) : Params δ :=
  [("time_from".toList, .datetime q.timeFrom), ("time_to".toList, .datetime q.timeTo)] ++
    q.filters.map (fun item ↦ (item.1, .value item.2)) ++
      (q.subscriber.map fun id ↦ ("subscriber_id".toList, Field.value (.str id))).toList

section where_

variable {q : SearchQuery δ}

theorem setItem_new {params : Params δ} {name : Text} (h : name ∉ params.map Prod.fst)
    (value : Field δ) : params.setItem name value = params ++ [(name, value)] := if_neg h

/-- A name of an equality filter has one column and one type. -/
theorem lookup_exactFilters : ∀ filter ∈ EXACT_FILTERS,
    EXACT_FILTERS.lookup filter.1 = some filter.2 := by decide +kernel

/-- The names that are not names of equality filters. -/
theorem not_mem_exactFilters : ∀ name ∈ ["time_from".toList, "time_to".toList,
    "subscriber_id".toList, "limit".toList, "offset".toList],
      name ∉ EXACT_FILTERS.map Prod.fst := by decide +kernel

open ClickHouseService

/-- **The loop over the equality filters** appends one clause and one parameter for each that is
given. -/
theorem foldlM_exactFilter {items : List (Text × PyValue)}
    (hknown : ∀ item ∈ items, item.1 ∈ EXACT_FILTERS.map Prod.fst)
    (hnodup : (items.map Prod.fst).Nodup) (clauses : List Clause) (params : Params δ)
    (hnew : ∀ item ∈ items, item.1 ∉ params.map Prod.fst) :
    items.foldlM exactFilter (clauses, params) =
      .ok (clauses ++ ((items.filter fun item ↦ !item.2.blank).map Prod.fst).filterMap exactClause,
        params ++ (items.filter fun item ↦ !item.2.blank).map
          fun item ↦ (item.1, Field.value item.2)) := by
  induction items generalizing clauses params with
  | nil =>
      rw [List.filter_nil, List.map_nil, List.map_nil, List.filterMap_nil, List.append_nil,
        List.append_nil]
      rfl
  | cons item items ih =>
      have hknown' := fun item' h ↦ hknown item' (List.mem_cons_of_mem item h)
      obtain ⟨hhead, hnodup'⟩ := List.nodup_cons.mp hnodup
      rw [List.foldlM_cons, exactFilter]
      cases hblank : item.2.blank with
      | true =>
          rw [List.filter_cons_of_neg (by rw [hblank]; decide)]
          exact ih hknown' hnodup' clauses params
            fun item' h ↦ hnew item' (List.mem_cons_of_mem item h)
      | false =>
          obtain ⟨filter, hfilter, heq⟩ := List.mem_map.mp (hknown item List.mem_cons_self)
          have hlookup := lookup_exactFilters filter hfilter
          rw [heq] at hlookup
          have hitem := hnew item List.mem_cons_self
          rw [hlookup, setItem_new hitem, List.filter_cons_of_pos (by rw [hblank]; rfl)]
          refine (ih hknown' hnodup' _ _ ?_).trans ?_
          · intro item' h hmem
            rw [List.map_append, List.mem_append] at hmem
            rcases hmem with hold | hsame
            · exact hnew item' (List.mem_cons_of_mem item h) hold
            · obtain heq' := List.mem_singleton.mp hsame
              exact hhead (heq' ▸ List.mem_map_of_mem h)
          · rw [List.map_cons, List.map_cons, List.filterMap_cons_some
              (show exactClause item.1 = some _ by rw [exactClause, hlookup]; rfl),
              List.append_assoc, List.append_assoc]
            rfl

/-- **`_where`** of a query whose filters are known. -/
theorem where_eq (h : q.Known) : where_ q = .ok (shapeClauses (q.filters.map Prod.fst)
    q.subscriber.isSome q.subscriberPartial, q.params) := by
  have htimes : ∀ item ∈ q.exact, item.1 ∉ ["time_from".toList, "time_to".toList] := by
    intro item hitem hmem
    exact not_mem_exactFilters item.1 (List.mem_append_left _ hmem) (h item hitem)
  have hloop := foldlM_exactFilter h q.exact_nodup [.timeFrom, .timeTo]
    [("time_from".toList, Field.datetime q.timeFrom), ("time_to".toList, .datetime q.timeTo)] htimes
  have hsubscriber : "subscriber_id".toList ∉ ([("time_from".toList, Field.datetime q.timeFrom),
      ("time_to".toList, .datetime q.timeTo)] ++ q.filters.map fun item : Text × PyValue ↦
        (item.1, Field.value item.2)).map Prod.fst := by
    rw [List.map_append, List.mem_append]
    rintro (htime | hfilter)
    · have hnot : "subscriber_id".toList ∉ ["time_from".toList, "time_to".toList] := by decide
      exact hnot htime
    · obtain ⟨param, hparam, heq⟩ := List.mem_map.mp hfilter
      obtain ⟨item, hitem, rfl⟩ := List.mem_map.mp hparam
      refine not_mem_exactFilters "subscriber_id".toList (by decide) ?_
      exact heq ▸ h item (List.mem_of_mem_filter hitem)
  have hnone : ∀ (clauses : List Clause) (params : Params δ),
      (Except.ok (clauses, params) : Except PyError _) = .ok (clauses ++ [], params ++ []) := by
    intro clauses params
    rw [List.append_nil, List.append_nil]
  rw [where_, hloop, shapeClauses, SearchQuery.params, SearchQuery.subscriber]
  cases q.subscriberId with
  | none => exact hnone _ _
  | some id =>
      cases id with
      | nil => exact hnone _ _
      | cons c id =>
          exact congrArg (fun params ↦ Except.ok (_, params))
            (setItem_new hsubscriber (.value (.str (c :: id))))

end where_

/-! ## Clauses and their placeholders -/

namespace Clause

def column : Clause → Text
  | timeFrom => "timestamp".toList
  | timeTo => "timestamp".toList
  | equals column _ _ => column
  | subscriberPartial => "subscriber_id".toList
  | subscriber => "subscriber_id".toList

/-- The words of a clause have none of the characters that delimit placeholders. -/
def Plain (clause : Clause) : Prop :=
  (∀ c ∈ clause.parameter.1, c ≠ ':') ∧ (∀ c ∈ clause.parameter.2, c ≠ '\x7d') ∧
    ∀ c ∈ clause.column, c ≠ '\x7b'

instance (clause : Clause) : Decidable clause.Plain :=
  inferInstanceAs (Decidable (_ ∧ _ ∧ _))

def all : List Clause :=
  [timeFrom, timeTo, subscriberPartial, subscriber] ++
    EXACT_FILTERS.map fun filter ↦ equals filter.2.1 filter.1 filter.2.2

theorem plain_all : ∀ clause ∈ all, clause.Plain := by decide +kernel

theorem text_timeFrom : timeFrom.text =
    "timestamp >= ".toList ++ placeholder timeFrom.parameter.1 timeFrom.parameter.2 := rfl

theorem text_timeTo : timeTo.text =
    "timestamp <= ".toList ++ placeholder timeTo.parameter.1 timeTo.parameter.2 := rfl

theorem text_equals (column name chType : Text) : (equals column name chType).text =
    column ++ (" = ".toList ++ placeholder name chType) := rfl

theorem text_subscriberPartial : subscriberPartial.text =
    "positionCaseInsensitive(subscriber_id, ".toList ++
      (placeholder subscriberPartial.parameter.1 subscriberPartial.parameter.2 ++
        ") > 0".toList) := rfl

theorem text_subscriber : subscriber.text =
    "subscriber_id = ".toList ++ placeholder subscriber.parameter.1 subscriber.parameter.2 := rfl

/-- A clause has its own placeholder and no other. -/
theorem Plain.text {clause : Clause} (h : clause.Plain) :
    Closed clause.text ∧ placeholders clause.text = [clause.parameter] := by
  obtain ⟨hname, htype, hcolumn⟩ := h
  cases clause with
  | timeFrom =>
      have hpre : ∀ c ∈ "timestamp >= ".toList, c ≠ '\x7b' := by decide
      rw [text_timeFrom]
      exact ⟨closed_behind hpre hname htype, placeholders_behind hpre hname htype⟩
  | timeTo =>
      have hpre : ∀ c ∈ "timestamp <= ".toList, c ≠ '\x7b' := by decide
      rw [text_timeTo]
      exact ⟨closed_behind hpre hname htype, placeholders_behind hpre hname htype⟩
  | equals column name chType =>
      have hpre : ∀ c ∈ " = ".toList, c ≠ '\x7b' := by decide
      change ∀ c ∈ column, c ≠ '\x7b' at hcolumn
      rw [text_equals]
      refine ⟨(closed_plain hcolumn).append (closed_behind hpre hname htype), ?_⟩
      rw [closed_plain hcolumn, placeholders_plain hcolumn, List.nil_append]
      exact placeholders_behind hpre hname htype
  | subscriberPartial =>
      have hpre : ∀ c ∈ "positionCaseInsensitive(subscriber_id, ".toList, c ≠ '\x7b' := by decide
      have hpost : ∀ c ∈ ") > 0".toList, c ≠ '\x7b' := by decide
      rw [text_subscriberPartial, ← List.append_assoc]
      refine ⟨(closed_behind hpre hname htype).append (closed_plain hpost), ?_⟩
      rw [closed_behind hpre hname htype, placeholders_behind hpre hname htype,
        placeholders_plain hpost, List.append_nil]
  | subscriber =>
      have hpre : ∀ c ∈ "subscriber_id = ".toList, c ≠ '\x7b' := by decide
      rw [text_subscriber]
      exact ⟨closed_behind hpre hname htype, placeholders_behind hpre hname htype⟩

end Clause

/-- A name and its entry among the equality filters. -/
theorem exactClause_eq_some {name : Text} {clause : Clause} (h : exactClause name = some clause) :
    ∃ filter ∈ EXACT_FILTERS, filter.1 = name ∧ clause = .equals filter.2.1 name filter.2.2 := by
  obtain ⟨entry, hlookup, rfl⟩ := Option.map_eq_some_iff.mp h
  obtain ⟨before, after, hsplit, -⟩ := List.lookup_eq_some_iff.mp hlookup
  refine ⟨(name, entry), ?_, rfl, rfl⟩
  rw [hsplit]
  exact List.mem_append_right before List.mem_cons_self

theorem mem_all_of_mem_shapeClauses {names : List Text} {subscriber subscriberPartial : Bool}
    {clause : Clause} (h : clause ∈ shapeClauses names subscriber subscriberPartial) :
    clause ∈ Clause.all := by
  rcases List.mem_append.mp h with h | h
  · rcases List.mem_append.mp h with h | h
    · exact List.mem_append_left _ (List.mem_of_mem_take (i := 2) h)
    · obtain ⟨name, -, hclause⟩ := List.mem_filterMap.mp h
      obtain ⟨filter, hfilter, rfl, rfl⟩ := exactClause_eq_some hclause
      exact List.mem_append_right _ (List.mem_map_of_mem hfilter)
  · cases subscriber with
    | false => cases h
    | true =>
        obtain rfl := List.mem_singleton.mp h
        cases subscriberPartial <;> decide

/-- **The placeholders of the clauses** of a search. -/
theorem placeholders_whereText {names : List Text} {subscriber subscriberPartial : Bool} :
    Closed (whereText (shapeClauses names subscriber subscriberPartial)) ∧
      placeholders (whereText (shapeClauses names subscriber subscriberPartial)) =
        (shapeClauses names subscriber subscriberPartial).map Clause.parameter := by
  have hplain : ∀ clause ∈ shapeClauses names subscriber subscriberPartial, clause.Plain :=
    fun clause h ↦ Clause.plain_all clause (mem_all_of_mem_shapeClauses h)
  have hsep : ∀ c ∈ " AND ".toList, c ≠ '\x7b' := by decide
  have hparts : ∀ s ∈ (shapeClauses names subscriber subscriberPartial).map Clause.text,
      Closed s := by
    intro s hs
    obtain ⟨clause, hclause, rfl⟩ := List.mem_map.mp hs
    exact (hplain clause hclause).text.1
  obtain ⟨hclosed, hplaceholders⟩ := closed_intercalate hsep hparts
  refine ⟨hclosed, hplaceholders.trans ?_⟩
  rw [List.flatMap_map, ← List.flatMap_singleton' ((shapeClauses _ _ _).map _), List.flatMap_map]
  exact List.flatMap_congr fun clause hclause ↦ (hplain clause hclause).text.2

/-! ## What is sent -/

/-- The clauses of a search and their parameters: each clause has one placeholder, for a parameter whose
value is what the query asks of that column, and nothing that the query asks is left out. -/
structure Bound (q : SearchQuery δ) (clauses : List Clause) (params : Params δ) : Prop where
  matched : List.Forall₂ (fun clause param ↦
    placeholders clause.text = [(param.1, clause.parameter.2)] ∧ q.Asks clause param.2) clauses params
  complete : ∀ clause value, q.Asks clause value → clause ∈ clauses

/-- A statement that is sent for a query: its placeholders are its parameters, each of them once, and they
are those of its clauses and of the page.  The name of the table, from the settings, stands in the text as
it is, and is not to have placeholders of its own. -/
structure Sent (cfg : ClickHouseConfig) (q : SearchQuery δ) (page : Params δ) (sql : Text)
    (parameters : Params δ) : Prop where
  bound : ∃ clauses params, Bound q clauses params ∧
    (" WHERE ".toList ++ whereText clauses) <:+: sql ∧ parameters = params ++ page
  placeholders : (∀ c ∈ cfg.name, c ≠ '\x7b') →
    (placeholders sql).map Prod.fst = parameters.map Prod.fst
  nodup : (parameters.map Prod.fst).Nodup

section sent

variable {q : SearchQuery δ}

def SearchQuery.clauses (q : SearchQuery δ) : List Clause :=
  shapeClauses (q.filters.map Prod.fst) q.subscriber.isSome q.subscriberPartial

theorem exactClause_of_mem {filter : Text × Text × Text} (h : filter ∈ EXACT_FILTERS) :
    exactClause filter.1 = some (.equals filter.2.1 filter.1 filter.2.2) := by
  rw [exactClause, lookup_exactFilters filter h]
  rfl

theorem mem_filters {name : Text} {value : PyValue} :
    (name, value) ∈ q.filters ↔ (name, value) ∈ q.exact ∧ value.blank = false := by
  rw [SearchQuery.filters, List.mem_filter, Bool.not_eq_true']

theorem subscriber_eq_some {id : Text} :
    q.subscriber = some id ↔ q.subscriberId = some id ∧ id ≠ [] := by
  rw [SearchQuery.subscriber, Option.filter_eq_some_iff, Bool.not_eq_true', List.isEmpty_eq_false_iff]

/-- What a query asks is among its clauses. -/
theorem SearchQuery.Asks.mem_clauses {clause : Clause} {value : Field δ} (h : q.Asks clause value) :
    clause ∈ q.clauses := by
  have hsubscriber : ∀ {id}, q.subscriberId = some id → id ≠ [] → q.subscriber.isSome = true :=
    fun hid hne ↦ Option.isSome_of_eq_some (subscriber_eq_some.mpr ⟨hid, hne⟩)
  rw [SearchQuery.clauses, shapeClauses]
  cases h with
  | timeFrom => exact List.mem_append_left _ (List.mem_append_left _ (by decide))
  | timeTo => exact List.mem_append_left _ (List.mem_append_left _ (by decide))
  | @exact name column chType value hexact hblank hfilter =>
      refine List.mem_append_left _ (List.mem_append_right _ (List.mem_filterMap.mpr ⟨name, ?_, ?_⟩))
      · exact List.mem_map_of_mem (f := Prod.fst) (mem_filters.mpr ⟨hexact, hblank⟩)
      · exact exactClause_of_mem hfilter
  | subscriberPartial hid hne hpartial =>
      rw [hsubscriber hid hne, hpartial]
      exact List.mem_append_right _ List.mem_cons_self
  | subscriber hid hne hpartial =>
      rw [hsubscriber hid hne, hpartial]
      exact List.mem_append_right _ List.mem_cons_self

/-- The clauses and the parameters of the equality filters. -/
theorem forall₂_filters {items : List (Text × PyValue)} (hitems : ∀ item ∈ items, item ∈ q.filters)
    (hknown : q.Known) :
    List.Forall₂ (fun clause (param : Text × Field δ) ↦
        clause.parameter.1 = param.1 ∧ q.Asks clause param.2)
      ((items.map Prod.fst).filterMap exactClause)
      (items.map fun item ↦ (item.1, Field.value item.2)) := by
  induction items with
  | nil => exact .nil
  | cons item items ih =>
      obtain ⟨hexact, hblank⟩ := mem_filters.mp (hitems item List.mem_cons_self)
      obtain ⟨filter, hfilter, heq⟩ := List.mem_map.mp (hknown item hexact)
      have hclause := exactClause_of_mem hfilter
      rw [heq] at hclause
      rw [List.map_cons, List.filterMap_cons_some hclause, List.map_cons]
      refine .cons ⟨rfl, .exact hexact hblank ?_⟩ (ih fun item' h ↦
        hitems item' (List.mem_cons_of_mem item h))
      exact heq ▸ hfilter

/-- **The clauses and the parameters match.** -/
theorem forall₂_params (h : q.Known) :
    List.Forall₂ (fun clause (param : Text × Field δ) ↦
      clause.parameter.1 = param.1 ∧ q.Asks clause param.2) q.clauses q.params := by
  refine List.rel_append (List.rel_append ?_ (forall₂_filters (fun _ h ↦ h) h)) ?_
  · exact .cons ⟨rfl, .timeFrom⟩ (.cons ⟨rfl, .timeTo⟩ .nil)
  · cases hid : q.subscriber with
    | none => exact .nil
    | some id =>
        obtain ⟨hid, hne⟩ := subscriber_eq_some.mp hid
        cases hpartial : q.subscriberPartial with
        | false => exact .cons ⟨rfl, .subscriber hid hne hpartial⟩ .nil
        | true => exact .cons ⟨rfl, .subscriberPartial hid hne hpartial⟩ .nil

theorem bound (h : q.Known) : Bound q q.clauses q.params := by
  refine ⟨List.Forall₂.imp ?_ (forall₂_params h), fun clause value hasks ↦ hasks.mem_clauses⟩
  rintro clause param ⟨hname, hasks⟩
  refine ⟨?_, hasks⟩
  rw [(Clause.plain_all clause (mem_all_of_mem_shapeClauses hasks.mem_clauses)).text.2, ← hname]

/-- The placeholders of the clauses are the parameters. -/
theorem names_whereText (h : q.Known) :
    (placeholders (whereText q.clauses)).map Prod.fst = q.params.map Prod.fst := by
  have hnames : q.clauses.map (fun clause ↦ clause.parameter.1) = q.params.map Prod.fst := by
    rw [← List.forall₂_eq_eq_eq, List.forall₂_map_left_iff, List.forall₂_map_right_iff]
    exact (forall₂_params h).imp fun clause param hpair ↦ hpair.1
  rw [SearchQuery.clauses, placeholders_whereText.2, List.map_map]
  exact hnames

/-- The names of the parameters. -/
theorem names_params : q.params.map Prod.fst =
    ["time_from".toList, "time_to".toList] ++ q.filters.map Prod.fst ++
      (q.subscriber.map fun _ ↦ "subscriber_id".toList).toList := by
  rw [SearchQuery.params, List.map_append, List.map_append, List.map_map]
  cases q.subscriber <;> rfl

/-- **The names are pairwise different**, also from those of the page. -/
theorem nodup_names (h : q.Known) {page : Params δ}
    (hpage : (page.map Prod.fst).Sublist ["limit".toList, "offset".toList]) :
    ((q.params ++ page).map Prod.fst).Nodup := by
  have hother : (["time_from".toList, "time_to".toList] ++
      ((q.subscriber.map fun _ ↦ "subscriber_id".toList).toList ++ page.map Prod.fst)).Sublist
        (["time_from".toList, "time_to".toList] ++
          (["subscriber_id".toList] ++ ["limit".toList, "offset".toList])) := by
    refine (List.Sublist.refl ["time_from".toList, "time_to".toList]).append
      (List.Sublist.append ?_ hpage)
    cases q.subscriber with
    | none => exact List.nil_sublist _
    | some id => exact List.Sublist.refl ["subscriber_id".toList]
  have hperm : ((q.params ++ page).map Prod.fst).Perm (q.filters.map Prod.fst ++
      (["time_from".toList, "time_to".toList] ++
        ((q.subscriber.map fun _ ↦ "subscriber_id".toList).toList ++ page.map Prod.fst))) := by
    rw [List.map_append, names_params, List.append_assoc, ← List.append_assoc (q.filters.map _)]
    exact List.perm_append_comm.append_right _
  rw [hperm.nodup_iff]
  refine List.nodup_append.mpr ⟨?_, hother.nodup (by decide), ?_⟩
  · exact q.exact_nodup.sublist (List.filter_sublist.map Prod.fst)
  · rintro name hname _ hname' rfl
    obtain ⟨item, hitem, rfl⟩ := List.mem_map.mp hname
    exact not_mem_exactFilters _ (hother.subset hname') (h item (List.mem_of_mem_filter hitem))

/-- The columns that rows are sorted by have no braces in their names. -/
theorem plain_sortable : ∀ column ∈ SORTABLE, ∀ c ∈ column, c ≠ '\x7b' := by decide +kernel

theorem plain_head : ∀ c ∈ "SELECT ".toList ++ ", ".toList.intercalate SELECT_COLUMNS ++
    " FROM ".toList, c ≠ '\x7b' := by decide +kernel

theorem ne_append {s t : Text} (hs : ∀ c ∈ s, c ≠ '\x7b') (ht : ∀ c ∈ t, c ≠ '\x7b') :
    ∀ c ∈ s ++ t, c ≠ '\x7b' :=
  fun c hc ↦ (List.mem_append.mp hc).elim (hs c) (ht c)

/-- **The placeholders of a search** are those of its clauses, and two for the page. -/
theorem placeholders_text {cfg : ClickHouseConfig} (htable : ∀ c ∈ cfg.name, c ≠ '\x7b')
    {st : Select δ} (hclosed : Closed (whereText st.clauses))
    (horder : ∀ c ∈ st.orderColumn, c ≠ '\x7b') :
    placeholders (st.text cfg) = placeholders (whereText st.clauses) ++
      [("limit".toList, "UInt32".toList), ("offset".toList, "UInt32".toList)] := by
  have hhead := ne_append (ne_append plain_head htable)
    (show ∀ c ∈ " WHERE ".toList, c ≠ '\x7b' by decide)
  have hdirection : ∀ c ∈ (if st.descending then "DESC".toList else "ASC".toList), c ≠ '\x7b' := by
    cases st.descending <;> decide
  have hmiddle := ne_append (ne_append (ne_append (ne_append
    (show ∀ c ∈ " ORDER BY ".toList, c ≠ '\x7b' by decide) horder)
    (show ∀ c ∈ " ".toList, c ≠ '\x7b' by decide)) hdirection)
    (show ∀ c ∈ " LIMIT ".toList, c ≠ '\x7b' by decide)
  exact placeholders_statement hhead hclosed hmiddle (by decide) (by decide) (by decide)
    (by decide) (by decide)

def SearchQuery.page (cfg : ClickHouseConfig) (q : SearchQuery δ) : Params δ :=
  [("limit".toList, .value (.int (min q.limit cfg.maxResultRows + 1))),
    ("offset".toList, .value (.int q.offset))]

def orderColumn (orderBy : Text) : Text := if orderBy ∈ SORTABLE then orderBy else "timestamp".toList

theorem orderColumn_mem (orderBy : Text) : orderColumn orderBy ∈ SORTABLE := by
  rw [orderColumn]
  split
  · assumption
  · decide

open ClickHouseService

def SearchQuery.statement (cfg : ClickHouseConfig) (q : SearchQuery δ) : Select δ where
  clauses := q.clauses
  params := q.params
  orderColumn := orderColumn q.orderBy
  descending := q.descending
  limit := min q.limit cfg.maxResultRows + 1
  offset := q.offset

theorem select_eq {cfg : ClickHouseConfig} (h : q.Known) :
    select cfg q = .ok (q.statement cfg) := by
  rw [select, where_eq h]
  rfl

/-- The parameters of the page are new. -/
theorem parameters_statement {cfg : ClickHouseConfig} (h : q.Known) :
    (q.statement cfg).parameters = q.params ++ q.page cfg := by
  have hnodup : ((q.params ++ q.page cfg).map Prod.fst).Nodup :=
    nodup_names h (List.Sublist.refl _)
  rw [List.map_append] at hnodup
  have hdisjoint := (List.nodup_append.mp hnodup).2.2
  have hlimit : "limit".toList ∉ q.params.map Prod.fst :=
    fun hmem ↦ hdisjoint _ hmem _ List.mem_cons_self rfl
  have hoffset : "offset".toList ∉ q.params.map Prod.fst :=
    fun hmem ↦ hdisjoint _ hmem _ (List.mem_cons_of_mem _ List.mem_cons_self) rfl
  show Params.setItem (Params.setItem q.params _ _) _ _ = _
  rw [setItem_new hlimit, setItem_new, List.append_assoc]
  · rfl
  · rw [List.map_append, List.mem_append]
    rintro (hmem | hmem)
    · exact hoffset hmem
    · have hnot : "offset".toList ∉ ["limit".toList] := by decide
      exact hnot hmem

theorem infix_statement (head word body middle tail : Text) :
    (word ++ body) <:+: (head ++ word ++ body ++ middle ++ tail) :=
  ⟨head, middle ++ tail, by simp only [List.append_assoc]⟩

/-- **A search** sends the parameters of its clauses and of its page. -/
theorem sent_search {cfg : ClickHouseConfig} (h : q.Known) :
    Sent cfg q (q.page cfg) ((q.statement cfg).text cfg) (q.statement cfg).parameters := by
  rw [parameters_statement h]
  refine ⟨⟨q.clauses, q.params, bound h, infix_statement .., rfl⟩, fun htable ↦ ?_,
    nodup_names h (List.Sublist.refl _)⟩
  rw [placeholders_text htable placeholders_whereText.1
    (plain_sortable _ (orderColumn_mem q.orderBy)), List.map_append, List.map_append]
  exact congrArg (· ++ _) (names_whereText h)

/-- **A count** sends the parameters of its clauses. -/
theorem sent_count {cfg : ClickHouseConfig} (h : q.Known) :
    Sent cfg q [] ("SELECT count() FROM ".toList ++ cfg.name ++ " WHERE ".toList ++
      whereText q.clauses) q.params := by
  refine ⟨⟨q.clauses, q.params, bound h, ⟨"SELECT count() FROM ".toList ++ cfg.name, [], ?_⟩,
    (List.append_nil _).symm⟩, fun htable ↦ ?_, ?_⟩
  · rw [List.append_nil, ← List.append_assoc]
  · have hhead := ne_append (ne_append
      (show ∀ c ∈ "SELECT count() FROM ".toList, c ≠ '\x7b' by decide) htable)
      (show ∀ c ∈ " WHERE ".toList, c ≠ '\x7b' by decide)
    rw [closed_plain hhead, placeholders_plain hhead, List.nil_append]
    exact names_whereText h
  · have hnodup : ((q.params ++ []).map Prod.fst).Nodup := nodup_names h (List.nil_sublist _)
    rw [List.append_nil] at hnodup
    exact hnodup

end sent

/-- The text of a statement does not depend on the values. -/
theorem Select.text_congr {cfg : ClickHouseConfig} {st st' : Select δ}
    (hclauses : st.clauses = st'.clauses) (horder : st.orderColumn = st'.orderColumn)
    (hdescending : st.descending = st'.descending) : st.text cfg = st'.text cfg := by
  cases st
  cases st'
  cases hclauses
  cases horder
  cases hdescending
  rfl

/-- Queries of one shape have the same texts. -/
theorem SearchQuery.SameShape.text {q q' : SearchQuery δ} (h : q.SameShape q')
    (cfg : ClickHouseConfig) :
    whereText q.clauses = whereText q'.clauses ∧
      (q.statement cfg).text cfg = (q'.statement cfg).text cfg := by
  have hclauses : q.clauses = q'.clauses := by
    rw [clauses, clauses, h.filters, h.subscriber, h.subscriberPartial]
  have horder : orderColumn q.orderBy = orderColumn q'.orderBy := by
    rcases h.orderBy with hsame | ⟨hnot, hnot'⟩
    · rw [hsame]
    · rw [orderColumn, orderColumn, if_neg hnot, if_neg hnot']
  exact ⟨congrArg whereText hclauses, Select.text_congr hclauses horder h.descending⟩

open ClickHouseService

/-- **Search values never reach the text of a statement**: queries that give the same filters and the same
order have the same texts, for a search and for a count, and each text has exactly the placeholders of the
parameters that are bound with it. -/
theorem search_values_bound (cfg : ClickHouseConfig) {q q' : SearchQuery δ} (h : q.Known)
    (h' : q'.Known) (hshape : q.SameShape q') :
    (∃ sql params params', searchSql cfg q = .ok (sql, params) ∧
      searchSql cfg q' = .ok (sql, params') ∧ Sent cfg q (q.page cfg) sql params ∧
        Sent cfg q' (q'.page cfg) sql params') ∧
    ∃ sql params params', countSql cfg q = .ok (sql, params) ∧
      countSql cfg q' = .ok (sql, params') ∧ Sent cfg q [] sql params ∧
        Sent cfg q' [] sql params' := by
  obtain ⟨hwhere, htext⟩ := hshape.text cfg
  constructor
  · have hsent : Sent cfg q' (q'.page cfg) ((q'.statement cfg).text cfg) _ := sent_search h'
    rw [← htext] at hsent
    refine ⟨_, _, _, ?_, ?_, sent_search h, hsent⟩
    · rw [searchSql, select_eq h]
      rfl
    · rw [searchSql, select_eq h', htext]
      rfl
  · have hsent : Sent cfg q' [] _ q'.params := sent_count h'
    rw [← hwhere] at hsent
    refine ⟨_, _, _, ?_, ?_, sent_count h, hsent⟩
    · rw [countSql, where_eq h]
      rfl
    · rw [countSql, where_eq h', hwhere]
      rfl

/-- Two searches for an address and a part of a subscriber's name, one of them an attempt to inject. -/
theorem search_values_bound_session : ∃ sql params params',
    searchSql {} (δ := Nat) ⟨0, 1, [("public_ip".toList, .str "10.0.0.1".toList)],
      some "alice".toList, true, 100, 0, "public_ip".toList, false, by decide⟩ = .ok (sql, params) ∧
    searchSql {} (δ := Nat) ⟨5, 9, [("public_ip".toList, .str "' OR 1=1 --".toList),
      ("protocol".toList, .str [])], some "'; DROP TABLE nat_logs".toList, true, 7, 14,
      "public_ip".toList, false, by decide⟩ = .ok (sql, params') := by
  let q : SearchQuery Nat := ⟨0, 1, [("public_ip".toList, .str "10.0.0.1".toList)],
    some "alice".toList, true, 100, 0, "public_ip".toList, false, by decide⟩
  let q' : SearchQuery Nat := ⟨5, 9, [("public_ip".toList, .str "' OR 1=1 --".toList),
    ("protocol".toList, .str [])], some "'; DROP TABLE nat_logs".toList, true, 7, 14,
    "public_ip".toList, false, by decide⟩
  have hknown : q.Known ∧ q'.Known := by
    unfold SearchQuery.Known
    decide +kernel
  have hshape : q.SameShape q' := ⟨by decide +kernel, by decide, rfl, .inl rfl, rfl⟩
  obtain ⟨⟨sql, params, params', h, h', -, -⟩, -⟩ :=
    search_values_bound {} hknown.1 hknown.2 hshape
  exact ⟨sql, params, params', h, h'⟩

end LogServer
