import LogServer.Api.Matching
import LogServer.Services.Provenance

/-!
# From a router to the answer of a search

Between the rows that workers insert and the answers of the search page lies only the log table.  What an
answer shows was sent by a router that was enabled, and is what the operator asked for; and where an answer
says that there is nothing more, it shows all of it (`search_finds`).  A count is the number of the rows that
reading page after page gives, however ClickHouse lists them (`count_counts`).
-/

namespace LogServer

open Transition

/-! ## Counts -/

namespace ClickHouseService

def count {δ : Type} (answer : List Clause → Params δ → Int) (q : SearchQuery δ) :
    Except PyError Int := do
  let (clauses, params) ← where_ q
  return answer clauses params

end ClickHouseService

section counts

variable {δ ρ κ : Type} {t : LogTable δ ρ κ} {cfg : ClickHouseConfig} {q : SearchQuery δ}

def LogTable.total (t : LogTable δ ρ κ) (clauses : List Clause) (params : Params δ) : Int :=
  (t.selected clauses params).length

theorem count_eq (h : q.Known) :
    ClickHouseService.count t.total q = .ok ((t.selected q.clauses q.params).length : Int) := by
  rw [ClickHouseService.count, where_eq h]
  rfl

/-- Pages that are cut from listings of one length have as many rows as one of the listings. -/
theorem length_pages {m n K : ℕ} {L : ℕ → List ρ} (hL : ∀ i, (L i).length = n) (hK : n ≤ K * m) :
    (Paging.pages m K L).length = n := by
  have hsame : (Paging.pages m K L).length = (Paging.pages m K fun _ ↦ L 0).length := by
    rw [Paging.pages, Paging.pages, List.length_flatMap, List.length_flatMap]
    congr 1
    refine List.map_congr_left fun k _ ↦ ?_
    rw [Paging.page, Paging.page, List.length_take, List.length_take, List.length_drop,
      List.length_drop, hL, hL]
  rw [hsame, Paging.pages_const, List.length_take, hL, Nat.min_eq_right hK]

/-- **Reading page after page** gives as many rows as are selected, in whatever order they are listed. -/
theorem Pageable.length_readPages [LinearOrder κ] (h : Pageable t cfg q)
    {answer : ℕ → Select δ → List ρ} (hanswer : t.Consistent answer) {fuel : ℕ}
    (hfuel : (t.selected q.clauses q.params).length < fuel) : ∃ rows,
      LogServer.readPages answer cfg fuel 0 { q with offset := 0 } = some rows ∧
        rows.length = (t.selected q.clauses q.params).length := by
  obtain ⟨m, hm⟩ : ∃ m : ℕ, q.limit = m :=
    Int.eq_ofNat_of_zero_le (Int.le_trans (by decide) h.valid.1.1)
  have hpos : 0 < m := by
    have hlimit := h.valid.1.1
    change 1 ≤ q.limit at hlimit
    omega
  have hlisting := fun i ↦ hanswer i ((q.at (i * m)).statement cfg)
  choose L hperm hsorted hcut using hlisting
  have hlength : ∀ i, (L i).length = (t.selected q.clauses q.params).length :=
    fun i ↦ (hperm i).length_eq
  refine ⟨_, h.readPages hm hperm (fun i ↦ ?_) hfuel, length_pages hlength ?_⟩
  · rw [hcut i, h.statement, hm]
    rfl
  · have hdiv := Nat.lt_div_mul_add (a := (t.selected q.clauses q.params).length - 1) hpos
    rw [Nat.succ_mul]
    omega

end counts

namespace SearchRequest

structure Asked (clock : Clock Datetime) (u : CharTable) (r : SearchRequest) (q : SearchQuery Datetime)
    (log : ParsedLog) (d : Datetime) (source : Text) : Prop where
  window : clock.timestamp q.timeFrom ≤ clock.timestamp d ∧
    clock.timestamp d ≤ clock.timestamp q.timeTo
  found : r.Finds u log source

section asked

variable {clock : Clock Datetime} {u : CharTable} {r : SearchRequest} {now : Datetime}
  {q : SearchQuery Datetime} {log : ParsedLog} {d : Datetime} {source : Text}

/-- The clauses of a query hold of the rows of the records it looks for. -/
theorem holds_iff_asked (h : r.toQuery u now = .ok q) (hlog : log.WellFormed)
    (hsource : IsIpv4 source) :
    (q.clauses.all fun clause ↦ clause.holds clock (log.inserted d source) q.params) = true ↔
      r.Asked clock u q log d source := by
  have hknown := (valid_of_toQuery h).2
  obtain ⟨timeFrom, timeTo, rfl⟩ := exists_query_of_toQuery h
  rw [holds_inserted_iff hlog hsource hknown typed_query, answers_query_iff]
  exact ⟨fun ⟨hwindow, hfound⟩ ↦ ⟨hwindow, hfound⟩, fun ⟨hwindow, hfound⟩ ↦ ⟨hwindow, hfound⟩⟩

end asked

end SearchRequest

section answers

variable {κ : Type} [LinearOrder κ] {δ ρ : Type} {t : LogTable δ ρ κ} {cfg : ClickHouseConfig}
  {q : SearchQuery δ} {answer : ℕ → Select δ → List ρ} {i : ℕ} {result : SearchResult ρ}

/-- What a page shows is selected; and a first page that does not say that there is more shows all that is
selected, unless it was cut at the cap of the configuration. -/
theorem mem_search_rows (hknown : q.Known) (hlimit : 0 ≤ q.limit) (hanswer : t.Consistent answer)
    (h : ClickHouseService.search (answer i) cfg q = .ok result) :
    (∀ row ∈ result.rows, row ∈ t.selected q.clauses q.params) ∧
      (q.offset = 0 → result.hasMore = false → result.rows.length ≤ cfg.maxResultRows →
        ∀ row ∈ t.selected q.clauses q.params, row ∈ result.rows) := by
  obtain ⟨m, hm⟩ := Int.eq_ofNat_of_zero_le hlimit
  obtain ⟨L, hL, -, hcut⟩ := hanswer i (q.statement cfg)
  change L.Perm (t.selected q.clauses q.params) at hL
  change answer i (q.statement cfg) =
    (L.drop q.offset.toNat).take (min q.limit cfg.maxResultRows + 1).toNat at hcut
  obtain rfl := Except.ok.inj ((search_eq hknown hm rfl).symm.trans h)
  constructor
  · intro row hrow
    refine hL.subset ?_
    have hmem : row ∈ answer i (q.statement cfg) := by
      dsimp only at hrow
      split at hrow
      · exact List.mem_of_mem_take hrow
      · exact hrow
    rw [hcut] at hmem
    exact List.mem_of_mem_drop (List.mem_of_mem_take hmem)
  · intro hoffset hmore hcap row hrow
    have hmore : ¬m < (answer i (q.statement cfg)).length := of_decide_eq_false hmore
    dsimp only at hcap ⊢
    rw [if_neg hmore] at hcap ⊢
    rw [hoffset, Int.toNat_zero, List.drop_zero] at hcut
    rw [hcut, List.length_take] at hcap hmore
    rw [hcut, List.take_of_length_le (by omega)]
    exact hL.symm.subset hrow

end answers

/-- An answer of an endpoint comes from the service, for the query of the request. -/
theorem SearchApi.handle_eq_ok {α : Type} {u : CharTable} {now : Datetime}
    {service : SearchQuery Datetime → Except PyError α} {r : SearchRequest} {unavailable : Text}
    {q : SearchQuery Datetime} {result : α}
    (h : SearchApi.handle u now service r unavailable = .ok (q, result)) :
    r.toQuery u now = .ok q ∧ service q = .ok result := by
  unfold SearchApi.handle at h
  split at h
  · rename_i query hquery
    split at h
    · rename_i hservice
      cases h
      exact ⟨hquery, hservice⟩
    · cases h
  · cases h
  · cases h

namespace Deployment

variable {cfg : IngestConfig} {wcfg : WorkerConfig} {u : CharTable} {msgpack : Msgpack}
  {clock : Clock Datetime} {s : Deployment} {past : List (Finset Text)}
  {okPipeline : Pipeline → Pipeline.Action → Prop}

theorem Origin.wellFormed {call : Call} {log : ParsedLog} {d : Datetime} {payload : Bytes}
    (h : Origin cfg u msgpack clock past call log d payload) : log.WellFormed :=
  parse_sound (Prod.ext h.parsed rfl)

theorem Origin.isIpv4_source {call : Call} {log : ParsedLog} {d : Datetime} {payload : Bytes}
    (h : Origin cfg u msgpack clock past call log d payload) : IsIpv4 call.source := by
  obtain - | ⟨-, htail⟩ := h.insertable
  obtain - | ⟨haddress, -⟩ := htail
  cases haddress
  assumption

/-- The row of an entry: what decoding the entry alone yields. -/
def rowOf (msgpack : Msgpack) (clock : Clock Datetime) (x : Entry) : List (Field Datetime) :=
  ((BatchWorker._decode msgpack clock [x.payload]).toOption.bind fun decoded ↦ decoded.1.head?).getD []

/-- The rows that workers insert are those of the entries. -/
theorem Sound.rows (hsound : Sound cfg wcfg u msgpack clock okPipeline past s)
    (hmsgpack : msgpack.Lawful) (hclock : clock.Lawful) : ∃ rowOf : Entry → List (Field Datetime),
      BatchWorker._decode msgpack clock (s.pipeline.inserted.map Entry.payload) =
        .ok (s.pipeline.inserted.map rowOf, 0) ∧
      (∀ x ∈ s.pipeline.inserted, ∃ call ∈ s.handled, ∃ log d,
        Origin cfg u msgpack clock past call log d x.payload) ∧
      ∀ x call log d, Origin cfg u msgpack clock past call log d x.payload →
        rowOf x = log.inserted d call.source := by
  have hinserted := (Pipeline.Sourced.reach hsound.pipeline).inserted
  have horigin : ∀ x ∈ s.pipeline.inserted, ∃ call ∈ s.handled, ∃ log d,
      Origin cfg u msgpack clock past call log d x.payload :=
    fun x hx ↦ hsound.exists_origin hmsgpack hclock (hinserted hx)
  have hrow : ∀ payload ∈ s.pipeline.inserted.map Entry.payload, ∃ row,
      BatchWorker._decode msgpack clock [payload] = .ok ([row], 0) ∧ True := by
    intro payload hpayload
    obtain ⟨x, hx, rfl⟩ := List.mem_map.mp hpayload
    obtain ⟨call, -, log, d, horigin⟩ := horigin x hx
    exact ⟨_, horigin.decoded, trivial⟩
  obtain ⟨rows, hrows, hpairs⟩ := decode_all hrow
  have hrowOf : rows = s.pipeline.inserted.map (rowOf msgpack clock) := by
    rw [List.forall₂_map_right_iff] at hpairs
    rw [← List.forall₂_eq_eq_eq, List.forall₂_map_right_iff]
    refine hpairs.imp fun row x h ↦ ?_
    obtain ⟨_, hdecode⟩ := h
    rw [rowOf, hdecode]
    rfl
  refine ⟨rowOf msgpack clock, hrowOf ▸ hrows, horigin, fun x call log d horigin ↦ ?_⟩
  rw [rowOf, horigin.decoded]
  rfl

/-- A table of the rows has for a query those of the records it looks for. -/
theorem holds_rowOf_iff {κ : Type} {t : LogTable Datetime (List (Field Datetime)) κ}
    (hlawful : t.Lawful clock) {r : SearchRequest} {now : Datetime} {q : SearchQuery Datetime}
    (hquery : r.toQuery u now = .ok q) {call : Call} {log : ParsedLog} {d : Datetime} {payload : Bytes}
    (h : Origin cfg u msgpack clock past call log d payload) :
    t.holds q.clauses q.params (log.inserted d call.source) = true ↔
      r.Asked clock u q log d call.source := by
  rw [hlawful]
  exact SearchRequest.holds_iff_asked hquery h.wellFormed h.isIpv4_source

/-- **What a search finds.**  In every run, whatever order ClickHouse lists the log table in: each row that
the endpoint returns is the record of a payload that a router sent while it was enabled, it is within the
window, and it has what each field of the request asks for.  And the first page of an answer that does not
say that there is more, and was not cut at the cap of the configuration, has the row of every record in the
log table that is within the window and has what the request asks for. -/
theorem search_finds (hmsgpack : msgpack.Lawful) (hclock : clock.Lawful)
    (h : Recorded (system cfg wcfg u msgpack clock) (fun s ↦ s.allowList.enabled)
      (Ok msgpack fun _ _ ↦ True) past s) : ∃ rows,
    BatchWorker._decode msgpack clock (s.pipeline.inserted.map Entry.payload) = .ok (rows, 0) ∧
    ∀ {κ : Type} [LinearOrder κ] (t : LogTable Datetime (List (Field Datetime)) κ), t.Lawful clock →
      t.rows.Perm rows → ∀ answer, t.Consistent answer → ∀ i ch r now q result,
        SearchApi.searchQuery u now (ClickHouseService.search (answer i) ch) r = .ok (q, result) →
          (∀ row ∈ result.rows, ∃ x ∈ s.pipeline.inserted, ∃ call ∈ s.handled, ∃ log d,
            Origin cfg u msgpack clock past call log d x.payload ∧
              row = log.inserted d call.source ∧ r.Asked clock u q log d call.source) ∧
          (q.offset = 0 → result.hasMore = false → result.rows.length ≤ ch.maxResultRows →
            ∀ x ∈ s.pipeline.inserted, ∀ call log d,
              Origin cfg u msgpack clock past call log d x.payload →
                r.Asked clock u q log d call.source → log.inserted d call.source ∈ result.rows) := by
  have hsound := Sound.recorded hmsgpack (fun _ _ _ ↦ trivial) h
  obtain ⟨rowOf, hrows, horigins, hrowOf⟩ := hsound.rows hmsgpack hclock
  refine ⟨_, hrows, fun t hlawful hperm answer hanswer i ch r now q result hresult ↦ ?_⟩
  obtain ⟨hquery, hsearch⟩ := SearchApi.handle_eq_ok hresult
  obtain ⟨hvalid, hknown⟩ := SearchRequest.valid_of_toQuery hquery
  have hlimit : 0 ≤ q.limit := Int.le_trans (by decide) hvalid.1.1
  obtain ⟨honly, hall⟩ := mem_search_rows hknown hlimit hanswer hsearch
  constructor
  · intro row hrow
    obtain ⟨hmem, hholds⟩ := List.mem_filter.mp (honly row hrow)
    obtain ⟨x, hx, rfl⟩ := List.mem_map.mp (hperm.subset hmem)
    obtain ⟨call, hcall, log, d, horigin⟩ := horigins x hx
    have hrow := hrowOf x call log d horigin
    rw [hrow] at hholds
    exact ⟨x, hx, call, hcall, log, d, horigin, hrow, (holds_rowOf_iff hlawful hquery horigin).mp hholds⟩
  · intro hoffset hmore hcap x hx call log d horigin hasked
    rw [← hrowOf x call log d horigin]
    refine hall hoffset hmore hcap _ (List.mem_filter.mpr ⟨?_, ?_⟩)
    · exact hperm.symm.subset (List.mem_map_of_mem hx)
    · rw [hrowOf x call log d horigin]
      exact (holds_rowOf_iff hlawful hquery horigin).mpr hasked

/-- **What a count counts.**  In every run, the endpoint answers with the number of entries in the log table
whose records are within the window and have what each field of the request asks for; and so many rows does
one get by reading page after page, whatever order ClickHouse lists the table in for each of them. -/
theorem count_counts (hmsgpack : msgpack.Lawful) (hclock : clock.Lawful)
    (h : Recorded (system cfg wcfg u msgpack clock) (fun s ↦ s.allowList.enabled)
      (Ok msgpack fun _ _ ↦ True) past s) : ∃ rows,
    BatchWorker._decode msgpack clock (s.pipeline.inserted.map Entry.payload) = .ok (rows, 0) ∧
    ∀ {κ : Type} [LinearOrder κ] (t : LogTable Datetime (List (Field Datetime)) κ), t.Lawful clock →
      t.rows.Perm rows → ∀ r now q n,
        SearchApi.countQuery u now (ClickHouseService.count t.total) r = .ok (q, n) →
          (∃ found : Entry → Bool, n = s.pipeline.inserted.countP found ∧
            ∀ x call log d, Origin cfg u msgpack clock past call log d x.payload →
              (found x = true ↔ r.Asked clock u q log d call.source)) ∧
          ∀ ch : ClickHouseConfig, q.limit ≤ ch.maxResultRows → n < 1000000 →
            ∀ answer, t.Consistent answer → ∀ fuel : ℕ, n < fuel → ∃ read,
              readPages answer ch fuel 0 { q with offset := 0 } = some read ∧ n = read.length := by
  have hsound := Sound.recorded hmsgpack (fun _ _ _ ↦ trivial) h
  obtain ⟨rowOf, hrows, horigins, hrowOf⟩ := hsound.rows hmsgpack hclock
  refine ⟨_, hrows, fun t hlawful hperm r now q n hn ↦ ?_⟩
  obtain ⟨hquery, hcount⟩ := SearchApi.handle_eq_ok hn
  obtain ⟨hvalid, hknown⟩ := SearchRequest.valid_of_toQuery hquery
  obtain rfl := Except.ok.inj ((count_eq hknown).symm.trans hcount)
  constructor
  · refine ⟨fun x ↦ t.holds q.clauses q.params (rowOf x), ?_, fun x call log d horigin ↦ ?_⟩
    · rw [LogTable.selected, ← List.countP_eq_length_filter, hperm.countP_eq, List.countP_map]
      rfl
    · dsimp only
      rw [hrowOf x call log d horigin]
      exact holds_rowOf_iff hlawful hquery horigin
  · intro ch hcap hmillion answer hanswer fuel hfuel
    have hfirst : (0 : Int) ≤ 0 ∧ (0 : Int) ≤ 1000000 := by decide
    have hpageable : Pageable t ch q :=
      ⟨hknown, ⟨hvalid.1, hfirst, hvalid.2.2⟩, hcap, Int.ofNat_lt.mp hmillion⟩
    obtain ⟨rows, hread, hlength⟩ := hpageable.length_readPages hanswer (Int.ofNat_lt.mp hfuel)
    exact ⟨rows, hread, congrArg Nat.cast hlength.symm⟩

end Deployment

/-! ## A session -/

/-- The first second of 1970, in microseconds from the start of year 1. -/
def utcEpoch : ℕ := 719162 * Datetime.day

def Clock.utc : Clock Datetime where
  fromtimestamp
    | .int n =>
        if h : 0 ≤ n ∧ utcEpoch + n.toNat * 1000000 < Datetime.limit then
          .ok (.naive ⟨utcEpoch + n.toNat * 1000000, h.2⟩)
        else .error .other
    | _ => .error .other
  timestamp d := (d.instant - utcEpoch) / 1000000

theorem Clock.utc_lawful : Clock.utc.Lawful := by
  intro n hn
  have hbound : utcEpoch + n * 1000000 < Datetime.limit := by
    rw [utcEpoch, Datetime.limit, Datetime.day]
    omega
  refine ⟨.naive ⟨_, hbound⟩, dif_pos ⟨Int.natCast_nonneg n, hbound⟩, ?_⟩
  show ((utcEpoch + n * 1000000 : ℕ) - 0 - (utcEpoch : ℤ)) / 1000000 = n
  push_cast
  omega

namespace Deployment

def tableOf (rows : List (List (Field Datetime))) : LogTable Datetime (List (Field Datetime)) ℕ where
  rows
  holds clauses params row := clauses.all fun clause ↦ clause.holds Clock.utc row params
  column _ _ := 0

def secondOf (d : Datetime) : SearchRequest where
  timeFrom := some d
  timeTo := some d
  routerIp := ⟨none, nofun⟩
  privateIp := ⟨none, nofun⟩
  publicIp := ⟨none, nofun⟩
  destIp := ⟨none, nofun⟩
  privatePort := none
  publicPort := none
  destPort := none
  protocol := ⟨none, nofun⟩
  subscriberId := ⟨none, nofun⟩
  subscriberPartial := false
  limit := ⟨100, by decide⟩
  offset := ⟨0, by decide⟩
  orderBy := ⟨"timestamp".toList, by decide⟩
  descending := true

theorem toQuery_secondOf (u : CharTable) (d now : Datetime) :
    (secondOf d).toQuery u now = .ok ((secondOf d).query u d d) := by
  have hcheck : SearchRequest.checkWindow d d = .ok () := by
    have hspan : ¬(MAX_WINDOW_DAYS * Datetime.day : ℤ) < d.instant - d.instant := by
      rw [sub_self]
      decide
    rw [SearchRequest.checkWindow, Datetime.gt_of_comparable rfl, Datetime.sub_of_comparable rfl,
      decide_eq_false (lt_irrefl _)]
    exact if_neg hspan
  show (SearchRequest.checkWindow d d >>= fun _ ↦ _) = _
  rw [hcheck]
  rfl

/-- A record of the second is looked for. -/
theorem asked_secondOf {d : Datetime} (log : ParsedLog) (source : Text) :
    (secondOf d).Asked Clock.utc .ascii ((secondOf d).query .ascii d d) log d source where
  window := ⟨le_rfl, le_rfl⟩
  found := {
    routerIp := nofun
    privateIp := nofun
    publicIp := nofun
    destIp := nofun
    privatePort := nofun
    publicPort := nofun
    destPort := nofun
    protocol := nofun
    subscriberId := nofun }

def answersOf (t : LogTable Datetime (List (Field Datetime)) ℕ) (_ : ℕ) (st : Select Datetime) :
    List (List (Field Datetime)) :=
  cutFrom (t.selected st.clauses st.params) st

theorem consistent_answersOf (rows : List (List (Field Datetime))) :
    (tableOf rows).Consistent (answersOf (tableOf rows)) := by
  intro i st
  refine ⟨_, List.Perm.refl _, ?_, rfl⟩
  refine List.pairwise_of_forall fun row row' ↦ ?_
  rw [LogTable.Order]
  split <;> exact le_rfl

/-- A session in which one row was stored. -/
theorem exists_stored : ∃ past s, ∃ x : Entry, ∃ call log d,
    Recorded (sessionSystemOf Clock.utc) (fun s ↦ s.allowList.enabled) (Ok msgpackRows fun _ _ ↦ True) past s ∧
    s.pipeline.inserted = [x] ∧
    Origin ⟨{}, 1⟩ .ascii msgpackRows Clock.utc past call log d x.payload := by
  obtain ⟨-, s, -, hs, -, -, hinserted, -⟩ := exists_session Clock.utc_lawful
  obtain ⟨past, h⟩ := (reach_weaken hs).exists_recorded fun s ↦ s.allowList.enabled
  have hsound := Sound.recorded msgpackRows_lawful (fun _ _ _ ↦ trivial) h
  obtain ⟨x, hx⟩ := List.length_eq_one_iff.mp hinserted
  have hmem : x ∈ s.pipeline.inserted := hx ▸ List.mem_singleton_self x
  obtain ⟨call, -, log, d, horigin⟩ := hsound.exists_origin msgpackRows_lawful Clock.utc_lawful
    ((Pipeline.Sourced.reach hsound.pipeline).inserted hmem)
  exact ⟨past, s, x, call, log, d, h, hx, horigin⟩

/-- A row on its way from a router to the answer of a search for its second. -/
theorem search_finds_session : ∃ past s r q result,
    Recorded (sessionSystemOf Clock.utc) (fun s ↦ s.allowList.enabled) (Ok msgpackRows fun _ _ ↦ True) past s ∧
    (∃ rows, BatchWorker._decode msgpackRows Clock.utc (s.pipeline.inserted.map Entry.payload) =
      .ok (rows, 0) ∧ SearchApi.searchQuery .ascii (.naive ⟨0, by decide⟩)
        (ClickHouseService.search (answersOf (tableOf rows) 0) {}) r = .ok (q, result)) ∧
    result.rows ≠ [] ∧ ∀ row ∈ result.rows, ∃ x ∈ s.pipeline.inserted, ∃ call ∈ s.handled, ∃ log d,
      Origin ⟨{}, 1⟩ .ascii msgpackRows Clock.utc past call log d x.payload ∧
        row = log.inserted d call.source := by
  obtain ⟨past, s, x, call, log, d, h, hx, horigin⟩ := exists_stored
  have hmem : x ∈ s.pipeline.inserted := hx ▸ List.mem_singleton_self x
  obtain ⟨rows, hrows, hfinds⟩ := search_finds msgpackRows_lawful Clock.utc_lawful h
  obtain ⟨row, rfl⟩ : ∃ row, rows = [row] := by
    rw [hx, List.map_singleton, horigin.decoded] at hrows
    cases hrows
    exact ⟨_, rfl⟩
  have hquery := toQuery_secondOf .ascii d (.naive ⟨0, by decide⟩)
  let q := (secondOf d).query .ascii d d
  obtain ⟨fetched, hfetched⟩ : ∃ fetched, answersOf (tableOf [row]) 0 (q.statement {}) = fetched :=
    ⟨_, rfl⟩
  have hone : fetched.length ≤ 1 := by
    rw [← hfetched, answersOf, cutFrom, List.length_take, List.length_drop]
    have hselected : ((tableOf [row]).selected (q.statement {}).clauses (q.statement {}).params).length ≤ 1 :=
      List.length_filter_le _ _
    omega
  have hsearch : SearchApi.searchQuery .ascii (.naive ⟨0, by decide⟩)
      (ClickHouseService.search (answersOf (tableOf [row]) 0) {}) (secondOf d) =
        .ok (q, ⟨fetched, false⟩) := by
    have hresult : ClickHouseService.search (answersOf (tableOf [row]) 0) {} q =
        .ok ⟨if 100 < fetched.length then fetched.take 100 else fetched, decide (100 < fetched.length)⟩ :=
      search_eq (SearchRequest.valid_of_toQuery hquery).2 rfl hfetched
    have hlast : ¬100 < fetched.length := by omega
    rw [if_neg hlast, decide_eq_false hlast] at hresult
    rw [SearchApi.searchQuery, SearchApi.handle, hquery]
    dsimp only
    rw [hresult]
  obtain ⟨honly, hall⟩ := hfinds (tableOf [row]) (fun _ _ _ ↦ rfl) (List.Perm.refl _)
    (answersOf (tableOf [row])) (consistent_answersOf [row]) 0 {} (secondOf d) _ _ _ hsearch
  have hrow := hall rfl rfl (Int.le_trans (Int.ofNat_le.mpr hone) (by decide)) x hmem call log d horigin
    (asked_secondOf log call.source)
  refine ⟨past, s, secondOf d, _, _, h, ⟨_, hrows, hsearch⟩, List.ne_nil_of_mem hrow, ?_⟩
  intro row hrow
  obtain ⟨x, hx, call, hcall, log, d, horigin, heq, -⟩ := honly row hrow
  exact ⟨x, hx, call, hcall, log, d, horigin, heq⟩

/-- One row is counted. -/
theorem count_counts_session : ∃ past s r q n,
    Recorded (sessionSystemOf Clock.utc) (fun s ↦ s.allowList.enabled) (Ok msgpackRows fun _ _ ↦ True) past s ∧
    (∃ rows, BatchWorker._decode msgpackRows Clock.utc (s.pipeline.inserted.map Entry.payload) =
      .ok (rows, 0) ∧ SearchApi.countQuery .ascii (.naive ⟨0, by decide⟩)
        (ClickHouseService.count (tableOf rows).total) r = .ok (q, n)) ∧ n = 1 := by
  obtain ⟨past, s, x, call, log, d, h, hx, horigin⟩ := exists_stored
  obtain ⟨rows, hrows, hcounts⟩ := count_counts msgpackRows_lawful Clock.utc_lawful h
  have hquery := toQuery_secondOf .ascii d (.naive ⟨0, by decide⟩)
  let q := (secondOf d).query .ascii d d
  have hcount : SearchApi.countQuery .ascii (.naive ⟨0, by decide⟩)
      (ClickHouseService.count (tableOf rows).total) (secondOf d) =
        .ok (q, (((tableOf rows).selected q.clauses q.params).length : Int)) := by
    rw [SearchApi.countQuery, SearchApi.handle, hquery]
    dsimp only
    rw [count_eq (SearchRequest.valid_of_toQuery hquery).2]
  obtain ⟨⟨found, hn, hfound⟩, -⟩ := hcounts (tableOf rows) (fun _ _ _ ↦ rfl) (List.Perm.refl _)
    (secondOf d) _ _ _ hcount
  refine ⟨past, s, secondOf d, _, _, h, ⟨rows, hrows, hcount⟩, hn.trans ?_⟩
  rw [hx, List.countP_singleton, if_pos ((hfound x call log d horigin).mpr
    (asked_secondOf log call.source))]
  rfl

end Deployment

end LogServer
