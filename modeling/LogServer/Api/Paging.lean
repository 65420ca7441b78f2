import LogServer.Database.Search
import LogServer.Lib.Paging

/-!
# Paging through a search

`search` fetches one row more than the page has, to learn whether there is another page, and the user
interface goes on by adding the limit to the offset.

Every page is a query of its own, and the order of a query is that of one column: rows that are tied on it
may be listed in another order for the next page.  So a row is found exactly once, whatever order ClickHouse
chooses, exactly if no two different rows that are tied are on two sides of the end of a page
(`paging_finds_each_iff`).

A single page and its `has_more` are exact exactly if the cap on the rows of a result does not come
before the limit, or is not reached (`search_exact_iff`).
-/

namespace LogServer

variable {δ ρ κ : Type}

/-! ## The log table -/

/-- The content of the table, what the clauses of a statement mean for a row, and the values of its
columns. -/
structure LogTable (δ ρ κ : Type) where
  rows : List ρ
  holds : List Clause → Params δ → ρ → Bool
  column : Text → ρ → κ

namespace LogTable

variable (t : LogTable δ ρ κ)

def selected (clauses : List Clause) (params : Params δ) : List ρ :=
  t.rows.filter fun row ↦ t.holds clauses params row

variable [LinearOrder κ]

/-- `ORDER BY`. -/
def Order (orderColumn : Text) (descending : Bool) (row row' : ρ) : Prop :=
  if descending then t.column orderColumn row' ≤ t.column orderColumn row
  else t.column orderColumn row ≤ t.column orderColumn row'

instance (orderColumn : Text) (descending : Bool) : DecidableRel (t.Order orderColumn descending) :=
  fun row row' ↦ inferInstanceAs (Decidable (if descending = true then
    t.column orderColumn row' ≤ t.column orderColumn row
  else t.column orderColumn row ≤ t.column orderColumn row'))

instance (orderColumn : Text) (descending : Bool) : Std.Total (t.Order orderColumn descending) where
  total row row' := by
    cases descending with
    | true => exact le_total (t.column orderColumn row') (t.column orderColumn row)
    | false => exact le_total (t.column orderColumn row) (t.column orderColumn row')

instance (orderColumn : Text) (descending : Bool) : IsTrans ρ (t.Order orderColumn descending) where
  trans row row' row'' h h' := by
    cases descending with
    | true => exact le_trans (α := κ) h' h
    | false => exact le_trans (α := κ) h h'

/-- Answers to statements, the first of them to the first request and so on: each is cut from some listing
of the selected rows in the order of the statement. -/
def Consistent (answer : ℕ → Select δ → List ρ) : Prop :=
  ∀ i st, ∃ listing : List ρ, listing.Perm (t.selected st.clauses st.params) ∧
    listing.Pairwise (t.Order st.orderColumn st.descending) ∧
      answer i st = (listing.drop st.offset.toNat).take st.limit.toNat

end LogTable

/-! ## Searches -/

structure SearchResult (ρ : Type) where
  rows : List ρ
  hasMore : Bool

/-- `rows[:n]`. -/
def sliceTo (rows : List ρ) (n : Int) : List ρ :=
  rows.take (if 0 ≤ n then n.toNat else rows.length - (-n).toNat)

namespace ClickHouseService

variable (answer : Select δ → List ρ) (cfg : ClickHouseConfig) (q : SearchQuery δ)

def search : Except PyError (SearchResult ρ) := do
  let st ← select cfg q
  let rows := answer st
  let hasMore : Bool := q.limit < rows.length
  return ⟨if hasMore then sliceTo rows q.limit else rows, hasMore⟩

end ClickHouseService

def SearchQuery.Valid (q : SearchQuery δ) : Prop :=
  (1 ≤ q.limit ∧ q.limit ≤ 10000) ∧ (0 ≤ q.offset ∧ q.offset ≤ 1000000) ∧ q.orderBy ∈ SORTABLE

instance (q : SearchQuery δ) : Decidable q.Valid := inferInstanceAs (Decidable (_ ∧ _ ∧ _))

/-- The search endpoint, `none` for an answer that is an error. -/
def SearchApi.search (answer : Select δ → List ρ) (cfg : ClickHouseConfig) (q : SearchQuery δ) :
    Option (SearchResult ρ) :=
  if q.Valid then (ClickHouseService.search answer cfg q).toOption else none

/-- Reading page after page while there are more: the rows of all pages.  `none` for an error, or if the
pages are more than the fuel. -/
def readPages (answer : ℕ → Select δ → List ρ) (cfg : ClickHouseConfig) :
    (fuel i : ℕ) → SearchQuery δ → Option (List ρ)
  | 0, _, _ => none
  | fuel + 1, i, q => do
      let result ← SearchApi.search (answer i) cfg q
      if result.hasMore then
        let rest ← readPages answer cfg fuel (i + 1) { q with offset := q.offset + q.limit }
        return result.rows ++ rest
      else return result.rows

/-- **Reading finds each row once**: whatever order the table is listed in for each page, the pages come to
an end and have the selected rows. -/
def FindsEach [LinearOrder κ] (t : LogTable δ ρ κ) (cfg : ClickHouseConfig) (q : SearchQuery δ) : Prop :=
  ∀ answer, t.Consistent answer → ∀ fuel, (t.selected q.clauses q.params).length < fuel →
    ∃ rows, readPages answer cfg fuel 0 { q with offset := 0 } = some rows ∧
      rows.Perm (t.selected q.clauses q.params)

/-! ## One page

The number of rows that are fetched has the smaller of two caps, the cut and the test for more rows have
one of them. -/

/-- The answer of a database that lists the matching rows in a fixed order. -/
def cutFrom (listing : List ρ) (st : Select δ) : List ρ :=
  (listing.drop st.offset.toNat).take st.limit.toNat

/-- **A page is exact**: the rows from the offset on, as many as both caps allow, and whether there are
more. -/
structure PageExact (listing : List ρ) (cfg : ClickHouseConfig) (q : SearchQuery δ)
    (result : SearchResult ρ) : Prop where
  rows : result.rows = (listing.drop q.offset.toNat).take (min q.limit cfg.maxResultRows).toNat
  hasMore : result.hasMore = true ↔ q.offset.toNat + result.rows.length < listing.length

/-- A search of known filters, by its rows. -/
theorem search_eq {answer : Select δ → List ρ} {cfg : ClickHouseConfig} {q : SearchQuery δ}
    (h : q.Known) {m : ℕ} (hm : q.limit = m) {rows : List ρ}
    (hrows : answer (q.statement cfg) = rows) :
    ClickHouseService.search answer cfg q =
      .ok ⟨if m < rows.length then rows.take m else rows, decide (m < rows.length)⟩ := by
  have hslice : sliceTo rows q.limit = rows.take m := by
    rw [hm, sliceTo, if_pos (Int.natCast_nonneg m), Int.toNat_natCast]
  rw [ClickHouseService.search, select_eq h]
  show Except.ok (SearchResult.mk
    (if decide (q.limit < ((answer (q.statement cfg)).length : Int)) = true then _ else _)
    (decide (q.limit < ((answer (q.statement cfg)).length : Int)))) = _
  rw [hrows, hslice, hm]
  simp only [decide_eq_true_iff, Nat.cast_lt]

/-- **A page is exact**, whatever the rows, exactly if the limit is within the cap of the configuration, or
the cap takes the rows to their end. -/
theorem search_exact_iff {listing : List ρ} {cfg : ClickHouseConfig} {q : SearchQuery δ}
    (h : q.Known) (hlimit : 1 ≤ q.limit) (hoffset : 0 ≤ q.offset) :
    (∃ result, ClickHouseService.search (cutFrom listing) cfg q = .ok result ∧
      PageExact listing cfg q result) ↔
      q.limit ≤ cfg.maxResultRows ∨ (listing.length : Int) ≤ q.offset + cfg.maxResultRows := by
  obtain ⟨m, hm⟩ := Int.eq_ofNat_of_zero_le (Int.le_trans (by decide) hlimit)
  obtain ⟨o, ho⟩ := Int.eq_ofNat_of_zero_le hoffset
  obtain ⟨c, hc⟩ := Int.eq_ofNat_of_zero_le
    (Int.le_trans (by decide) cfg.maxResultRows_bounds.1)
  have hfetch : cutFrom listing (q.statement cfg) = (listing.drop o).take (min m c + 1) := by
    have hcount : (min q.limit cfg.maxResultRows + 1).toNat = min m c + 1 := by omega
    show (listing.drop q.offset.toNat).take (min q.limit cfg.maxResultRows + 1).toNat = _
    rw [hcount, ho, Int.toNat_natCast]
  have hcap : (min q.limit cfg.maxResultRows).toNat = min m c := by omega
  have hsearch := search_eq h hm hfetch
  have hlength : ∀ n, ((listing.drop o).take n).length = min n (listing.length - o) := fun n ↦ by
    rw [List.length_take, List.length_drop]
  constructor
  · rintro ⟨result, hresult, hexact⟩
    obtain rfl := Except.ok.inj (hsearch.symm.trans hresult)
    by_contra hcon
    -- More rows are fetched than the cap allows, and fewer than the limit: none of them is cut off.
    have hrows := congrArg List.length hexact.rows
    dsimp only at hrows
    rw [if_neg (by rw [hlength]; omega), hcap, ho, Int.toNat_natCast, hlength, hlength] at hrows
    omega
  · intro hcond
    refine ⟨_, hsearch, ?_, ?_⟩
    · dsimp only
      rw [hcap, ho, Int.toNat_natCast, hlength]
      split
      · rw [List.take_take]
        congr 1
        omega
      · rw [List.take_eq_take_iff, List.length_drop]
        omega
    · rw [decide_eq_true_iff, ho, Int.toNat_natCast]
      dsimp only
      rw [hlength]
      split
      · rw [List.take_take, hlength]
        omega
      · rw [hlength]
        omega

/-- A search for everything, by the time, in pages of a given length. -/
def everything (limit : ℕ) : SearchQuery ℕ where
  timeFrom := 0
  timeTo := 10
  limit
  descending := false
  exact := []
  exact_nodup := List.nodup_nil

/-- A page of two of three rows. -/
theorem search_exact_session : ∃ result, ClickHouseService.search (cutFrom [1, 2, 3]) {}
    (everything 2) = .ok result ∧ PageExact [1, 2, 3] {} (everything 2) result :=
  (search_exact_iff (fun item hitem ↦ absurd hitem List.not_mem_nil) (by decide) (by decide)).mpr
    (.inl (by decide))

/-- **One row too many, and no more rows**: with a cap of 100 rows, a page of 1000 of 102 rows has 101
rows, and is said to be the last one. -/
theorem search_not_exact : ∃ result,
    ClickHouseService.search (cutFrom (List.range 102))
      { maxResultRows := 100, maxResultRows_bounds := by decide } (everything 1000) = .ok result ∧
    result.rows.length = 101 ∧ result.hasMore = false ∧
    ¬PageExact (List.range 102) { maxResultRows := 100, maxResultRows_bounds := by decide }
      (everything 1000) result := by
  have hfetch : cutFrom (List.range 102) ((everything 1000).statement
      { maxResultRows := 100, maxResultRows_bounds := by decide }) = List.range 101 := by
    decide +kernel
  have hsearch := search_eq (q := everything 1000) (fun item hitem ↦ absurd hitem List.not_mem_nil)
    (m := 1000) rfl hfetch
  refine ⟨_, hsearch, ?_, ?_, fun hexact ↦ ?_⟩
  · decide +kernel
  · decide +kernel
  · have hlength := congrArg List.length hexact.rows
    revert hlength
    decide +kernel

/-! ## Reading as cutting -/

section read

variable {t : LogTable δ ρ κ} {cfg : ClickHouseConfig} {q : SearchQuery δ} {m : ℕ}

def SearchQuery.at (q : SearchQuery δ) (offset : ℕ) : SearchQuery δ := { q with offset := offset }

/-- A page is the last one if no rows are left after it. -/
theorem search_page {answer : Select δ → List ρ} {L : List ρ} {i : ℕ} (hknown : q.Known)
    (hvalid : (q.at (i * m)).Valid) (hlimit : q.limit = m)
    (hanswer : answer ((q.at (i * m)).statement cfg) = (L.drop (i * m)).take (m + 1)) :
    SearchApi.search answer cfg (q.at (i * m)) =
      some ⟨Paging.page m i L, decide ((i + 1) * m < L.length)⟩ := by
  have hselect : ClickHouseService.select cfg (q.at (i * m)) = .ok ((q.at (i * m)).statement cfg) :=
    select_eq (q := q.at (i * m)) hknown
  have hlength : ((L.drop (i * m)).take (m + 1)).length = min (m + 1) (L.length - i * m) := by
    rw [List.length_take, List.length_drop]
  have hmore : q.limit < (((L.drop (i * m)).take (m + 1)).length : Int) ↔
      (i + 1) * m < L.length := by
    rw [hlimit, hlength, Nat.succ_mul]
    omega
  have hrows : (if (i + 1) * m < L.length then
      sliceTo ((L.drop (i * m)).take (m + 1)) q.limit else (L.drop (i * m)).take (m + 1)) =
        Paging.page m i L := by
    rw [Paging.page]
    split
    · rw [hlimit, sliceTo, if_pos (Int.natCast_nonneg m), Int.toNat_natCast, List.take_take,
        Nat.min_eq_left (Nat.le_succ m)]
    · rename_i hlast
      rw [Nat.succ_mul, not_lt] at hlast
      rw [List.take_of_length_le, List.take_of_length_le] <;>
      · rw [List.length_drop]
        omega
  rw [SearchApi.search, if_pos hvalid, ClickHouseService.search, hselect]
  show some (SearchResult.mk (if decide (q.limit < ((answer _).length : Int)) = true then _ else _)
    (decide (q.limit < ((answer _).length : Int)))) = _
  rw [hanswer]
  simp only [decide_eq_true_iff, hmore]
  exact congrArg (fun rows ↦ some (SearchResult.mk rows (decide ((i + 1) * m < L.length)))) hrows

/-- **Reading** cuts each page from the listing of its request. -/
theorem readPages_eq {answer : ℕ → Select δ → List ρ} {L : ℕ → List ρ} {n K : ℕ} (hknown : q.Known)
    (hlimit : q.limit = m) (hvalid : ∀ i < K, (q.at (i * m)).Valid)
    (hanswer : ∀ i, answer i ((q.at (i * m)).statement cfg) = ((L i).drop (i * m)).take (m + 1))
    (hlength : ∀ i, (L i).length = n) (hlast : ∀ i < K, (i + 1) * m < n ↔ i + 1 < K) (d : ℕ) :
    ∀ i fuel, i + d + 1 = K → d < fuel → readPages answer cfg fuel i (q.at (i * m)) =
      some ((List.range' i (d + 1)).flatMap fun k ↦ Paging.page m k (L k)) := by
  have hpage : ∀ i < K, SearchApi.search (answer i) cfg (q.at (i * m)) =
      some ⟨Paging.page m i (L i), decide (i + 1 < K)⟩ := by
    intro i hi
    rw [search_page hknown (hvalid i hi) hlimit (hanswer i), hlength]
    simp only [hlast i hi]
  have hnext : ∀ i, { q.at (i * m) with offset := (q.at (i * m)).offset + (q.at (i * m)).limit } =
      q.at ((i + 1) * m) := by
    intro i
    have hoffset : ((i * m : ℕ) : Int) + q.limit = (((i + 1) * m : ℕ) : Int) := by
      rw [hlimit, Nat.succ_mul, Nat.cast_add]
    exact congrArg (fun offset ↦ ({ q with offset := offset } : SearchQuery δ)) hoffset
  induction d with
  | zero =>
      intro i fuel hK hfuel
      obtain ⟨fuel, rfl⟩ := Nat.exists_eq_add_of_lt hfuel
      rw [Nat.zero_add, readPages, hpage i (by omega), decide_eq_false (by omega)]
      exact congrArg some (List.append_nil _).symm
  | succ d ih =>
      intro i fuel hK hfuel
      obtain ⟨fuel, rfl⟩ : ∃ fuel', fuel = fuel' + 1 := ⟨fuel - 1, by omega⟩
      rw [readPages, hpage i (by omega), decide_eq_true (show i + 1 < K by omega)]
      show (readPages answer cfg fuel (i + 1) _).bind _ = _
      rw [hnext, ih (i + 1) fuel (by omega) (by omega), List.range'_succ, List.flatMap_cons]
      rfl

/-- The pages there are: at least one. -/
theorem lt_pages {n m i : ℕ} (hm : 0 < m) : (i + 1) * m < n ↔ i + 1 < (n - 1) / m + 1 := by
  rw [Nat.lt_succ_iff, Nat.le_div_iff_mul_le hm]
  have hpos : 0 < (i + 1) * m := Nat.mul_pos (Nat.succ_pos i) hm
  omega

/-- The parts of a query that all its pages have in common. -/
structure Pageable (t : LogTable δ ρ κ) (cfg : ClickHouseConfig) (q : SearchQuery δ) : Prop where
  known : q.Known
  valid : (q.at 0).Valid
  limit : q.limit ≤ cfg.maxResultRows
  count : (t.selected q.clauses q.params).length < 1000000

variable (h : Pageable t cfg q)
include h

/-- The statement for a page. -/
theorem Pageable.statement (offset : ℕ) : (q.at offset).statement cfg =
    ⟨q.clauses, q.params, q.orderBy, q.descending, q.limit + 1, offset⟩ := by
  have horder : orderColumn q.orderBy = q.orderBy := if_pos h.valid.2.2
  have hlimit : min q.limit cfg.maxResultRows = q.limit := min_eq_left h.limit
  show Select.mk q.clauses q.params (orderColumn q.orderBy) q.descending
    (min q.limit cfg.maxResultRows + 1) offset = _
  rw [horder, hlimit]

/-- **Reading** gives the pages of the listings. -/
theorem Pageable.readPages {answer : ℕ → Select δ → List ρ} {L : ℕ → List ρ} (hm : q.limit = m)
    (hL : ∀ i, (L i).Perm (t.selected q.clauses q.params))
    (hanswer : ∀ i, answer i ((q.at (i * m)).statement cfg) = ((L i).drop (i * m)).take (m + 1))
    {fuel : ℕ} (hfuel : (t.selected q.clauses q.params).length < fuel) :
    LogServer.readPages answer cfg fuel 0 { q with offset := 0 } =
      some (Paging.pages m (((t.selected q.clauses q.params).length - 1) / m + 1) L) := by
  have hpos : 0 < m := by
    have hlimit := h.valid.1.1
    change 1 ≤ q.limit at hlimit
    omega
  obtain ⟨n, hn⟩ : ∃ n, n = (t.selected q.clauses q.params).length := ⟨_, rfl⟩
  rw [← hn] at hfuel ⊢
  have hcount : n < 1000000 := hn ▸ h.count
  have hvalid : ∀ i < (n - 1) / m + 1, (q.at (i * m)).Valid := by
    intro i hi
    have hle : i * m ≤ n - 1 := (Nat.le_div_iff_mul_le hpos).mp (Nat.lt_succ_iff.mp hi)
    refine ⟨h.valid.1, ⟨Int.natCast_nonneg _, ?_⟩, h.valid.2.2⟩
    show ((i * m : ℕ) : Int) ≤ 1000000
    omega
  have hdiv : (n - 1) / m ≤ n - 1 := Nat.div_le_self _ _
  have hread := readPages_eq h.known hm hvalid hanswer (fun i ↦ ((hL i).length_eq.trans hn.symm))
    (fun i _ ↦ lt_pages hpos) ((n - 1) / m) 0 fuel (by omega) (by omega)
  rw [Nat.zero_mul] at hread
  refine Eq.trans hread ?_
  rw [Paging.pages, List.range_eq_range']

omit h

end read

/-- Rows that are tied in the order of a query, and different, are not on two sides of the end of a
page. -/
def TiesOnOnePage [LinearOrder κ] (t : LogTable δ ρ κ) (q : SearchQuery δ) : Prop :=
  ∀ k, Paging.Clean (t.Order q.orderBy q.descending) (t.selected q.clauses q.params)
    (k * q.limit.toNat)

/-- Listings of the rows of one query are answers of a database. -/
theorem exists_consistent [LinearOrder κ] {t : LogTable δ ρ κ} {q : SearchQuery δ}
    {L : ℕ → List ρ}
    (hL : Paging.Listings (t.Order q.orderBy q.descending) (t.selected q.clauses q.params) L) :
    ∃ answer, t.Consistent answer ∧ ∀ i limit offset,
      answer i ⟨q.clauses, q.params, q.orderBy, q.descending, limit, offset⟩ =
        ((L i).drop offset.toNat).take limit.toNat := by
  classical
  let listing (i : ℕ) (st : Select δ) : List ρ :=
    if (st.clauses = q.clauses ∧ st.params = q.params) ∧
        st.orderColumn = q.orderBy ∧ st.descending = q.descending then L i
    else (t.selected st.clauses st.params).insertionSort (t.Order st.orderColumn st.descending)
  refine ⟨fun i st ↦ ((listing i st).drop st.offset.toNat).take st.limit.toNat, ?_, ?_⟩
  · intro i st
    refine ⟨listing i st, ?_, ?_, rfl⟩
    · by_cases hst : (st.clauses = q.clauses ∧ st.params = q.params) ∧
          st.orderColumn = q.orderBy ∧ st.descending = q.descending
      · rw [show listing i st = L i from if_pos hst, hst.1.1, hst.1.2]
        exact (hL i).1
      · rw [show listing i st = _ from if_neg hst]
        exact List.perm_insertionSort _ _
    · by_cases hst : (st.clauses = q.clauses ∧ st.params = q.params) ∧
          st.orderColumn = q.orderBy ∧ st.descending = q.descending
      · rw [show listing i st = L i from if_pos hst, hst.2.1, hst.2.2]
        exact (hL i).2
      · rw [show listing i st = _ from if_neg hst]
        exact List.pairwise_insertionSort _ _
  · intro i limit offset
    have hlisting : listing i ⟨q.clauses, q.params, q.orderBy, q.descending, limit, offset⟩ = L i :=
      if_pos ⟨⟨rfl, rfl⟩, rfl, rfl⟩
    show ((listing i _).drop _).take _ = _
    rw [hlisting]

/-- **Paging finds each row exactly once**, whatever order ClickHouse lists tied rows in, exactly if rows
that are tied are on one page. -/
theorem paging_finds_each_iff [LinearOrder κ] {t : LogTable δ ρ κ} {cfg : ClickHouseConfig} {q : SearchQuery δ}
    (h : Pageable t cfg q) : FindsEach t cfg q ↔ TiesOnOnePage t q := by
  obtain ⟨m, hm⟩ : ∃ m : ℕ, q.limit = m :=
    Int.eq_ofNat_of_zero_le (Int.le_trans (by decide) h.valid.1.1)
  have hpos : 0 < m := by
    have hlimit := h.valid.1.1
    change 1 ≤ q.limit at hlimit
    omega
  have hK : (t.selected q.clauses q.params).length ≤
      (((t.selected q.clauses q.params).length - 1) / m + 1) * m := by
    have hdiv := Nat.lt_div_mul_add (a := (t.selected q.clauses q.params).length - 1) hpos
    rw [Nat.succ_mul]
    omega
  have hiff := Paging.pages_perm_iff (r := t.Order q.orderBy q.descending) hpos hK
  rw [TiesOnOnePage, hm, Int.toNat_natCast, ← hiff]
  constructor
  · intro hfinds L hL
    obtain ⟨answer, hanswer, hcut⟩ := exists_consistent hL
    obtain ⟨rows, hread, hperm⟩ := hfinds answer hanswer _ (Nat.lt_succ_self _)
    have hanswers : ∀ i, answer i ((q.at (i * m)).statement cfg) =
        ((L i).drop (i * m)).take (m + 1) := by
      intro i
      rw [h.statement, hcut, hm]
      rfl
    have hpages := h.readPages hm (fun i ↦ (hL i).1) hanswers (Nat.lt_succ_self _)
    obtain rfl := Option.some.inj (hpages.symm.trans hread)
    exact hperm
  · intro hpages answer hanswer fuel hfuel
    have hlisting := fun i ↦ hanswer i ((q.at (i * m)).statement cfg)
    choose L hperm hsorted hcut using hlisting
    refine ⟨_, h.readPages hm hperm (fun i ↦ ?_) hfuel, ?_⟩
    · rw [hcut i, h.statement, hm]
      rfl
    · refine hpages L fun i ↦ ⟨hperm i, ?_⟩
      have hsorted' := hsorted i
      rw [h.statement] at hsorted'
      exact hsorted'

def times (rows : List ℕ) (column : ℕ → ℕ) : LogTable ℕ ℕ ℕ where
  rows
  holds _ _ _ := true
  column _ := column

theorem pageable_times {rows : List ℕ} {column : ℕ → ℕ} {limit : ℕ} (hrows : rows.length < 1000000)
    (hlimit : 1 ≤ limit ∧ limit ≤ 100) : Pageable (times rows column) {} (everything limit) := by
  refine ⟨fun item hitem ↦ absurd hitem List.not_mem_nil, ⟨?_, ⟨Int.le_refl 0, ?_⟩, ?_⟩, ?_, ?_⟩
  · show (1 : Int) ≤ limit ∧ (limit : Int) ≤ 10000
    omega
  · show (0 : Int) ≤ 1000000
    decide
  · show "timestamp".toList ∈ SORTABLE
    decide
  · show (limit : Int) ≤ 10000
    omega
  · exact (List.length_filter_le _ _).trans_lt hrows

/-- Three rows of different times, in pages of two. -/
theorem paging_finds_each_session : FindsEach (times [3, 1, 2] id) {} (everything 2) := by
  refine (paging_finds_each_iff (pageable_times (by decide) (by decide))).mpr ?_
  intro k a _ b _ hab hba hne
  exact absurd (le_antisymm (α := ℕ) hab hba) hne

/-- **A row is found twice and another one not at all**: two rows of one time, in pages of one, are listed
in one order for the first page and in the other for the second. -/
theorem paging_finds_not_each : ¬FindsEach (times [1, 2] fun _ ↦ 0) {} (everything 1) := by
  intro h
  have hpageable : Pageable (times [1, 2] fun _ ↦ 0) {} (everything 1) :=
    pageable_times (by decide) (by decide)
  have hL : Paging.Listings ((times [1, 2] fun _ ↦ 0).Order (everything 1).orderBy
      (everything 1).descending) ((times [1, 2] fun _ ↦ 0).selected (everything 1).clauses
        (everything 1).params) (fun i ↦ if i = 0 then [1, 2] else [2, 1]) := by
    intro i
    rcases eq_or_ne i 0 with rfl | hi
    · exact ⟨List.Perm.refl _, List.pairwise_of_forall fun _ _ ↦ le_refl 0⟩
    · simp only [if_neg hi]
      exact ⟨List.Perm.swap 1 2 [], List.pairwise_of_forall fun _ _ ↦ le_refl 0⟩
  obtain ⟨answer, hanswer, hcut⟩ := exists_consistent hL
  obtain ⟨rows, hread, hperm⟩ := h answer hanswer 3 (by decide)
  have hanswers : ∀ i, answer i (((everything 1).at (i * 1)).statement {}) =
      ((if i = 0 then [1, 2] else [2, 1]).drop (i * 1)).take (1 + 1) := by
    intro i
    rw [hpageable.statement, hcut]
    rfl
  have hpages := hpageable.readPages rfl (fun i ↦ (hL i).1) hanswers (show _ < 3 by decide)
  obtain rfl := Option.some.inj (hpages.symm.trans hread)
  exact absurd (hperm.mem_iff (a := 2)) (by decide)

end LogServer
