import LogServer.Lib.Transition
import LogServer.Services.Retrieval

/-!
# The search tab of the console

The page that an operator searches with is a state machine: what is typed and clicked, and what the
requests are answered with, in any order that a browser may bring about.  A handler runs without being
interrupted up to the request it awaits.  What it does after that is done when the answer comes, and in
between everything else may happen: the button for a search is disabled until then, but the Enter key, the
columns and the two buttons of the pager are not.

`labels_are_right`: in every run in which no search is started while one is awaited, the label below the
table says which rows the table has, and an export has them too.

`reads_pages`: whoever presses Next as long as there is a next page, and waits for each, reads what
`readPages` reads, numbered from one without gaps.

What a request is answered with is the search endpoint; what the framework reads from a body in between is a
parameter.  Texts on the page other than the label are left out.
-/

namespace LogServer

namespace Console

open Transition

/-! ## The filters -/

inductive Group where
  | pub
  | priv
  | subscriber
  | dest
  | other
deriving DecidableEq

inductive Preset where
  | pub
  | subscriber
  | priv
  | all
deriving DecidableEq

def PRESETS : Preset → List Group
  | .pub => [.pub, .other]
  | .subscriber => [.subscriber, .other]
  | .priv => [.priv, .subscriber, .other]
  | .all => [.pub, .priv, .subscriber, .dest, .other]

/-- The options of `f-limit`. -/
abbrev PageSize := {n : Int // n ∈ ([100, 250, 500, 1000] : List Int)}

/-- The options of `f-protocol`. -/
abbrev Protocol := {t : Text // t ∈ ["".toList, "TCP".toList, "UDP".toList, "ICMP".toList, "GRE".toList,
  "ESP".toList, "SCTP".toList]}

structure Filters where
  fFrom : Text := []
  fTo : Text := []
  fPublicIp : Text := []
  fPublicPort : Text := []
  fSubscriber : Text := []
  fPrivateIp : Text := []
  fPrivatePort : Text := []
  fDestIp : Text := []
  fDestPort : Text := []
  fProtocol : Protocol := ⟨"".toList, List.mem_cons_self⟩
  fRouter : Text := []
  fPartial : Bool := false
  fLimit : PageSize := ⟨100, List.mem_cons_self⟩

/-- The body of a search.  How numbers are represented is left open. -/
structure Body (Number : Type) where
  timeFrom : Option Text
  timeTo : Option Text
  publicIp : Option Text
  publicPort : Option Number
  privateIp : Option Text
  privatePort : Option Number
  destIp : Option Text
  destPort : Option Number
  protocol : Option Text
  routerIp : Option Text
  subscriberId : Option Text
  subscriberPartial : Bool
  limit : Int
  offset : Int
  orderBy : Text
  descending : Bool
deriving DecidableEq

def isSpace (c : Char) : Bool :=
  c.toNat ∈ [9, 10, 11, 12, 13, 32, 160, 5760, 8232, 8233, 8239, 8287, 12288, 65279] ||
    (8192 ≤ c.toNat && c.toNat ≤ 8202)

def trim (t : Text) : Text := (t.dropWhile isSpace).rdropWhile isSpace

def value (raw : Text) : Option Text := if trim raw = [] then none else some (trim raw)

/-! ## The page -/

/-- What the search tab and its handlers keep. -/
structure Page (Number ρ : Type) where
  user : Bool := false
  offset : Int := 0
  limit : Int := 100
  orderBy : Text := "timestamp".toList
  descending : Bool := true
  lastRows : List ρ := []
  preset : Preset := .pub
  filters : Filters := {}
  -- What is shown: the rows of the table, `page-info`, and which buttons there are.
  results : List ρ := []
  pageInfo : Option (Int × Int × Bool) := none
  searchDisabled : Bool := false
  prevDisabled : Bool := false
  nextDisabled : Bool := false
  pagerHidden : Bool := true
  /-- The searches that are awaited, in the order they were sent. -/
  pending : List (Body Number) := []
  /-- The search that was answered last with rows, and its answer. -/
  answered : Option (Body Number × List ρ × Bool) := none

/-- What a search is answered with: a page, an error, or that nobody is signed in. -/
inductive Reply (ρ : Type) where
  | rows (rows : List ρ) (hasMore : Bool)
  | failed
  | unauthorized

inductive Action (ρ : Type) where
  | showApp (from_ to_ : Text)
  | showLogin
  | edit (filters : Filters)
  | applyPreset (name : Preset)
  | search
  | enter
  | prev
  | next
  | sort (column : Text)
  | clear (from_ to_ : Text)
  | answer (i : ℕ) (reply : Reply ρ)

section handlers

-- How a number field is read is left open.
variable {Number ρ : Type} (number : Text → Number)

namespace Page

def collectFilters (s : Page Number ρ) : Body Number :=
  let num (raw : Text) : Option Number := (value raw).map number
  let shown {α : Type} (group : Group) (v : Option α) : Option α :=
    if group ∈ PRESETS s.preset then v else none
  { timeFrom := value s.filters.fFrom
    timeTo := value s.filters.fTo
    publicIp := shown .pub (value s.filters.fPublicIp)
    publicPort := shown .pub (num s.filters.fPublicPort)
    privateIp := shown .priv (value s.filters.fPrivateIp)
    privatePort := shown .priv (num s.filters.fPrivatePort)
    destIp := shown .dest (value s.filters.fDestIp)
    destPort := shown .dest (num s.filters.fDestPort)
    protocol := value s.filters.fProtocol
    routerIp := value s.filters.fRouter
    subscriberId := shown .subscriber (value s.filters.fSubscriber)
    subscriberPartial := s.filters.fPartial
    limit := s.limit
    offset := s.offset
    orderBy := s.orderBy
    descending := s.descending }

/-- `runSearch`, up to its request. -/
def runSearch (s : Page Number ρ) (resetOffset : Bool) : Page Number ρ :=
  let s := if resetOffset then { s with offset := 0 } else s
  let s := { s with limit := s.filters.fLimit, searchDisabled := true }
  { s with pending := s.pending ++ [s.collectFilters number] }

/-- `runSearch`, from the answer to its request on. -/
def finish (s : Page Number ρ) (body : Body Number) : Reply ρ → Page Number ρ
  | .rows rows hasMore =>
      { s with
        lastRows := rows
        results := rows
        pagerHidden := rows.length = 0 ∧ s.offset = 0
        prevDisabled := s.offset = 0
        nextDisabled := !hasMore
        pageInfo := some (s.offset + 1, s.offset + rows.length, !hasMore)
        searchDisabled := false
        answered := some (body, rows, hasMore) }
  | .failed => { s with searchDisabled := false }
  | .unauthorized => { s with searchDisabled := false, user := false }

/-- `clear-filters`. -/
def clear (s : Page Number ρ) (from_ to_ : Text) : Page Number ρ :=
  { s with
    filters := { fFrom := from_, fTo := to_, fLimit := s.filters.fLimit }
    results := []
    pagerHidden := true }

/-- The column that the rows are sorted by; clicking on it again turns the order around. -/
def sort (s : Page Number ρ) (column : Text) : Page Number ρ :=
  if s.orderBy = column then { s with descending := !s.descending }
  else { s with orderBy := column, descending := true }

end Page

/-- The columns of the table that it can be sorted by. -/
def sortableColumns : List Text :=
  ["timestamp".toList, "subscriber_id".toList, "private_ip".toList, "public_ip".toList,
    "dest_ip".toList, "protocol".toList, "router_ip".toList]

/-- What is clicked and typed in the search tab; `none` where there is nothing to click on. -/
def click (s : Page Number ρ) : Action ρ → Option (Page Number ρ)
  | .edit filters => some { s with filters }
  | .applyPreset preset => some { s with preset }
  | .search => if s.searchDisabled then none else some (s.runSearch number true)
  | .enter => some (s.runSearch number true)
  | .prev =>
      if s.pagerHidden ∨ s.prevDisabled then none
      else some ({ s with offset := max 0 (s.offset - s.limit) }.runSearch number false)
  | .next =>
      if s.pagerHidden ∨ s.nextDisabled then none
      else some ({ s with offset := s.offset + s.limit }.runSearch number false)
  | .sort column =>
      if column ∈ sortableColumns then some ((s.sort column).runSearch number true) else none
  | .clear from_ to_ => some (s.clear from_ to_)
  | .showApp _ _ | .showLogin | .answer _ _ => none

/-- What an action does.  The search tab is there while somebody is signed in; answers come in any order. -/
def step (s : Page Number ρ) : Action ρ → Option (Page Number ρ)
  | .showApp from_ to_ =>
      some { s with user := true, filters := { s.filters with fFrom := from_, fTo := to_ } }
  | .showLogin => some { s with user := false }
  | .answer i reply =>
      s.pending[i]?.map fun body ↦ { s with pending := s.pending.eraseIdx i }.finish body reply
  | a => if s.user then click number s a else none

def system : System (Page Number ρ) (Action ρ) where
  init s := s = {}
  step := step number

end handlers

/-! ## What the page shows -/

def Action.searches {ρ : Type} : Action ρ → Bool
  | .search | .enter | .prev | .next | .sort _ => true
  | _ => false

section shown

variable {Number ρ : Type} {number : Text → Number} {s s' : Page Number ρ} {a : Action ρ}

/-- No search is started while one is awaited. -/
def Alone (s : Page Number ρ) (a : Action ρ) : Prop := a.searches = true → s.pending = []

theorem alone_of_not_searches (h : a.searches = false) : Alone s a :=
  fun hsearches ↦ absurd (h.symm.trans hsearches) Bool.false_ne_true

/-- What the endpoint asks of the numbers and the column of a body. -/
structure Body.Fits (body : Body Number) : Prop where
  limit : 1 ≤ body.limit ∧ body.limit ≤ 10000
  offset : 0 ≤ body.offset
  orderBy : body.orderBy ∈ SORTABLE

/-- The table is that of the last answer, or was cleared, and the label and the buttons of the pager are
those of the search that was answered. -/
def Page.Shows (s : Page Number ρ) : Prop :=
  match s.answered with
  | none => s.lastRows = [] ∧ s.results = [] ∧ s.pageInfo = none ∧ s.pagerHidden = true
  | some (body, rows, hasMore) =>
      s.lastRows = rows ∧ (s.results = rows ∨ s.results = [] ∧ s.pagerHidden = true) ∧
        s.pageInfo = some (body.offset + 1, body.offset + rows.length, !hasMore) ∧
          s.prevDisabled = decide (body.offset = 0) ∧ s.nextDisabled = !hasMore

/-- What a page and its last answer are while searches are awaited one by one. -/
structure Page.Sound (s : Page Number ρ) : Prop where
  shows : s.Shows
  single : s.pending.length ≤ 1
  pending : ∀ body ∈ s.pending, body.offset = s.offset ∧ body.Fits
  answered : ∀ answer ∈ s.answered, answer.1.Fits
  offset : 0 ≤ s.offset
  limit : 1 ≤ s.limit ∧ s.limit ≤ 10000
  orderBy : s.orderBy ∈ SORTABLE

/-- The parts of a page that an answer changes. -/
structure Page.Keeps (s t : Page Number ρ) : Prop where
  pending : t.pending = s.pending
  answered : t.answered = s.answered
  lastRows : t.lastRows = s.lastRows
  pageInfo : t.pageInfo = s.pageInfo
  prevDisabled : t.prevDisabled = s.prevDisabled
  nextDisabled : t.nextDisabled = s.nextDisabled
  results : t.results = s.results ∧ t.pagerHidden = s.pagerHidden ∨ t.results = [] ∧ t.pagerHidden = true

/-- What a step does: it starts a search, an answer comes, or the page keeps what it shows. -/
inductive Page.Effect (number : Text → Number) (s s' : Page Number ρ) (a : Action ρ) : Prop
  | searches (t : Page Number ρ) (hsearches : a.searches = true) (hkeeps : s.Keeps t) (hoffset : 0 ≤ t.offset)
      (horder : t.orderBy ∈ SORTABLE) (heq : s' = t.runSearch number false)
  | answers (i : ℕ) (body : Body Number) (reply : Reply ρ) (hbody : s.pending[i]? = some body)
      (heq : s' = { s with pending := s.pending.eraseIdx i }.finish body reply)
  | keeps (hkeeps : s.Keeps s') (hoffset : s'.offset = s.offset) (hlimit : s'.limit = s.limit)
      (horder : s'.orderBy = s.orderBy)

/-- What only touches other parts of a page. -/
theorem Page.Keeps.refl (s : Page Number ρ) : s.Keeps s :=
  ⟨rfl, rfl, rfl, rfl, rfl, rfl, .inl ⟨rfl, rfl⟩⟩

theorem sortableColumns_subset : ∀ column ∈ sortableColumns, column ∈ SORTABLE := by decide +kernel

/-- Clicking on a column changes only what the rows are sorted by. -/
theorem Page.keeps_sort (s : Page Number ρ) (column : Text) :
    s.Keeps (s.sort column) ∧ (s.sort column).orderBy = column ∧ (s.sort column).offset = s.offset := by
  unfold Page.sort
  split
  · rename_i horder
    exact ⟨⟨rfl, rfl, rfl, rfl, rfl, rfl, .inl ⟨rfl, rfl⟩⟩, horder, rfl⟩
  · exact ⟨⟨rfl, rfl, rfl, rfl, rfl, rfl, .inl ⟨rfl, rfl⟩⟩, rfl, rfl⟩

/-- What is clicked and typed starts a search, or the page keeps what it shows. -/
theorem effect_of_click (hs : s.Sound) (h : click number s a = some s') : s.Effect number s' a := by
  cases a with
  | showApp from_ to_ => cases h
  | showLogin => cases h
  | answer i reply => cases h
  | edit filters =>
      cases h
      exact .keeps ⟨rfl, rfl, rfl, rfl, rfl, rfl, .inl ⟨rfl, rfl⟩⟩ rfl rfl rfl
  | applyPreset preset =>
      cases h
      exact .keeps ⟨rfl, rfl, rfl, rfl, rfl, rfl, .inl ⟨rfl, rfl⟩⟩ rfl rfl rfl
  | clear from_ to_ =>
      cases h
      exact .keeps ⟨rfl, rfl, rfl, rfl, rfl, rfl, .inr ⟨rfl, rfl⟩⟩ rfl rfl rfl
  | search =>
      rw [click] at h
      split at h
      · cases h
      · cases h
        exact .searches { s with offset := 0 } rfl ⟨rfl, rfl, rfl, rfl, rfl, rfl, .inl ⟨rfl, rfl⟩⟩
          (Int.le_refl 0) hs.orderBy rfl
  | enter =>
      cases h
      exact .searches { s with offset := 0 } rfl ⟨rfl, rfl, rfl, rfl, rfl, rfl, .inl ⟨rfl, rfl⟩⟩
        (Int.le_refl 0) hs.orderBy rfl
  | prev =>
      rw [click] at h
      split at h
      · cases h
      · cases h
        exact .searches { s with offset := max 0 (s.offset - s.limit) } rfl
          ⟨rfl, rfl, rfl, rfl, rfl, rfl, .inl ⟨rfl, rfl⟩⟩ (Int.le_max_left _ _) hs.orderBy rfl
  | next =>
      rw [click] at h
      split at h
      · cases h
      · cases h
        exact .searches { s with offset := s.offset + s.limit } rfl
          ⟨rfl, rfl, rfl, rfl, rfl, rfl, .inl ⟨rfl, rfl⟩⟩
          (Int.add_nonneg hs.offset (Int.le_trans (by decide) hs.limit.1)) hs.orderBy rfl
  | sort column =>
      rw [click] at h
      split at h
      · rename_i hcolumn
        cases h
        obtain ⟨hkeeps, horder, -⟩ := s.keeps_sort column
        refine .searches { s.sort column with offset := 0 } rfl ⟨hkeeps.pending, hkeeps.answered,
          hkeeps.lastRows, hkeeps.pageInfo, hkeeps.prevDisabled, hkeeps.nextDisabled, hkeeps.results⟩
          (Int.le_refl 0) ?_ rfl
        rw [horder]
        exact sortableColumns_subset column hcolumn
      · cases h

/-- **What a step does.** -/
theorem effect_of_step (hs : s.Sound) (h : step number s a = some s') : s.Effect number s' a := by
  have hclick {a : Action ρ} (h : (if s.user then click number s a else none) = some s') :
      s.Effect number s' a := by
    split at h
    · exact effect_of_click hs h
    · cases h
  cases a with
  | showApp from_ to_ =>
      cases h
      exact .keeps ⟨rfl, rfl, rfl, rfl, rfl, rfl, .inl ⟨rfl, rfl⟩⟩ rfl rfl rfl
  | showLogin =>
      cases h
      exact .keeps ⟨rfl, rfl, rfl, rfl, rfl, rfl, .inl ⟨rfl, rfl⟩⟩ rfl rfl rfl
  | answer i reply =>
      obtain ⟨body, hbody, rfl⟩ := Option.map_eq_some_iff.mp h
      exact .answers i body reply hbody rfl
  | edit filters => exact hclick h
  | applyPreset preset => exact hclick h
  | search => exact hclick h
  | enter => exact hclick h
  | prev => exact hclick h
  | next => exact hclick h
  | sort column => exact hclick h
  | clear from_ to_ => exact hclick h

/-! ### The label -/

/-- What is shown is kept with the page. -/
theorem Page.Keeps.shows {t : Page Number ρ} (hkeeps : s.Keeps t) (h : s.Shows) : t.Shows := by
  unfold Page.Shows at h ⊢
  rw [hkeeps.answered, hkeeps.lastRows, hkeeps.pageInfo, hkeeps.prevDisabled, hkeeps.nextDisabled]
  split at h
  · obtain ⟨hrows, hresults, hinfo, hhidden⟩ := h
    rcases hkeeps.results with ⟨hsame, hsame'⟩ | ⟨hnone, hhidden'⟩
    · exact ⟨hrows, hsame.trans hresults, hinfo, hsame'.trans hhidden⟩
    · exact ⟨hrows, hnone, hinfo, hhidden'⟩
  · obtain ⟨hrows, hresults, hinfo⟩ := h
    refine ⟨hrows, ?_, hinfo⟩
    rcases hkeeps.results with ⟨hsame, hsame'⟩ | hcleared
    · rw [hsame, hsame']
      exact hresults
    · exact .inr hcleared

/-- A page that keeps what it shows stays sound. -/
theorem Page.Sound.keeps (hs : s.Sound) (hkeeps : s.Keeps s') (hoffset : s'.offset = s.offset)
    (hlimit : s'.limit = s.limit) (horder : s'.orderBy = s.orderBy) : s'.Sound where
  shows := hkeeps.shows hs.shows
  single := hkeeps.pending ▸ hs.single
  pending := by
    rw [hkeeps.pending, hoffset]
    exact hs.pending
  answered := hkeeps.answered ▸ hs.answered
  offset := hoffset ▸ hs.offset
  limit := hlimit ▸ hs.limit
  orderBy := horder ▸ hs.orderBy

theorem pageSize_bounds (n : PageSize) : 1 ≤ n.val ∧ n.val ≤ 10000 := by
  have hsizes : ∀ n ∈ ([100, 250, 500, 1000] : List Int), 1 ≤ n ∧ n ≤ 10000 := by decide
  exact hsizes n.val n.2

/-- A search that is started while none is awaited is awaited alone. -/
theorem Page.Sound.searches {t : Page Number ρ} (hs : s.Sound) (hnone : s.pending = []) (hkeeps : s.Keeps t)
    (hoffset : 0 ≤ t.offset) (horder : t.orderBy ∈ SORTABLE) : (t.runSearch number false).Sound := by
  have hpending : (t.runSearch number false).pending =
      [({ t with limit := t.filters.fLimit, searchDisabled := true } : Page Number ρ).collectFilters number] := by
    show t.pending ++ _ = _
    rw [hkeeps.pending, hnone]
    rfl
  refine ⟨?_, ?_, ?_, ?_, hoffset, pageSize_bounds _, horder⟩
  · exact hkeeps.shows hs.shows
  · rw [hpending]
    exact Nat.le_refl 1
  · intro body hbody
    obtain rfl := List.mem_singleton.mp (hpending ▸ hbody)
    exact ⟨rfl, pageSize_bounds _, hoffset, horder⟩
  · intro answer hanswer
    exact hs.answered answer (hkeeps.answered ▸ hanswer)

/-- The answer to a search that is awaited alone. -/
theorem Page.Sound.answers (hs : s.Sound) {i : ℕ} {body : Body Number} (hbody : s.pending[i]? = some body)
    (reply : Reply ρ) : ({ s with pending := s.pending.eraseIdx i }.finish body reply).Sound := by
  obtain ⟨hoffset, hfits⟩ := hs.pending body (List.mem_of_getElem? hbody)
  have hpending : s.pending.eraseIdx i = [] := by
    have hlt := (List.getElem?_eq_some_iff.mp hbody).1
    refine List.length_eq_zero_iff.mp ?_
    rw [List.length_eraseIdx_of_lt hlt]
    have hsingle := hs.single
    omega
  have hnone (t : Page Number ρ) : ∀ body ∈ s.pending.eraseIdx i, body.offset = t.offset ∧ body.Fits := by
    rw [hpending]
    exact fun _ h ↦ absurd h List.not_mem_nil
  have hsingle : (s.pending.eraseIdx i).length ≤ 1 := hpending ▸ Nat.zero_le 1
  cases reply with
  | rows rows hasMore =>
      refine ⟨⟨rfl, .inl rfl, ?_, ?_, rfl⟩, hsingle, hnone _, ?_, hs.offset, hs.limit, hs.orderBy⟩
      · rw [hoffset]
        rfl
      · rw [hoffset]
        rfl
      · rintro answer ⟨⟩
        exact hfits
  | failed => exact ⟨hs.shows, hsingle, hnone _, hs.answered, hs.offset, hs.limit, hs.orderBy⟩
  | unauthorized => exact ⟨hs.shows, hsingle, hnone _, hs.answered, hs.offset, hs.limit, hs.orderBy⟩

/-- A step keeps a page sound. -/
theorem Page.Sound.step (hs : s.Sound) (halone : Alone s a) (h : step number s a = some s') : s'.Sound := by
  rcases effect_of_step hs h with ⟨t, hsearches, hkeeps, hoffset, horder, rfl⟩ | ⟨i, body, reply, hbody, rfl⟩ |
    ⟨hkeeps, hoffset, hlimit, horder⟩
  · exact hs.searches (halone hsearches) hkeeps hoffset horder
  · exact hs.answers hbody reply
  · exact hs.keeps hkeeps hoffset hlimit horder

/-- The page that is loaded. -/
theorem Page.sound_default : ({} : Page Number ρ).Sound where
  shows := ⟨rfl, rfl, rfl, rfl⟩
  single := Nat.zero_le 1
  pending := fun _ h ↦ absurd h List.not_mem_nil
  answered := fun _ h ↦ absurd h (Option.not_mem_none _)
  offset := Int.le_refl 0
  limit := pageSize_bounds ⟨100, List.mem_cons_self⟩
  orderBy := sortableColumns_subset _ List.mem_cons_self

/-- **The label is right.**  In every run in which no search is started while one is awaited: the rows that an
export has are those of the last answer, the table has them too unless it was cleared, and the label and the
buttons of the pager are those of the search that was answered.  The endpoint has nothing against the numbers
and the column of a search but that its offset may be too large. -/
theorem labels_are_right (h : Reach (system (ρ := ρ) number) Alone s) :
    s.Shows ∧ (∀ body ∈ s.pending, body.Fits) ∧ ∀ answer ∈ s.answered, answer.1.Fits := by
  have hsound : s.Sound := by
    refine h.invariant (P := Page.Sound) ?_ fun s a s' hs halone hstep ↦ hs.step halone hstep
    rintro _ rfl
    exact Page.sound_default
  exact ⟨hsound.shows, fun body hbody ↦ (hsound.pending body hbody).2, hsound.answered⟩

/-- A search is awaited, and its rows are shown. -/
theorem labels_are_right_session : ∃ s : Page ℕ ℕ, Reach (system List.length) Alone s ∧
    s.answered.isSome ∧ s.results = [7] ∧ s.Shows := by
  have hsignedIn := (Reach.init rfl : Reach (system (ρ := ℕ) List.length) Alone {}).step
    (a := .showApp [] []) (alone_of_not_searches rfl) rfl
  have hawaited := hsignedIn.step (a := .search) (fun _ ↦ rfl) rfl
  have hrun := hawaited.step (a := .answer 0 (.rows [7] false)) (alone_of_not_searches rfl) rfl
  exact ⟨_, hrun, rfl, rfl, (labels_are_right hrun).1⟩

end shown

/-! ## Reading page after page -/

/-- What the framework makes of the texts and the numbers of a body. -/
structure Framework (Number : Type) where
  datetime : Text → Option Datetime
  int : Number → Option Int

section endpoint

variable {Number ρ : Type}

/-- A body, each field of its type. -/
def Framework.form (framework : Framework Number) (body : Body Number) : Option SearchForm := do
  let timeFrom ← body.timeFrom.mapM framework.datetime
  let timeTo ← body.timeTo.mapM framework.datetime
  let privatePort ← body.privatePort.mapM framework.int
  let publicPort ← body.publicPort.mapM framework.int
  let destPort ← body.destPort.mapM framework.int
  return {
    timeFrom, timeTo, privatePort, publicPort, destPort
    routerIp := body.routerIp
    privateIp := body.privateIp
    publicIp := body.publicIp
    destIp := body.destIp
    protocol := body.protocol
    subscriberId := body.subscriberId
    subscriberPartial := body.subscriberPartial
    limit := body.limit
    offset := body.offset
    orderBy := body.orderBy
    descending := body.descending }

/-- What answers the searches of somebody who is signed in, at the time of each. -/
structure Endpoint (Number ρ : Type) where
  framework : Framework Number
  u : CharTable
  ipv6Address : Text → Bool
  repr : Text → Text
  cfg : ClickHouseConfig
  now : ℕ → Datetime
  answer : ℕ → Select Datetime → List ρ

/-- What the body of a search becomes, or nothing if it is refused. -/
def Endpoint.payload (e : Endpoint Number ρ) (body : Body Number) : Option SearchRequest :=
  (e.framework.form body).bind fun form ↦
    (SearchRequest.validate e.u e.ipv6Address e.repr form).toOption

/-- What is found for a search, or nothing if it is refused or fails. -/
def Endpoint.result (e : Endpoint Number ρ) (i : ℕ) (body : Body Number) :
    Option (SearchQuery Datetime × SearchResult ρ) :=
  (e.payload body).bind fun payload ↦
    (SearchApi.searchQuery e.u (e.now i) (ClickHouseService.search (e.answer i) e.cfg) payload).toOption

def Endpoint.reply (e : Endpoint Number ρ) (i : ℕ) (body : Body Number) : Reply ρ :=
  (e.result i body).elim .failed fun found ↦ .rows found.2.rows found.2.hasMore

/-- Pressing Next as long as there is a next page and waiting for each: the pages that are shown, with their
labels, and the page in the end. -/
inductive Browse (number : Text → Number) (reply : ℕ → Body Number → Reply ρ) :
    ℕ → Page Number ρ → List (List ρ × Option (Int × Int × Bool)) → Page Number ρ → Prop
  | last {i : ℕ} {s s' : Page Number ρ} {body : Body Number} (hpending : s.pending = [body])
      (hanswer : step number s (.answer 0 (reply i body)) = some s') (hlast : s'.nextDisabled = true) :
      Browse number reply i s [(s'.results, s'.pageInfo)] s'
  | next {i : ℕ} {s s' s'' t : Page Number ρ} {body : Body Number}
      {pages : List (List ρ × Option (Int × Int × Bool))} (hpending : s.pending = [body])
      (hanswer : step number s (.answer 0 (reply i body)) = some s')
      (hnext : step number s' .next = some s'') (hrest : Browse number reply (i + 1) s'' pages t) :
      Browse number reply i s ((s'.results, s'.pageInfo) :: pages) t

/-- The labels number the rows without gaps, and the last one says that it is the last. -/
def Numbered (before : Int) : List (List ρ × Option (Int × Int × Bool)) → Prop
  | [] => True
  | (rows, label) :: pages =>
      label = some (before + 1, before + rows.length, pages.isEmpty) ∧
        Numbered (before + rows.length) pages

end endpoint

section reading

variable {Number ρ : Type} {number : Text → Number} {e : Endpoint Number ρ}

def Body.at (body : Body Number) (offset : Int) : Body Number := { body with offset }

theorem toOption_eq_some {ε α : Type} {x : Except ε α} {a : α} : x.toOption = some a ↔ x = .ok a := by
  cases x with
  | error e => exact ⟨fun h ↦ (by cases h), fun h ↦ (by cases h)⟩
  | ok b => exact ⟨fun h ↦ congrArg Except.ok (Option.some.inj h), fun h ↦ congrArg some (Except.ok.inj h)⟩

theorem form_at (framework : Framework Number) (body : Body Number) (offset : Int) :
    framework.form (body.at offset) = (framework.form body).map ({ · with offset }) := by
  unfold Framework.form Body.at
  dsimp only
  rcases body.timeFrom.mapM framework.datetime with - | timeFrom
  · rfl
  rcases body.timeTo.mapM framework.datetime with - | timeTo
  · rfl
  rcases body.privatePort.mapM framework.int with - | privatePort
  · rfl
  rcases body.publicPort.mapM framework.int with - | publicPort
  · rfl
  rcases body.destPort.mapM framework.int with - | destPort
  · rfl
  rfl

/-- A form for another offset is let through as the request for that offset. -/
theorem validate_at {u : CharTable} {ipv6Address : Text → Bool} {repr : Text → Text} {form : SearchForm}
    {r : SearchRequest} (h : SearchRequest.validate u ipv6Address repr form = .ok r)
    (o : Set.Icc (0 : Int) 1000000) :
    SearchRequest.validate u ipv6Address repr { form with offset := o.val } = .ok { r with offset := o } := by
  obtain ⟨_, descending, h₁, hdescending, rfl⟩ := Checked.field_eq_ok.mp h
  obtain ⟨_, orderBy, h₂, horderBy, rfl⟩ := Checked.field_eq_ok.mp h₁
  obtain ⟨_, offset, h₃, hoffset, rfl⟩ := Checked.field_eq_ok.mp h₂
  obtain ⟨_, limit, h₄, -, rfl⟩ := Checked.field_eq_ok.mp h₃
  obtain ⟨_, subscriberPartial, h₅, -, rfl⟩ := Checked.field_eq_ok.mp h₄
  obtain ⟨_, subscriberId, h₆, -, rfl⟩ := Checked.field_eq_ok.mp h₅
  obtain ⟨_, protocol, h₇, -, rfl⟩ := Checked.field_eq_ok.mp h₆
  obtain ⟨_, destPort, h₈, -, rfl⟩ := Checked.field_eq_ok.mp h₇
  obtain ⟨_, publicPort, h₉, -, rfl⟩ := Checked.field_eq_ok.mp h₈
  obtain ⟨_, privatePort, h₁₀, -, rfl⟩ := Checked.field_eq_ok.mp h₉
  obtain ⟨_, destIp, h₁₁, -, rfl⟩ := Checked.field_eq_ok.mp h₁₀
  obtain ⟨_, publicIp, h₁₂, -, rfl⟩ := Checked.field_eq_ok.mp h₁₁
  obtain ⟨_, privateIp, h₁₃, -, rfl⟩ := Checked.field_eq_ok.mp h₁₂
  obtain ⟨_, routerIp, h₁₄, -, rfl⟩ := Checked.field_eq_ok.mp h₁₃
  cases h₁₄
  have ho : SearchRequest.number "offset".toList 0 1000000 o.val = .ok o := by
    rw [SearchRequest.number, dif_pos o.2.1, dif_pos o.2.2]
  exact Checked.field_eq_ok.mpr ⟨_, _, Checked.field_eq_ok.mpr ⟨_, _,
    Checked.field_eq_ok.mpr ⟨_, _, h₃, ho, rfl⟩, horderBy, rfl⟩, hdescending, rfl⟩

theorem payload_at {body : Body Number} {r : SearchRequest} (h : e.payload body = some r)
    (o : Set.Icc (0 : Int) 1000000) : e.payload (body.at o.val) = some { r with offset := o } := by
  obtain ⟨form, hform, hvalid⟩ := Option.bind_eq_some_iff.mp h
  refine Option.bind_eq_some_iff.mpr ⟨{ form with offset := o.val }, ?_, ?_⟩
  · rw [form_at, hform]
    rfl
  · exact toOption_eq_some.mpr (validate_at (toOption_eq_some.mp hvalid) o)

/-- Where the end of the window is given, the query does not depend on when the request comes. -/
theorem toQuery_at {u : CharTable} {r : SearchRequest} (hto : r.timeTo.isSome) {now now' : Datetime}
    {q : SearchQuery Datetime} (h : r.toQuery u now = .ok q) (o : Set.Icc (0 : Int) 1000000) :
    SearchRequest.toQuery u { r with offset := o } now' = .ok { q with offset := o.val } := by
  obtain ⟨timeTo, hto⟩ := Option.isSome_iff_exists.mp hto
  have hends : SearchRequest.ends { r with offset := o } now' = r.ends now := by
    unfold SearchRequest.ends
    dsimp only
    rw [hto]
    rfl
  rw [SearchRequest.toQuery] at h ⊢
  rw [hends]
  cases hwindow : r.ends now with
  | error _ =>
      rw [hwindow] at h
      cases h
  | ok window =>
      rw [hwindow] at h
      change (SearchRequest.checkWindow window.1 window.2 >>= _) = _ at h
      show (SearchRequest.checkWindow window.1 window.2 >>= _) = _
      cases hcheck : SearchRequest.checkWindow window.1 window.2 with
      | error _ =>
          rw [hcheck] at h
          cases h
      | ok _ =>
          rw [hcheck] at h
          cases h
          rfl

/-- **The reply to a search for another offset** is the page that starts there. -/
theorem reply_at {body : Body Number} {r : SearchRequest} (hpayload : e.payload body = some r)
    (hto : r.timeTo.isSome) {q : SearchQuery Datetime} (hquery : r.toQuery e.u (e.now 0) = .ok q) {i o : ℕ}
    {result : SearchResult ρ} (hresult : SearchApi.search (e.answer i) e.cfg (q.at o) = some result) :
    e.reply i (body.at o) = .rows result.rows result.hasMore := by
  rw [SearchApi.search] at hresult
  split at hresult
  · rename_i hvalid
    let offset : Set.Icc (0 : Int) 1000000 := ⟨o, hvalid.2.1⟩
    have hfound : e.result i (body.at o) = some (q.at o, result) := by
      refine Option.bind_eq_some_iff.mpr ⟨_, payload_at hpayload offset, toOption_eq_some.mpr ?_⟩
      rw [SearchApi.searchQuery, SearchApi.handle, toQuery_at hto hquery offset]
      have hsearch : ClickHouseService.search (e.answer i) e.cfg { q with offset := offset.val } = .ok result :=
        toOption_eq_some.mp hresult
      dsimp only
      rw [hsearch]
      rfl
    rw [Endpoint.reply, hfound]
    rfl
  · cases hresult

/-- A page after which there are more is a full one. -/
theorem length_of_hasMore {answer : Select Datetime → List ρ} {cfg : ClickHouseConfig}
    {q : SearchQuery Datetime} {m : ℕ} (hm : q.limit = m) {result : SearchResult ρ}
    (hresult : SearchApi.search answer cfg q = some result) (hmore : result.hasMore = true) :
    result.rows.length = m := by
  rw [SearchApi.search] at hresult
  split at hresult
  · have hsearch := toOption_eq_some.mp hresult
    rw [ClickHouseService.search] at hsearch
    cases hselect : ClickHouseService.select cfg q with
    | error _ =>
        rw [hselect] at hsearch
        cases hsearch
    | ok st =>
        rw [hselect] at hsearch
        cases hsearch
        have hlt : m < (answer st).length := by
          rw [hm] at hmore
          exact Int.ofNat_lt.mp (of_decide_eq_true hmore)
        show (if decide (q.limit < ((answer st).length : Int)) = true then _ else _ : List ρ).length = m
        rw [if_pos hmore, hm, sliceTo, if_pos (Int.natCast_nonneg m), Int.toNat_natCast, List.length_take]
        exact Nat.min_eq_left hlt.le
  · cases hresult

/-- A page of the body is awaited, and nothing else. -/
structure Asking (number : Text → Number) (body : Body Number) (o : ℕ) (s : Page Number ρ) : Prop where
  user : s.user = true
  pending : s.pending = [body.at o]
  offset : s.offset = o
  limit : s.limit = body.limit
  size : s.filters.fLimit.val = body.limit
  collects : s.collectFilters number = body.at o

/-- A search that is started while none is awaited asks for the first page. -/
theorem asking_search {s s' : Page Number ρ} (hnone : s.pending = []) (huser : s.user = true)
    (hstep : step number s .search = some s') : Asking number (s'.collectFilters number) 0 s' := by
  change (if s.user then click number s .search else none) = some s' at hstep
  rw [if_pos huser, click] at hstep
  split at hstep
  · cases hstep
  · cases hstep
    refine ⟨huser, ?_, rfl, rfl, rfl, rfl⟩
    show s.pending ++ [_] = _
    rw [hnone]
    rfl

namespace Asking

variable {body : Body Number} {o : ℕ} {s : Page Number ρ} {rows : List ρ}

/-- The page that is awaited comes. -/
theorem answered (h : Asking number body o s) (rows : List ρ) (hasMore : Bool) :
    step number s (.answer 0 (.rows rows hasMore)) =
      some ({ s with pending := [] }.finish (body.at o) (.rows rows hasMore)) := by
  rw [step, h.pending]
  rfl

/-- After a page that is not the last one, the next one can be asked for. -/
theorem next {m : ℕ} (h : Asking number body o s) (hm : body.limit = m) (hrows : rows.length ≠ 0) :
    ∃ s', step number ({ s with pending := [] }.finish (body.at o) (.rows rows true)) .next = some s' ∧
      Asking number body (o + m) s' := by
  have hclick : click number ({ s with pending := [] }.finish (body.at o) (.rows rows true)) .next = some
      (({ ({ s with pending := [] } : Page Number ρ).finish (body.at o) (.rows rows true) with
        offset := s.offset + s.limit } : Page Number ρ).runSearch number false) := by
    rw [click]
    refine if_neg ?_
    rintro (hhidden | hdisabled)
    · exact hrows (of_decide_eq_true hhidden).1
    · exact absurd hdisabled Bool.false_ne_true
  have hoffset : s.offset + s.limit = ((o + m : ℕ) : Int) := by
    rw [h.offset, h.limit, hm, Nat.cast_add]
  have hcollects : ({ s.collectFilters number with
      limit := s.filters.fLimit, offset := s.offset + s.limit } : Body Number) = body.at (o + m : ℕ) := by
    rw [h.collects, h.size, hoffset]
    rfl
  exact ⟨_, Eq.trans (if_pos h.user) hclick, h.user, congrArg ([·]) hcollects, hoffset, h.size, h.size,
    hcollects⟩

end Asking

/-- **Pressing Next** shows the pages that are read, and numbers their rows. -/
theorem browse_of_readPages {body : Body Number} {r : SearchRequest} (hpayload : e.payload body = some r)
    (hto : r.timeTo.isSome) {q : SearchQuery Datetime} (hquery : r.toQuery e.u (e.now 0) = .ok q) {m : ℕ}
    (hm : q.limit = m) (hpos : 0 < m) (hlimit : body.limit = m) (fuel : ℕ) :
    ∀ {i o : ℕ} {s : Page Number ρ} {rows : List ρ}, Asking number body o s →
      readPages e.answer e.cfg fuel i (q.at o) = some rows → ∃ pages t, Browse number e.reply i s pages t ∧
        pages.flatMap Prod.fst = rows ∧ Numbered o pages ∧ t.nextDisabled = true ∧ pages ≠ [] := by
  induction fuel with
  | zero =>
      intro i o s rows _ hread
      cases hread
  | succ fuel ih =>
      intro i o s rows hasking hread
      rw [readPages] at hread
      obtain ⟨result, hresult, hread⟩ := Option.bind_eq_some_iff.mp hread
      obtain ⟨page, hasMore⟩ := result
      have hanswer : step number s (.answer 0 (e.reply i (body.at o))) =
          some ({ s with pending := [] }.finish (body.at o) (.rows page hasMore)) := by
        rw [reply_at hpayload hto hquery hresult]
        exact hasking.answered page hasMore
      have hlabel (end_ : Bool) : some (s.offset + 1, s.offset + (page.length : Int), end_) =
          some ((o : Int) + 1, (o : Int) + page.length, end_) := by
        rw [hasking.offset]
      cases hasMore with
      | false =>
          cases hread
          exact ⟨_, _, .last hasking.pending hanswer rfl, List.append_nil _, ⟨hlabel true, trivial⟩, rfl,
            List.cons_ne_nil _ _⟩
      | true =>
          have hfull : page.length = m := length_of_hasMore (q := q.at o) hm hresult rfl
          obtain ⟨rest, hrest, hrows⟩ := Option.bind_eq_some_iff.mp hread
          obtain ⟨s', hnext, hasking'⟩ := hasking.next hlimit (show page.length ≠ 0 from hfull ▸ hpos.ne')
          have hoffset : ({ q.at o with offset := (q.at o).offset + (q.at o).limit } : SearchQuery Datetime) =
              q.at (o + m) := by
            show ({ q with offset := (o : Int) + q.limit } : SearchQuery Datetime) = { q with offset := (o + m : ℕ) }
            rw [hm, Nat.cast_add]
          rw [hoffset] at hrest
          obtain ⟨pages, t, hbrowse, hread, hnumbered, hlast, hne⟩ := ih hasking' hrest
          refine ⟨_, t, .next hasking.pending hanswer hnext hbrowse, ?_, ⟨?_, ?_⟩, hlast, List.cons_ne_nil _ _⟩
          · rw [List.flatMap_cons, hread]
            exact Option.some.inj hrows
          · rw [List.isEmpty_eq_false_iff.mpr hne]
            exact hlabel false
          · show Numbered ((o : Int) + page.length) pages
            rw [hfull, ← Nat.cast_add]
            exact hnumbered

/-- A request has the limit of its body, and an end of its window if the body has one. -/
theorem of_payload {body : Body Number} {r : SearchRequest} (h : e.payload body = some r) :
    r.limit.val = body.limit ∧ (body.timeTo.isSome → r.timeTo.isSome) := by
  obtain ⟨form, hform, hvalid⟩ := Option.bind_eq_some_iff.mp h
  have hvalidated := SearchRequest.validated_of_validate (toOption_eq_some.mp hvalid)
  obtain ⟨timeFrom, -, hform⟩ := Option.bind_eq_some_iff.mp hform
  obtain ⟨timeTo, htimeTo, hform⟩ := Option.bind_eq_some_iff.mp hform
  obtain ⟨privatePort, -, hform⟩ := Option.bind_eq_some_iff.mp hform
  obtain ⟨publicPort, -, hform⟩ := Option.bind_eq_some_iff.mp hform
  obtain ⟨destPort, -, hform⟩ := Option.bind_eq_some_iff.mp hform
  cases hform
  refine ⟨hvalidated.limit, fun hto ↦ ?_⟩
  rw [hvalidated.times.2]
  cases hbody : body.timeTo with
  | none =>
      rw [hbody] at hto
      cases hto
  | some raw =>
      rw [hbody] at htimeTo
      obtain ⟨d, -, rfl⟩ := Option.map_eq_some_iff.mp htimeTo
      rfl

/-- **Paging through a search.**  From every page on which no search is awaited, with the end of the time
range filled in: whoever starts a search that is let through, and presses Next as long as there is a next
page and waits for each, comes to an end, is shown one after the other the rows that `readPages` reads, as
many as there are, and the labels number them without gaps.  Where reading finds each row once, these are the
rows that the search selects. -/
theorem reads_pages {κ : Type} [LinearOrder κ] {t : LogTable Datetime ρ κ} (hanswer : t.Consistent e.answer)
    {s s' : Page Number ρ} (hnone : s.pending = []) (hto : (value s.filters.fTo).isSome)
    (hstep : step number s .search = some s') {r : SearchRequest}
    (hpayload : e.payload (s'.collectFilters number) = some r) {q : SearchQuery Datetime}
    (hquery : r.toQuery e.u (e.now 0) = .ok q) (hpageable : Pageable t e.cfg q) :
    ∃ pages last, Browse number e.reply 0 s' pages last ∧ last.nextDisabled = true ∧ Numbered 0 pages ∧
      (pages.flatMap Prod.fst).length = (t.selected q.clauses q.params).length ∧
      readPages e.answer e.cfg ((t.selected q.clauses q.params).length + 1) 0 { q with offset := 0 } =
        some (pages.flatMap Prod.fst) ∧
      (FindsEach t e.cfg q → (pages.flatMap Prod.fst).Perm (t.selected q.clauses q.params)) := by
  have huser : s.user = true := by
    by_contra hout
    have hclosed : step number s .search = none := if_neg hout
    cases hclosed.symm.trans hstep
  have hasking := asking_search hnone huser hstep
  have hfields : (s'.collectFilters number).timeTo = value s.filters.fTo := by
    change (if s.user then click number s .search else none) = some s' at hstep
    rw [if_pos huser, click] at hstep
    split at hstep <;> cases hstep
    rfl
  obtain ⟨hlimit, hend⟩ := of_payload hpayload
  have hqlimit : q.limit = r.limit.val := by
    obtain ⟨timeFrom, timeTo, rfl⟩ := SearchRequest.exists_query_of_toQuery hquery
    rfl
  obtain ⟨m, hm⟩ : ∃ m : ℕ, q.limit = m :=
    Int.eq_ofNat_of_zero_le (Int.le_trans (by decide) hpageable.valid.1.1)
  have hpos : 0 < m := Int.ofNat_lt.mp (hm ▸ hpageable.valid.1.1)
  obtain ⟨rows, hread, hlength⟩ := hpageable.length_readPages hanswer (Nat.lt_succ_self _)
  obtain ⟨pages, last, hbrowse, hrows, hnumbered, hlast, -⟩ := browse_of_readPages hpayload
    (hend (hfields ▸ hto)) hquery hm hpos (hlimit.symm.trans (hqlimit.symm.trans hm)) _ hasking hread
  refine ⟨pages, last, hbrowse, hlast, hnumbered, hrows ▸ hlength, hrows ▸ hread, fun hfinds ↦ ?_⟩
  obtain ⟨rows', hread', hperm⟩ := hfinds e.answer hanswer _ (Nat.lt_succ_self _)
  obtain rfl := Option.some.inj (hread.symm.trans hread')
  exact hrows ▸ hperm

def sameTime : LogTable Datetime Unit ℕ where
  rows := List.replicate 150 ()
  holds _ _ _ := true
  column _ _ := 0

def sameTimeEndpoint : Endpoint ℕ Unit where
  framework := ⟨fun _ ↦ some (.naive ⟨0, by decide⟩), fun n ↦ some n⟩
  u := .ascii
  ipv6Address _ := false
  repr := id
  cfg := {}
  now _ := .naive ⟨0, by decide⟩
  answer _ st := cutFrom (sameTime.selected st.clauses st.params) st

/-- The rows are read in two pages. -/
theorem reads_pages_session : ∃ (s : Page ℕ Unit) (pages : List (List Unit × Option (Int × Int × Bool))) (last : _),
    Browse List.length sameTimeEndpoint.reply 0 s pages last ∧ (pages.flatMap Prod.fst).length = 150 := by
  have hselected : ∀ clauses params, sameTime.selected clauses params = List.replicate 150 () :=
    fun _ _ ↦ List.filter_true _
  have hanswer : sameTime.Consistent sameTimeEndpoint.answer := by
    intro i st
    refine ⟨_, List.Perm.refl _, List.pairwise_of_forall fun row row' ↦ ?_, rfl⟩
    rw [LogTable.Order]
    split <;> exact le_rfl
  let s : Page ℕ Unit := { user := true, filters := { fFrom := "a".toList, fTo := "a".toList } }
  have hquery := Deployment.toQuery_secondOf .ascii (.naive ⟨0, by decide⟩) (.naive ⟨0, by decide⟩)
  have hpageable : Pageable sameTime sameTimeEndpoint.cfg
      ((Deployment.secondOf (.naive ⟨0, by decide⟩)).query .ascii (.naive ⟨0, by decide⟩) (.naive ⟨0, by decide⟩)) := by
    obtain ⟨hvalid, hknown⟩ := SearchRequest.valid_of_toQuery hquery
    refine ⟨hknown, hvalid, by decide, ?_⟩
    rw [hselected, List.length_replicate]
    decide
  obtain ⟨pages, last, hbrowse, -, -, hlength, -⟩ := reads_pages (e := sameTimeEndpoint)
    hanswer (s := s) rfl (by decide) (show step List.length s .search = some _ from rfl)
    (r := Deployment.secondOf (.naive ⟨0, by decide⟩)) rfl hquery hpageable
  rw [hselected, List.length_replicate] at hlength
  exact ⟨_, pages, last, hbrowse, hlength⟩

end reading

end Console

end LogServer
