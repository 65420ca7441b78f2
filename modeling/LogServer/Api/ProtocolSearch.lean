import LogServer.Api.SearchRequest
import LogServer.Parser.FastPaths
import LogServer.Parser.RoundTrip

/-!
# Searching for a protocol

A protocol is normalised twice: by the parser, before it is stored, and by a search, before it is
compared.  Both write it in upper case; only the parser has a table of the numbers that stand for a
name.

`protocol_search_iff`: the search for a token compares with what was stored for a line with this token
exactly if the token is not in the table.
-/

namespace LogServer

open Substring

variable {u : CharTable}

/-! ## Tokens -/

/-- The characters of a token in other words. -/
theorem tokenChar_eq (c : Char) : tokenChar c = (c.isAlphanum || c == '_' || c == '-') := by
  have hrange : ∀ lo hi : Char,
      range lo hi c = (decide (c.val ≥ lo.val) && decide (c.val ≤ hi.val)) := by
    intro lo hi
    simp only [range, ge_iff_le, UInt32.le_iff_toNat_le]
    rfl
  rw [tokenChar, hrange, hrange, hrange]
  simp only [Char.isAlphanum, Char.isAlpha, Char.isUpper, Char.isLower, Char.isDigit, Bool.decide_and]

/-- The upper case of a character belongs to a token if the character does. -/
theorem tokenChar_toUpper (c : Char) : tokenChar c.toUpper = tokenChar c := by
  cases hlower : c.isLower with
  | false => rw [Char.toUpper_eq_of_not_isLower (Bool.eq_false_iff.mp hlower)]
  | true =>
      have halpha : c.isAlpha = true := by rw [Char.isAlpha, hlower, Bool.or_true]
      simp only [tokenChar_eq, Char.isAlphanum, Char.isAlpha_toUpper_eq_isAlpha, halpha, Bool.true_or]

theorem toUpper_of_isDigit {c : Char} (h : c.isDigit = true) : c.toUpper = c := by
  refine Char.toUpper_eq_of_not_isLower fun hlower ↦ ?_
  have h9 : '9'.val.toNat = 57 := rfl
  have ha : 'a'.val.toNat = 97 := rfl
  simp only [Char.isDigit, Char.isLower, Bool.and_eq_true, decide_eq_true_eq, ge_iff_le,
    UInt32.le_iff_toNat_le] at h hlower
  omega

/-- A protocol token: up to sixteen letters, digits, underscores and hyphens. -/
structure ProtocolToken where
  text : Text
  ne : text ≠ []
  length_le : text.length ≤ 16
  chars : ∀ c ∈ text, tokenChar c = true

namespace ProtocolToken

variable {p : ProtocolToken}

theorem ascii (p : ProtocolToken) : ∀ c ∈ p.text, c.toNat < 128 := fun c hc ↦
  (toNat_of_tokenChar (p.chars c hc)).2

/-- **The table of the parser** is the only difference between its normal form and upper case. -/
theorem normaliseProtocol_eq_iff :
    normaliseProtocol u p.text = p.text.map Char.toUpper ↔ PROTO_NUMBERS.lookup p.text = none := by
  have hnumbers : ∀ q ∈ PROTO_NUMBERS, q.1.all Char.isDigit = true ∧ q.2 ≠ q.1 := by decide
  have hmem : ∀ name, PROTO_NUMBERS.lookup p.text = some name → (p.text, name) ∈ PROTO_NUMBERS := by
    intro name hname
    obtain ⟨l₁, l₂, hsplit, -⟩ := List.lookup_eq_some_iff.mp hname
    rw [hsplit]
    exact List.mem_append_right l₁ List.mem_cons_self
  rw [normaliseProtocol, isdigit_ascii p.ne p.ascii]
  cases hdigit : p.text.all Char.isDigit with
  | true =>
      have hupper : p.text.map Char.toUpper = p.text :=
        (List.map_congr_left fun c hc ↦ toUpper_of_isDigit (List.all_eq_true.mp hdigit c hc)).trans
          (List.map_id p.text)
      rw [if_pos rfl, hupper]
      cases hlookup : PROTO_NUMBERS.lookup p.text with
      | none => exact ⟨fun _ ↦ rfl, fun _ ↦ rfl⟩
      | some name =>
          refine iff_of_false (hnumbers _ (hmem name hlookup)).2 ?_
          exact Option.some_ne_none name
  | false =>
      rw [if_neg Bool.false_ne_true, upper_ascii p.ascii]
      refine ⟨fun _ ↦ ?_, fun _ ↦ rfl⟩
      cases hlookup : PROTO_NUMBERS.lookup p.text with
      | none => rfl
      | some name =>
          have htrue := (hnumbers _ (hmem name hlookup)).1
          rw [hdigit] at htrue
          cases htrue

end ProtocolToken

/-! ## Lines and requests -/

/-- A line that is accepted, with a token behind its first marker. -/
structure TokenLine (parser : MikroTikParser) (u : CharTable) (p : ProtocolToken) where
  before : Text
  rest : Text
  log : ParsedLog
  first : ¬"proto ".toList <:+: before
  ends : ∀ c ∈ rest.head?, c ∈ PROTO_END
  accepted : (parser.parse u (before ++ ("proto ".toList ++ (p.text ++ rest)))).1 = some log

/-- A request that is let through, with a token in any case between blanks as its protocol. -/
structure TokenRequest (u : CharTable) (ipv6Address : Text → Bool) (repr : Text → Text)
    (p : ProtocolToken) where
  form : SearchForm
  request : SearchRequest
  left : Text
  spelling : Text
  right : Text
  blank : ∀ c ∈ left ++ right, u.isSpace c = true
  letters : spelling.map Char.toUpper = p.text.map Char.toUpper
  protocol : form.protocol = some (left ++ (spelling ++ right))
  valid : SearchRequest.validate u ipv6Address repr form = .ok request

section search

variable {parser : MikroTikParser} {ipv6Address : Text → Bool} {repr : Text → Text} {p : ProtocolToken}

/-- What is stored for a line. -/
theorem TokenLine.protocol_eq (line : TokenLine parser u p) :
    line.log.protocol = normaliseProtocol u p.text := by
  have hword : ∀ c ∈ p.text, c ∉ PROTO_END := fun c hc ↦ notMem_PROTO_END_of_tokenChar (p.chars c hc)
  rw [protocol_of_parse line.accepted, _protocol_of_marker (.of_unbordered unbordered_proto line.first),
    takeWhile_PROTO_END hword line.ends, if_neg p.ne]

/-- The spelling of a token is a token. -/
theorem TokenRequest.chars (asked : TokenRequest u ipv6Address repr p) :
    ∀ c ∈ asked.spelling, tokenChar c = true := by
  intro c hc
  have hupper : c.toUpper ∈ p.text.map Char.toUpper := asked.letters ▸ List.mem_map_of_mem hc
  obtain ⟨d, hd, heq⟩ := List.mem_map.mp hupper
  rw [← tokenChar_toUpper, ← heq, tokenChar_toUpper]
  exact p.chars d hd

/-- What a request is compared with. -/
theorem TokenRequest.lookup_exact (asked : TokenRequest u ipv6Address repr p) :
    (asked.request.exact u).lookup "protocol".toList = some (.str (p.text.map Char.toUpper)) := by
  have hvalidated := SearchRequest.validated_of_validate asked.valid
  have hblank := List.forall_mem_append.mp asked.blank
  have hne : asked.spelling ≠ [] := by
    intro hnil
    have hletters := asked.letters
    rw [hnil] at hletters
    exact p.ne (List.map_eq_nil_iff.mp hletters.symm)
  have hstrip : strip u (asked.left ++ (asked.spelling ++ asked.right)) = asked.spelling :=
    strip_blanks hblank.1 hne (fun c hc ↦ isSpace_of_tokenChar (asked.chars c hc)) hblank.2
  have hprotocol : asked.request.protocol.val = some asked.spelling := by
    rw [hvalidated.protocol.2, asked.protocol]
    simp only [blankToNone, Option.getD_some, hstrip, if_neg hne]
  rw [SearchRequest.lookup_exact_protocol u asked.request hprotocol, ← asked.letters,
    upper_ascii fun c hc ↦ (toNat_of_tokenChar (asked.chars c hc)).2]

/-- **The search for a token finds the lines with it** exactly if it is no number with a name. -/
theorem protocol_search_iff (line : TokenLine parser u p) (asked : TokenRequest u ipv6Address repr p) :
    (asked.request.exact u).lookup "protocol".toList = some (.str line.log.protocol) ↔
      PROTO_NUMBERS.lookup p.text = none := by
  rw [asked.lookup_exact, line.protocol_eq, Option.some.injEq, PyValue.str.injEq,
    eq_comm, ProtocolToken.normaliseProtocol_eq_iff]

/-- **There are such lines**: every parser accepts one with the token, if it has letters and digits only. -/
theorem exists_tokenLine (parser : MikroTikParser) (u : CharTable)
    (h : ∀ c ∈ p.text, c.isAlphanum = true) : Nonempty (TokenLine parser u p) := by
  let l := Line.session p.text
  let rest := ", ".toList ++ l.tuple.plainText ++ l.tuple.natSegment ++ l.tail
  have hrender : l.render = l.before ++ ("proto ".toList ++ (p.text ++ rest)) := by
    simp [l, rest, Line.render, Line.lead, Line.session]
  refine ⟨l.before, rest, l.record parser.subscriberFromInterface, (Line.clear_session p.text).proto,
    ?_, ?_⟩
  · rintro c ⟨⟩
    decide
  · rw [← hrender, parse_session p.ne h]

/-- And there are such requests: every spelling of a token is let through, with as many blanks around it as
there is room for. -/
theorem exists_tokenRequest (left right : Text) {spelling : Text}
    (hblank : ∀ c ∈ left ++ right, u.isSpace c = true)
    (hletters : spelling.map Char.toUpper = p.text.map Char.toUpper)
    (hroom : (left ++ (spelling ++ right)).length ≤ 16) :
    ∃ asked : TokenRequest u ipv6Address repr p, asked.spelling = spelling := by
  have hword : ∃ w, SearchRequest.word u "protocol".toList 16 (some (left ++ (spelling ++ right))) =
      .ok w := by
    have hbound : ∀ t ∈ some (left ++ (spelling ++ right)), t.length ≤ 16 := by
      rintro t ⟨⟩
      exact hroom
    exact ⟨_, by rw [SearchRequest.word, dif_pos hbound]⟩
  obtain ⟨w, hw⟩ := hword
  have hvalid : ∃ request, SearchRequest.validate u ipv6Address repr
      { protocol := some (left ++ (spelling ++ right)) } = .ok request := by
    rw [SearchRequest.validate, hw]
    exact ⟨_, rfl⟩
  obtain ⟨request, hvalid⟩ := hvalid
  exact ⟨⟨_, request, left, spelling, right, hblank, hletters, rfl, hvalid⟩, rfl⟩

example : ∃ p : ProtocolToken, p.text = "TCP".toList ∧ Nonempty (TokenLine {} .ascii p) ∧
    ∃ asked : TokenRequest .ascii (fun _ ↦ false) id p, asked.spelling = "tcp".toList :=
  ⟨⟨"TCP".toList, by decide, by decide, by decide⟩, rfl, exists_tokenLine {} .ascii (by decide),
    exists_tokenRequest [' '] [] (by decide) rfl (by decide)⟩

/-- The number of TCP is stored under its name, and searched for as a number. -/
theorem protocol_search_number : ¬∀ (p : ProtocolToken) (line : TokenLine {} .ascii p)
    (asked : TokenRequest .ascii (fun _ ↦ false) id p),
    (asked.request.exact .ascii).lookup "protocol".toList = some (.str line.log.protocol) := by
  intro h
  let p : ProtocolToken := ⟨"6".toList, by decide, by decide, by decide⟩
  obtain ⟨line⟩ : Nonempty (TokenLine {} .ascii p) := exists_tokenLine {} .ascii (by decide)
  obtain ⟨asked, -⟩ : ∃ asked : TokenRequest .ascii (fun _ ↦ false) id p, asked.spelling = "6".toList :=
    exists_tokenRequest [] [] (by decide) rfl (by decide)
  have hsame := h p line asked
  rw [asked.lookup_exact, line.protocol_eq, Option.some.injEq, PyValue.str.injEq] at hsame
  exact absurd hsame (by decide)

end search

end LogServer
