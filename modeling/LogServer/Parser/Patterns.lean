import LogServer.Lib.Regex
import LogServer.Ipv4

/-!
# The pattern registry

The regular expressions of the parser and what each of them matches.  None of the patterns is
anchored: they locate the segment they need anywhere in a payload.

The characterisations (`matches_srcnatPorts` and its siblings) are statements about *all* matches
of a pattern; which of them a search reports is decided where the patterns are used.
-/

namespace LogServer

open Regex

/-- The named groups of the address patterns. -/
inductive Group where
  | pri | priPort | pub | pubPort | dst | dstPort
deriving DecidableEq, Repr

/-- A range of characters, as in `[0-5]`. -/
def range (lo hi : Char) (c : Char) : Bool := lo.toNat ≤ c.toNat && c.toNat ≤ hi.toNat

/-- One expression after another, read from the left. -/
def concat {γ : Type} : List (Re Char γ) → Re Char γ
  | [] => .eps
  | r :: rs => rs.foldl .seq r

section patterns

variable {γ : Type}

/-- `25[0-5]|2[0-4][0-9]|1[0-9]{2}|[1-9]?[0-9]` -/
def octet : Re Char γ :=
  .alt (concat [.sym '2', .sym '5', .cls (range '0' '5')])
    (.alt (concat [.sym '2', .cls (range '0' '4'), .cls (range '0' '9')])
      (.alt (concat [.sym '1', .times (.cls (range '0' '9')) 2])
        (concat [.opt (.cls (range '1' '9')), .cls (range '0' '9')])))

/-- `(?:OCTET\.){3}OCTET` -/
def ipv4 : Re Char γ := .seq (.times (.seq octet (.sym '.')) 3) octet

variable (u : CharTable)

/-- `\d{1,5}` -/
def port : Re Char γ := .rep (.cls u.isDecimal) 1 5

/-- `(?![\d.:])` -/
def notAddrAfter : Re Char γ := .notAhead fun c ↦ u.isDecimal c || c == '.' || c == ':'

/-- `(?<![\d.])` -/
def notAddrBefore : Re Char γ := .notBehind fun c ↦ u.isDecimal c || c == '.'

end patterns

variable (u : CharTable)

/-- Source NAT with ports: `NAT\s*\(pri:port->pub:port\)->dst:port`. -/
def srcnatPorts : Re Char Group :=
  concat [.lit "NAT".toList, .star (.cls u.isSpace), .sym '(',
    .group .pri ipv4, .sym ':', .group .priPort (port u), .lit "->".toList,
    .group .pub ipv4, .sym ':', .group .pubPort (port u), .lit ")->".toList,
    .group .dst ipv4, .sym ':', .group .dstPort (port u)]

/-- Source NAT without ports: `NAT\s*\(pri->pub\)->dst`. -/
def srcnatNoports : Re Char Group :=
  concat [.lit "NAT".toList, .star (.cls u.isSpace), .sym '(',
    .group .pri ipv4, .lit "->".toList, .group .pub ipv4, .lit ")->".toList,
    .group .dst ipv4, notAddrAfter u]

/-- No NAT applied, with ports: `pri:port->dst:port`. -/
def plainPorts : Re Char Group :=
  concat [notAddrBefore u, .group .pri ipv4, .sym ':', .group .priPort (port u),
    .lit "->".toList, .group .dst ipv4, .sym ':', .group .dstPort (port u)]

/-- No NAT applied, no ports: `pri->dst`. -/
def plainNoports : Re Char Group :=
  concat [notAddrBefore u, .group .pri ipv4, .lit "->".toList, .group .dst ipv4, notAddrAfter u]

/-- `\bin:<?([^\s,>]*)>?` -/
def inInterface : Re Char Unit :=
  concat [.boundary u.isWord, .lit "in:".toList, .opt (.sym '<'),
    .group () (.star (.cls fun c ↦ !(u.isSpace c || c == ',' || c == '>'))), .opt (.sym '>')]

/-- The characters of a protocol token, `[A-Za-z0-9_-]`. -/
def tokenChar (c : Char) : Bool :=
  range 'A' 'Z' c || range 'a' 'z' c || range '0' '9' c || c == '_' || c == '-'

/-- `\bproto\s+([A-Za-z0-9_-]{1,16})` -/
def protocolPattern : Re Char Unit :=
  concat [.boundary u.isWord, .lit "proto".toList, .plus (.cls u.isSpace),
    .group () (.rep (.cls tokenChar) 1 16)]

/-- The session prefixes of subscriber interfaces, tried in this order. -/
def SUBSCRIBER_PREFIXES : List Text :=
  ["pppoe-in-".toList, "pppoe-out-".toList, "pppoe-".toList, "l2tp-".toList, "pptp-".toList,
    "sstp-".toList, "ovpn-".toList]

def PROTO_NUMBERS : List (Text × Text) :=
  [("1".toList, "ICMP".toList), ("2".toList, "IGMP".toList), ("6".toList, "TCP".toList),
    ("17".toList, "UDP".toList), ("41".toList, "IPV6".toList), ("47".toList, "GRE".toList),
    ("50".toList, "ESP".toList), ("51".toList, "AH".toList), ("58".toList, "ICMPV6".toList),
    ("89".toList, "OSPF".toList), ("132".toList, "SCTP".toList)]

/-! ## What the patterns match -/

/-- The characters of a range of digits are the digit characters of its numbers. -/
theorem range_digit_iff {a b : Nat} (ha : a < 10) (hb : b < 10) {c : Char} :
    range (Nat.digitChar a) (Nat.digitChar b) c = true ↔
      ∃ d, a ≤ d ∧ d ≤ b ∧ c = Nat.digitChar d := by
  simp only [range, Bool.and_eq_true, decide_eq_true_eq, Nat.toNat_digitChar_of_lt_ten ha,
    Nat.toNat_digitChar_of_lt_ten hb]
  constructor
  · intro h
    refine ⟨c.toNat - 48, by omega, by omega, Char.toNat_inj.mp ?_⟩
    rw [Nat.toNat_digitChar_of_lt_ten (by omega)]
    omega
  · rintro ⟨d, had, hdb, rfl⟩
    rw [Nat.toNat_digitChar_of_lt_ten (by omega)]
    omega

/-- The four alternatives of `octet`, the optional digit of the last one spelt out. -/
def OctetShape (w : Text) : Prop :=
  (∃ d ≤ 5, w = ['2', '5', Nat.digitChar d]) ∨
  (∃ d ≤ 4, ∃ e ≤ 9, w = ['2', Nat.digitChar d, Nat.digitChar e]) ∨
  (∃ d ≤ 9, ∃ e ≤ 9, w = ['1', Nat.digitChar d, Nat.digitChar e]) ∨
  (∃ d ≤ 9, 1 ≤ d ∧ ∃ e ≤ 9, w = [Nat.digitChar d, Nat.digitChar e]) ∨
  (∃ e ≤ 9, w = [Nat.digitChar e])

/-- The alternatives cover exactly the canonical decimals of 0 to 255. -/
theorem octetShape_iff {w : Text} : OctetShape w ↔ ∃ n, w = octetText n := by
  constructor
  · rintro (⟨d, hd, rfl⟩ | ⟨d, hd, e, he, rfl⟩ | ⟨d, hd, e, he, rfl⟩ | ⟨d, hd, h1, e, he, rfl⟩ |
      ⟨e, he, rfl⟩)
    · have h : ∀ d ≤ 5, ['2', '5', Nat.digitChar d] = octetText (Fin.ofNat 256 (250 + d)) := by
        decide
      exact ⟨_, h d hd⟩
    · have h : ∀ d ≤ 4, ∀ e ≤ 9, ['2', Nat.digitChar d, Nat.digitChar e] =
          octetText (Fin.ofNat 256 (200 + 10 * d + e)) := by decide
      exact ⟨_, h d hd e he⟩
    · have h : ∀ d ≤ 9, ∀ e ≤ 9, ['1', Nat.digitChar d, Nat.digitChar e] =
          octetText (Fin.ofNat 256 (100 + 10 * d + e)) := by decide
      exact ⟨_, h d hd e he⟩
    · have h : ∀ d ≤ 9, 1 ≤ d → ∀ e ≤ 9, [Nat.digitChar d, Nat.digitChar e] =
          octetText (Fin.ofNat 256 (10 * d + e)) := by decide
      exact ⟨_, h d hd h1 e he⟩
    · have h : ∀ e ≤ 9, [Nat.digitChar e] = octetText (Fin.ofNat 256 e) := by decide
      exact ⟨_, h e he⟩
  · rintro ⟨n, rfl⟩
    rw [octetText_eq]
    have hn := n.isLt
    split
    · exact .inr (.inr (.inr (.inr ⟨n, by omega, rfl⟩)))
    · split
      · exact .inr (.inr (.inr (.inl ⟨n / 10, by omega, by omega, n % 10, by omega, rfl⟩)))
      · by_cases h200 : n.val < 200
        · have h1 : n.val / 100 = 1 := by omega
          exact .inr (.inr (.inl ⟨n / 10 % 10, by omega, n % 10, by omega, by rw [h1]; rfl⟩))
        · have h2 : n.val / 100 = 2 := by omega
          by_cases h250 : n.val < 250
          · exact .inr (.inl ⟨n / 10 % 10, by omega, n % 10, by omega, by rw [h2]; rfl⟩)
          · have h5 : n.val / 10 % 10 = 5 := by omega
            exact .inl ⟨n % 10, by omega, by rw [h2, h5]; rfl⟩

/-- **An octet pattern matches the canonical decimals of 0 to 255.** -/
theorem matches_octet {γ : Type} {b w t : Text} {m : Caps Char γ} :
    Matches octet b w t m ↔ m = [] ∧ ∃ n, w = octetText n := by
  have h05 : ∀ {c}, range '0' '5' c = true ↔ _ := @range_digit_iff 0 5 (by decide) (by decide)
  have h04 : ∀ {c}, range '0' '4' c = true ↔ _ := @range_digit_iff 0 4 (by decide) (by decide)
  have h09 : ∀ {c}, range '0' '9' c = true ↔ _ := @range_digit_iff 0 9 (by decide) (by decide)
  have h19 : ∀ {c}, range '1' '9' c = true ↔ _ := @range_digit_iff 1 9 (by decide) (by decide)
  have h1xx : Matches (.seq (.sym '1') (.times (.cls (range '0' '9')) 2)) b w t m ↔
      m = [] ∧ ∃ d ≤ 9, ∃ e ≤ 9, w = ['1', Nat.digitChar d, Nat.digitChar e] := by
    simp only [matches_seq, matches_sym, matches_times_cls]
    constructor
    · rintro ⟨_, v, _, _, rfl, rfl, ⟨rfl, rfl⟩, rfl, hl, hv⟩
      obtain ⟨x, y, rfl⟩ := List.length_eq_two.mp hl
      obtain ⟨d, -, hd, rfl⟩ := h09.mp (hv x (by simp))
      obtain ⟨e, -, he, rfl⟩ := h09.mp (hv y (by simp))
      exact ⟨rfl, d, hd, e, he, rfl⟩
    · rintro ⟨rfl, d, hd, e, he, rfl⟩
      refine ⟨['1'], [_, _], [], [], rfl, rfl, ⟨rfl, rfl⟩, rfl, rfl, ?_⟩
      simpa using ⟨h09.mpr ⟨d, by omega, hd, rfl⟩, h09.mpr ⟨e, by omega, he, rfl⟩⟩
  rw [← octetShape_iff]
  simp only [octet, concat, List.foldl_cons, List.foldl_nil, matches_alt, matches_opt,
    h1xx, matches_seq_cls, matches_seq_sym, matches_sym, matches_cls, h05, h04, h09, h19, OctetShape]
  constructor
  · rintro (⟨_, _, rfl, ⟨d, -, hd, rfl⟩, _, rfl, rfl, rfl⟩ |
      ⟨_, _, rfl, ⟨e, -, he, rfl⟩, _, _, rfl, ⟨d, -, hd, rfl⟩, rfl, rfl⟩ |
      ⟨rfl, d, hd, e, he, rfl⟩ |
      ⟨_, _, rfl, ⟨e, -, he, rfl⟩, ⟨⟨_, ⟨d, h1, hd, rfl⟩, rfl⟩, rfl⟩ | ⟨rfl, rfl⟩⟩)
    · exact ⟨rfl, .inl ⟨d, hd, rfl⟩⟩
    · exact ⟨rfl, .inr (.inl ⟨d, hd, e, he, rfl⟩)⟩
    · exact ⟨rfl, .inr (.inr (.inl ⟨d, hd, e, he, rfl⟩))⟩
    · exact ⟨rfl, .inr (.inr (.inr (.inl ⟨d, hd, h1, e, he, rfl⟩)))⟩
    · exact ⟨rfl, .inr (.inr (.inr (.inr ⟨e, he, rfl⟩)))⟩
  · rintro ⟨rfl, ⟨d, hd, rfl⟩ | ⟨d, hd, e, he, rfl⟩ | ⟨d, hd, e, he, rfl⟩ |
      ⟨d, hd, h1, e, he, rfl⟩ | ⟨e, he, rfl⟩⟩
    · exact .inl ⟨['2', '5'], _, rfl, ⟨d, by omega, hd, rfl⟩, ['2'], rfl, rfl, rfl⟩
    · exact .inr (.inl ⟨['2', _], _, rfl, ⟨e, by omega, he, rfl⟩, ['2'], _, rfl,
        ⟨d, by omega, hd, rfl⟩, rfl, rfl⟩)
    · exact .inr (.inr (.inl ⟨rfl, d, hd, e, he, rfl⟩))
    · exact .inr (.inr (.inr ⟨[_], _, rfl, ⟨e, by omega, he, rfl⟩,
        .inl ⟨⟨_, ⟨d, h1, hd, rfl⟩, rfl⟩, rfl⟩⟩))
    · exact .inr (.inr (.inr ⟨[], _, rfl, ⟨e, by omega, he, rfl⟩, .inr ⟨rfl, rfl⟩⟩))

/-- **An address pattern matches the canonical dotted addresses.** -/
theorem matches_ipv4 {γ : Type} {b w t : Text} {m : Caps Char γ} :
    Matches ipv4 b w t m ↔ m = [] ∧ IsIpv4 w := by
  simp only [ipv4, Re.times, matches_seq, matches_octet, matches_sym, matches_eps]
  constructor
  · rintro ⟨_, _, _, _, rfl, rfl, ⟨_, _, _, _, rfl, rfl, ⟨_, _, _, _, rfl, rfl, ⟨rfl, x, rfl⟩, rfl, rfl⟩,
      _, _, _, _, rfl, rfl, ⟨_, _, _, _, rfl, rfl, ⟨rfl, y, rfl⟩, rfl, rfl⟩,
      _, _, _, _, rfl, rfl, ⟨_, _, _, _, rfl, rfl, ⟨rfl, z, rfl⟩, rfl, rfl⟩, rfl, rfl⟩, rfl, v, rfl⟩
    exact ⟨rfl, ⟨x, y, z, v⟩, by simp [Ipv4.text]⟩
  · rintro ⟨rfl, ⟨x, y, z, v⟩, rfl⟩
    refine ⟨octetText x ++ ['.'] ++ (octetText y ++ ['.'] ++ (octetText z ++ ['.'] ++ [])),
      octetText v, [], [], by simp [Ipv4.text], rfl, ?_, rfl, v, rfl⟩
    refine ⟨_, _, [], [], rfl, rfl, ⟨_, _, [], [], rfl, rfl, ⟨rfl, x, rfl⟩, rfl, rfl⟩, ?_⟩
    refine ⟨_, _, [], [], rfl, rfl, ⟨_, _, [], [], rfl, rfl, ⟨rfl, y, rfl⟩, rfl, rfl⟩, ?_⟩
    exact ⟨_, _, [], [], rfl, rfl, ⟨_, _, [], [], rfl, rfl, ⟨rfl, z, rfl⟩, rfl, rfl⟩, rfl, rfl⟩

/-- What a port pattern matches: one to five decimal digits of any script. -/
def IsPortText (u : CharTable) (w : Text) : Prop :=
  1 ≤ w.length ∧ w.length ≤ 5 ∧ ∀ c ∈ w, u.isDecimal c = true

theorem matches_port {γ : Type} {b w t : Text} {m : Caps Char γ} :
    Matches (port u) b w t m ↔ m = [] ∧ IsPortText u w :=
  matches_rep_cls (by decide)

section sequences

variable {γ : Type} {r : Re Char γ} {b w t : Text} {m : Caps Char γ} {u}

/-- An address group at the end of a sequence. -/
theorem matches_seq_addr {g : γ} : Matches (.seq r (.group g ipv4)) b w t m ↔
    ∃ v m' x, w = v ++ Ipv4.text x ∧ m = m' ++ [(g, x.text)] ∧ Matches r b v (x.text ++ t) m' := by
  simp only [matches_seq, matches_group, matches_ipv4]
  constructor
  · rintro ⟨v, _, m', _, rfl, rfl, hr, _, rfl, rfl, x, rfl⟩
    exact ⟨v, m', x, rfl, rfl, hr⟩
  · rintro ⟨v, m', x, rfl, rfl, hr⟩
    exact ⟨v, x.text, m', _, rfl, rfl, hr, [], rfl, rfl, x, rfl⟩

/-- A port group at the end of a sequence. -/
theorem matches_seq_port {g : γ} : Matches (.seq r (.group g (port u))) b w t m ↔
    ∃ v m' p, w = v ++ p ∧ m = m' ++ [(g, p)] ∧ IsPortText u p ∧ Matches r b v (p ++ t) m' := by
  simp only [matches_seq, matches_group, matches_port]
  constructor
  · rintro ⟨v, p, m', _, rfl, rfl, hr, _, rfl, rfl, hp⟩
    exact ⟨v, m', p, rfl, rfl, hp, hr⟩
  · rintro ⟨v, m', p, rfl, rfl, hp, hr⟩
    exact ⟨v, p, m', _, rfl, rfl, hr, [], rfl, rfl, hp⟩

/-- White space at the end of a sequence. -/
theorem matches_seq_space : Matches (.seq r (.star (.cls u.isSpace))) b w t m ↔
    ∃ v s, w = v ++ s ∧ (∀ c ∈ s, u.isSpace c = true) ∧ Matches r b v (s ++ t) m := by
  simp only [matches_seq, matches_star_cls]
  constructor
  · rintro ⟨v, s, m', _, rfl, rfl, hr, rfl, hs⟩
    exact ⟨v, s, rfl, hs, by simpa using hr⟩
  · rintro ⟨v, s, rfl, hs, hr⟩
    exact ⟨v, s, m, [], rfl, by simp, hr, rfl, hs⟩

/-- A lookahead at the end of a sequence. -/
theorem matches_seq_notAhead {p : Char → Bool} : Matches (.seq r (.notAhead p)) b w t m ↔
    t.head?.any p = false ∧ Matches r b w t m := by
  simp only [matches_seq, matches_notAhead]
  constructor
  · rintro ⟨_, _, _, _, rfl, rfl, hr, rfl, rfl, ht⟩
    exact ⟨ht, by simpa using hr⟩
  · rintro ⟨ht, hr⟩
    exact ⟨w, [], m, [], by simp, by simp, by simpa using hr, rfl, rfl, ht⟩

end sequences

section shapes

variable {b w t : Text} {m : Caps Char Group} {u}

/-- `srcnatPorts` up to the destination port, the only part that can match in several ways. -/
def srcnatPortsHead (u : CharTable) : Re Char Group :=
  concat [.lit "NAT".toList, .star (.cls u.isSpace), .sym '(',
    .group .pri ipv4, .sym ':', .group .priPort (port u), .lit "->".toList,
    .group .pub ipv4, .sym ':', .group .pubPort (port u), .lit ")->".toList,
    .group .dst ipv4, .sym ':']

/-- `plainPorts` up to the destination port. -/
def plainPortsHead (u : CharTable) : Re Char Group :=
  concat [notAddrBefore u, .group .pri ipv4, .sym ':', .group .priPort (port u),
    .lit "->".toList, .group .dst ipv4, .sym ':']

theorem srcnatPorts_eq (u : CharTable) :
    srcnatPorts u = .seq (srcnatPortsHead u) (.group .dstPort (port u)) := rfl

theorem plainPorts_eq (u : CharTable) :
    plainPorts u = .seq (plainPortsHead u) (.group .dstPort (port u)) := rfl

theorem matches_srcnatPortsHead : Matches (srcnatPortsHead u) b w t m ↔
    ∃ s, (∀ c ∈ s, u.isSpace c = true) ∧ ∃ pri pub dst : Ipv4, ∃ p q,
      IsPortText u p ∧ IsPortText u q ∧
      w = "NAT".toList ++ s ++ ['('] ++ pri.text ++ [':'] ++ p ++ "->".toList ++ pub.text ++
        [':'] ++ q ++ ")->".toList ++ dst.text ++ [':'] ∧
      m = [(.pri, pri.text), (.priPort, p), (.pub, pub.text), (.pubPort, q), (.dst, dst.text)] := by
  simp only [srcnatPortsHead, concat, List.foldl_cons, List.foldl_nil, matches_seq_sym,
    matches_seq_lit, matches_seq_addr, matches_seq_port, matches_seq_space, matches_lit]
  constructor
  · rintro ⟨_, rfl, _, _, dst, rfl, rfl, _, rfl, _, _, q, rfl, rfl, hq, _, rfl, _, _, pub, rfl,
      rfl, _, rfl, _, _, p, rfl, rfl, hp, _, rfl, _, _, pri, rfl, rfl, _, rfl, _, s, rfl, hs, rfl,
      rfl⟩
    exact ⟨s, hs, pri, pub, dst, p, q, hp, hq, rfl, rfl⟩
  · rintro ⟨s, hs, pri, pub, dst, p, q, hp, hq, rfl, rfl⟩
    exact ⟨_, rfl, _, _, dst, rfl, rfl, _, rfl, _, _, q, rfl, rfl, hq, _, rfl, _, _, pub, rfl,
      rfl, _, rfl, _, _, p, rfl, rfl, hp, _, rfl, _, _, pri, rfl, rfl, _, rfl, _, s, rfl, hs, rfl,
      rfl⟩

theorem matches_srcnatPorts : Matches (srcnatPorts u) b w t m ↔
    ∃ v m' p, w = v ++ p ∧ m = m' ++ [(Group.dstPort, p)] ∧ IsPortText u p ∧
      Matches (srcnatPortsHead u) b v (p ++ t) m' := matches_seq_port

theorem matches_srcnatNoports : Matches (srcnatNoports u) b w t m ↔
    t.head?.any (fun c ↦ u.isDecimal c || c == '.' || c == ':') = false ∧
    ∃ s, (∀ c ∈ s, u.isSpace c = true) ∧ ∃ pri pub dst : Ipv4,
      w = "NAT".toList ++ s ++ ['('] ++ pri.text ++ "->".toList ++ pub.text ++ ")->".toList ++
        dst.text ∧
      m = [(.pri, pri.text), (.pub, pub.text), (.dst, dst.text)] := by
  simp only [srcnatNoports, notAddrAfter, concat, List.foldl_cons, List.foldl_nil,
    matches_seq_notAhead, matches_seq_sym, matches_seq_lit, matches_seq_addr, matches_seq_space,
    matches_lit]
  refine and_congr_right fun _ ↦ ⟨?_, ?_⟩
  · rintro ⟨_, _, dst, rfl, rfl, _, rfl, _, _, pub, rfl, rfl, _, rfl, _, _, pri, rfl, rfl, _, rfl,
      _, s, rfl, hs, rfl, rfl⟩
    exact ⟨s, hs, pri, pub, dst, rfl, rfl⟩
  · rintro ⟨s, hs, pri, pub, dst, rfl, rfl⟩
    exact ⟨_, _, dst, rfl, rfl, _, rfl, _, _, pub, rfl, rfl, _, rfl, _, _, pri, rfl, rfl, _, rfl,
      _, s, rfl, hs, rfl, rfl⟩

theorem matches_plainPortsHead : Matches (plainPortsHead u) b w t m ↔
    b.head?.any (fun c ↦ u.isDecimal c || c == '.') = false ∧
    ∃ pri dst : Ipv4, ∃ p, IsPortText u p ∧
      w = pri.text ++ [':'] ++ p ++ "->".toList ++ dst.text ++ [':'] ∧
      m = [(.pri, pri.text), (.priPort, p), (.dst, dst.text)] := by
  simp only [plainPortsHead, notAddrBefore, concat, List.foldl_cons, List.foldl_nil,
    matches_seq_sym, matches_seq_lit, matches_seq_addr, matches_seq_port, matches_notBehind]
  constructor
  · rintro ⟨_, rfl, _, _, dst, rfl, rfl, _, rfl, _, _, p, rfl, rfl, hp, _, rfl, _, _, pri, rfl,
      rfl, rfl, rfl, hb⟩
    exact ⟨hb, pri, dst, p, hp, rfl, rfl⟩
  · rintro ⟨hb, pri, dst, p, hp, rfl, rfl⟩
    exact ⟨_, rfl, _, _, dst, rfl, rfl, _, rfl, _, _, p, rfl, rfl, hp, _, rfl, [], [], pri, rfl,
      rfl, rfl, rfl, hb⟩

theorem matches_plainPorts : Matches (plainPorts u) b w t m ↔
    ∃ v m' p, w = v ++ p ∧ m = m' ++ [(Group.dstPort, p)] ∧ IsPortText u p ∧
      Matches (plainPortsHead u) b v (p ++ t) m' := matches_seq_port

theorem matches_plainNoports : Matches (plainNoports u) b w t m ↔
    t.head?.any (fun c ↦ u.isDecimal c || c == '.' || c == ':') = false ∧
    b.head?.any (fun c ↦ u.isDecimal c || c == '.') = false ∧
    ∃ pri dst : Ipv4, w = pri.text ++ "->".toList ++ dst.text ∧
      m = [(.pri, pri.text), (.dst, dst.text)] := by
  simp only [plainNoports, notAddrAfter, notAddrBefore, concat, List.foldl_cons, List.foldl_nil,
    matches_seq_notAhead, matches_seq_lit, matches_seq_addr, matches_notBehind]
  refine and_congr_right fun _ ↦ ⟨?_, ?_⟩
  · rintro ⟨_, _, dst, rfl, rfl, _, rfl, _, _, pri, rfl, rfl, rfl, rfl, hb⟩
    exact ⟨hb, pri, dst, rfl, rfl⟩
  · rintro ⟨hb, pri, dst, rfl, rfl⟩
    exact ⟨_, _, dst, rfl, rfl, _, rfl, [], [], pri, rfl, rfl, rfl, rfl, hb⟩

end shapes

end LogServer
