import LogServer.Parser.Translations

/-!
# Numbers out of range

A `NumericLine` is a line with a translation in which any decimal numbers stand where octets and
ports are expected.  Fourteen of its fifteen numbers are delimited on both sides, so a number with
too many digits does not match at all.  The last one, the destination port, is not: its pattern
takes five digits and leaves the rest.

`range_exact_iff` says when the numbers of a line are checked, all of them: exactly if the
destination port does not have more than five digits of which the first five are in range.
-/

namespace LogServer

open Regex Substring

variable {u : CharTable}

structure Dotted where
  a : ℕ
  b : ℕ
  c : ℕ
  d : ℕ
deriving DecidableEq, Repr

namespace Dotted

def text (x : Dotted) : Text :=
  Nat.toDigits 10 x.a ++ '.' :: (Nat.toDigits 10 x.b ++ '.' :: (Nat.toDigits 10 x.c ++ '.' ::
    Nat.toDigits 10 x.d))

def InRange (x : Dotted) : Prop := x.a ≤ 255 ∧ x.b ≤ 255 ∧ x.c ≤ 255 ∧ x.d ≤ 255

instance (x : Dotted) : Decidable x.InRange := inferInstanceAs (Decidable (_ ∧ _))

theorem isAddrChar_of_mem_text {x : Dotted} {c : Char} (h : c ∈ x.text) : isAddrChar c = true := by
  have hdigit : ∀ {n : ℕ}, c ∈ Nat.toDigits 10 n → isAddrChar c = true := fun h ↦ by
    rw [isAddrChar, Nat.isDigit_of_mem_toDigits (by decide) (by decide) h]
    rfl
  simp only [text, List.mem_append, List.mem_cons] at h
  rcases h with h | rfl | h | rfl | h | rfl | h
  · exact hdigit h
  · rfl
  · exact hdigit h
  · rfl
  · exact hdigit h
  · rfl
  · exact hdigit h

/-- **Four numbers are an address exactly if each is an octet.** -/
theorem isIpv4_iff {x : Dotted} : (∃ y : Ipv4, x.text = y.text) ↔ x.InRange := by
  constructor
  · rintro ⟨y, h⟩
    obtain ⟨ha, h⟩ := toDigits_cons_inj h
    obtain ⟨hb, h⟩ := toDigits_cons_inj h
    obtain ⟨hc, h⟩ := toDigits_cons_inj h
    have hd := toDigits_inj h
    refine ⟨?_, ?_, ?_, ?_⟩
    all_goals omega
  · rintro ⟨ha, hb, hc, hd⟩
    exact ⟨⟨⟨x.a, by omega⟩, ⟨x.b, by omega⟩, ⟨x.c, by omega⟩, ⟨x.d, by omega⟩⟩, rfl⟩

end Dotted

/-- A translation behind its keyword, ` (a:p->b:q)->c:r`. -/
def tupleText (a p b q c r : Text) : Text :=
  " (".toList ++ (a ++ ':' :: (p ++ ("->".toList ++ (b ++ ':' :: (q ++ (")->".toList ++
    (c ++ ':' :: r)))))))

/-- A line with a translation, with any numbers in it. -/
structure NumericLine where
  header : Text
  pri : Dotted
  priPort : ℕ
  pub : Dotted
  pubPort : ℕ
  dst : Dotted
  dstPort : ℕ
  tail : Text
  header_clear : ¬"NAT".toList <:+: header
  tail_head : ∀ c ∈ tail.head?, c = ','
  tail_clear : ¬"NAT".toList <:+: tail

namespace NumericLine

variable (l : NumericLine)

def tuple : Text :=
  tupleText l.pri.text (Nat.toDigits 10 l.priPort) l.pub.text (Nat.toDigits 10 l.pubPort)
    l.dst.text (Nat.toDigits 10 l.dstPort)

def render : Text := l.header ++ ("NAT".toList ++ (l.tuple ++ l.tail))

def InRange : Prop :=
  (l.pri.InRange ∧ l.pub.InRange ∧ l.dst.InRange) ∧
    l.priPort ≤ 65535 ∧ l.pubPort ≤ 65535 ∧ l.dstPort ≤ 65535

def firstFive : Text := (Nat.toDigits 10 l.dstPort).take 5

/-- What the pattern asks of the numbers: octets, and at most five digits before the last number. -/
def Readable : Prop :=
  (l.pri.InRange ∧ l.pub.InRange ∧ l.dst.InRange) ∧ l.priPort < 100000 ∧ l.pubPort < 100000

end NumericLine

/-- The parser accepts a line exactly if all its numbers are in range, and stores them as they
are. -/
structure RangeExact (parser : MikroTikParser) (u : CharTable) (l : NumericLine) : Prop where
  accepted : (parser.parse u l.render).1.isSome = true ↔ l.InRange
  stored : ∀ log, (parser.parse u l.render).1 = some log →
    log.privateIp = l.pri.text ∧ log.privatePort = l.priPort ∧ log.publicIp = l.pub.text ∧
      log.publicPort = l.pubPort ∧ log.destIp = l.dst.text ∧ log.destPort = l.dstPort

/-- The destination port has at most five digits, or more than 65535 in its first five, or another
number of the line is out of range. -/
def RangeSafe (u : CharTable) (l : NumericLine) : Prop :=
  l.dstPort < 100000 ∨ 65535 < digitsValue u l.firstFive ∨
    ¬((l.pri.InRange ∧ l.pub.InRange ∧ l.dst.InRange) ∧ l.priPort ≤ 65535 ∧ l.pubPort ≤ 65535)

/-! ## What is read -/

section reading

variable {l : NumericLine}

theorem isPortText_toDigits {n : ℕ} : IsPortText u (Nat.toDigits 10 n) ↔ n < 100000 := by
  have hlen : (Nat.toDigits 10 n).length ≤ 5 ↔ n < 10 ^ 5 :=
    Nat.length_toDigits_le_iff (by decide) (by decide)
  constructor
  · intro h
    exact hlen.mp h.2.1
  · exact fun h ↦ ⟨Nat.length_toDigits_pos, hlen.mpr h, fun c hc ↦
      u.isDecimal_of_isDigit (Nat.isDigit_of_mem_toDigits (by decide) (by decide) hc)⟩

/-- The keyword stands in one place only. -/
theorem eq_header {x v t : Text} (h : l.render = x ++ (("NAT".toList ++ v) ++ t)) :
    x = l.header := by
  have haddr : ∀ x : Dotted, 'N' ∉ x.text := fun x hmem ↦
    absurd (Dotted.isAddrChar_of_mem_text hmem) (by decide)
  have hport : ∀ n, 'N' ∉ Nat.toDigits 10 n := fun n hmem ↦
    absurd (Nat.isDigit_of_mem_toDigits (by decide) (by decide) hmem) (by decide)
  have htuple : 'N' ∉ l.tuple := by
    simp [NumericLine.tuple, tupleText, haddr, hport]
  have hrest : ¬"NAT".toList <:+: l.tuple ++ l.tail := by
    intro hin
    rcases infix_append_of_head (fun c hc ↦ l.tail_head c hc ▸ by decide) hin with hin | hin
    · exact htuple (hin.subset (show 'N' ∈ "NAT".toList by decide))
    · exact l.tail_clear hin
  rw [List.append_assoc] at h
  exact eq_of_unbordered unbordered_nat h l.header_clear hrest

/-- Reading an address up to the character after it. -/
theorem Dotted.text_cons_inj {x : Dotted} {y : Ipv4} {s t : Text} {c c' : Char}
    (h : x.text ++ c :: s = y.text ++ c' :: t) (hc : isAddrChar c = false)
    (hc' : isAddrChar c' = false) : x.InRange ∧ c = c' ∧ s = t := by
  obtain ⟨hxy, hcc, hst⟩ := append_cons_inj (p := fun x ↦ isAddrChar x = true) h
    (fun _ ↦ Dotted.isAddrChar_of_mem_text) (fun _ ↦ LogServer.isAddrChar_of_mem_text)
    (by simp [hc]) (by simp [hc'])
  exact ⟨Dotted.isIpv4_iff.mp ⟨y, hxy⟩, hcc, hst⟩

/-- Reading a port up to the character after it. -/
theorem toDigits_port_inj {n : ℕ} {p s t : Text} {c c' : Char} (hp : IsPortText u p)
    (h : Nat.toDigits 10 n ++ c :: s = p ++ c' :: t) (hc : u.isDecimal c = false)
    (hc' : u.isDecimal c' = false) : n < 100000 ∧ c = c' ∧ s = t := by
  have hdigits : ∀ c ∈ Nat.toDigits 10 n, u.isDecimal c = true := fun c hc ↦
    u.isDecimal_of_isDigit (Nat.isDigit_of_mem_toDigits (by decide) (by decide) hc)
  obtain ⟨hnp, hcc, hst⟩ := append_cons_inj (p := fun x ↦ u.isDecimal x = true) h hdigits hp.2.2
    (by simp [hc]) (by simp [hc'])
  exact ⟨isPortText_toDigits.mp (hnp ▸ hp), hcc, hst⟩

/-- **Only readable numbers match.** -/
theorem readable_of_matches {b w t : Text} {m : Caps Char Group}
    (hm : Matches (srcnatPorts u) b w t m) (h : "NAT".toList ++ (l.tuple ++ l.tail) = w ++ t) :
    l.Readable := by
  obtain ⟨v, m', r, rfl, -, -, hhead⟩ := matches_srcnatPorts.mp hm
  obtain ⟨s, hs, pri, pub, dst, p, q, hp, hq, rfl, -⟩ := matches_srcnatPortsHead.mp hhead
  have hdash := isDecimal_false (u := u) (c := '-') (by decide) rfl
  have hclose := isDecimal_false (u := u) (c := ')') (by decide) rfl
  simp only [NumericLine.tuple, tupleText, List.append_assoc, List.append_cancel_left_eq] at h
  obtain ⟨-, h⟩ := isSpace_cons_inj isSpace_blank hs h
  simp only [List.append_assoc, List.cons_append] at h
  obtain ⟨hpri, -, h⟩ := Dotted.text_cons_inj h rfl rfl
  obtain ⟨hpriPort, -, h⟩ := toDigits_port_inj hp h hdash hdash
  obtain ⟨hpub, -, h⟩ := Dotted.text_cons_inj (List.cons.inj h).2 rfl rfl
  obtain ⟨hpubPort, -, h⟩ := toDigits_port_inj hq h hclose hclose
  obtain ⟨hdst, -, -⟩ := Dotted.text_cons_inj (List.cons.inj (List.cons.inj h).2).2 rfl rfl
  exact ⟨⟨hpri, hpub, hdst⟩, hpriPort, hpubPort⟩

/-- With ports there is no translation without. -/
theorem not_matches_noports {b w t : Text} {m : Caps Char Group}
    (h : "NAT".toList ++ (l.tuple ++ l.tail) = w ++ t) : ¬Matches (srcnatNoports u) b w t m := by
  intro hm
  obtain ⟨-, s, hs, pri, pub, dst, rfl, -⟩ := matches_srcnatNoports.mp hm
  simp only [NumericLine.tuple, tupleText, List.append_assoc, List.append_cancel_left_eq] at h
  obtain ⟨-, h⟩ := isSpace_cons_inj isSpace_blank hs h
  simp only [List.append_assoc, List.cons_append] at h
  obtain ⟨-, hcolon, -⟩ := Dotted.text_cons_inj h rfl rfl
  exact absurd hcolon (by decide)

/-- A line with other numbers has no tuple. -/
theorem natEndpoints_of_not_readable (h : ¬l.Readable) : natEndpoints u l.render = none := by
  rw [natEndpoints_eq_none]
  constructor
  · rintro ⟨x, w, t, m, hsplit, hm⟩
    obtain ⟨v, rfl, -⟩ := word_srcnatPorts hm
    obtain rfl := eq_header hsplit
    exact h (readable_of_matches hm (List.append_cancel_left hsplit))
  · rintro ⟨x, w, t, m, hsplit, hm⟩
    obtain ⟨v, rfl, -⟩ := word_srcnatNoports hm
    obtain rfl := eq_header hsplit
    exact not_matches_noports (List.append_cancel_left hsplit) hm

/-- What follows the first five digits of the destination port. -/
def NumericLine.rest (l : NumericLine) : Text := (Nat.toDigits 10 l.dstPort).drop 5 ++ l.tail

theorem natHead_append (pri : Ipv4) (p : Text) (pub : Ipv4) (q : Text) (dst : Ipv4) (r : Text) :
    natHead [' '] pri p pub q dst ++ r =
      "NAT".toList ++ tupleText pri.text p pub.text q dst.text r := by
  have hopen : " (".toList = [' ', '('] := rfl
  unfold natHead tupleText
  generalize pri.text = a, pub.text = b, dst.text = c
  simp only [hopen, List.append_assoc, List.cons_append, List.nil_append]

/-- A line with octets where they are expected, cut behind the five digits that are read. -/
theorem render_eq {pri pub dst : Ipv4} (hpri : l.pri.text = pri.text) (hpub : l.pub.text = pub.text)
    (hdst : l.dst.text = dst.text) : l.render = l.header ++ ((natHead [' '] pri
      (Nat.toDigits 10 l.priPort) pub (Nat.toDigits 10 l.pubPort) dst ++ l.firstFive) ++ l.rest) := by
  have hdigits : Nat.toDigits 10 l.dstPort ++ l.tail = l.firstFive ++ l.rest := by
    rw [NumericLine.rest, ← List.append_assoc, NumericLine.firstFive, List.take_append_drop]
  have htuple : "NAT".toList ++ l.tuple = natHead [' '] pri (Nat.toDigits 10 l.priPort) pub
      (Nat.toDigits 10 l.pubPort) dst ++ Nat.toDigits 10 l.dstPort := by
    rw [NumericLine.tuple, hpri, hpub, hdst, natHead_append]
  rw [NumericLine.render, ← List.append_assoc "NAT".toList, htuple, List.append_assoc, hdigits,
    List.append_assoc]

/-- **The tuple of a line with readable numbers**, its last port cut after five digits. -/
theorem natEndpoints_of_readable (h : l.Readable) : natEndpoints u l.render =
    some ⟨l.pri.text, Nat.toDigits 10 l.priPort, l.pub.text, Nat.toDigits 10 l.pubPort,
      l.dst.text, l.firstFive⟩ := by
  obtain ⟨⟨hpri, hpub, hdst⟩, hp, hq⟩ := h
  obtain ⟨pri, hpri⟩ := Dotted.isIpv4_iff.mpr hpri
  obtain ⟨pub, hpub⟩ := Dotted.isIpv4_iff.mpr hpub
  obtain ⟨dst, hdst⟩ := Dotted.isIpv4_iff.mpr hdst
  have hsplit := render_eq hpri hpub hdst
  have hfive : IsPortText u l.firstFive := by
    have hpos : 0 < (Nat.toDigits 10 l.dstPort).length := Nat.length_toDigits_pos
    refine ⟨?_, List.length_take_le _ _, fun c hc ↦ u.isDecimal_of_isDigit
      (Nat.isDigit_of_mem_toDigits (by decide) (by decide) (List.mem_of_mem_take hc))⟩
    rw [NumericLine.firstFive, List.length_take]
    omega
  have hstop : l.firstFive.length = 5 ∨ ∀ c ∈ l.rest.head?, u.isDecimal c = false := by
    rcases Nat.lt_or_ge (Nat.toDigits 10 l.dstPort).length 5 with hlt | hge
    · right
      rw [NumericLine.rest, List.drop_eq_nil_of_le (Nat.le_of_lt hlt), List.nil_append]
      intro c hc
      rw [l.tail_head c hc]
      exact isDecimal_false (by decide) rfl
    · left
      rw [NumericLine.firstFive, List.length_take, Nat.min_eq_left hge]
  have hheader : ¬(srcnatPorts u).Occurs l.header := by
    rintro ⟨x, w, t, m, heq, hm⟩
    obtain ⟨v, rfl, -⟩ := word_srcnatPorts hm
    exact l.header_clear ⟨x, v ++ t, by rw [heq]; simp⟩
  rw [hsplit, hpri, hpub, hdst]
  exact natEndpoints_ports hheader isSpace_blank (isPortText_toDigits.mpr hp)
    (isPortText_toDigits.mpr hq) hfive hstop

end reading

/-! ## When the numbers are checked -/

section ranges

variable {self : MikroTikParser} {l : NumericLine}

theorem mem_render : "NAT".toList <:+: l.render :=
  ⟨l.header, l.tuple ++ l.tail, by rw [NumericLine.render, List.append_assoc]⟩

/-- **A line is accepted** exactly if its numbers are in range, the destination port as far as its
first five digits. -/
theorem parse_render_eq_some_iff {log : ParsedLog} : (self.parse u l.render).1 = some log ↔
    ((l.pri.InRange ∧ l.pub.InRange ∧ l.dst.InRange) ∧ l.priPort ≤ 65535 ∧ l.pubPort ≤ 65535) ∧
      digitsValue u l.firstFive ≤ 65535 ∧
      log = ⟨l.pri.text, l.priPort, l.pub.text, l.pubPort, l.dst.text, digitsValue u l.firstFive,
        _protocol u l.render, self._subscriber u l.render⟩ := by
  rw [parse_fst, endpoints_toOption, if_pos mem_render]
  by_cases h : l.Readable
  · rw [natEndpoints_of_readable h, Option.bind_some, MikroTikParser.event]
    dsimp only
    rw [digitsValue_toDigits, digitsValue_toDigits]
    split
    · rename_i hports
      constructor
      · intro hcon
        cases hcon
      · intro hcon
        omega
    · rename_i hports
      rw [Option.some.injEq, eq_comm]
      exact ⟨fun heq ↦ ⟨⟨h.1, by omega, by omega⟩, by omega, heq⟩, fun heq ↦ heq.2.2⟩
  · rw [natEndpoints_of_not_readable h]
    constructor
    · intro hcon
      cases hcon
    · rintro ⟨⟨hoctets, hp, hq⟩, -⟩
      exact absurd ⟨hoctets, by omega, by omega⟩ h

/-- **The numbers of a line are checked, and stored as they are,** exactly if its destination port
has no more than five digits of which the first five are in range, as long as the other numbers
are. -/
theorem range_exact_iff (self : MikroTikParser) (u : CharTable) (l : NumericLine) :
    RangeExact self u l ↔ RangeSafe u l := by
  have hshort : l.dstPort < 100000 → digitsValue u l.firstFive = l.dstPort := by
    intro h
    rw [NumericLine.firstFive, List.take_of_length_le (isPortText_toDigits (u := u).mpr h).2.1,
      digitsValue_toDigits]
  constructor
  · intro h
    by_contra hcon
    simp only [RangeSafe, not_or, not_lt, not_not] at hcon
    obtain ⟨hlong, hfive, hothers⟩ := hcon
    have haccept : (self.parse u l.render).1 = some _ :=
      parse_render_eq_some_iff.mpr ⟨hothers, hfive, rfl⟩
    have hin := h.accepted.mp (by rw [haccept]; rfl)
    have := hin.2.2.2
    omega
  · intro h
    constructor
    · constructor
      · intro hsome
        obtain ⟨log, hlog⟩ := Option.isSome_iff_exists.mp hsome
        obtain ⟨hothers, hfive, -⟩ := parse_render_eq_some_iff.mp hlog
        rcases h with h | h | h
        · exact ⟨hothers.1, hothers.2.1, hothers.2.2, hshort h ▸ hfive⟩
        · omega
        · exact absurd hothers h
      · rintro ⟨hoctets, hp, hq, hr⟩
        rw [parse_render_eq_some_iff.mpr ⟨⟨hoctets, hp, hq⟩,
          by rw [hshort (by omega)]; exact hr, rfl⟩]
        rfl
    · intro log hlog
      obtain ⟨hothers, hfive, rfl⟩ := parse_render_eq_some_iff.mp hlog
      refine ⟨rfl, rfl, rfl, rfl, rfl, ?_⟩
      rcases h with h | h | h
      · exact hshort h
      · omega
      · exact absurd hothers h

/-- A line whose destination port has one digit too many. -/
def longPortLine : NumericLine where
  header := "in:<pppoe-ali> proto TCP, ".toList
  pri := ⟨10, 0, 0, 1⟩
  priPort := 1
  pub := ⟨1, 2, 3, 4⟩
  pubPort := 3
  dst := ⟨8, 8, 8, 8⟩
  dstPort := 100000
  tail := ", len 60".toList
  header_clear := by decide
  tail_head := by decide
  tail_clear := by decide

/-- A port of six digits is stored as its first five. -/
theorem range_not_exact : ¬RangeExact {} .ascii longPortLine := by
  intro h
  have hstored := (h.stored ⟨"10.0.0.1".toList, 1, "1.2.3.4".toList, 3, "8.8.8.8".toList, 10000,
    "TCP".toList, "ali".toList⟩ (by decide +kernel)).2.2.2.2.2
  exact absurd hstored (by decide)

end ranges

end LogServer
