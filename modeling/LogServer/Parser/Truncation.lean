import LogServer.Parser.Translations

/-!
# Truncated lines

A `NatLine` is a payload cut around the translation that the parser reads from it; every accepted
payload is one (`exists_natLine`).  What is read from a prefix of it depends on where the cut falls
(`natEndpoints_take_beyond`, `natEndpoints_take_inside`, `natEndpoints_take_before`):

* behind the translation, the same tuple;
* inside its last number, a tuple with a shorter number;
* before that, only a translation without ports that stands in front of the line's own and was not
  read because the line's own was, or because of the character behind it.

`truncation_iff` puts this together.
-/

namespace LogServer

open Regex Substring

variable {u : CharTable}

/-! ## Lines with a translation -/

inductive NatTuple where
  | ports (pri : Ipv4) (priPort : Text) (pub : Ipv4) (pubPort : Text) (dst : Ipv4) (dstPort : Text)
  | noports (pri pub dst : Ipv4)

namespace NatTuple

/-- The text up to the last number. -/
def head (space : Text) : NatTuple → Text
  | ports pri p pub q dst _ => natHead space pri p pub q dst
  | noports pri pub dst =>
      "NAT".toList ++ space ++ ['('] ++ pri.text ++ "->".toList ++ pub.text ++ ")->".toList ++
        (octetText dst.a ++ '.' :: (octetText dst.b ++ '.' :: (octetText dst.c ++ ['.'])))

/-- The last number: the destination port, or the last octet of the destination. -/
def last : NatTuple → Text
  | ports _ _ _ _ _ d => d
  | noports _ _ dst => octetText dst.d

def endpoints : NatTuple → Endpoints
  | ports pri p pub q dst d => ⟨pri.text, p, pub.text, q, dst.text, d⟩
  | noports pri pub dst => ⟨pri.text, ['0'], pub.text, ['0'], dst.text, ['0']⟩

end NatTuple

structure NatLine where
  before : Text
  space : Text
  tuple : NatTuple
  after : Text

namespace NatLine

variable (l : NatLine)

def head : Text := l.tuple.head l.space

def last : Text := l.tuple.last

def render : Text := l.before ++ ((l.head ++ l.last) ++ l.after)

def start : ℕ := (l.before ++ l.head).length

/-- The translation is the one that is read: its texts are those of numbers, it ends where its last
number does, and none that counts stands before it. -/
def WellFormed (u : CharTable) (l : NatLine) : Prop :=
  (∀ c ∈ l.space, u.isSpace c = true) ∧
  match l.tuple with
  | .ports _ p _ q _ d =>
      ¬(srcnatPorts u).Occurs l.before ∧ IsPortText u p ∧ IsPortText u q ∧ IsPortText u d ∧
        (d.length = 5 ∨ ∀ c ∈ l.after.head?, u.isDecimal c = false)
  | .noports .. =>
      ¬(srcnatPorts u).Occurs l.render ∧ ¬(srcnatNoports u).Occurs l.before ∧
        l.after.head?.any (fun c ↦ u.isDecimal c || c == '.' || c == ':') = false

end NatLine

/-- The first complete translation without ports of a text. -/
def FirstNoports (u : CharTable) (text : Text) (pri pub dst : Ipv4) : Prop :=
  ∃ before space after, text = before ++ (noportsText space pri pub dst ++ after) ∧
    (∀ c ∈ space, u.isSpace c = true) ∧
    after.head?.any (fun c ↦ u.isDecimal c || c == '.' || c == ':') = false ∧
    ¬(srcnatNoports u).Occurs before

def Endpoints.InRange (u : CharTable) (e : Endpoints) : Prop :=
  digitsValue u e.priPort ≤ 65535 ∧ digitsValue u e.pubPort ≤ 65535 ∧
    digitsValue u e.dstPort ≤ 65535

/-- Two tuples are stored alike. -/
def Endpoints.Same (u : CharTable) (e e' : Endpoints) : Prop :=
  (e.pri = e'.pri ∧ e.pub = e'.pub ∧ e.dst = e'.dst) ∧
    digitsValue u e.priPort = digitsValue u e'.priPort ∧
    digitsValue u e.pubPort = digitsValue u e'.pubPort ∧
    digitsValue u e.dstPort = digitsValue u e'.dstPort

/-- Two records have the same private, public and destination endpoints. -/
def ParsedLog.SameEndpoints (log log' : ParsedLog) : Prop :=
  (log.privateIp = log'.privateIp ∧ log.publicIp = log'.publicIp ∧ log.destIp = log'.destIp) ∧
    log.privatePort = log'.privatePort ∧ log.publicPort = log'.publicPort ∧
    log.destPort = log'.destPort

/-! ## What is read from a prefix -/

section reading

variable {l : NatLine} {n : ℕ} {text : Text} {pri pub dst : Ipv4} {e : Endpoints}

/-- The first translation without ports is the leftmost one. -/
theorem firstNoports_iff : FirstNoports u text pri pub dst ↔
    ∃ x, (srcnatNoports u).Leftmost text x ∧ x.groups = noportsGroups pri pub dst := by
  constructor
  · rintro ⟨before, space, after, heq, hs, hstop, hnone⟩
    exact ⟨⟨before, noportsText space pri pub dst, after, noportsGroups pri pub dst⟩,
      ⟨heq, matches_srcnatNoports.mpr ⟨hstop, space, hs, pri, pub, dst, rfl, rfl⟩,
        openedBy_srcnatNoports.passes_iff.mpr hnone⟩, rfl⟩
  · rintro ⟨x, hx, hgroups⟩
    obtain ⟨hstop, space, hs, pri', pub', dst', hword, hgroups'⟩ :=
      matches_srcnatNoports.mp hx.matched
    have hword : x.word = noportsText space pri' pub' dst' := hword
    have hpass := hx.passes
    obtain ⟨y, hy⟩ : ∃ y, x.word ++ x.after = 'N' :: y := ⟨_, by rw [hword, noportsText_append]; rfl⟩
    rw [hy] at hpass
    have hsame : noportsGroups pri pub dst = noportsGroups pri' pub' dst' :=
      hgroups.symm.trans hgroups'
    simp only [noportsGroups, List.cons.injEq, Prod.mk.injEq, true_and, and_true] at hsame
    obtain ⟨hpri, hpub, hdst⟩ := hsame
    have htext : noportsText space pri' pub' dst' = noportsText space pri pub dst := by
      unfold noportsText
      rw [hpri, hpub, hdst]
    exact ⟨x.before, space, x.after, by rw [← htext, ← hword]; exact hx.eq, hs, hstop,
      openedBy_srcnatNoports.passes_iff.mp hpass⟩

/-- **Without a translation with ports the first one without is read.** -/
theorem natEndpoints_eq_some_iff (hports : ¬(srcnatPorts u).Occurs text) :
    natEndpoints u text = some e ↔
      ∃ pri pub dst, FirstNoports u text pri pub dst ∧ (NatTuple.noports pri pub dst).endpoints = e := by
  constructor
  · intro h
    rw [natEndpoints, search_eq_none_iff.mpr hports] at h
    obtain ⟨m, hm, -⟩ := Option.map_eq_some_iff.mp h
    have hleft := search_leftmost hm
    obtain ⟨-, space, -, pri, pub, dst, -, hgroups⟩ := matches_srcnatNoports.mp hleft.matched
    refine ⟨pri, pub, dst, firstNoports_iff.mpr ⟨m, hleft, hgroups⟩, ?_⟩
    have hread := natEndpoints_of_leftmost hports hleft hgroups
    rw [natEndpoints, search_eq_none_iff.mpr hports] at hread
    exact Option.some.inj (hread.symm.trans h)
  · rintro ⟨pri, pub, dst, hfirst, rfl⟩
    obtain ⟨x, hx, hgroups⟩ := firstNoports_iff.mp hfirst
    exact natEndpoints_of_leftmost hports hx hgroups

/-- The head of a translation without ports, read from the left. -/
theorem noports_head_eq (space : Text) (pri pub dst : Ipv4) :
    (NatTuple.noports pri pub dst).head space = "NAT".toList ++ (space ++ '(' :: (pri.text ++
      ("->".toList ++ (pub.text ++ (")->".toList ++ (octetText dst.a ++ '.' :: (octetText dst.b ++
        '.' :: (octetText dst.c ++ ['.'])))))))) := by
  dsimp only [NatTuple.head]
  generalize pri.text = x, pub.text = y, octetText dst.a = a, octetText dst.b = b,
    octetText dst.c = c
  simp only [List.append_assoc, List.cons_append, List.nil_append]

/-- A translation without ports is its head and its last octet. -/
theorem noports_head_append (space : Text) (pri pub dst : Ipv4) :
    (NatTuple.noports pri pub dst).head space ++ octetText dst.d = noportsText space pri pub dst := by
  have hdst : dst.text = octetText dst.a ++ '.' :: (octetText dst.b ++ '.' ::
      (octetText dst.c ++ '.' :: octetText dst.d)) := rfl
  rw [← List.append_nil (noportsText space pri pub dst), noports_head_eq, noportsText_append, hdst]
  generalize pri.text = x, pub.text = y, octetText dst.a = a, octetText dst.b = b,
    octetText dst.c = c, octetText dst.d = d
  simp only [List.append_assoc, List.cons_append, List.nil_append, List.append_nil]

/-- A line is read back. -/
theorem natEndpoints_render (hwf : l.WellFormed u) :
    natEndpoints u l.render = some l.tuple.endpoints := by
  obtain ⟨before, space, tuple, after⟩ := l
  cases tuple with
  | ports pri p pub q dst d =>
      obtain ⟨hs, hbefore, hp, hq, hd, hstop⟩ := hwf
      exact natEndpoints_ports hbefore hs hp hq hd hstop
  | noports pri pub dst =>
      obtain ⟨hs, hports, hbefore, hstop⟩ := hwf
      have hrender : NatLine.render ⟨before, space, .noports pri pub dst, after⟩ =
          before ++ (noportsText space pri pub dst ++ after) := by
        rw [← noports_head_append]
        rfl
      rw [hrender] at hports ⊢
      exact natEndpoints_noports hports hbefore hs hstop

/-- What a port pattern takes from a text that begins with a digit. -/
theorem exists_port {t : Text} (h : ∃ c ∈ t.head?, u.isDecimal c = true) : ∃ d rest,
    t = d ++ rest ∧ IsPortText u d ∧ (d.length = 5 ∨ ∀ c ∈ rest.head?, u.isDecimal c = false) := by
  obtain ⟨d, rest, ht, hpos, hle, hall, hfull⟩ := exists_run (n := 5) (by decide) h
  exact ⟨d, rest, ht, ⟨hpos, hle, hall⟩, hfull⟩

/-- **Every tuple comes from a line.** -/
theorem exists_natLine {payload : Text} (h : natEndpoints u payload ≠ none) :
    ∃ l : NatLine, l.WellFormed u ∧ l.render = payload := by
  by_cases hports : (srcnatPorts u).search payload = none
  · have hnone := search_eq_none_iff.mp hports
    obtain ⟨m, hm⟩ : ∃ m, (srcnatNoports u).search payload = some m := by
      rw [natEndpoints, hports, ne_eq, Option.map_eq_none_iff] at h
      exact Option.ne_none_iff_exists'.mp h
    obtain ⟨hpayload, hmatch, hpass⟩ := search_leftmost hm
    obtain ⟨hstop, s, hs, pri, pub, dst, hword, -⟩ := matches_srcnatNoports.mp hmatch
    have hrender : NatLine.render ⟨m.before, s, .noports pri pub dst, m.after⟩ = payload := by
      rw [hpayload, hword]
      show m.before ++ (((NatTuple.noports pri pub dst).head s ++ octetText dst.d) ++ m.after) = _
      rw [noports_head_append]
      rfl
    refine ⟨⟨m.before, s, .noports pri pub dst, m.after⟩, ⟨hs, ?_, ?_, hstop⟩, hrender⟩
    · rw [hrender]
      exact hnone
    · obtain ⟨y, hy⟩ : ∃ y, m.word ++ m.after = 'N' :: y := ⟨_, by rw [hword]; rfl⟩
      rw [hy] at hpass
      exact openedBy_srcnatNoports.passes_iff.mp hpass
  · obtain ⟨m, hm⟩ := Option.ne_none_iff_exists'.mp hports
    obtain ⟨hpayload, hmatch, hpass⟩ := search_leftmost hm
    obtain ⟨v, m', d, hword, -, hd, hhead⟩ := matches_srcnatPorts.mp hmatch
    obtain ⟨s, hs, pri, pub, dst, p, q, hp, hq, hv, -⟩ := matches_srcnatPortsHead.mp hhead
    have hv' : v = natHead s pri p pub q dst := hv
    -- The engine takes the digits greedily, so the port ends where its digits do.
    obtain ⟨d', rest, hsplit, hd', hstop⟩ := exists_port (u := u) (t := d ++ m.after) <| by
      obtain ⟨c, d₀, rfl⟩ := List.exists_cons_of_ne_nil (List.length_pos_iff.mp hd.1)
      exact ⟨c, rfl, hd.2.2 c List.mem_cons_self⟩
    have hfirst := first_srcnatPorts (b := m.before.reverse) hs pri pub dst hp hq hd' hstop
    rw [List.append_assoc, ← hsplit, ← hv', ← List.append_assoc, ← hword, search_first hm,
      Option.some.injEq] at hfirst
    have hdd : d = d' := by
      have heq := hword.symm.trans (congrArg Found.word hfirst)
      exact List.append_cancel_left heq
    have hafter : m.after = rest := congrArg Found.after hfirst
    refine ⟨⟨m.before, s, .ports pri p pub q dst d, m.after⟩,
      ⟨hs, ?_, hp, hq, hd, by rw [hdd, hafter]; exact hstop⟩, ?_⟩
    · obtain ⟨y, hy⟩ : ∃ y, m.word ++ m.after = 'N' :: y := ⟨_, by rw [hword, hv']; rfl⟩
      rw [hy] at hpass
      exact openedBy_srcnatPorts.passes_iff.mp hpass
    · rw [hpayload, hword, hv']
      rfl

/-- A translation with ports in a part of a text is one of the text. -/
theorem occurs_srcnatPorts_mono {t t' : Text} (h : t <+: t') (hocc : (srcnatPorts u).Occurs t) :
    (srcnatPorts u).Occurs t' := by
  obtain ⟨x, w, y, m, rfl, hm⟩ := hocc
  obtain ⟨z, rfl⟩ := h
  exact ⟨x, w, y ++ z, m, by simp, srcnatPorts_congr hm⟩

theorem head?_take {t : Text} {k : ℕ} {c : Char} (h : c ∈ (t.take k).head?) : c ∈ t.head? := by
  cases k with
  | zero => simp at h
  | succ k =>
      cases t with
      | nil => exact h
      | cons a t => exact h

/-- **Behind the translation a cut changes nothing.** -/
theorem natEndpoints_take_beyond (hwf : l.WellFormed u) (hn : l.start + l.last.length ≤ n) :
    natEndpoints u (l.render.take n) = some l.tuple.endpoints := by
  obtain ⟨k, rfl⟩ := Nat.exists_eq_add_of_le hn
  obtain ⟨before, space, tuple, after⟩ := l
  have htake : (NatLine.render ⟨before, space, tuple, after⟩).take
      (NatLine.start ⟨before, space, tuple, after⟩ +
        (NatLine.last ⟨before, space, tuple, after⟩).length + k) =
      NatLine.render ⟨before, space, tuple, after.take k⟩ := by
    simp only [NatLine.render, NatLine.start, NatLine.last, NatLine.head, ← List.append_assoc,
      ← List.length_append, List.take_length_add_append]
  rw [htake]
  refine natEndpoints_render ?_
  cases tuple with
  | ports pri p pub q dst d =>
      obtain ⟨hs, hbefore, hp, hq, hd, hstop⟩ := hwf
      exact ⟨hs, hbefore, hp, hq, hd, hstop.imp_right fun h c hc ↦ h c (head?_take hc)⟩
  | noports pri pub dst =>
      obtain ⟨hs, hports, hbefore, hstop⟩ := hwf
      refine ⟨hs, fun hocc ↦ hports (occurs_srcnatPorts_mono ?_ hocc), hbefore, ?_⟩
      · rw [← htake]
        exact List.take_prefix _ _
      · cases k with
        | zero => rfl
        | succ k => cases after <;> exact hstop

/-- A cut inside the last number leaves a part of it. -/
theorem take_inside (l : NatLine) {k : ℕ} (hk : k ≤ l.last.length) :
    l.render.take (l.start + k) = l.before ++ (l.head ++ l.last.take k) := by
  rw [NatLine.render, NatLine.start, ← List.append_assoc, ← List.append_assoc, List.append_assoc,
    List.take_length_add_append, List.take_append_of_le_length hk, List.append_assoc]

/-- The digits of an octet, cut short, are those of an octet. -/
theorem octetText_take : ∀ o : Fin 256, ∀ k < (octetText o).length, 0 < k →
    (octetText o).take k = octetText (Fin.ofNat 256 (o / 10 ^ ((octetText o).length - k))) := by
  decide +kernel

/-- More digits, a larger number. -/
theorem digitsValue_take_le (t : Text) (k : ℕ) : digitsValue u (t.take k) ≤ digitsValue u t := by
  have hmono : ∀ (y : Text) (n : ℕ),
      n ≤ y.foldl (fun n c ↦ 10 * n + (u.decimal c).getD 0) n := by
    intro y
    induction y with
    | nil => exact fun n ↦ Nat.le_refl n
    | cons c y ih =>
        intro n
        exact Nat.le_trans (by omega) (ih (10 * n + (u.decimal c).getD 0))
  calc
    digitsValue u (t.take k) ≤
        (t.drop k).foldl (fun n c ↦ 10 * n + (u.decimal c).getD 0) (digitsValue u (t.take k)) :=
      hmono _ _
    _ = digitsValue u (t.take k ++ t.drop k) := by rw [digitsValue, digitsValue, List.foldl_append]
    _ = digitsValue u t := by rw [List.take_append_drop]

/-- **Inside the last number a cut leaves a shorter number**, and a tuple of its own. -/
theorem natEndpoints_take_inside (hwf : l.WellFormed u) (hstart : l.start < n)
    (hn : n < l.start + l.last.length) : ∃ e, natEndpoints u (l.render.take n) = some e ∧
      (l.tuple.endpoints.InRange u → e.InRange u) ∧
      (e.Same u l.tuple.endpoints ↔
        digitsValue u (l.last.take (n - l.start)) = digitsValue u l.last) := by
  obtain ⟨k, rfl⟩ := Nat.exists_eq_add_of_le (Nat.le_of_lt hstart)
  have hprefix : l.render.take (l.start + k) <+: l.render := List.take_prefix _ _
  rw [Nat.add_sub_cancel_left]
  rw [take_inside l (by omega)] at hprefix ⊢
  obtain ⟨before, space, tuple, after⟩ := l
  cases tuple with
  | ports pri p pub q dst d =>
      obtain ⟨hs, hbefore, hp, hq, hd, hstop⟩ := hwf
      have hk : 0 < k ∧ k < d.length := ⟨by omega, Nat.lt_of_add_lt_add_left hn⟩
      have hcut : IsPortText u (d.take k) := by
        refine ⟨?_, ?_, fun c hc ↦ hd.2.2 c (List.mem_of_mem_take hc)⟩
        · rw [List.length_take]
          omega
        · exact Nat.le_trans (List.length_take_le' _ _) hd.2.1
      have hread : natEndpoints u (before ++ ((natHead space pri p pub q dst ++ d.take k) ++ [])) =
          some ⟨pri.text, p, pub.text, q, dst.text, d.take k⟩ :=
        natEndpoints_ports hbefore hs hp hq hcut (.inr (by simp))
      rw [List.append_nil] at hread
      refine ⟨_, hread, fun hrange ↦ ?_, ?_⟩
      · exact ⟨hrange.1, hrange.2.1, Nat.le_trans (digitsValue_take_le d k) hrange.2.2⟩
      · exact ⟨fun h ↦ h.2.2.2, fun h ↦ ⟨⟨rfl, rfl, rfl⟩, rfl, rfl, h⟩⟩
  | noports pri pub dst =>
      obtain ⟨hs, hports, hbefore, hstop⟩ := hwf
      obtain ⟨o, ho⟩ : ∃ o : Fin 256, (octetText dst.d).take k = octetText o :=
        ⟨_, octetText_take dst.d k (Nat.lt_of_add_lt_add_left hn) (by omega)⟩
      let cut : NatLine := ⟨before, space, .noports pri pub { dst with d := o }, []⟩
      have hcut : before ++ ((NatTuple.noports pri pub dst).head space ++ (octetText dst.d).take k) =
          cut.render := by
        rw [ho, NatLine.render, List.append_nil]
        rfl
      have hwf' : cut.WellFormed u :=
        ⟨hs, fun hocc ↦ hports (occurs_srcnatPorts_mono (hcut ▸ hprefix) hocc), hbefore, rfl⟩
      have hvalue : ∀ o : Fin 256, digitsValue u (octetText o) = o := fun o ↦ digitsValue_toDigits _
      refine ⟨_, (congrArg _ hcut).trans (natEndpoints_render hwf'), fun hrange ↦ hrange, ?_⟩
      show _ ↔ digitsValue u ((octetText dst.d).take k) = digitsValue u (octetText dst.d)
      rw [ho, hvalue, hvalue]
      constructor
      · rintro ⟨⟨-, -, hdst⟩, -⟩
        have hlast : octetText o = octetText dst.d := by
          have hsame : (⟨dst.a, dst.b, dst.c, o⟩ : Ipv4).text = dst.text := hdst
          simpa [Ipv4.text] using hsame
        exact toDigits_inj hlast
      · intro h
        have hdst : ({ dst with d := o } : Ipv4) = dst := by
          rw [Fin.ext h]
        show Endpoints.Same u ⟨pri.text, ['0'], pub.text, ['0'], Ipv4.text { dst with d := o }, ['0']⟩
          ⟨pri.text, ['0'], pub.text, ['0'], dst.text, ['0']⟩
        rw [hdst]
        exact ⟨⟨rfl, rfl, rfl⟩, rfl, rfl, rfl⟩

/-- The head of a translation opens with the letter of its keyword, and does not hold it again. -/
theorem head_eq_cons (hwf : l.WellFormed u) : ∃ v, l.head = 'N' :: v ∧ 'N' ∉ v := by
  obtain ⟨before, space, tuple, after⟩ := l
  cases tuple with
  | ports pri p pub q dst d =>
      obtain ⟨hs, -, hp, hq, hd, -⟩ := hwf
      have hm : Matches (srcnatPorts u) [] (natHead space pri p pub q dst ++ d) [] _ :=
        matches_srcnatPorts.mpr ⟨_, _, d, rfl, rfl, hd, matches_srcnatPortsHead.mpr
          ⟨space, hs, pri, pub, dst, p, q, hp, hq, rfl, rfl⟩⟩
      obtain ⟨v, hv, hN⟩ := openedBy_srcnatPorts.head hm
      obtain ⟨v₀, hv₀⟩ : ∃ v₀, natHead space pri p pub q dst = 'N' :: v₀ := ⟨_, rfl⟩
      rw [hv₀] at hv
      obtain rfl : v₀ ++ d = v := (List.cons.inj hv).2
      exact ⟨v₀, hv₀, fun hmem ↦ hN (List.mem_append_left d hmem)⟩
  | noports pri pub dst =>
      have hm : Matches (srcnatNoports u) [] (noportsText space pri pub dst) [] _ :=
        matches_srcnatNoports.mpr ⟨rfl, space, hwf.1, pri, pub, dst, rfl, rfl⟩
      obtain ⟨v, hv, hN⟩ := openedBy_srcnatNoports.head hm
      obtain ⟨v₀, hv₀⟩ : ∃ v₀, (NatTuple.noports pri pub dst).head space = 'N' :: v₀ := ⟨_, rfl⟩
      rw [← noports_head_append, hv₀] at hv
      obtain rfl : v₀ ++ octetText dst.d = v := (List.cons.inj hv).2
      exact ⟨v₀, hv₀, fun hmem ↦ hN (List.mem_append_left _ hmem)⟩

section head

variable {b w t z : Text} {m : Caps Char Group} {space p q : Text} {pri pub dst : Ipv4}

/-- Up to the last port there is no translation with ports. -/
theorem not_matches_ports_natHead (hs : ∀ c ∈ space, u.isSpace c = true) (hp : IsPortText u p)
    (hq : IsPortText u q) (h : natHead space pri p pub q dst = w ++ z) :
    ¬Matches (srcnatPorts u) b w t m := by
  intro hm
  obtain ⟨v, m', d, rfl, -, hd, hhead⟩ := matches_srcnatPorts.mp hm
  have hhead : Matches (srcnatPortsHead u) b v (d ++ z) m' :=
    matches_srcnatPortsHead.mpr (matches_srcnatPortsHead.mp hhead)
  have hwhole : Matches (srcnatPortsHead u) b (natHead space pri p pub q dst) [] _ :=
    matches_srcnatPortsHead.mpr ⟨space, hs, pri, pub, dst, p, q, hp, hq, rfl, rfl⟩
  have hpart := (srcnatPortsHead_unique hwhole hhead (by rw [List.append_nil, h]; simp)).1
  rw [hpart, List.append_assoc] at h
  have hnil := (List.append_eq_nil_iff.mp (List.self_eq_append_right.mp h)).1
  exact absurd hd.1 (by simp [hnil])

/-- A translation with ports does not begin like one without. -/
theorem not_matches_noports_natHead (hs : ∀ c ∈ space, u.isSpace c = true)
    (h : natHead space pri p pub q dst = w ++ z) : ¬Matches (srcnatNoports u) b w t m := by
  intro hm
  obtain ⟨-, s', hs', pri', pub', dst', hword, -⟩ := matches_srcnatNoports.mp hm
  rw [show w = noportsText s' pri' pub' dst' from hword, natHead_eq, noportsText_append] at h
  obtain ⟨-, h⟩ := isSpace_cons_inj hs hs' (List.append_cancel_left h)
  obtain ⟨-, hcolon, -⟩ := text_cons_inj h rfl rfl
  exact absurd hcolon (by decide)

/-- Up to the last octet there is no translation without ports. -/
theorem not_matches_noports_head (hs : ∀ c ∈ space, u.isSpace c = true)
    (h : (NatTuple.noports pri pub dst).head space = w ++ z) :
    ¬Matches (srcnatNoports u) b w t m := by
  intro hm
  obtain ⟨-, s', hs', pri', pub', dst', hword, -⟩ := matches_srcnatNoports.mp hm
  rw [show w = noportsText s' pri' pub' dst' from hword, noports_head_eq, noportsText_append] at h
  obtain ⟨-, h⟩ := isSpace_cons_inj hs hs' (List.append_cancel_left h)
  obtain ⟨-, -, h⟩ := text_cons_inj h rfl rfl
  obtain ⟨-, -, h⟩ := text_cons_inj (List.cons.inj h).2 rfl rfl
  have hdst := (List.cons.inj (List.cons.inj h).2).2
  -- Three octets of the destination are read, and nothing is left for the fourth.
  rw [Ipv4.text, List.append_assoc, List.cons_append, List.append_assoc, List.cons_append,
    List.append_assoc, List.cons_append] at hdst
  obtain ⟨-, hdst⟩ := toDigits_cons_inj hdst
  obtain ⟨-, hdst⟩ := toDigits_cons_inj hdst
  obtain ⟨-, hdst⟩ := toDigits_cons_inj hdst
  exact octetText_ne_nil dst'.d (List.append_eq_nil_iff.mp hdst.symm).1

end head

/-- A cut before the last number falls before the translation, or leaves the beginning of its
head. -/
theorem take_before (hwf : l.WellFormed u) (hn : n ≤ l.start) : l.render.take n = l.before.take n ∨
    ∃ v z, l.head = ('N' :: v) ++ z ∧ 'N' ∉ v ∧ l.before.take n = l.before ∧
      l.render.take n = l.before ++ 'N' :: v := by
  rcases Nat.lt_or_ge l.before.length n with hlt | hle
  · right
    obtain ⟨v, hhead, hN⟩ := head_eq_cons hwf
    obtain ⟨k, rfl⟩ := Nat.exists_eq_add_of_lt hlt
    have hk : k ≤ v.length := by
      rw [NatLine.start, hhead, List.length_append, List.length_cons] at hn
      omega
    refine ⟨v.take k, v.drop k, ?_, fun hmem ↦ hN (List.mem_of_mem_take hmem),
      List.take_of_length_le (by omega), ?_⟩
    · rw [hhead, List.cons_append, List.take_append_drop]
    · rw [NatLine.render, hhead, Nat.add_assoc, List.take_length_add_append, List.append_assoc,
        List.cons_append, List.take_succ_cons, List.take_append_of_le_length hk]
  · left
    rw [NatLine.render, List.take_append_of_le_length hle]

/-- In front of the last number there is no translation but those in front of the line's own. -/
theorem leftmost_take_before (hwf : l.WellFormed u) (hn : n ≤ l.start) :
    ¬(srcnatPorts u).Occurs (l.render.take n) ∧
      ∀ g, (∃ x, (srcnatNoports u).Leftmost (l.render.take n) x ∧ x.groups = g) ↔
        ∃ x, (srcnatNoports u).Leftmost (l.before.take n) x ∧ x.groups = g := by
  have hprefix : l.render.take n <+: l.render := List.take_prefix _ _
  rcases take_before hwf hn with heq | ⟨v, z, hhead, hN, hbefore, heq⟩
  · refine ⟨fun hocc ↦ ?_, fun g ↦ by rw [heq]⟩
    obtain ⟨before, space, tuple, after⟩ := l
    cases tuple with
    | ports pri p pub q dst d =>
        exact hwf.2.1 (occurs_srcnatPorts_mono (heq ▸ List.take_prefix _ _) hocc)
    | noports pri pub dst => exact hwf.2.1 (occurs_srcnatPorts_mono hprefix hocc)
  · have hocc_line : (srcnatPorts u).Occurs (l.before ++ 'N' :: v) → (srcnatPorts u).Occurs l.render :=
      occurs_srcnatPorts_mono (heq ▸ hprefix)
    rw [heq, hbefore]
    obtain ⟨before, space, tuple, after⟩ := l
    cases tuple with
    | ports pri p pub q dst d =>
        obtain ⟨hs, hports, hp, hq, -, -⟩ := hwf
        replace hs : ∀ c ∈ space, u.isSpace c = true := hs
        have hsplit : ∀ w t, 'N' :: v = w ++ t → natHead space pri p pub q dst = w ++ (t ++ z) :=
          fun w t h ↦ by rw [← List.append_assoc, ← h]; exact hhead
        refine ⟨fun hocc ↦ hports ((openedBy_srcnatPorts.occurs_append_iff hN ?_).mp hocc), fun g ↦
          openedBy_srcnatNoports.leftmost_append_iff hN ?_⟩
        · exact fun w t m h ↦ not_matches_ports_natHead hs hp hq (hsplit w t h)
        · exact fun w t m h ↦ not_matches_noports_natHead hs (hsplit w t h)
    | noports pri pub dst =>
        obtain ⟨hs, hports, -, -⟩ := hwf
        replace hs : ∀ c ∈ space, u.isSpace c = true := hs
        have hsplit : ∀ w t, 'N' :: v = w ++ t →
            (NatTuple.noports pri pub dst).head space = w ++ (t ++ z) :=
          fun w t h ↦ by rw [← List.append_assoc, ← h]; exact hhead
        refine ⟨fun hocc ↦ hports (hocc_line hocc), fun g ↦
          openedBy_srcnatNoports.leftmost_append_iff hN ?_⟩
        exact fun w t m h ↦ not_matches_noports_head hs (hsplit w t h)

/-- **Before the last number a cut leaves what stands in front of the translation.** -/
theorem natEndpoints_take_before (hwf : l.WellFormed u) (hn : n ≤ l.start) :
    natEndpoints u (l.render.take n) = some e ↔ ∃ pri pub dst,
      FirstNoports u (l.before.take n) pri pub dst ∧
        (NatTuple.noports pri pub dst).endpoints = e := by
  obtain ⟨hports, hleft⟩ := leftmost_take_before hwf hn
  simp only [natEndpoints_eq_some_iff hports, firstNoports_iff, hleft]

end reading

/-! ## When a prefix is safe -/

/-- A cut that does not show in what is stored. -/
structure NatLine.CutClean (u : CharTable) (l : NatLine) (n : ℕ) : Prop where
  /-- If it falls inside the last number, the digits that are left spell the same number. -/
  inside : l.start < n → n < l.start + l.last.length →
    digitsValue u (l.last.take (n - l.start)) = digitsValue u l.last
  /-- If it falls before that, any translation without ports that it leaves in front of the line's
  own has the same endpoints. -/
  before : n ≤ l.start → ∀ pri pub dst, FirstNoports u (l.before.take n) pri pub dst →
    (NatTuple.noports pri pub dst).endpoints.Same u l.tuple.endpoints

section truncation

variable {self : MikroTikParser} {payload : Text} {l : NatLine} {log : ParsedLog} {n : ℕ}
  {e e' : Endpoints}

/-- The event of a tuple. -/
theorem event_eq_some_iff : self.event u payload e = some log ↔ e.InRange u ∧ log =
    { privateIp := e.pri, privatePort := digitsValue u e.priPort, publicIp := e.pub,
      publicPort := digitsValue u e.pubPort, destIp := e.dst,
      destPort := digitsValue u e.dstPort, protocol := _protocol u payload,
      subscriberId := self._subscriber u payload } := by
  rw [MikroTikParser.event, Endpoints.InRange]
  split
  · rename_i hports
    constructor
    · intro h
      cases h
    · intro h
      omega
  · rename_i hports
    rw [Option.some.injEq, eq_comm]
    exact ⟨fun h ↦ ⟨by omega, h⟩, And.right⟩

/-- **What a strict parser stores.** -/
theorem parse_strict_eq_some_iff (hstrict : self.requireNat = true) :
    (self.parse u payload).1 = some log ↔
      ∃ e, natEndpoints u payload = some e ∧ self.event u payload e = some log := by
  rw [parse_fst, endpoints_toOption_strict hstrict, Option.bind_eq_some_iff]

/-- Events have the same endpoints if their tuples have. -/
theorem sameEndpoints_iff {payload' : Text} {log' : ParsedLog}
    (h : self.event u payload e = some log) (h' : self.event u payload' e' = some log') :
    log'.SameEndpoints log ↔ e'.Same u e := by
  obtain ⟨-, rfl⟩ := event_eq_some_iff.mp h
  obtain ⟨-, rfl⟩ := event_eq_some_iff.mp h'
  exact Iff.rfl

/-- A prefix is read as the line is, or not at all, exactly if the tuple taken from it is that of
the line. -/
theorem prefix_same_iff (hstrict : self.requireNat = true) (hwf : l.WellFormed u)
    (hlog : (self.parse u l.render).1 = some log) :
    (∀ log', (self.parse u (l.render.take n)).1 = some log' → log'.SameEndpoints log) ↔
      ∀ e, natEndpoints u (l.render.take n) = some e → e.InRange u →
        e.Same u l.tuple.endpoints := by
  obtain ⟨e₀, he₀, hevent⟩ := (parse_strict_eq_some_iff hstrict).mp hlog
  rw [natEndpoints_render hwf, Option.some.injEq] at he₀
  subst he₀
  constructor
  · intro h e he hrange
    have hevent' : self.event u (l.render.take n) e = some _ :=
      event_eq_some_iff.mpr ⟨hrange, rfl⟩
    exact (sameEndpoints_iff hevent hevent').mp
      (h _ ((parse_strict_eq_some_iff hstrict).mpr ⟨e, he, hevent'⟩))
  · intro h log' hlog'
    obtain ⟨e, he, hevent'⟩ := (parse_strict_eq_some_iff hstrict).mp hlog'
    exact (sameEndpoints_iff hevent hevent').mpr (h e he (event_eq_some_iff.mp hevent').1)

/-- A translation without ports has its ports in range. -/
theorem inRange_noports (pri pub dst : Ipv4) : (NatTuple.noports pri pub dst).endpoints.InRange u := by
  have hzero : digitsValue u ['0'] = 0 := by
    simpa using digitsValue_toDigits (u := u) 0
  exact ⟨by rw [NatTuple.endpoints, hzero]; omega, by rw [NatTuple.endpoints, hzero]; omega,
    by rw [NatTuple.endpoints, hzero]; omega⟩

/-- **A cut leaves the tuple of a line, or none,** exactly if it is clean. -/
theorem natEndpoints_take_same_iff (hwf : l.WellFormed u) (hrange : l.tuple.endpoints.InRange u) :
    (∀ e, natEndpoints u (l.render.take n) = some e → e.InRange u → e.Same u l.tuple.endpoints) ↔
      l.CutClean u n := by
  rcases Nat.lt_or_ge l.start n with hstart | hbefore
  · rcases Nat.lt_or_ge n (l.start + l.last.length) with hinside | hbeyond
    · obtain ⟨e, he, hin, hsame⟩ := natEndpoints_take_inside hwf hstart hinside
      rw [he]
      constructor
      · intro h
        exact ⟨fun _ _ ↦ hsame.mp (h e rfl (hin hrange)), fun hn ↦ absurd hn (by omega)⟩
      · intro h e' he' _
        rw [← Option.some.inj he']
        exact hsame.mpr (h.inside hstart hinside)
    · rw [natEndpoints_take_beyond hwf hbeyond]
      constructor
      · intro _
        exact ⟨fun _ hn ↦ absurd hn (by omega), fun hn ↦ absurd hn (by omega)⟩
      · intro _ e' he' _
        rw [← Option.some.inj he']
        exact ⟨⟨rfl, rfl, rfl⟩, rfl, rfl, rfl⟩
  · simp only [natEndpoints_take_before hwf hbefore]
    constructor
    · intro h
      refine ⟨fun hn ↦ absurd hn (by omega), fun _ pri pub dst hfirst ↦ ?_⟩
      exact h _ ⟨pri, pub, dst, hfirst, rfl⟩ (inRange_noports pri pub dst)
    · rintro h _ ⟨pri, pub, dst, hfirst, rfl⟩ -
      exact h.before hbefore pri pub dst hfirst

/-- **A prefix of an accepted line is rejected, or has the same endpoints,** exactly if the cut is
clean. -/
theorem truncation_iff (hstrict : self.requireNat = true)
    (hlog : (self.parse u payload).1 = some log) :
    (∀ log', (self.parse u (payload.take n)).1 = some log' → log'.SameEndpoints log) ↔
      ∃ l : NatLine, l.WellFormed u ∧ l.render = payload ∧ l.CutClean u n := by
  -- A strict parser accepts lines with a translation only.
  obtain ⟨e, he, hevent⟩ := (parse_strict_eq_some_iff hstrict).mp hlog
  have hline : ∀ l : NatLine, l.WellFormed u → l.render = payload →
      ((∀ log', (self.parse u (payload.take n)).1 = some log' → log'.SameEndpoints log) ↔
        l.CutClean u n) := by
    rintro l hwf rfl
    have heq : l.tuple.endpoints = e := Option.some.inj ((natEndpoints_render hwf).symm.trans he)
    rw [prefix_same_iff hstrict hwf hlog]
    exact natEndpoints_take_same_iff hwf (heq ▸ (event_eq_some_iff.mp hevent).1)
  constructor
  · intro h
    have hsome : natEndpoints u payload ≠ none := by
      rw [he]
      nofun
    obtain ⟨l, hwf, hrender⟩ := exists_natLine hsome
    exact ⟨l, hwf, hrender, (hline l hwf hrender).mp h⟩
  · rintro ⟨l, hwf, hrender, hclean⟩
    exact (hline l hwf hrender).mpr hclean

/-- A cut behind the last port is clean. -/
theorem truncation_at_comma : ∃ l : NatLine, l.WellFormed .ascii ∧
    l.render = "NAT (10.0.0.1:1->1.2.3.4:3)->8.8.8.8:53, len 60".toList ∧
      l.CutClean .ascii 40 := by
  let log : ParsedLog := ⟨"10.0.0.1".toList, 1, "1.2.3.4".toList, 3, "8.8.8.8".toList, 53, [], []⟩
  have hline : (MikroTikParser.parse {} .ascii
      "NAT (10.0.0.1:1->1.2.3.4:3)->8.8.8.8:53, len 60".toList).1 = some log := by
    decide +kernel
  have hread : (MikroTikParser.parse {} .ascii
      ("NAT (10.0.0.1:1->1.2.3.4:3)->8.8.8.8:53, len 60".toList.take 40)).1 = some log := by
    decide +kernel
  refine (truncation_iff rfl hline).mp fun log' hlog' ↦ ?_
  rw [hread, Option.some.injEq] at hlog'
  subst hlog'
  exact ⟨⟨rfl, rfl, rfl⟩, rfl, rfl, rfl⟩

/-- A port cut short is stored. -/
theorem truncation_not_dropped : ¬∀ (self : MikroTikParser) (u : CharTable) (payload : Text) (n : ℕ)
    (log log' : ParsedLog), self.requireNat = true → (self.parse u payload).1 = some log →
    n < payload.length → (self.parse u (payload.take n)).1 = some log' →
    log'.SameEndpoints log := by
  intro h
  have hsame := h {} .ascii "NAT (10.0.0.1:1->1.2.3.4:3)->8.8.8.8:53".toList 38
    ⟨"10.0.0.1".toList, 1, "1.2.3.4".toList, 3, "8.8.8.8".toList, 53, [], []⟩
    ⟨"10.0.0.1".toList, 1, "1.2.3.4".toList, 3, "8.8.8.8".toList, 5, [], []⟩ rfl
    (by decide +kernel) (by decide) (by decide +kernel)
  exact absurd hsame.2.2.2 (by decide)

end truncation

end LogServer
