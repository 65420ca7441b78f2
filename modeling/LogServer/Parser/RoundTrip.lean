import LogServer.Parser.Segments
import LogServer.Parser.Shapes

/-!
# The supported shapes, read back

The main result, `parse_render`, is that the parser reads every line of a supported shape back as
its record, **except** a line without a translation whose protocol token contains the letters
`NAT`: there the substring probe takes the line for one with a translation, and it is dropped.

## How the search for a tuple is pinned down

All four address patterns match only words in which `->` and a digit follow a text without a comma
(`ArrowWord`).  The text before the tuple ends at a comma and has no arrow before a digit, so no
match can start there (`silent_of_no_arrow`); between there and the tuple there is no character a
match could start with (`search_nat`, `search_plain`).  At the tuple itself every part is
delimited, so there is one way to match all of it but the last port, and that is read greedily.
-/

namespace LogServer

open Regex Substring

variable {u : CharTable}

/-! ## Matches contain an arrow -/

/-- A text without a comma, then an arrow before a digit. -/
def ArrowWord (w : Text) : Prop :=
  ∃ x d y, w = x ++ '-' :: '>' :: d :: y ∧ ',' ∉ x ∧ d.isDigit = true

theorem comma_notMem_text (x : Ipv4) : ',' ∉ x.text := fun h ↦
  absurd (isAddrChar_of_mem_text h) (by decide)

theorem ArrowWord.of_text {x : Text} (hx : ',' ∉ x) (a : Ipv4) (y : Text) :
    ArrowWord (x ++ ("->".toList ++ (a.text ++ y))) := by
  obtain ⟨d, z, ha, hd⟩ := isDigit_head_text a
  exact ⟨x, d, z ++ y, by rw [ha]; rfl, hx, hd⟩

section arrows

variable {b w t : Text} {m : Caps Char Group}

/-- White space is no comma. -/
theorem comma_notMem_space {s : Text} (h : ∀ c ∈ s, u.isSpace c = true) : ',' ∉ s := fun hmem ↦ by
  have hcomma := h _ hmem
  rw [u.isSpace_ascii _ (by decide)] at hcomma
  exact absurd hcomma (by decide)

theorem arrowWord_srcnatPorts (h : Matches (srcnatPorts u) b w t m) : ArrowWord w := by
  obtain ⟨v, m', r, rfl, -, hr, hv⟩ := matches_srcnatPorts.mp h
  obtain ⟨s, hs, pri, pub, dst, p, q, hp, hq, rfl, -⟩ := matches_srcnatPortsHead.mp hv
  have hx : ',' ∉ "NAT".toList ++ s ++ ['('] ++ pri.text ++ [':'] ++ p := by
    simp [comma_notMem_space hs, comma_notMem_text, hp.notMem]
  simpa only [List.append_assoc] using ArrowWord.of_text hx pub
    ([':'] ++ q ++ ")->".toList ++ dst.text ++ [':'] ++ r)

theorem arrowWord_srcnatNoports (h : Matches (srcnatNoports u) b w t m) : ArrowWord w := by
  obtain ⟨-, s, hs, pri, pub, dst, rfl, -⟩ := matches_srcnatNoports.mp h
  have hx : ',' ∉ "NAT".toList ++ s ++ ['('] ++ pri.text := by
    simp [comma_notMem_space hs, comma_notMem_text]
  simpa only [List.append_assoc] using ArrowWord.of_text hx pub (")->".toList ++ dst.text)

theorem arrowWord_plainPorts (h : Matches (plainPorts u) b w t m) : ArrowWord w := by
  obtain ⟨v, m', r, rfl, -, hr, hv⟩ := matches_plainPorts.mp h
  obtain ⟨-, pri, dst, p, hp, rfl, -⟩ := matches_plainPortsHead.mp hv
  have hx : ',' ∉ pri.text ++ [':'] ++ p := by
    simp [comma_notMem_text, hp.notMem]
  simpa only [List.append_assoc] using ArrowWord.of_text hx dst ([':'] ++ r)

theorem arrowWord_plainNoports (h : Matches (plainNoports u) b w t m) : ArrowWord w := by
  obtain ⟨-, -, pri, dst, rfl, -⟩ := matches_plainNoports.mp h
  simpa only [List.append_assoc, List.append_nil] using
    ArrowWord.of_text (comma_notMem_text pri) dst []

/-- Matches of the patterns with a translation start with its keyword. -/
theorem head_srcnatPorts (h : Matches (srcnatPorts u) b w t m) : ∃ v, w = 'N' :: v := by
  obtain ⟨v, rfl, -⟩ := word_srcnatPorts h
  exact ⟨_, rfl⟩

theorem head_srcnatNoports (h : Matches (srcnatNoports u) b w t m) : ∃ v, w = 'N' :: v := by
  obtain ⟨v, rfl, -⟩ := word_srcnatNoports h
  exact ⟨_, rfl⟩

/-- Matches of the patterns without a translation start with a digit. -/
theorem head_plainPorts (h : Matches (plainPorts u) b w t m) :
    ∃ c v, w = c :: v ∧ c.isDigit = true := by
  obtain ⟨v, m', r, rfl, -, -, hv⟩ := matches_plainPorts.mp h
  obtain ⟨-, pri, dst, p, -, rfl, -⟩ := matches_plainPortsHead.mp hv
  obtain ⟨c, x, hpri, hc⟩ := isDigit_head_text pri
  exact ⟨c, _, by rw [hpri]; rfl, hc⟩

theorem head_plainNoports (h : Matches (plainNoports u) b w t m) :
    ∃ c v, w = c :: v ∧ c.isDigit = true := by
  obtain ⟨-, -, pri, dst, rfl, -⟩ := matches_plainNoports.mp h
  obtain ⟨c, x, hpri, hc⟩ := isDigit_head_text pri
  exact ⟨c, _, by rw [hpri]; rfl, hc⟩

end arrows

/-- **Nothing starts to match in a text without arrows that ends at a comma or at the end.** -/
theorem silent_of_no_arrow {r : Re Char Group} {v s : Text}
    (hr : ∀ b w t m, Matches r b w t m → ArrowWord w)
    (hv : ∀ d : Char, d.isDigit = true → ¬['-', '>', d] <:+: v) (hs : ∀ a ∈ s.head?, a = ',') :
    Silent r v s := by
  intro x b w t m hx _ heq hm
  obtain ⟨y, d, z, rfl, hcomma, hd⟩ := hr b w t m hm
  have heq' : (y ++ ['-', '>', d]) ++ (z ++ t) = x ++ s := by
    rw [heq]
    simp
  have hprefix : y ++ ['-', '>', d] <+: x := by
    cases s with
    | nil => exact ⟨z ++ t, by rw [heq', List.append_nil]⟩
    | cons a s =>
        obtain rfl := hs a rfl
        refine prefix_of_notMem heq' ?_
        intro hmem
        rcases List.mem_append.mp hmem with hmem | hmem
        · exact hcomma hmem
        · obtain rfl : ',' = d := by simpa using hmem
          exact absurd hd (by decide)
  apply hv d hd
  exact ((List.suffix_append y _).isInfix.trans hprefix.isInfix).trans hx.isInfix

/-! ## Up to the tuple -/

section lines

variable {l : Line} {r : Re Char Group}

/-- The text between the protocol segment and the translation. -/
def Line.gap (l : Line) : Text := ", ".toList ++ l.tuple.plainText ++ ", ".toList

theorem Line.render_nat (hnat : l.tuple.isNat = true) :
    l.render = (l.lead ++ l.gap) ++ (l.tuple.natText ++ l.tail) := by
  simp only [Line.render, Line.gap, Tuple.natSegment, hnat, if_true, List.append_assoc]

theorem Line.render_plain (hplain : l.tuple.isNat = false) :
    l.render = (l.lead ++ ", ".toList) ++ (l.tuple.plainText ++ l.tail) := by
  simp [Line.render, Tuple.natSegment, hplain]

/-- Nothing starts to match before the tuple. -/
theorem silent_lead (hwf : l.WellFormed u) (hclear : l.Clear)
    (hr : ∀ b w t m, Matches r b w t m → ArrowWord w) (s : Text) :
    Silent r l.lead (',' :: s) :=
  silent_of_no_arrow hr (fun _ hd ↦ not_arrow_infix_lead hwf hclear hd) (by simp)

/-- Nothing starts to match in the tail. -/
theorem silent_tail (hclear : l.Clear) (hr : ∀ b w t m, Matches r b w t m → ArrowWord w) :
    Silent r l.tail [] :=
  silent_of_no_arrow hr (fun d _ h ↦ hclear.arrow l.tail (by simp [Line.freeTexts])
    (List.IsInfix.trans ⟨[], [d], rfl⟩ h)) (by simp)

/-- In the text of a tuple before translation there is no letter. -/
theorem notMem_plainText {t : Tuple} : 'N' ∉ t.plainText := fun h ↦
  absurd (isTupleChar_of_mem_plainText h) (by decide)

theorem silent_lead_gap (hwf : l.WellFormed u) (hclear : l.Clear)
    (hr : ∀ b w t m, Matches r b w t m → ArrowWord w)
    (hN : ∀ b w t m, Matches r b w t m → ∃ v, w = 'N' :: v) (s : Text) :
    Silent r (l.lead ++ l.gap) s := by
  refine Silent.append (silent_lead hwf hclear hr _) (Silent.of_head ?_)
  intro b w t m hm
  obtain ⟨v, rfl⟩ := hN b w t m hm
  exact ⟨'N', v, rfl, by simp [Line.gap, notMem_plainText]⟩

/-- The search for a translation comes to the rendered one. -/
theorem search_nat (hwf : l.WellFormed u) (hclear : l.Clear) (hnat : l.tuple.isNat = true)
    (hr : ∀ b w t m, Matches r b w t m → ArrowWord w)
    (hN : ∀ b w t m, Matches r b w t m → ∃ v, w = 'N' :: v) :
    r.search l.render = r.searchFrom (l.lead ++ l.gap).reverse (l.tuple.natText ++ l.tail) := by
  rw [Line.render_nat hnat, search_skip (silent_lead_gap hwf hclear hr hN _)]

theorem silent_lead_sep (hwf : l.WellFormed u) (hclear : l.Clear)
    (hr : ∀ b w t m, Matches r b w t m → ArrowWord w)
    (hd : ∀ b w t m, Matches r b w t m → ∃ c v, w = c :: v ∧ c.isDigit = true) (s : Text) :
    Silent r (l.lead ++ ", ".toList) s := by
  refine Silent.append (silent_lead hwf hclear hr _) (Silent.of_head ?_)
  intro b w t m hm
  obtain ⟨c, v, rfl, hc⟩ := hd b w t m hm
  refine ⟨c, v, rfl, fun hmem ↦ ?_⟩
  have hsep : ∀ c ∈ ", ".toList, c.isDigit = false := by decide
  rw [hsep c hmem] at hc
  cases hc

/-- The search for a tuple without a translation comes to the rendered one. -/
theorem search_plain (hwf : l.WellFormed u) (hclear : l.Clear) (hplain : l.tuple.isNat = false)
    (hr : ∀ b w t m, Matches r b w t m → ArrowWord w)
    (hd : ∀ b w t m, Matches r b w t m → ∃ c v, w = c :: v ∧ c.isDigit = true) :
    r.search l.render =
      r.searchFrom (l.lead ++ ", ".toList).reverse (l.tuple.plainText ++ l.tail) := by
  rw [Line.render_plain hplain, search_skip (silent_lead_sep hwf hclear hr hd _)]

/-- A line without a translation has no match that starts with the keyword. -/
theorem search_keyword_eq_none (hwf : l.WellFormed u) (hclear : l.Clear)
    (hplain : l.tuple.isNat = false) (hr : ∀ b w t m, Matches r b w t m → ArrowWord w)
    (hN : ∀ b w t m, Matches r b w t m → ∃ v, w = 'N' :: v) : r.search l.render = none := by
  have hmid : Silent r (", ".toList ++ l.tuple.plainText) (l.tail ++ []) := by
    refine Silent.of_head fun b w t m hm ↦ ?_
    obtain ⟨v, rfl⟩ := hN b w t m hm
    exact ⟨'N', v, rfl, by simp [notMem_plainText]⟩
  have hall : Silent r (l.lead ++ ((", ".toList ++ l.tuple.plainText) ++ l.tail)) [] :=
    Silent.append (silent_lead hwf hclear hr _) (Silent.append hmid (silent_tail hclear hr))
  rw [Line.render_plain hplain, List.append_assoc, ← List.append_assoc ", ".toList]
  refine search_eq_none_of_silent hall fun b t m hm ↦ ?_
  obtain ⟨v, hv⟩ := hN b [] t m hm
  cases hv

end lines

/-! ## At the tuple

The parts of a tuple are delimited, so a match that stands where the rendered tuple stands agrees
with it part by part. -/

section tuples

variable {b w w' t t' : Text} {m m' : Caps Char Group} {s s' x x' : Text} {a a' : Ipv4}
  {p p' : Text} {c c' : Char}

theorem isSpace_blank : ∀ c ∈ [' '], u.isSpace c = true := by
  intro c hc
  rw [List.mem_singleton.mp hc, u.isSpace_ascii _ (by decide)]
  rfl

/-- Reading white space up to the bracket after it. -/
theorem isSpace_cons_inj (hs : ∀ c ∈ s, u.isSpace c = true) (hs' : ∀ c ∈ s', u.isSpace c = true)
    (h : s ++ '(' :: x = s' ++ '(' :: x') : s = s' ∧ x = x' := by
  have hopen : ¬u.isSpace '(' = true := by
    rw [u.isSpace_ascii _ (by decide)]
    decide
  obtain ⟨hspace, -, hrest⟩ := append_cons_inj h hs hs' hopen hopen
  exact ⟨hspace, hrest⟩

/-- Reading an address up to the character after it. -/
theorem text_cons_inj (h : a.text ++ c :: s = a'.text ++ c' :: s') (hc : isAddrChar c = false)
    (hc' : isAddrChar c' = false) : a.text = a'.text ∧ c = c' ∧ s = s' :=
  append_cons_inj (p := fun x ↦ isAddrChar x = true) h (fun _ ↦ isAddrChar_of_mem_text)
    (fun _ ↦ isAddrChar_of_mem_text) (by simp [hc]) (by simp [hc'])

/-- Reading a port up to the character after it. -/
theorem IsPortText.cons_inj (hp : IsPortText u p) (hp' : IsPortText u p')
    (h : p ++ c :: s = p' ++ c' :: s') (hc : u.isDecimal c = false) (hc' : u.isDecimal c' = false) :
    p = p' ∧ c = c' ∧ s = s' :=
  append_cons_inj (p := fun x ↦ u.isDecimal x = true) h hp.2.2 hp'.2.2 (by simp [hc])
    (by simp [hc'])

/-- Punctuation is no digit of any script. -/
theorem isDecimal_false {c : Char} (hc : c.toNat < 128) (hdigit : c.isDigit = false) :
    u.isDecimal c = false := (u.isDecimal_ascii hc).trans hdigit

/-- There is one way to match a translation with ports up to the last port. -/
theorem srcnatPortsHead_unique (h : Matches (srcnatPortsHead u) b w t m)
    (h' : Matches (srcnatPortsHead u) b w' t' m') (heq : w ++ t = w' ++ t') :
    w' = w ∧ m' = m := by
  obtain ⟨s, hs, pri, pub, dst, p, q, hp, hq, rfl, rfl⟩ := matches_srcnatPortsHead.mp h
  obtain ⟨s', hs', pri', pub', dst', p', q', hp', hq', rfl, rfl⟩ := matches_srcnatPortsHead.mp h'
  have hdash := isDecimal_false (u := u) (c := '-') (by decide) rfl
  have hclose := isDecimal_false (u := u) (c := ')') (by decide) rfl
  simp only [List.append_assoc, List.append_cancel_left_eq] at heq
  obtain ⟨rfl, htuple⟩ := isSpace_cons_inj hs hs' heq
  obtain ⟨hpri, -, heq⟩ := text_cons_inj htuple rfl rfl
  obtain ⟨rfl, -, heq⟩ := hp.cons_inj hp' heq hdash hdash
  obtain ⟨hpub, -, heq⟩ := text_cons_inj (List.cons.inj heq).2 rfl rfl
  obtain ⟨rfl, -, heq⟩ := hq.cons_inj hq' heq hclose hclose
  obtain ⟨hdst, -, -⟩ := text_cons_inj (List.cons.inj (List.cons.inj heq).2).2 rfl rfl
  rw [hpri, hpub, hdst]
  exact ⟨rfl, rfl⟩

/-- There is one way to match a tuple with ports up to the last port. -/
theorem plainPortsHead_unique (h : Matches (plainPortsHead u) b w t m)
    (h' : Matches (plainPortsHead u) b w' t' m') (heq : w ++ t = w' ++ t') :
    w' = w ∧ m' = m := by
  obtain ⟨-, pri, dst, p, hp, rfl, rfl⟩ := matches_plainPortsHead.mp h
  obtain ⟨-, pri', dst', p', hp', rfl, rfl⟩ := matches_plainPortsHead.mp h'
  have hdash := isDecimal_false (u := u) (c := '-') (by decide) rfl
  simp only [List.append_assoc] at heq
  obtain ⟨hpri, -, heq⟩ := text_cons_inj heq rfl rfl
  obtain ⟨rfl, -, heq⟩ := hp.cons_inj hp' heq hdash hdash
  obtain ⟨hdst, -, -⟩ := text_cons_inj (List.cons.inj heq).2 rfl rfl
  rw [hpri, hdst]
  exact ⟨rfl, rfl⟩

/-- Reading an address up to where no address, port or colon goes on. -/
theorem text_inj (h : a.text ++ t = a'.text ++ t')
    (ht : t.head?.any (fun c ↦ u.isDecimal c || c == '.' || c == ':') = false)
    (ht' : t'.head?.any (fun c ↦ u.isDecimal c || c == '.' || c == ':') = false) :
    a.text = a'.text := by
  have hstop : ∀ {t : Text},
      t.head?.any (fun c ↦ u.isDecimal c || c == '.' || c == ':') = false →
      ∀ c ∈ t.head?, ¬isAddrChar c = true := by
    intro t ht c hc haddr
    rw [Option.mem_def.mp hc] at ht
    simp only [Option.any_some, Bool.or_eq_false_iff] at ht
    rw [isAddrChar, ht.1.2, Bool.or_false] at haddr
    rw [u.isDecimal_of_isDigit haddr] at ht
    cases ht.1.1
  exact (append_inj_of_head h (fun _ ↦ isAddrChar_of_mem_text) (fun _ ↦ isAddrChar_of_mem_text)
    (hstop ht) (hstop ht')).1

/-- There is one way to match a translation without ports. -/
theorem srcnatNoports_unique (h : Matches (srcnatNoports u) b w t m)
    (h' : Matches (srcnatNoports u) b w' t' m') (heq : w ++ t = w' ++ t') :
    w' = w ∧ m' = m := by
  obtain ⟨ht, s, hs, pri, pub, dst, rfl, rfl⟩ := matches_srcnatNoports.mp h
  obtain ⟨ht', s', hs', pri', pub', dst', rfl, rfl⟩ := matches_srcnatNoports.mp h'
  simp only [List.append_assoc, List.append_cancel_left_eq] at heq
  obtain ⟨rfl, htuple⟩ := isSpace_cons_inj hs hs' heq
  obtain ⟨hpri, -, heq⟩ := text_cons_inj htuple rfl rfl
  obtain ⟨hpub, -, heq⟩ := text_cons_inj (List.cons.inj heq).2 rfl rfl
  have hdst := text_inj (List.cons.inj (List.cons.inj heq).2).2 ht ht'
  rw [hpri, hpub, hdst]
  exact ⟨rfl, rfl⟩

/-- There is one way to match a tuple without ports. -/
theorem plainNoports_unique (h : Matches (plainNoports u) b w t m)
    (h' : Matches (plainNoports u) b w' t' m') (heq : w ++ t = w' ++ t') :
    w' = w ∧ m' = m := by
  obtain ⟨ht, -, pri, dst, rfl, rfl⟩ := matches_plainNoports.mp h
  obtain ⟨ht', -, pri', dst', rfl, rfl⟩ := matches_plainNoports.mp h'
  simp only [List.append_assoc] at heq
  obtain ⟨hpri, -, heq⟩ := text_cons_inj heq rfl rfl
  have hdst := text_inj (List.cons.inj heq).2 ht ht'
  rw [hpri, hdst]
  exact ⟨rfl, rfl⟩

/-- A rendered port is one. -/
theorem isPortText_portText (p : Fin 65536) : IsPortText u (portText p) := by
  refine ⟨Nat.length_toDigits_pos, ?_, fun c hc ↦ u.isDecimal_of_isDigit (isDigit_of_mem_portText hc)⟩
  rw [portText, Nat.length_toDigits_le_iff (by decide) (by decide)]
  omega

variable {tail : Text}

/-- A comma, or the end of the line, ends a number. -/
theorem stop_of_comma (htail : ∀ a ∈ tail.head?, a = ',') {f : Char → Bool} (hf : f ',' = false) :
    tail.head?.any f = false := by
  cases tail with
  | nil => rfl
  | cons a tail => rw [htail a rfl]; exact hf

/-- The last port is read to its end, or to its fifth digit. -/
theorem head_run_port (g : Group) {d t : Text} (hd : IsPortText u d)
    (hstop : d.length = 5 ∨ ∀ c ∈ t.head?, u.isDecimal c = false) :
    ((Re.group g (port u)).run b (d ++ t)).head? = some (d, [(g, d)]) := by
  obtain ⟨hpos, hle, hdec⟩ := hd
  have htake : ((d ++ t).takeWhile u.isDecimal).take 5 = d := by
    rcases hstop with h | h
    · rw [List.takeWhile_append_of_pos hdec, ← h, List.take_left]
    · rw [takeWhile_append hdec h, List.take_of_length_le hle]
  have hlen : 1 ≤ ((d ++ t).takeWhile u.isDecimal).length := by
    rw [List.takeWhile_append_of_pos hdec, List.length_append]
    omega
  rw [head_run_group, port, head_run_rep_cls (by decide) hlen, htake]
  rfl

theorem head_run_portText (g : Group) (p : Fin 65536) (htail : ∀ a ∈ tail.head?, a = ',') :
    ((Re.group g (port u)).run b (portText p ++ tail)).head? =
      some (portText p, [(g, portText p)]) :=
  head_run_port g (isPortText_portText p) <| .inr fun c hc ↦ by
    rw [htail c hc]
    exact isDecimal_false (by decide) rfl

def natHead (s : Text) (pri : Ipv4) (p : Text) (pub : Ipv4) (q : Text) (dst : Ipv4) : Text :=
  "NAT".toList ++ s ++ ['('] ++ pri.text ++ [':'] ++ p ++ "->".toList ++ pub.text ++ [':'] ++ q ++
    ")->".toList ++ dst.text ++ [':']

def natGroups (pri : Ipv4) (p : Text) (pub : Ipv4) (q : Text) (dst : Ipv4) (d : Text) :
    Caps Char Group :=
  [(.pri, pri.text), (.priPort, p), (.pub, pub.text), (.pubPort, q), (.dst, dst.text)] ++
    [(.dstPort, d)]

/-- **A translation with ports is found with its parts**, its last port being cut after five
digits. -/
theorem first_srcnatPorts {s p q d t : Text} (hs : ∀ c ∈ s, u.isSpace c = true)
    (pri pub dst : Ipv4) (hp : IsPortText u p) (hq : IsPortText u q) (hd : IsPortText u d)
    (hstop : d.length = 5 ∨ ∀ c ∈ t.head?, u.isDecimal c = false) :
    (srcnatPorts u).first b ((natHead s pri p pub q dst ++ d) ++ t) =
      some ⟨b.reverse, natHead s pri p pub q dst ++ d, t, natGroups pri p pub q dst d⟩ := by
  have hhead := matches_srcnatPortsHead (b := b) (t := d ++ t) |>.mpr
    ⟨s, hs, pri, pub, dst, p, q, hp, hq, rfl, rfl⟩
  have hrun := head_run_of_unique hhead fun w' t' m' heq h' ↦
    srcnatPortsHead_unique hhead h' heq
  apply first_of_head
  rw [srcnatPorts_eq, List.append_assoc]
  exact head_run_seq hrun (head_run_port .dstPort hd hstop)

/-- A translation with ports is found with its parts. -/
theorem searchFrom_srcnatPorts (pri pub dst : Ipv4) (p q d : Fin 65536)
    (htail : ∀ a ∈ tail.head?, a = ',') :
    (srcnatPorts u).searchFrom b ((Tuple.natPorts pri p pub q dst d).natText ++ tail) =
      some ⟨b.reverse, (Tuple.natPorts pri p pub q dst d).natText, tail,
        natGroups pri (portText p) pub (portText q) dst (portText d)⟩ := by
  have hstop : ∀ c ∈ tail.head?, u.isDecimal c = false := fun c hc ↦ by
    rw [htail c hc]
    exact isDecimal_false (by decide) rfl
  exact searchFrom_of_first (first_srcnatPorts isSpace_blank pri pub dst (isPortText_portText p)
    (isPortText_portText q) (isPortText_portText d) (.inr hstop))

/-- A tuple with ports is found with its parts, after a character that is no part of an address. -/
theorem searchFrom_plainPorts (pri dst : Ipv4) (p d : Fin 65536)
    (hb : b.head?.any (fun c ↦ u.isDecimal c || c == '.') = false)
    (htail : ∀ a ∈ tail.head?, a = ',') :
    (plainPorts u).searchFrom b ((Tuple.plainPorts pri p dst d).plainText ++ tail) =
      some ⟨b.reverse, (Tuple.plainPorts pri p dst d).plainText, tail,
        [(.pri, pri.text), (.priPort, portText p), (.dst, dst.text)] ++
          [(.dstPort, portText d)]⟩ := by
  have hhead := matches_plainPortsHead (t := portText d ++ tail) |>.mpr
    ⟨hb, pri, dst, portText p, isPortText_portText p, rfl, rfl⟩
  have hrun := head_run_of_unique hhead fun w' t' m' heq h' ↦
    plainPortsHead_unique hhead h' heq
  have hsplit : (Tuple.plainPorts pri p dst d).plainText ++ tail = _ ++ (portText d ++ tail) :=
    List.append_assoc _ _ _
  apply searchFrom_of_first
  apply first_of_head
  rw [plainPorts_eq, hsplit]
  exact head_run_seq hrun (head_run_portText .dstPort d htail)

/-- A translation without ports is found with its parts. -/
theorem searchFrom_srcnatNoports (pri pub dst : Ipv4) (htail : ∀ a ∈ tail.head?, a = ',') :
    (srcnatNoports u).searchFrom b ((Tuple.nat pri pub dst).natText ++ tail) =
      some ⟨b.reverse, (Tuple.nat pri pub dst).natText, tail,
        [(.pri, pri.text), (.pub, pub.text), (.dst, dst.text)]⟩ := by
  have hstop := stop_of_comma (f := fun c ↦ u.isDecimal c || c == '.' || c == ':') htail
    (by simp [isDecimal_false])
  have hall := matches_srcnatNoports (b := b) |>.mpr
    ⟨hstop, [' '], isSpace_blank, pri, pub, dst, rfl, rfl⟩
  apply searchFrom_of_first
  apply first_of_head
  exact head_run_of_unique hall fun w' t' m' heq h' ↦ srcnatNoports_unique hall h' heq

/-- A tuple without ports is found with its parts. -/
theorem searchFrom_plainNoports (pri dst : Ipv4)
    (hb : b.head?.any (fun c ↦ u.isDecimal c || c == '.') = false)
    (htail : ∀ a ∈ tail.head?, a = ',') :
    (plainNoports u).searchFrom b ((Tuple.plain pri dst).plainText ++ tail) =
      some ⟨b.reverse, (Tuple.plain pri dst).plainText, tail,
        [(.pri, pri.text), (.dst, dst.text)]⟩ := by
  have hstop := stop_of_comma (f := fun c ↦ u.isDecimal c || c == '.' || c == ':') htail
    (by simp [isDecimal_false])
  have hall := matches_plainNoports |>.mpr ⟨hstop, hb, pri, dst, rfl, rfl⟩
  apply searchFrom_of_first
  apply first_of_head
  exact head_run_of_unique hall fun w' t' m' heq h' ↦ plainNoports_unique hall h' heq

end tuples

/-! ## The tuple of a line -/

section endpoints

variable {l : Line}

/-- A translation without ports does not match with ports. -/
theorem silent_srcnatPorts_nat (pri pub dst : Ipv4) (s : Text) :
    Silent (srcnatPorts u) (Tuple.nat pri pub dst).natText s := by
  -- The match would have to start at the keyword, and then a colon would stand at the arrow.
  have hrest : 'N' ∉ ['A', 'T'] ++ [' '] ++ ['('] ++ pri.text ++ "->".toList ++ pub.text ++
      ")->".toList ++ dst.text := by
    have haddr : ∀ a : Ipv4, 'N' ∉ a.text := fun a h ↦
      absurd (isAddrChar_of_mem_text h) (by decide)
    simp [haddr]
  have hsplit : (Tuple.nat pri pub dst).natText = ['N'] ++ (['A', 'T'] ++ [' '] ++ ['('] ++
      pri.text ++ "->".toList ++ pub.text ++ ")->".toList ++ dst.text) := rfl
  rw [hsplit]
  refine Silent.append ?_ (Silent.of_head fun b w t m hm ↦ ?_)
  · intro v b w t m hv hne heq hm
    obtain rfl : v = ['N'] := (List.suffix_cons_iff.mp hv).resolve_right fun h ↦
      hne (List.suffix_nil.mp h)
    obtain ⟨v, m', r, rfl, -, -, hhead⟩ := matches_srcnatPorts.mp hm
    obtain ⟨s', hs', pri', pub', dst', p, q, -, -, rfl, -⟩ := matches_srcnatPortsHead.mp hhead
    simp only [List.append_assoc] at heq
    have heq' := (List.cons.inj (List.cons.inj (List.cons.inj heq).2).2).2
    obtain ⟨-, heq'⟩ := isSpace_cons_inj isSpace_blank hs' heq'
    obtain ⟨-, hcolon, -⟩ := text_cons_inj heq' rfl rfl
    exact absurd hcolon (by decide)
  · obtain ⟨v, rfl⟩ := head_srcnatPorts hm
    exact ⟨'N', v, rfl, hrest⟩

/-- A tuple without ports does not match with ports. -/
theorem silent_plainPorts_plain (pri dst : Ipv4) {s : Text} (hs : ∀ a ∈ s.head?, a = ',') :
    Silent (plainPorts u) (Tuple.plain pri dst).plainText s := by
  refine Silent.append (Silent.append ?_ (Silent.of_head fun b w t m hm ↦ ?_))
    (silent_of_no_arrow (fun _ _ _ _ ↦ arrowWord_plainPorts) (fun d _ h ↦ ?_) hs)
  · -- Inside the first address: the characters after it are an arrow, not a colon.
    intro v b w t m hv _ heq hm
    obtain ⟨v', m', r, rfl, -, -, hhead⟩ := matches_plainPorts.mp hm
    obtain ⟨-, pri', dst', p, -, rfl, -⟩ := matches_plainPortsHead.mp hhead
    simp only [List.append_assoc] at heq
    obtain ⟨-, hcolon, -⟩ := append_cons_inj (p := fun x ↦ isAddrChar x = true) heq
      (fun x hx ↦ isAddrChar_of_mem_text (hv.mem hx)) (fun _ ↦ isAddrChar_of_mem_text)
      (by decide) (by decide)
    exact absurd hcolon (by decide)
  · obtain ⟨c, v, rfl, hc⟩ := head_plainPorts hm
    refine ⟨c, v, rfl, fun hmem ↦ ?_⟩
    have harrow : ∀ c ∈ "->".toList, c.isDigit = false := by decide
    rw [harrow c hmem] at hc
    cases hc
  · exact absurd (isAddrChar_of_mem_text (h.subset (show '-' ∈ ['-', '>', d] by simp))) (by decide)

def Tuple.endpoints : Tuple → Endpoints
  | .natPorts pri p pub q dst d =>
      ⟨pri.text, portText p, pub.text, portText q, dst.text, portText d⟩
  | .nat pri pub dst => ⟨pri.text, ['0'], pub.text, ['0'], dst.text, ['0']⟩
  | .plainPorts pri p dst d =>
      ⟨pri.text, portText p, pri.text, portText p, dst.text, portText d⟩
  | .plain pri dst => ⟨pri.text, ['0'], pri.text, ['0'], dst.text, ['0']⟩

variable {self : MikroTikParser}

/-- The probe finds the keyword of a translation. -/
theorem find_nat_render (hnat : l.tuple.isNat = true) :
    (find "NAT".toList l.render).isSome = true := by
  rw [Option.isSome_iff_ne_none, ne_eq, find_eq_none, not_not, Line.render_nat hnat]
  have hkey : "NAT".toList <+: l.tuple.natText ++ l.tail := by
    cases ht : l.tuple with
    | natPorts pri p pub q dst d => exact ⟨_, rfl⟩
    | nat pri pub dst => exact ⟨_, rfl⟩
    | plainPorts pri p dst d | plain pri dst =>
        rw [ht] at hnat
        cases hnat
  exact hkey.isInfix.trans (List.suffix_append _ _).isInfix

/-- **The tuple of a line with a translation is read back.** -/
theorem endpoints_nat (hwf : l.WellFormed u) (hclear : l.Clear) (hnat : l.tuple.isNat = true) :
    self.endpoints u l.render = .ok l.tuple.endpoints := by
  have hports := search_nat (r := srcnatPorts u) hwf hclear hnat (fun _ _ _ _ ↦ arrowWord_srcnatPorts)
    (fun _ _ _ _ ↦ head_srcnatPorts)
  have hnoports := search_nat (r := srcnatNoports u) hwf hclear hnat (fun _ _ _ _ ↦ arrowWord_srcnatNoports)
    (fun _ _ _ _ ↦ head_srcnatNoports)
  rw [MikroTikParser.endpoints, if_pos (find_nat_render hnat)]
  cases ht : l.tuple with
  | natPorts pri p pub q dst d =>
      rw [ht, searchFrom_srcnatPorts pri pub dst p q d hwf.tail] at hports
      rw [hports]
      rfl
  | nat pri pub dst =>
      have hnone : (srcnatPorts u).search l.render = none := by
        have hsilent := silent_srcnatPorts_nat (u := u) pri pub dst (l.tail ++ [])
        rw [← ht] at hsilent
        rw [Line.render_nat hnat]
        refine search_eq_none_of_silent (Silent.append
          (silent_lead_gap hwf hclear (fun _ _ _ _ ↦ arrowWord_srcnatPorts)
            (fun _ _ _ _ ↦ head_srcnatPorts) _)
          (hsilent.append (silent_tail hclear fun _ _ _ _ ↦ arrowWord_srcnatPorts))) ?_
        intro b t m hm
        obtain ⟨v, hv⟩ := head_srcnatPorts hm
        cases hv
      rw [ht, searchFrom_srcnatNoports pri pub dst hwf.tail] at hnoports
      rw [hnone, hnoports]
      rfl
  | plainPorts pri p dst d | plain pri dst =>
      rw [ht] at hnat
      cases hnat

/-- The tuple of a line without a translation, and without the keyword, is read back. -/
theorem endpoints_plain (hwf : l.WellFormed u) (hclear : l.Clear) (hplain : l.tuple.isNat = false)
    (hmode : self.requireNat = false) (hnat : ¬"NAT".toList <:+: l.proto) :
    self.endpoints u l.render = .ok l.tuple.endpoints := by
  have hfind : (find "NAT".toList l.render).isSome = false := by
    rw [Option.isSome_eq_false_iff, Option.isNone_iff_eq_none, find_eq_none,
      infix_nat_render_iff hwf hclear hplain]
    exact hnat
  have hb : (l.lead ++ ", ".toList).reverse.head?.any (fun c ↦ u.isDecimal c || c == '.') =
      false := by
    rw [List.head?_reverse, List.getLast?_append]
    show (u.isDecimal ' ' || ' ' == '.') = false
    rw [isDecimal_false (by decide) rfl]
    rfl
  have hports := search_plain (r := plainPorts u) hwf hclear hplain (fun _ _ _ _ ↦ arrowWord_plainPorts)
    (fun _ _ _ _ ↦ head_plainPorts)
  have hnoports := search_plain (r := plainNoports u) hwf hclear hplain (fun _ _ _ _ ↦ arrowWord_plainNoports)
    (fun _ _ _ _ ↦ head_plainNoports)
  rw [MikroTikParser.endpoints, hfind, hmode]
  cases ht : l.tuple with
  | natPorts pri p pub q dst d | nat pri pub dst =>
      rw [ht] at hplain
      cases hplain
  | plainPorts pri p dst d =>
      rw [ht, searchFrom_plainPorts pri dst p d hb hwf.tail] at hports
      rw [hports]
      rfl
  | plain pri dst =>
      have hnone : (plainPorts u).search l.render = none := by
        have hsilent := silent_plainPorts_plain (u := u) pri dst (s := l.tail ++ [])
          (by simpa using hwf.tail)
        rw [← ht] at hsilent
        rw [Line.render_plain hplain]
        refine search_eq_none_of_silent (Silent.append
          (silent_lead_sep hwf hclear (fun _ _ _ _ ↦ arrowWord_plainPorts)
            (fun _ _ _ _ ↦ head_plainPorts) _)
          (hsilent.append (silent_tail hclear fun _ _ _ _ ↦ arrowWord_plainPorts))) ?_
        intro b t m hm
        obtain ⟨c, v, hv, -⟩ := head_plainPorts hm
        cases hv
      rw [ht, searchFrom_plainNoports pri dst hb hwf.tail] at hnoports
      rw [hnone, hnoports]
      rfl

/-- With the keyword in the protocol token, a line without a translation has no tuple. -/
theorem endpoints_keyword (hwf : l.WellFormed u) (hclear : l.Clear)
    (hplain : l.tuple.isNat = false) (hnat : "NAT".toList <:+: l.proto) :
    self.endpoints u l.render = .error NO_MATCH := by
  have hfind : (find "NAT".toList l.render).isSome = true := by
    rw [Option.isSome_iff_ne_none, ne_eq, find_eq_none, not_not,
      infix_nat_render_iff hwf hclear hplain]
    exact hnat
  have hports := search_keyword_eq_none (r := srcnatPorts u) hwf hclear hplain
    (fun _ _ _ _ ↦ arrowWord_srcnatPorts)
    (fun _ _ _ _ ↦ head_srcnatPorts)
  have hnoports := search_keyword_eq_none (r := srcnatNoports u) hwf hclear hplain
    (fun _ _ _ _ ↦ arrowWord_srcnatNoports) (fun _ _ _ _ ↦ head_srcnatNoports)
  rw [MikroTikParser.endpoints, hfind, hports, hnoports]
  rfl

end endpoints

/-! ## The other fields -/

section fields

variable {l : Line}

/-- Alphanumeric characters are ASCII. -/
theorem toNat_lt_of_isAlphanum {c : Char} (h : c.isAlphanum = true) : c.toNat < 128 := by
  simp only [Char.isAlphanum, Char.isAlpha, Char.isUpper, Char.isLower, Char.isDigit,
    Bool.or_eq_true, Bool.and_eq_true, decide_eq_true_eq, UInt32.le_iff_toNat_le, ge_iff_le] at h
  have hval : c.toNat = c.val.toNat := rfl
  have hZ : 'Z'.val.toNat = 90 := rfl
  have hz : 'z'.val.toNat = 122 := rfl
  have h9 : '9'.val.toNat = 57 := rfl
  omega

/-- **The protocol is read back.** -/
theorem _protocol_render (hwf : l.WellFormed u) (hclear : l.Clear) :
    _protocol u l.render = l.protocol := by
  have hsplit : l.render = l.before ++ ("proto ".toList ++ (l.proto ++ (l.flags ++
      (", ".toList ++ l.tuple.plainText ++ l.tuple.natSegment ++ l.tail)))) := by
    simp only [Line.render, Line.lead, List.append_assoc]
  have hstart : NoStart "proto ".toList l.before (("proto ".toList ++ (l.proto ++ (l.flags ++
      (", ".toList ++ l.tuple.plainText ++ l.tuple.natSegment ++ l.tail))))) :=
    .of_unbordered unbordered_proto hclear.proto
  have hproto : ∀ c ∈ l.proto, decide (c ∉ PROTO_END) = true := by
    have hend : ∀ c ∈ PROTO_END, c.isAlphanum = false := by decide
    intro c hc
    rw [decide_eq_true_eq]
    intro hmem
    exact absurd (hwf.proto c hc) (by simp [hend c hmem])
  have hnext : ∀ c ∈ (l.flags ++ (", ".toList ++ l.tuple.plainText ++ l.tuple.natSegment ++
      l.tail)).head?, decide (c ∉ PROTO_END) = false := by
    intro c hc
    cases hflags : l.flags with
    | nil =>
        rw [hflags] at hc
        obtain rfl : ',' = c := Option.some.inj hc
        decide
    | cons a flags =>
        obtain rfl := hwf.flags a (by rw [hflags]; rfl)
        rw [hflags] at hc
        obtain rfl : ' ' = c := Option.some.inj hc
        decide
  have hascii : ∀ c ∈ l.proto, c.toNat < 128 := fun c hc ↦ toNat_lt_of_isAlphanum (hwf.proto c hc)
  rw [hsplit, _protocol_of_marker hstart, takeWhile_append hproto hnext, if_neg hwf.proto_ne,
    normaliseProtocol, isdigit_ascii hwf.proto_ne hascii, upper_ascii hascii]
  rfl

/-- In a translation segment there is no bracket. -/
theorem notMem_natSegment {t : Tuple} : '<' ∉ t.natSegment := by
  have haddr : ∀ a : Ipv4, '<' ∉ a.text := fun a h ↦
    absurd (isAddrChar_of_mem_text h) (by decide)
  have hport : ∀ p : Fin 65536, '<' ∉ portText p := fun p h ↦
    absurd (isDigit_of_mem_portText h) (by decide)
  cases t with
  | natPorts pri p pub q dst d => simp [Tuple.natSegment, Tuple.isNat, Tuple.natText, haddr, hport]
  | nat pri pub dst => simp [Tuple.natSegment, Tuple.isNat, Tuple.natText, haddr]
  | plainPorts pri p dst d | plain pri dst => exact List.not_mem_nil

def Line.afterInSegment (l : Line) : Text :=
  l.middle ++ ("proto ".toList ++ (l.proto ++ (l.flags ++
    (", ".toList ++ l.tuple.plainText ++ l.tuple.natSegment ++ l.tail))))

theorem Line.render_inSegment (l : Line) :
    l.render = l.header ++ (l.inSegment.render ++ l.afterInSegment) := by
  simp only [Line.render, Line.lead, Line.before, Line.afterInSegment, List.append_assoc]

theorem head?_afterInSegment (hwf : l.WellFormed u) :
    ∃ c s, l.afterInSegment = c :: s ∧ (c = ' ' ∨ c = ',') := by
  obtain ⟨c, hc, hor⟩ := hwf.middle_head
  obtain ⟨s, hs⟩ := List.head?_eq_some_iff.mp hc
  exact ⟨c, _, by rw [Line.afterInSegment, hs]; rfl, hor⟩

/-- The session prefix of a session name is found. -/
theorem find?_session {pfx name : Text} (hwf : (InSegment.session pfx name).WellFormed u) :
    SUBSCRIBER_PREFIXES.find? (·.isPrefixOf (pfx ++ name)) = some pfx := by
  obtain ⟨hpfx, -, hname⟩ := hwf
  simp only [SUBSCRIBER_PREFIXES, List.mem_cons, List.not_mem_nil, or_false] at hpfx
  rcases hpfx with rfl | rfl | rfl | rfl | rfl | rfl | rfl
  case inr.inr.inl =>
    -- The longer prefixes of the same protocol are tried before this one.
    obtain ⟨hin, hout⟩ := hname rfl
    have h₁ : "pppoe-in-".toList.isPrefixOf ("pppoe-".toList ++ name) = false := by
      rw [← Bool.not_eq_true, List.isPrefixOf_iff_prefix]
      exact fun h ↦ hin ((List.prefix_append_right_inj "pppoe-".toList).mp h)
    have h₂ : "pppoe-out-".toList.isPrefixOf ("pppoe-".toList ++ name) = false := by
      rw [← Bool.not_eq_true, List.isPrefixOf_iff_prefix]
      exact fun h ↦ hout ((List.prefix_append_right_inj "pppoe-".toList).mp h)
    rw [SUBSCRIBER_PREFIXES, List.find?_cons, h₁, List.find?_cons, h₂]
    rfl
  all_goals rfl

/-- The name of a session segment is found between the brackets. -/
theorem interface_session (hclear : l.Clear) {pfx name : Text} (hwf : l.WellFormed u)
    (hin : l.inSegment = .session pfx name) :
    MikroTikParser.interface u l.render = pfx ++ name := by
  obtain ⟨hpfx, hname, -⟩ : (InSegment.session pfx name).WellFormed u := hin ▸ hwf.inSegment
  have hsplit : l.render =
      l.header ++ ("in:<".toList ++ ((pfx ++ name) ++ ('>' :: l.afterInSegment))) := by
    rw [Line.render_inSegment, hin]
    show l.header ++ (("in:<".toList ++ pfx ++ name ++ ['>']) ++ l.afterInSegment) = _
    simp only [List.append_assoc]
    rfl
  have hclose : '>' ∉ pfx ++ name := fun hmem ↦ by
    rcases List.mem_append.mp hmem with hmem | hmem
    · exact notMem_of_mem_prefixes hpfx hmem
    · exact hname hmem
  rw [hsplit]
  exact interface_of_marker
    (.of_unbordered unbordered_session (hclear.session (by rw [hin]; rfl))) hclose

/-- Without brackets around the interface, no session segment is found. -/
theorem not_session_infix_render (hclear : l.Clear) {iface : Text} (hwf : l.WellFormed u)
    (hin : l.inSegment = .bare iface) : ¬"in:<".toList <:+: l.render := by
  obtain ⟨hiface, -⟩ : (InSegment.bare iface).WellFormed u := hin ▸ hwf.inSegment
  obtain ⟨hheader, hbare⟩ := hclear.bare (by rw [hin]; rfl)
  have hmem : '<' ∈ "in:<".toList := by decide
  intro h
  rcases infix_render hwf (by decide) (by decide) h with h | h | h | h
  · rcases infix_lead hwf (by decide) (by decide) h with h | h | h | h | h | h
    · exact hheader (List.IsInfix.trans ⟨[], ['<'], rfl⟩ h)
    · rw [hin] at h
      rcases List.mem_append.mp (h.subset hmem) with hmem | hmem
      · exact absurd hmem (by decide)
      · exact (hiface _ hmem).2.2.1 rfl
    · exact hbare _ (by simp) h
    · exact absurd (h.subset hmem) (by decide)
    · exact absurd (hwf.proto _ (h.subset hmem)) (by decide)
    · exact hbare _ (by simp) h
  · exact absurd (isTupleChar_of_mem_plainText (h.subset hmem)) (by decide)
  · exact notMem_natSegment (h.subset hmem)
  · exact hbare _ (by simp) h

/-- A match of the interface pattern starts with its keyword. -/
theorem prefix_inInterface {b w t : Text} {m : Caps Char Unit}
    (h : Matches (inInterface u) b w t m) : "in:".toList <+: w := by
  obtain ⟨-, l, name, r, -, -, -, rfl, -⟩ := matches_inInterface.mp h
  exact List.prefix_append _ _

/-- The name of a bare segment is found by its pattern. -/
theorem interface_bare (hclear : l.Clear) {iface : Text} (hwf : l.WellFormed u)
    (hin : l.inSegment = .bare iface) : MikroTikParser.interface u l.render = iface := by
  obtain ⟨hiface, -⟩ : (InSegment.bare iface).WellFormed u := hin ▸ hwf.inSegment
  obtain ⟨c, s, hs, hc⟩ := head?_afterInSegment hwf
  have hnone : find "in:<".toList l.render = none :=
    find_eq_none.mpr (not_session_infix_render hclear hwf hin)
  have hsplit : l.render = l.header ++ ("in:".toList ++ (iface ++ l.afterInSegment)) := by
    rw [Line.render_inSegment, hin]
    show l.header ++ (("in:".toList ++ iface) ++ l.afterInSegment) = _
    rw [List.append_assoc]
  have hsilent : Silent (inInterface u) l.header ("in:".toList ++ (iface ++ l.afterInSegment)) := by
    have hlast : ∀ a ∈ l.header.getLast?, a ∉ "in:".toList.dropLast := by
      intro a ha
      rw [hwf.header a ha]
      decide
    rintro v b w t m ⟨v', hv⟩ hne heq hm
    apply NoStart.of_getLast (hclear.bare (by rw [hin]; rfl)).1 hlast v' v hv.symm hne
    exact heq ▸ (prefix_inInterface hm).trans (List.prefix_append w t)
  have hb : l.header.reverse.head?.any u.isWord = false := by
    rw [List.head?_reverse]
    cases hlast : l.header.getLast? with
    | none => rfl
    | some a =>
        show u.isWord a = false
        rw [hwf.header a hlast, u.isWord_ascii _ (by decide)]
        rfl
  have hafter : ∀ d ∈ l.afterInSegment.head?, nameChar u d = false ∧ d ≠ '<' ∧ d ≠ '>' := by
    intro d hd
    obtain rfl : c = d := by simpa [hs] using hd
    rcases hc with rfl | rfl
    · rw [nameChar, u.isSpace_ascii _ (by decide)]
      decide
    · simp [nameChar]
  have hopen : ∀ d ∈ (iface ++ ([] ++ l.afterInSegment)).head?, d ≠ '<' := by
    intro d hd
    cases iface with
    | nil => exact (hafter d hd).2.1
    | cons a iface =>
        obtain rfl : a = d := Option.some.inj hd
        exact (hiface a List.mem_cons_self).2.2.1
  have hname : ∀ d ∈ iface, nameChar u d = true := by
    intro d hd
    obtain ⟨h₁, h₂, -, h₃⟩ := hiface d hd
    simp [nameChar, h₁, h₂, h₃]
  have hfirst := first_inInterface hb (.inr ⟨rfl, hopen⟩) hname
    (.inr ⟨rfl, fun d hd ↦ ⟨(hafter d hd).1, (hafter d hd).2.2⟩⟩)
  rw [List.nil_append, List.append_nil, List.append_assoc] at hfirst
  rw [MikroTikParser.interface, hnone]
  dsimp only
  rw [hsplit, search_skip hsilent, searchFrom_of_first hfirst]
  rfl

/-- **The subscriber is read back.** -/
theorem _subscriber_render {self : MikroTikParser} (hwf : l.WellFormed u) (hclear : l.Clear) :
    self._subscriber u l.render = l.subscriber self.subscriberFromInterface := by
  cases hin : l.inSegment with
  | session pfx name =>
      have hseg : (InSegment.session pfx name).WellFormed u := hin ▸ hwf.inSegment
      have hne : pfx ++ name ≠ [] := by
        have hpfx : ∀ pfx ∈ SUBSCRIBER_PREFIXES, pfx ≠ [] := by decide
        exact List.append_ne_nil_of_left_ne_nil (hpfx pfx hseg.1) name
      rw [MikroTikParser._subscriber, interface_session hclear hwf hin, if_neg hne,
        find?_session hseg, Line.subscriber, hin]
      exact List.drop_left
  | bare iface =>
      obtain ⟨-, hpfx⟩ : (InSegment.bare iface).WellFormed u := hin ▸ hwf.inSegment
      have hnone : SUBSCRIBER_PREFIXES.find? (·.isPrefixOf iface) = none := by
        rw [List.find?_eq_none]
        intro pfx hmem
        rw [List.isPrefixOf_iff_prefix]
        exact hpfx pfx hmem
      rw [MikroTikParser._subscriber, interface_bare hclear hwf hin, hnone, Line.subscriber, hin]
      by_cases hnil : iface = []
      · show (if iface = [] then [] else _) = if self.subscriberFromInterface then iface else []
        rw [if_pos hnil, hnil, ite_self]
      · rw [if_neg hnil]

end fields

/-! ## The whole record -/

/-- What is made of a line once its tuple is read back. -/
theorem parse_of_endpoints {self : MikroTikParser} {l : Line} (hwf : l.WellFormed u)
    (hclear : l.Clear) (he : self.endpoints u l.render = .ok l.tuple.endpoints) :
    self.parse u l.render = (some (l.record self.subscriberFromInterface), []) := by
  have hzero : digitsValue u ['0'] = 0 := digitsValue_toDigits 0
  have hport : ∀ p : Fin 65536, digitsValue u (portText p) = p := fun p ↦ digitsValue_toDigits _
  have hok : self._parse u l.render =
      .ok (some (l.record self.subscriberFromInterface), []) := by
    rw [_parse_of_endpoints he, _protocol_render hwf hclear, _subscriber_render hwf hclear,
      Line.record]
    cases l.tuple with
    | natPorts pri p pub q dst d | plainPorts pri p dst d =>
        rw [if_neg (by simp only [Tuple.endpoints, hport]; omega)]
        simp only [Tuple.endpoints, hport]
    | nat pri pub dst | plain pri dst =>
        rw [if_neg (by simp only [Tuple.endpoints, hzero]; omega)]
        simp only [Tuple.endpoints, hzero]
  rw [_parse_ok] at hok
  exact Except.ok.inj hok

/-- **A line of a supported shape is read back as its record** exactly if it has a translation, or
its protocol token does not contain the keyword of one. -/
theorem parse_render {self : MikroTikParser} {l : Line} (hwf : l.WellFormed u) (hclear : l.Clear)
    (hmode : l.tuple.isNat = false → self.requireNat = false) :
    self.parse u l.render = (some (l.record self.subscriberFromInterface), []) ↔
      l.tuple.isNat = true ∨ ¬"NAT".toList <:+: l.proto := by
  constructor
  · intro h
    by_contra hcon
    rw [not_or, not_not, Bool.not_eq_true] at hcon
    have hreject : self.parse u l.render = (none, NO_MATCH) := by
      rw [MikroTikParser.parse, MikroTikParser._parse,
        endpoints_keyword hwf hclear hcon.1 hcon.2]
    rw [hreject] at h
    cases h
  · intro h
    apply parse_of_endpoints hwf hclear
    cases hnat : l.tuple.isNat with
    | true => exact endpoints_nat hwf hclear hnat
    | false =>
        rw [hnat] at h
        exact endpoints_plain hwf hclear hnat (hmode hnat) (h.resolve_left Bool.false_ne_true)

/-- A subscriber's session with a translation, and with any protocol. -/
def Line.session (proto : Text) : Line :=
  ⟨[], .session "pppoe-".toList "u1".toList, " ".toList, proto, [],
    .natPorts ⟨10, 0, 0, 1⟩ 1 ⟨1, 2, 3, 4⟩ 3 ⟨8, 8, 8, 8⟩ 2, []⟩

theorem Line.clear_session (proto : Text) : (Line.session proto).Clear := by
  have hclear : (Line.session []).Clear := by
    constructor
    all_goals decide +kernel
  exact ⟨hclear.arrow, hclear.session, hclear.bare, hclear.proto, hclear.nat⟩

/-- Every parser accepts it. -/
theorem parse_session {self : MikroTikParser} {proto : Text} (hne : proto ≠ [])
    (hproto : ∀ c ∈ proto, c.isAlphanum = true) : self.parse u (Line.session proto).render =
      (some ((Line.session proto).record self.subscriberFromInterface), []) := by
  have hsegment : "pppoe-".toList ∈ SUBSCRIBER_PREFIXES ∧ '>' ∉ "u1".toList ∧
      ("pppoe-".toList = "pppoe-".toList → ¬"in-".toList <+: "u1".toList ∧
        ¬"out-".toList <+: "u1".toList) := by decide
  have hnil : ∀ {a : Char}, ∀ c ∈ ([] : Text).head?, c = a := by
    rintro a c ⟨⟩
  have hwf : (Line.session proto).WellFormed u :=
    ⟨hnil, hsegment, ⟨' ', rfl, .inl rfl⟩, rfl, hne, hproto, hnil, hnil⟩
  exact parse_of_endpoints hwf (Line.clear_session proto)
    (endpoints_nat hwf (Line.clear_session proto) rfl)

/-- A subscriber's session with a translation is read back. -/
theorem parse_render_session :
    MikroTikParser.parse {} .ascii ("forward: in:<pppoe-ali> out:wan, proto TCP (SYN), ".toList ++
      "10.0.0.1:1024->8.8.8.8:53, NAT (10.0.0.1:1024->103.0.0.1:1024)->8.8.8.8:53, len 60".toList) =
      (some ⟨"10.0.0.1".toList, 1024, "103.0.0.1".toList, 1024, "8.8.8.8".toList, 53,
        "TCP".toList, "ali".toList⟩, []) := by
  let l : Line := ⟨"forward: ".toList, .session "pppoe-".toList "ali".toList, " out:wan, ".toList,
    "TCP".toList, " (SYN)".toList,
    .natPorts ⟨10, 0, 0, 1⟩ 1024 ⟨103, 0, 0, 1⟩ 1024 ⟨8, 8, 8, 8⟩ 53, ", len 60".toList⟩
  have hwf : l.WellFormed .ascii := by
    constructor
    all_goals decide +kernel
  have hclear : l.Clear := by
    constructor
    all_goals decide +kernel
  have hrender : l.render = "forward: in:<pppoe-ali> out:wan, proto TCP (SYN), ".toList ++
      "10.0.0.1:1024->8.8.8.8:53, NAT (10.0.0.1:1024->103.0.0.1:1024)->8.8.8.8:53, len 60".toList := by
    decide +kernel
  have hrecord : l.record false = ⟨"10.0.0.1".toList, 1024, "103.0.0.1".toList, 1024,
      "8.8.8.8".toList, 53, "TCP".toList, "ali".toList⟩ := by
    decide +kernel
  have hparse : MikroTikParser.parse {} .ascii l.render = (some (l.record false), []) :=
    (parse_render hwf hclear fun h ↦ absurd h (by decide)).mpr (.inl rfl)
  rw [← hrender, ← hrecord]
  exact hparse

/-- A line without a translation whose protocol token is `NAT` is dropped although lines without
a translation are to be kept. -/
theorem parse_render_keyword : ∃ l : Line, l.WellFormed .ascii ∧ l.Clear ∧
    l.tuple.isNat = false ∧ l.proto = "NAT".toList ∧
    MikroTikParser.parse ⟨false, false⟩ .ascii l.render ≠ (some (l.record false), []) ∧
    MikroTikParser.parse ⟨false, false⟩ .ascii l.render = (none, NO_MATCH) := by
  let l : Line := ⟨[], .bare "ether1".toList, " ".toList, "NAT".toList, [],
    .plain ⟨10, 0, 0, 1⟩ ⟨8, 8, 8, 8⟩, []⟩
  have hwf : l.WellFormed .ascii := by
    constructor
    all_goals decide +kernel
  have hclear : l.Clear := by
    constructor
    all_goals decide +kernel
  have hreject : MikroTikParser.parse ⟨false, false⟩ .ascii l.render = (none, NO_MATCH) := by
    rw [MikroTikParser.parse, MikroTikParser._parse,
      endpoints_keyword hwf hclear rfl ⟨[], [], rfl⟩]
  refine ⟨l, hwf, hclear, rfl, rfl, ?_, hreject⟩
  rw [hreject]
  intro h
  cases h

end LogServer
