import LogServer.Parser.MikroTik

/-!
# The supported shapes

A `Line` is a log line in one of the documented shapes, its parts kept apart:

```
header  in-segment  middle  "proto " proto flags ", " plain tuple [", NAT (…)->…"] tail
```

`Line.render` puts it together and `Line.record` is what it says.  `Line.WellFormed` is the
grammar of the parts, and `Line.Clear` says which markers the free texts must not contain.

Blanks and commas delimit the parts, so a word without blanks and commas occurs in a line only
inside one of its parts (`infix_lead`, `infix_render`).  That is how the markers are located: an
arrow before a digit stands only in the tuple (`not_arrow_infix_lead`), and in a line without a
translation the letters `NAT` stand nowhere unless in the protocol token
(`infix_nat_render_iff`).
-/

namespace LogServer

open Substring

/-! ## Lines -/

inductive InSegment where
  /-- `in:<prefix-name>`, a subscriber session. -/
  | session (pfx name : Text)
  /-- `in:iface` -/
  | bare (iface : Text)
deriving DecidableEq, Repr

def InSegment.render : InSegment → Text
  | .session pfx name => "in:<".toList ++ pfx ++ name ++ ['>']
  | .bare iface => "in:".toList ++ iface

def InSegment.free : InSegment → Text
  | .session _ name => name
  | .bare iface => iface

def InSegment.isBare : InSegment → Bool
  | .session _ _ => false
  | .bare _ => true

inductive Tuple where
  | natPorts (pri : Ipv4) (priPort : Fin 65536) (pub : Ipv4) (pubPort : Fin 65536)
      (dst : Ipv4) (dstPort : Fin 65536)
  | nat (pri pub dst : Ipv4)
  | plainPorts (pri : Ipv4) (priPort : Fin 65536) (dst : Ipv4) (dstPort : Fin 65536)
  | plain (pri dst : Ipv4)
deriving DecidableEq, Repr

def portText (p : Fin 65536) : Text := Nat.toDigits 10 p

def Tuple.isNat : Tuple → Bool
  | .natPorts .. | .nat .. => true
  | .plainPorts .. | .plain .. => false

def Tuple.plainText : Tuple → Text
  | .natPorts pri p _ _ dst d | .plainPorts pri p dst d =>
      pri.text ++ [':'] ++ portText p ++ "->".toList ++ dst.text ++ [':'] ++ portText d
  | .nat pri _ dst | .plain pri dst => pri.text ++ "->".toList ++ dst.text

def Tuple.natText : Tuple → Text
  | .natPorts pri p pub q dst d =>
      ['N', 'A', 'T'] ++ [' '] ++ ['('] ++ pri.text ++ [':'] ++ portText p ++ "->".toList ++
        pub.text ++ [':'] ++ portText q ++ ")->".toList ++ dst.text ++ [':'] ++ portText d
  | .nat pri pub dst =>
      ['N', 'A', 'T'] ++ [' '] ++ ['('] ++ pri.text ++ "->".toList ++ pub.text ++ ")->".toList ++
        dst.text
  | .plainPorts .. | .plain .. => []

/-- The segment with the comma before it, if there is one. -/
def Tuple.natSegment (t : Tuple) : Text := if t.isNat then ", ".toList ++ t.natText else []

/-- A log line, its parts kept apart. -/
structure Line where
  header : Text
  inSegment : InSegment
  middle : Text
  proto : Text
  flags : Text
  tuple : Tuple
  tail : Text
deriving DecidableEq, Repr

namespace Line

variable (l : Line)

def before : Text := l.header ++ l.inSegment.render ++ l.middle

def lead : Text := l.before ++ "proto ".toList ++ l.proto ++ l.flags

def render : Text :=
  l.lead ++ (", ".toList ++ l.tuple.plainText ++ l.tuple.natSegment ++ l.tail)

def freeTexts : List Text := [l.header, l.inSegment.free, l.middle, l.flags, l.tail]

def protocol : Text :=
  if l.proto.all Char.isDigit then (PROTO_NUMBERS.lookup l.proto).getD l.proto
  else l.proto.map Char.toUpper

def subscriber (fromInterface : Bool) : Text :=
  match l.inSegment with
  | .session _ name => name
  | .bare iface => if fromInterface then iface else []

def record (fromInterface : Bool) : ParsedLog :=
  match l.tuple with
  | .natPorts pri p pub q dst d =>
      ⟨pri.text, p, pub.text, q, dst.text, d, l.protocol, l.subscriber fromInterface⟩
  | .nat pri pub dst =>
      ⟨pri.text, 0, pub.text, 0, dst.text, 0, l.protocol, l.subscriber fromInterface⟩
  | .plainPorts pri p dst d =>
      ⟨pri.text, p, pri.text, p, dst.text, d, l.protocol, l.subscriber fromInterface⟩
  | .plain pri dst =>
      ⟨pri.text, 0, pri.text, 0, dst.text, 0, l.protocol, l.subscriber fromInterface⟩

end Line

/-! ## The grammar -/

/-- A session prefix with a name that the prefix does not run into, or a name that is no
session. -/
def InSegment.WellFormed (u : CharTable) : InSegment → Prop
  | .session pfx name => pfx ∈ SUBSCRIBER_PREFIXES ∧ '>' ∉ name ∧
      (pfx = "pppoe-".toList → ¬"in-".toList <+: name ∧ ¬"out-".toList <+: name)
  | .bare iface => (∀ c ∈ iface, u.isSpace c = false ∧ c ≠ ',' ∧ c ≠ '<' ∧ c ≠ '>') ∧
      ∀ pfx ∈ SUBSCRIBER_PREFIXES, ¬pfx <+: iface

instance (u : CharTable) : (i : InSegment) → Decidable (i.WellFormed u)
  | .session pfx _ => inferInstanceAs (Decidable (pfx ∈ SUBSCRIBER_PREFIXES ∧ _ ∧ (_ → _ ∧ _)))
  | .bare _ => inferInstanceAs (Decidable (_ ∧ _))

/-- The grammar of the parts of a line. -/
structure Line.WellFormed (u : CharTable) (l : Line) : Prop where
  header : ∀ c ∈ l.header.getLast?, c = ' '
  inSegment : l.inSegment.WellFormed u
  middle_head : ∃ c ∈ l.middle.head?, c = ' ' ∨ c = ','
  middle_last : l.middle.getLast? = some ' '
  proto_ne : l.proto ≠ []
  proto : ∀ c ∈ l.proto, c.isAlphanum = true
  flags : ∀ c ∈ l.flags.head?, c = ' '
  tail : ∀ c ∈ l.tail.head?, c = ','

/-- The markers the free texts must not contain, nor form with what stands beside them.  Each
clause asks no more than the parser needs: the probe for `NAT` matters only for lines without a
translation, and the other markers only where they would be found before the rendered ones. -/
structure Line.Clear (l : Line) : Prop where
  arrow : ∀ t ∈ l.freeTexts, ¬"->".toList <:+: t
  session : l.inSegment.isBare = false → ¬"in:<".toList <:+: l.header
  bare : l.inSegment.isBare = true →
    ¬"in:".toList <:+: l.header ∧ ∀ t ∈ [l.middle, l.flags, l.tail], ¬"in:<".toList <:+: t
  proto : ¬"proto ".toList <:+: l.before
  nat : l.tuple.isNat = false → ∀ t ∈ l.freeTexts, ¬"NAT".toList <:+: t

/-! ## Where a word can occur -/

section occurrences

variable {u : CharTable} {l : Line} {w : Text}

/-- The text before the protocol segment ends with a blank. -/
theorem Line.WellFormed.getLast_before (hwf : l.WellFormed u) : l.before.getLast? = some ' ' := by
  rw [Line.before, List.getLast?_append, hwf.middle_last]
  rfl

/-- A word without blanks and commas stands in one of the parts before the tuple. -/
theorem infix_lead (hwf : l.WellFormed u) (hblank : ' ' ∉ w) (hcomma : ',' ∉ w)
    (h : w <:+: l.lead) :
    w <:+: l.header ∨ w <:+: l.inSegment.render ∨ w <:+: l.middle ∨ w <:+: "proto ".toList ∨
      w <:+: l.proto ∨ w <:+: l.flags := by
  rcases infix_append_of_head (fun a ha ↦ hwf.flags a ha ▸ hblank) h with h | h
  · rcases infix_append_of_getLast (by simpa using hblank) h with h | h
    · rcases infix_append_of_getLast (by simpa [hwf.getLast_before] using hblank) h with h | h
      · have hmiddle : ∀ a ∈ l.middle.head?, a ∉ w := by
          obtain ⟨c, hc, hor⟩ := hwf.middle_head
          intro a ha
          obtain rfl : c = a := Option.some.inj (hc.symm.trans ha)
          rcases hor with rfl | rfl
          · exact hblank
          · exact hcomma
        rcases infix_append_of_head hmiddle h with h | h
        · rcases infix_append_of_getLast (fun a ha ↦ hwf.header a ha ▸ hblank) h with h | h
          · exact .inl h
          · exact .inr (.inl h)
        · exact .inr (.inr (.inl h))
      · exact .inr (.inr (.inr (.inl h)))
    · exact .inr (.inr (.inr (.inr (.inl h))))
  · exact .inr (.inr (.inr (.inr (.inr h))))

/-- A word without blanks and commas stands before the tuple, in it, or in the tail. -/
theorem infix_render (hwf : l.WellFormed u) (hblank : ' ' ∉ w) (hcomma : ',' ∉ w)
    (h : w <:+: l.render) :
    w <:+: l.lead ∨ w <:+: l.tuple.plainText ∨ w <:+: l.tuple.natSegment ∨ w <:+: l.tail := by
  rcases infix_append_cons hcomma h with h | h
  · exact .inl h
  · rcases infix_append_of_head (fun a ha ↦ hwf.tail a ha ▸ hcomma) h with h | h
    · have hseg : ∀ a ∈ l.tuple.natSegment.head?, a ∉ w := by
        intro a ha
        unfold Tuple.natSegment at ha
        split at ha
        · obtain rfl : ',' = a := Option.some.inj ha
          exact hcomma
        · cases ha
      rcases infix_append_of_head hseg h with h | h
      · rcases infix_append_cons (x := []) hblank h with h | h
        · rw [List.infix_nil] at h
          exact .inl (h ▸ List.nil_infix)
        · exact .inr (.inl h)
      · exact .inr (.inr (.inl h))
    · exact .inr (.inr (.inr h))

/-- No session prefix contains a closing bracket. -/
theorem notMem_of_mem_prefixes {pfx : Text} (h : pfx ∈ SUBSCRIBER_PREFIXES) : '>' ∉ pfx := by
  revert pfx
  decide

/-- An arrow before a digit stands in no interface segment. -/
theorem not_arrow_infix_inSegment {i : InSegment} (hwf : i.WellFormed u) {d : Char}
    (hd : d.isDigit = true) : ¬['-', '>', d] <:+: i.render := by
  intro h
  cases i with
  | session pfx name =>
      obtain ⟨hpfx, hname, -⟩ := hwf
      rcases List.infix_concat_iff.mp h with h | h
      · rcases List.suffix_concat_iff.mp h with h | ⟨t, ht, -⟩
        · cases h
        · have hlast := congrArg List.getLast? ht
          simp only [List.getLast?_append, List.getLast?_singleton, Option.some_or] at hlast
          obtain rfl : d = '>' := Option.some.inj hlast
          exact absurd hd (by decide)
      · have hmem := h.subset (show '>' ∈ ['-', '>', d] by simp)
        simp only [List.mem_append] at hmem
        rcases hmem with (hmem | hmem) | hmem
        · exact absurd hmem (by decide)
        · exact notMem_of_mem_prefixes hpfx hmem
        · exact hname hmem
  | bare iface =>
      rcases List.mem_append.mp (h.subset (show '>' ∈ ['-', '>', d] by simp)) with hmem | hmem
      · exact absurd hmem (by decide)
      · exact (hwf.1 _ hmem).2.2.2 rfl

/-- **No arrow before a digit stands before the tuple.** -/
theorem not_arrow_infix_lead (hwf : l.WellFormed u) (hclear : l.Clear) {d : Char}
    (hd : d.isDigit = true) : ¬['-', '>', d] <:+: l.lead := by
  have harrow : ∀ t ∈ l.freeTexts, ¬['-', '>', d] <:+: t := fun t ht h ↦
    hclear.arrow t ht (List.IsInfix.trans ⟨[], [d], rfl⟩ h)
  have hmem : '>' ∈ ['-', '>', d] := by simp
  have hne : ∀ c : Char, c.isDigit = false → c ≠ d := by
    rintro c hc rfl
    rw [hd] at hc
    cases hc
  have hblank : ' ' ∉ ['-', '>', d] := by simpa using hne ' ' (by decide)
  have hcomma : ',' ∉ ['-', '>', d] := by simpa using hne ',' (by decide)
  intro h
  rcases infix_lead hwf hblank hcomma h with h | h | h | h | h | h
  · exact harrow _ (by simp [Line.freeTexts]) h
  · exact not_arrow_infix_inSegment hwf.inSegment hd h
  · exact harrow _ (by simp [Line.freeTexts]) h
  · exact absurd (h.subset hmem) (by decide)
  · exact absurd (hwf.proto _ (h.subset hmem)) (by decide)
  · exact harrow _ (by simp [Line.freeTexts]) h

def isTupleChar (c : Char) : Bool := isAddrChar c || c == ':' || c == '-' || c == '>'

theorem isDigit_of_mem_portText {p : Fin 65536} {c : Char} (h : c ∈ portText p) :
    c.isDigit = true :=
  Nat.isDigit_of_mem_toDigits (by decide) (by decide) h

theorem isTupleChar_of_mem_plainText {t : Tuple} {c : Char} (h : c ∈ t.plainText) :
    isTupleChar c = true := by
  have haddr : ∀ {x : Ipv4}, c ∈ x.text → isTupleChar c = true := fun h ↦ by
    simp [isTupleChar, isAddrChar_of_mem_text h]
  have hport : ∀ {p : Fin 65536}, c ∈ portText p → isTupleChar c = true := fun h ↦ by
    simp [isTupleChar, isAddrChar, isDigit_of_mem_portText h]
  have harrow : ∀ c ∈ "->".toList, isTupleChar c = true := by decide
  cases t with
  | natPorts pri p pub q dst d | plainPorts pri p dst d =>
      simp only [Tuple.plainText, List.mem_append, List.mem_singleton] at h
      rcases h with (((((h | rfl) | h) | h) | h) | rfl) | h
      · exact haddr h
      · rfl
      · exact hport h
      · exact harrow c h
      · exact haddr h
      · rfl
      · exact hport h
  | nat pri pub dst | plain pri dst =>
      simp only [Tuple.plainText, List.mem_append] at h
      rcases h with (h | h) | h
      · exact haddr h
      · exact harrow c h
      · exact haddr h

/-- The letters `NAT` in an interface segment are in its free text. -/
theorem infix_free_of_infix_nat {i : InSegment} (hwf : i.WellFormed u)
    (h : "NAT".toList <:+: i.render) : "NAT".toList <:+: i.free := by
  cases i with
  | session pfx name =>
      have hpfx : ∀ pfx ∈ SUBSCRIBER_PREFIXES, ¬"NAT".toList <:+: "in:<".toList ++ pfx ∧
          ∀ a ∈ ("in:<".toList ++ pfx).getLast?, a ∉ "NAT".toList := by decide
      rcases infix_append_cons (y := []) (by decide) h with h | h
      · rcases infix_append_of_getLast (hpfx pfx hwf.1).2 h with h | h
        · exact absurd h (hpfx pfx hwf.1).1
        · exact h
      · exact absurd (List.infix_nil.mp h) (by decide)
  | bare iface =>
      rcases infix_append_of_getLast (by decide) h with h | h
      · exact absurd h (by decide)
      · exact h

/-- **In a line without a translation the letters `NAT` can stand in the protocol token only.** -/
theorem infix_nat_render_iff (hwf : l.WellFormed u) (hclear : l.Clear)
    (hplain : l.tuple.isNat = false) :
    "NAT".toList <:+: l.render ↔ "NAT".toList <:+: l.proto := by
  have hfree := hclear.nat hplain
  constructor
  · intro h
    rcases infix_render hwf (by decide) (by decide) h with h | h | h | h
    · rcases infix_lead hwf (by decide) (by decide) h with h | h | h | h | h | h
      · exact absurd h (hfree _ (by simp [Line.freeTexts]))
      · exact absurd (infix_free_of_infix_nat hwf.inSegment h) (hfree _ (by simp [Line.freeTexts]))
      · exact absurd h (hfree _ (by simp [Line.freeTexts]))
      · exact absurd h (by decide)
      · exact h
      · exact absurd h (hfree _ (by simp [Line.freeTexts]))
    · have hmem := isTupleChar_of_mem_plainText (h.subset (show 'N' ∈ "NAT".toList by decide))
      exact absurd hmem (by decide)
    · rw [Tuple.natSegment, hplain] at h
      exact absurd (List.infix_nil.mp h) (by decide)
    · exact absurd h (hfree _ (by simp [Line.freeTexts]))
  · rintro ⟨x, y, hxy⟩
    refine ⟨l.before ++ "proto ".toList ++ x, y ++ l.flags ++ (", ".toList ++ l.tuple.plainText ++
      l.tuple.natSegment ++ l.tail), ?_⟩
    simp only [Line.render, Line.lead, ← hxy, List.append_assoc]

end occurrences

end LogServer
