import LogServer.Parser.FastPaths
import LogServer.Parser.RoundTrip

/-!
# Reading a translation

Both patterns with a translation open with an `N` that they do not hold again, so the first
translation of a payload is found whatever stands behind it.  `natEndpoints_ports` and
`natEndpoints_noports` read it back.
-/

namespace LogServer

open Regex Substring

variable {u : CharTable} {before s p q d t payload : Text} {pri pub dst : Ipv4}

/-! ## Digits -/

theorem toDigits_inj {m n : ℕ} (h : Nat.toDigits 10 m = Nat.toDigits 10 n) : m = n := by
  calc
    m = Nat.ofDigitChars 10 (Nat.toDigits 10 m) 0 := Nat.ofDigitChars_ten_toDigits.symm
    _ = Nat.ofDigitChars 10 (Nat.toDigits 10 n) 0 := by rw [h]
    _ = n := Nat.ofDigitChars_ten_toDigits

/-- Numbers are read back up to the dot after them. -/
theorem toDigits_cons_inj {m n : ℕ} {s t : Text}
    (h : Nat.toDigits 10 m ++ '.' :: s = Nat.toDigits 10 n ++ '.' :: t) : m = n ∧ s = t := by
  have hdigit : ∀ n, ∀ c ∈ Nat.toDigits 10 n, c.isDigit = true := fun n c hc ↦
    Nat.isDigit_of_mem_toDigits (by decide) (by decide) hc
  obtain ⟨hmn, -, hst⟩ := append_cons_inj h (hdigit m) (hdigit n) (by decide) (by decide)
  exact ⟨toDigits_inj hmn, hst⟩

/-! ## The first translation -/

theorem openedBy_srcnatPorts : (srcnatPorts u).OpenedBy 'N' where
  head hm := by
    obtain ⟨v, rfl, hv⟩ := word_srcnatPorts hm
    exact ⟨'A' :: 'T' :: v, rfl, by simpa using hv⟩
  ext := ⟨srcnatPorts_congr, srcnatPorts_congr⟩

theorem openedBy_srcnatNoports : (srcnatNoports u).OpenedBy 'N' where
  head hm := by
    obtain ⟨v, rfl, hv⟩ := word_srcnatNoports hm
    exact ⟨'A' :: 'T' :: v, rfl, by simpa using hv⟩
  ext {b w t s m} := by
    have hN : (u.isDecimal 'N' || 'N' == '.' || 'N' == ':') = false := by
      rw [isDecimal_false (by decide) rfl]
      rfl
    rw [matches_srcnatNoports, matches_srcnatNoports]
    refine and_congr_left fun _ ↦ ?_
    cases t with
    | nil => exact ⟨fun _ ↦ rfl, fun _ ↦ hN⟩
    | cons c t => exact Iff.rfl

theorem unambiguous_srcnatNoports : (srcnatNoports u).Unambiguous :=
  fun _ _ _ _ _ _ _ h h' heq ↦ srcnatNoports_unique h h' heq

def noportsText (s : Text) (pri pub dst : Ipv4) : Text :=
  "NAT".toList ++ s ++ ['('] ++ pri.text ++ "->".toList ++ pub.text ++ ")->".toList ++ dst.text

/-- The head of a translation with ports, read from the left. -/
theorem natHead_eq (s : Text) (pri : Ipv4) (p : Text) (pub : Ipv4) (q : Text) (dst : Ipv4) :
    natHead s pri p pub q dst = "NAT".toList ++ (s ++ '(' :: (pri.text ++ ':' :: (p ++
      ("->".toList ++ (pub.text ++ ':' :: (q ++ (")->".toList ++ (dst.text ++ [':'])))))))) := by
  dsimp only [natHead]
  generalize pri.text = a, pub.text = b, dst.text = c
  simp only [List.append_assoc, List.cons_append, List.nil_append]

/-- A translation without ports, read from the left. -/
theorem noportsText_append (s : Text) (pri pub dst : Ipv4) (t : Text) :
    noportsText s pri pub dst ++ t = "NAT".toList ++ (s ++ '(' :: (pri.text ++ ("->".toList ++
      (pub.text ++ (")->".toList ++ (dst.text ++ t)))))) := by
  dsimp only [noportsText]
  generalize pri.text = a, pub.text = b, dst.text = c
  simp only [List.append_assoc, List.cons_append, List.nil_append]

def noportsGroups (pri pub dst : Ipv4) : Caps Char Group :=
  [(.pri, pri.text), (.pub, pub.text), (.dst, dst.text)]

/-- **A translation with ports is read back**, if none stands before it. -/
theorem natEndpoints_ports (hbefore : ¬(srcnatPorts u).Occurs before)
    (hs : ∀ c ∈ s, u.isSpace c = true) (hp : IsPortText u p) (hq : IsPortText u q)
    (hd : IsPortText u d) (hstop : d.length = 5 ∨ ∀ c ∈ t.head?, u.isDecimal c = false) :
    natEndpoints u (before ++ ((natHead s pri p pub q dst ++ d) ++ t)) =
      some ⟨pri.text, p, pub.text, q, dst.text, d⟩ := by
  have hfirst := first_srcnatPorts (b := before.reverse) hs pri pub dst hp hq hd hstop
  have hpass : (srcnatPorts u).Passes before ((natHead s pri p pub q dst ++ d) ++ t) := by
    obtain ⟨y, hy⟩ : ∃ y, (natHead s pri p pub q dst ++ d) ++ t = 'N' :: y := ⟨_, rfl⟩
    rw [hy]
    exact openedBy_srcnatPorts.passes_iff.mpr hbefore
  rw [natEndpoints, search_eq_some_iff.mpr ⟨before, _, rfl, hpass, hfirst⟩]
  rfl

/-- Without a translation with ports, the tuple is that of the first one without. -/
theorem natEndpoints_of_leftmost (hports : ¬(srcnatPorts u).Occurs payload) {x : Found Char Group}
    (hx : (srcnatNoports u).Leftmost payload x) (hgroups : x.groups = noportsGroups pri pub dst) :
    natEndpoints u payload = some ⟨pri.text, ['0'], pub.text, ['0'], dst.text, ['0']⟩ := by
  rw [natEndpoints, search_eq_none_iff.mpr hports, search_of_leftmost unambiguous_srcnatNoports hx]
  simp only [Option.map_some, groupText, Found.group, hgroups]
  rfl

/-- **A translation without ports is read back**, if none stands before it. -/
theorem natEndpoints_noports
    (hports : ¬(srcnatPorts u).Occurs (before ++ (noportsText s pri pub dst ++ t)))
    (hbefore : ¬(srcnatNoports u).Occurs before) (hs : ∀ c ∈ s, u.isSpace c = true)
    (hstop : t.head?.any (fun c ↦ u.isDecimal c || c == '.' || c == ':') = false) :
    natEndpoints u (before ++ (noportsText s pri pub dst ++ t)) =
      some ⟨pri.text, ['0'], pub.text, ['0'], dst.text, ['0']⟩ :=
  natEndpoints_of_leftmost hports
    (x := ⟨before, noportsText s pri pub dst, t, noportsGroups pri pub dst⟩)
    ⟨rfl, matches_srcnatNoports.mpr ⟨hstop, s, hs, pri, pub, dst, rfl, rfl⟩,
      openedBy_srcnatNoports.passes_iff.mpr hbefore⟩ rfl

end LogServer
