import LogServer.Text

/-!
# IPv4 addresses

An address is four numbers below 256, so that an address out of range cannot be written down.
`Ipv4.text` is its canonical dotted form, the only form the program stores.
-/

namespace LogServer

def octetText (n : Fin 256) : Text := Nat.toDigits 10 n

structure Ipv4 where
  a : Fin 256
  b : Fin 256
  c : Fin 256
  d : Fin 256
deriving DecidableEq, Repr

/-- The canonical dotted form. -/
def Ipv4.text (x : Ipv4) : Text :=
  octetText x.a ++ '.' :: (octetText x.b ++ '.' :: (octetText x.c ++ '.' :: octetText x.d))

/-- Four dot-separated canonical decimal octets. -/
def IsIpv4 (t : Text) : Prop := ∃ x : Ipv4, t = x.text

/-- The digits of an octet, by their number. -/
theorem octetText_eq (n : Fin 256) : octetText n =
    if n.val < 10 then [Nat.digitChar n]
    else if n.val < 100 then [Nat.digitChar (n / 10), Nat.digitChar (n % 10)]
    else [Nat.digitChar (n / 100), Nat.digitChar (n / 10 % 10), Nat.digitChar (n % 10)] := by
  revert n
  decide +kernel

theorem isDigit_of_mem_octetText {n : Fin 256} {c : Char} (h : c ∈ octetText n) :
    c.isDigit = true :=
  Nat.isDigit_of_mem_toDigits (by decide) (by decide) h

theorem octetText_ne_nil (n : Fin 256) : octetText n ≠ [] := Nat.toDigits_ne_nil

def isAddrChar (c : Char) : Bool := c.isDigit || c == '.'

theorem isAddrChar_of_mem_text {x : Ipv4} {c : Char} (h : c ∈ x.text) : isAddrChar c = true := by
  simp only [Ipv4.text, List.mem_append, List.mem_cons] at h
  rcases h with h | rfl | h | rfl | h | rfl | h
  all_goals first | rfl | simp [isAddrChar, isDigit_of_mem_octetText h]

theorem isDigit_head_text (x : Ipv4) : ∃ c t, x.text = c :: t ∧ c.isDigit = true := by
  obtain ⟨c, t, h⟩ := List.exists_cons_of_ne_nil (octetText_ne_nil x.a)
  exact ⟨c, _, by rw [Ipv4.text, h]; rfl, isDigit_of_mem_octetText (h ▸ List.mem_cons_self)⟩

end LogServer
