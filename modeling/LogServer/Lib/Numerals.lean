import Mathlib

/-!
# Numerals as texts

Numerals of one width compare like the numbers they stand for, whether they are compared as texts or
as numbers (`padded_lt_iff`).  A numeral is before a shorter one exactly if it is so up to the length of
the shorter one (`padded_add_lt_iff`), which is not what the numbers say.
-/

namespace Numerals

/-- The last `k` digits of a number, with zeros in front. -/
def padded : Nat → Nat → List Char
  | 0, _ => []
  | k + 1, n => padded k (n / 10) ++ [Nat.digitChar (n % 10)]

@[simp] theorem length_padded (k n : Nat) : (padded k n).length = k := by
  induction k generalizing n with
  | zero => rfl
  | succ k ih => rw [padded, List.length_append, ih, List.length_singleton]

/-- The digits of a number are its first digits and its last ones. -/
theorem padded_add (j k n : Nat) : padded (j + k) n = padded j (n / 10 ^ k) ++ padded k n := by
  induction k generalizing n with
  | zero => rw [Nat.add_zero, Nat.pow_zero, Nat.div_one, padded, List.append_nil]
  | succ k ih =>
      rw [← Nat.add_assoc, padded, ih, padded, List.append_assoc, Nat.div_div_eq_div_mul,
        Nat.pow_succ']

theorem isDigit_of_mem_padded {k n : Nat} {c : Char} (h : c ∈ padded k n) : c.isDigit = true := by
  induction k generalizing n with
  | zero => cases h
  | succ k ih =>
      rcases List.mem_append.mp h with h | h
      · exact ih h
      · rw [List.mem_singleton.mp h, Nat.isDigit_digitChar]
        exact decide_eq_true (Nat.mod_lt n (by decide))

/-- A numeral is written in as many digits as it has. -/
theorem toDigits_eq_padded (n : Nat) :
    Nat.toDigits 10 n = padded (Nat.toDigits 10 n).length n := by
  induction n using Nat.strong_induction_on with
  | _ n ih =>
      by_cases h : n < 10
      · rw [Nat.toDigits_of_lt_base h, List.length_singleton, padded, padded, List.nil_append,
          Nat.mod_eq_of_lt h]
      · have hbase := Nat.toDigits_of_base_le (b := 10) (by decide) (Nat.le_of_not_lt h)
        have hrest := ih (n / 10) (Nat.div_lt_self (by omega) (by decide))
        rw [hbase, List.length_append, List.length_singleton, padded, ← hrest]

/-! ## Comparison -/

section comparison

variable {a b j k : Nat}

/-- Texts are compared by their first parts, if these have one length. -/
theorem append_lt_append_iff {l l' r r' : List Char} (h : l.length = l'.length) :
    l ++ r < l' ++ r' ↔ l < l' ∨ l = l' ∧ r < r' := by
  induction l generalizing l' with
  | nil =>
      obtain rfl := List.eq_nil_of_length_eq_zero h.symm
      simp
  | cons x l ih =>
      obtain ⟨y, l', rfl⟩ := List.exists_cons_of_length_eq_add_one h.symm
      rw [List.cons_append, List.cons_append, List.cons_lt_cons_iff, List.cons_lt_cons_iff,
        ih (Nat.succ.inj h), List.cons.injEq]
      tauto

theorem digitChar_lt_iff (ha : a < 10) (hb : b < 10) :
    Nat.digitChar a < Nat.digitChar b ↔ a < b := by
  have h : (Nat.digitChar a).toNat < (Nat.digitChar b).toNat ↔ a < b := by
    rw [Nat.toNat_digitChar_of_lt_ten ha, Nat.toNat_digitChar_of_lt_ten hb]
    omega
  exact h

theorem digitChar_inj (ha : a < 10) (hb : b < 10) (h : Nat.digitChar a = Nat.digitChar b) :
    a = b := by
  have hval := congrArg Char.toNat h
  rw [Nat.toNat_digitChar_of_lt_ten ha, Nat.toNat_digitChar_of_lt_ten hb] at hval
  omega

/-- A number is known by its digits. -/
theorem padded_inj (ha : a < 10 ^ k) (hb : b < 10 ^ k) (h : padded k a = padded k b) : a = b := by
  induction k generalizing a b with
  | zero => rw [Nat.pow_zero] at ha hb; omega
  | succ k ih =>
      obtain ⟨hinit, hlast⟩ := List.append_inj h (by rw [length_padded, length_padded])
      rw [Nat.pow_succ] at ha hb
      have hdiv : a / 10 = b / 10 := ih (by omega) (by omega) hinit
      have hmod := digitChar_inj (Nat.mod_lt a (by decide)) (Nat.mod_lt b (by decide))
        (List.cons.inj hlast).1
      omega

/-- **Numerals of one width compare like numbers.** -/
theorem padded_lt_iff (ha : a < 10 ^ k) (hb : b < 10 ^ k) : padded k a < padded k b ↔ a < b := by
  induction k generalizing a b with
  | zero =>
      rw [Nat.pow_zero] at ha hb
      exact iff_of_false (List.lt_irrefl []) (by omega)
  | succ k ih =>
      rw [Nat.pow_succ] at ha hb
      have ha' : a / 10 < 10 ^ k := by omega
      have hb' : b / 10 < 10 ^ k := by omega
      have hlast : [Nat.digitChar (a % 10)] < [Nat.digitChar (b % 10)] ↔ a % 10 < b % 10 := by
        rw [List.cons_lt_cons_iff, digitChar_lt_iff (Nat.mod_lt a (by decide))
          (Nat.mod_lt b (by decide))]
        simp
      have hinit : padded k (a / 10) = padded k (b / 10) ↔ a / 10 = b / 10 :=
        ⟨padded_inj ha' hb', congrArg _⟩
      rw [padded, padded, append_lt_append_iff (by rw [length_padded, length_padded]), ih ha' hb',
        hinit, hlast]
      omega

/-- **A numeral and a shorter one** compare up to the length of the shorter one. -/
theorem padded_add_lt_iff (ha : a < 10 ^ (j + k)) (hb : b < 10 ^ j) :
    padded (j + k) a < padded j b ↔ a / 10 ^ k < b := by
  have hhead : a / 10 ^ k < 10 ^ j := by
    rw [Nat.div_lt_iff_lt_mul (by positivity), ← Nat.pow_add]
    exact ha
  have hlt : padded j (a / 10 ^ k) ++ padded k a < padded j b ++ [] ↔ _ :=
    append_lt_append_iff (by rw [length_padded, length_padded])
  rw [List.append_nil] at hlt
  rw [padded_add, hlt, padded_lt_iff hhead hb]
  simp

end comparison

end Numerals
