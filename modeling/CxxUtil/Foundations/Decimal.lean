import Mathlib.Data.List.Basic
import Mathlib.Algebra.Group.Nat.Defs

/-! # Decimal numerals

The value of a run of decimal digits, and how it relates to the text: a numeral without leading
zeros is determined by its value, a longer one is larger, and at equal length the order of the
values is the lexicographic order of the characters. -/
namespace CxxUtil.Foundations
set_option autoImplicit false

def IsDigits (t : List Char) : Prop := t ≠ [] ∧ ∀ c ∈ t, c.isDigit = true

-- `decide` on the second part is to go through the list, not through all characters
instance (t : List Char) : Decidable (IsDigits t) :=
  @instDecidableAnd _ _ _ (List.decidableBAll _ t)

def decimal (t : List Char) : ℕ := Nat.ofDigitChars 10 t 0

/-- `0` itself, or a numeral that does not begin with it. -/
def NoLeadingZero (t : List Char) : Prop := t = ['0'] ∨ t.head? ≠ some '0'

instance (t : List Char) : Decidable (NoLeadingZero t) := inferInstanceAs (Decidable (_ ∨ _))

def digit (c : Char) : ℕ := c.toNat - '0'.toNat

theorem digit_le {c : Char} (h : c.isDigit = true) : digit c ≤ 9 := by
  obtain ⟨-, hhi⟩ := Char.isDigit_iff_toNat.mp h
  have : '9'.toNat = 57 := rfl
  have : '0'.toNat = 48 := rfl
  unfold digit
  omega

theorem digit_lt_iff {c d : Char} (hc : c.isDigit = true) (hd : d.isDigit = true) :
    digit c < digit d ↔ c < d := by
  obtain ⟨hc, -⟩ := Char.isDigit_iff_toNat.mp hc
  obtain ⟨hd, -⟩ := Char.isDigit_iff_toNat.mp hd
  rw [Char.lt_def, UInt32.lt_iff_toNat_lt, Char.toNat_val, Char.toNat_val]
  unfold digit
  omega

theorem digit_inj {c d : Char} (hc : c.isDigit = true) (hd : d.isDigit = true) :
    digit c = digit d ↔ c = d := by
  obtain ⟨hc, -⟩ := Char.isDigit_iff_toNat.mp hc
  obtain ⟨hd, -⟩ := Char.isDigit_iff_toNat.mp hd
  rw [← Char.toNat_inj]
  unfold digit
  omega

theorem decimal_cons (c : Char) (t : List Char) :
    decimal (c :: t) = digit c * 10 ^ t.length + decimal t := by
  unfold decimal
  rw [Nat.ofDigitChars_cons, Nat.ofDigitChars_eq_ofDigitChars_zero, Nat.mul_zero, Nat.zero_add,
    Nat.mul_comm, digit]

theorem decimal_lt {t : List Char} (ht : ∀ c ∈ t, c.isDigit = true) :
    decimal t < 10 ^ t.length := by
  induction t with
  | nil => simp [decimal]
  | cons c t ih =>
    have hc := digit_le (ht c List.mem_cons_self)
    have ih := ih fun d hd => ht d (List.mem_cons_of_mem _ hd)
    have hmul : digit c * 10 ^ t.length ≤ 9 * 10 ^ t.length := Nat.mul_le_mul_right _ hc
    rw [decimal_cons, List.length_cons, Nat.pow_succ]
    omega

theorem le_decimal {c : Char} {t : List Char} (hc : c.isDigit = true) (h0 : c ≠ '0') :
    10 ^ t.length ≤ decimal (c :: t) := by
  have hpos : 1 ≤ digit c := by
    have : digit c ≠ digit '0' := fun h => h0 ((digit_inj hc rfl).mp h)
    have : digit '0' = 0 := rfl
    omega
  have hmul : 1 * 10 ^ t.length ≤ digit c * 10 ^ t.length := Nat.mul_le_mul_right _ hpos
  rw [decimal_cons]
  omega

theorem decimal_lt_of_length_lt {t u : List Char} (ht : IsDigits t) (hu : IsDigits u)
    (hu0 : NoLeadingZero u) (hlen : t.length < u.length) : decimal t < decimal u := by
  obtain ⟨c, u, rfl⟩ := List.exists_cons_of_ne_nil hu.1
  have htne : 0 < t.length := List.length_pos_of_ne_nil ht.1
  have hc0 : c ≠ '0' := by
    rintro rfl
    rcases hu0 with h | h
    · rw [h, List.length_singleton] at hlen
      omega
    · simp at h
  calc decimal t < 10 ^ t.length := decimal_lt ht.2
    _ ≤ 10 ^ u.length := Nat.pow_le_pow_right (by decide) (Nat.le_of_lt_succ hlen)
    _ ≤ decimal (c :: u) := le_decimal (hu.2 c List.mem_cons_self) hc0

/-- At equal length the order of the values is the order of the texts. -/
theorem decimal_lt_iff_lt {t u : List Char} (ht : ∀ c ∈ t, c.isDigit = true)
    (hu : ∀ c ∈ u, c.isDigit = true) (hlen : t.length = u.length) :
    decimal t < decimal u ↔ t < u := by
  induction t generalizing u with
  | nil =>
    obtain rfl := List.length_eq_zero_iff.mp hlen.symm
    simp
  | cons c t ih =>
    cases u with
    | nil => simp at hlen
    | cons d u =>
      have hlen : t.length = u.length := by simpa using hlen
      have htl := decimal_lt fun x hx => ht x (List.mem_cons_of_mem _ hx)
      have hul := decimal_lt fun x hx => hu x (List.mem_cons_of_mem _ hx)
      have ih := ih (fun x hx => ht x (List.mem_cons_of_mem _ hx))
        (fun x hx => hu x (List.mem_cons_of_mem _ hx)) hlen
      have hc := ht c List.mem_cons_self
      have hd := hu d List.mem_cons_self
      rw [decimal_cons, decimal_cons, List.cons_lt_cons_iff, ← ih, ← digit_lt_iff hc hd,
        ← digit_inj hc hd, hlen]
      rw [hlen] at htl
      rcases Nat.lt_trichotomy (digit c) (digit d) with h | h | h
      · have hmul : (digit c + 1) * 10 ^ u.length ≤ digit d * 10 ^ u.length :=
          Nat.mul_le_mul_right _ h
        rw [Nat.succ_mul] at hmul
        exact ⟨fun _ => .inl h, fun _ => by omega⟩
      · rw [h]
        simp
      · have hmul : (digit d + 1) * 10 ^ u.length ≤ digit c * 10 ^ u.length :=
          Nat.mul_le_mul_right _ h
        rw [Nat.succ_mul] at hmul
        constructor
        · intro hlt
          omega
        · rintro (hlt | ⟨heq, -⟩) <;> omega

theorem decimal_inj {t u : List Char} (ht : IsDigits t) (hu : IsDigits u) (ht0 : NoLeadingZero t)
    (hu0 : NoLeadingZero u) (h : decimal t = decimal u) : t = u := by
  have hlen : t.length = u.length := by
    rcases Nat.lt_trichotomy t.length u.length with hlt | heq | hlt
    · have := decimal_lt_of_length_lt ht hu hu0 hlt
      omega
    · exact heq
    · have := decimal_lt_of_length_lt hu ht ht0 hlt
      omega
  have htu := (decimal_lt_iff_lt ht.2 hu.2 hlen).not.mp (by omega)
  have hut := (decimal_lt_iff_lt hu.2 ht.2 hlen.symm).not.mp (by omega)
  exact List.le_antisymm hut htu

end CxxUtil.Foundations
