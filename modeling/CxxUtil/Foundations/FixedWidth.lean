import Mathlib.Algebra.GroupWithZero.Nat
import Mathlib.Data.List.Forall2
import CxxUtil.Foundations.Decimal

/-! # Records of zero-padded numerals

A record is numbers printed in decimal, each in a field of its own width and followed by the text
that separates it from the next. When every number fits its field, records of one shape are as long
as each other, the numbers can be read back at their places (`readRecord_recordText`), and the
lexicographic order of the texts is that of the numbers (`recordText_lt_iff`). -/
namespace CxxUtil.Foundations
set_option autoImplicit false

/-- A wider number is not cut. -/
def padded (width n : ℕ) : List Char :=
  List.replicate (width - (Nat.toDigits 10 n).length) '0' ++ Nat.toDigits 10 n

theorem padded_digits (width n : ℕ) : ∀ c ∈ padded width n, c.isDigit = true := by
  intro c hc
  cases List.mem_append.mp hc with
  | inl hzero =>
    rw [List.eq_of_mem_replicate hzero]
    rfl
  | inr hdigit => exact Nat.isDigit_of_mem_toDigits (by decide) (by decide) hdigit

@[simp] theorem decimal_padded (width n : ℕ) : decimal (padded width n) = n := by
  rw [decimal, padded, Nat.ofDigitChars_append, Nat.ofDigitChars_replicate_zero, Nat.mul_zero,
    Nat.ofDigitChars_ten_toDigits]

/-- A numeral fits the width that it takes. -/
theorem lt_length_padded (width n : ℕ) : n < 10 ^ (padded width n).length := by
  have hlt := decimal_lt (padded_digits width n)
  rwa [decimal_padded] at hlt

theorem padded_length_padded (width n : ℕ) : padded (padded width n).length n = padded width n := by
  have hlen : (padded width n).length - (Nat.toDigits 10 n).length =
      width - (Nat.toDigits 10 n).length := by
    rw [padded, List.length_append, List.length_replicate]
    omega
  rw [padded, hlen, padded]

theorem length_padded_pos (width n : ℕ) : 0 < (padded width n).length := by
  have hpos : 0 < (Nat.toDigits 10 n).length := Nat.length_toDigits_pos
  rw [padded, List.length_append]
  omega

section
variable {width m n : ℕ}

theorem length_padded (hwidth : 0 < width) (hn : n < 10 ^ width) :
    (padded width n).length = width := by
  have hle := (Nat.length_toDigits_le_iff (by decide) hwidth).mpr hn
  rw [padded, List.length_append, List.length_replicate]
  omega

theorem padded_lt_iff (hwidth : 0 < width) (hm : m < 10 ^ width) (hn : n < 10 ^ width) :
    padded width m < padded width n ↔ m < n := by
  have hlen : (padded width m).length = (padded width n).length := by
    rw [length_padded hwidth hm, length_padded hwidth hn]
  have hlt := decimal_lt_iff_lt (padded_digits width m) (padded_digits width n) hlen
  rw [← hlt, decimal_padded, decimal_padded]

theorem padded_inj : padded width m = padded width n ↔ m = n := by
  constructor
  · intro h
    have hdecimal := congrArg decimal h
    rwa [decimal_padded, decimal_padded] at hdecimal
  · exact congrArg _

end

theorem append_lt_append_iff {α : Type*} [LT α] [Std.Irrefl fun a b : α => a < b] {p q : List α}
    (hlen : p.length = q.length) (r s : List α) : p ++ r < q ++ s ↔ p < q ∨ p = q ∧ r < s := by
  induction p generalizing q with
  | nil =>
    obtain rfl := List.length_eq_zero_iff.mp hlen.symm
    simp
  | cons a p ih =>
    cases q with
    | nil => cases hlen
    | cons b q =>
      have hrest := ih (Nat.succ.inj hlen)
      rw [List.cons_append, List.cons_append, List.cons_lt_cons_iff, List.cons_lt_cons_iff, hrest,
        List.cons_eq_cons]
      tauto

/-! ## Records -/

/-- `sep` follows the number. -/
structure Field where
  width : ℕ
  sep : List Char

def recordText : List Field → List ℕ → List Char
  | f :: fs, n :: ns => padded f.width n ++ (f.sep ++ recordText fs ns)
  | _, _ => []

def readRecord : List Field → List Char → List ℕ
  | [], _ => []
  | f :: fs, text =>
    decimal (text.take f.width) :: readRecord fs (text.drop (f.width + f.sep.length))

def recordLength (fs : List Field) : ℕ := (fs.map fun f => f.width + f.sep.length).sum

def FitsField (f : Field) (n : ℕ) : Prop := 0 < f.width ∧ n < 10 ^ f.width

/-- There is a number for each field, and it fits. -/
def Fits (fs : List Field) (ns : List ℕ) : Prop := List.Forall₂ FitsField fs ns

section
variable {fs : List Field} {ms ns : List ℕ}

theorem length_recordText (h : Fits fs ns) : (recordText fs ns).length = recordLength fs := by
  induction h with
  | nil => rfl
  | cons hfits _ ih =>
    rw [recordText, List.length_append, List.length_append, ih, length_padded hfits.1 hfits.2,
      ← Nat.add_assoc]
    rfl

theorem readRecord_recordText (h : Fits fs ns) (rest : List Char) :
    readRecord fs (recordText fs ns ++ rest) = ns := by
  induction h with
  | nil => rfl
  | @cons f n fs ns hfits _ ih =>
    have hlen := length_padded hfits.1 hfits.2
    have htake : (recordText (f :: fs) (n :: ns) ++ rest).take f.width = padded f.width n := by
      rw [recordText, List.append_assoc, List.take_left' hlen]
    have hdrop : (recordText (f :: fs) (n :: ns) ++ rest).drop (f.width + f.sep.length) =
        recordText fs ns ++ rest := by
      rw [recordText, List.append_assoc, List.append_assoc, ← List.drop_drop,
        List.drop_left' hlen, List.drop_left]
    rw [readRecord, htake, hdrop, decimal_padded, ih]

theorem recordText_lt_iff (hm : Fits fs ms) (hn : Fits fs ns) :
    recordText fs ms < recordText fs ns ↔ ms < ns := by
  induction hm generalizing ns with
  | nil =>
    cases hn
    exact iff_of_false (List.not_lt_nil []) (List.not_lt_nil [])
  | @cons f m fs ms hfits _ ih =>
    cases hn with
    | @cons _ n _ ns hfits' hns =>
      have hlen : (padded f.width m).length = (padded f.width n).length := by
        rw [length_padded hfits.1 hfits.2, length_padded hfits'.1 hfits'.2]
      have hrest : f.sep ++ recordText fs ms < f.sep ++ recordText fs ns ↔ ms < ns := by
        rw [append_lt_append_iff rfl, or_iff_right (List.lt_irrefl f.sep), ih hns,
          and_iff_right rfl]
      rw [recordText, recordText, append_lt_append_iff hlen, padded_lt_iff hfits.1 hfits.2 hfits'.2,
        padded_inj, hrest, List.cons_lt_cons_iff]

end
end CxxUtil.Foundations
