import Mathlib.Data.Int.Init
import Mathlib.Data.Int.Notation
import CxxUtil.Foundations.Separated

/-! # `toHexString`

`include/util/tohexstring.hpp`, over an output stream with a field width. Every insertion pads its
text on the left with blanks and sets the width back to 0, so that `setw(2)` is for the first byte
only. A hexadecimal `int` is printed as the unsigned number of 32 bits that it converts to. -/
namespace CxxUtil.Text
open Foundations
set_option autoImplicit false

/-- The element type: `unsigned char`, or a `char` that is signed or not. -/
inductive CharType
  | unsigned
  | signed
  deriving DecidableEq, Repr

/-- `static_cast<int>`. -/
def CharType.toInt : CharType → UInt8 → ℤ
  | .unsigned, b => b.toNat
  | .signed, b => b.toBitVec.toInt

structure OStream where
  width : ℕ
  text : List Char

namespace OStream

def insert (ss : OStream) (t : List Char) : OStream :=
  ⟨0, ss.text ++ List.replicate (ss.width - t.length) ' ' ++ t⟩

end OStream

def hex (n : ℤ) : List Char := Nat.toDigits 16 (BitVec.ofInt 32 n).toNat

def toHexString (ty : CharType) (bytes : List UInt8) : List Char :=
  let ss : OStream := ⟨2, []⟩
  match bytes with
  | [] => ss.text
  | b :: bs =>
    let ss := ss.insert (hex (ty.toInt b))
    (bs.foldl (fun ss b => (ss.insert [' ']).insert (hex (ty.toInt b))) ss).text

/-! ## The dump that it is to be -/

def twoDigits (b : UInt8) : List Char :=
  [Nat.digitChar (b.toNat / 16), Nat.digitChar (b.toNat % 16)]

def hexDump (bytes : List UInt8) : List Char := [' '].intercalate (bytes.map twoDigits)

def hexValue (c : Char) : Option ℕ := (List.range 16).find? fun d => Nat.digitChar d == c

def readPair : List Char → Option UInt8
  | [a, b] =>
    match hexValue a, hexValue b with
    | some m, some n => some (UInt8.ofNat (16 * m + n))
    | _, _ => none
  | _ => none

/-- Reads the pairs of digits back. -/
def readDump (text : List Char) : Option (List UInt8) :=
  if text = [] then some [] else (text.splitOn ' ').mapM readPair

/-- What is to be said of the dump of `bytes`. -/
structure FixedWidth (ty : CharType) (bytes : List UInt8) : Prop where
  dump : toHexString ty bytes = hexDump bytes
  length : (toHexString ty bytes).length = 3 * bytes.length - 1
  read : readDump (toHexString ty bytes) = some bytes
  joined : ∀ as bs, as ≠ [] → bs ≠ [] → bytes = as ++ bs →
    toHexString ty bytes = toHexString ty as ++ ' ' :: toHexString ty bs

theorem hexValue_digitChar {d : ℕ} (hd : d < 16) : hexValue (Nat.digitChar d) = some d := by
  decide +revert

theorem digitChar_ne_blank {d : ℕ} (hd : d < 16) : Nat.digitChar d ≠ ' ' := by
  decide +revert

theorem readPair_twoDigits (b : UInt8) : readPair (twoDigits b) = some b := by
  have hb := b.toNat_lt
  have hsum : 16 * (b.toNat / 16) + b.toNat % 16 = b.toNat := by omega
  simp only [readPair, twoDigits, hexValue_digitChar (show b.toNat / 16 < 16 by omega),
    hexValue_digitChar (show b.toNat % 16 < 16 by omega), hsum, UInt8.ofNat_toNat]

theorem blank_not_mem_twoDigits (b : UInt8) : ' ' ∉ twoDigits b := by
  have hb := b.toNat_lt
  simp only [twoDigits, List.mem_cons, List.not_mem_nil, or_false, not_or]
  exact ⟨(digitChar_ne_blank (by omega)).symm, (digitChar_ne_blank (by omega)).symm⟩

theorem length_hexDump (bytes : List UInt8) : (hexDump bytes).length = 3 * bytes.length - 1 := by
  cases bytes with
  | nil => rfl
  | cons b bs =>
    have hrest : ((bs.map twoDigits).flatMap (' ' :: ·)).length = 3 * bs.length := by
      induction bs with
      | nil => rfl
      | cons c cs ih =>
        rw [List.map_cons, List.flatMap_cons, List.length_append, ih, List.length_cons]
        simp [twoDigits]
        omega
    rw [hexDump, List.map_cons, intercalate_cons, List.length_append, hrest, List.length_cons]
    simp [twoDigits]
    omega

theorem readDump_hexDump (bytes : List UInt8) : readDump (hexDump bytes) = some bytes := by
  cases bytes with
  | nil => rfl
  | cons b bs =>
    have hne : hexDump (b :: bs) ≠ [] := by simp [hexDump, intercalate_cons, twoDigits]
    have hsplit : (hexDump (b :: bs)).splitOn ' ' = (b :: bs).map twoDigits := by
      refine List.splitOn_intercalate ' ' ?_ (by simp)
      intro t ht
      obtain ⟨c, -, rfl⟩ := List.mem_map.mp ht
      exact blank_not_mem_twoDigits c
    have hread (cs : List UInt8) : (cs.map twoDigits).mapM readPair = some cs := by
      induction cs with
      | nil => rfl
      | cons c cs ih => simp [readPair_twoDigits, ih]
    rw [readDump, if_neg hne, hsplit, hread]

theorem hexDump_append {as bs : List UInt8} (ha : as ≠ []) (hb : bs ≠ []) :
    hexDump (as ++ bs) = hexDump as ++ ' ' :: hexDump bs := by
  rw [hexDump, List.map_append, intercalate_append ' ' (by simpa using ha) (by simpa using hb)]
  rfl

/-! ## The digits of one byte -/

theorem blank_not_mem_toDigits (n : ℕ) : ' ' ∉ Nat.toDigits 16 n := by
  induction n using Nat.strongRecOn with
  | ind n ih =>
    rw [Nat.toDigits_eq_if (by decide)]
    split
    case isTrue hlt =>
      rw [List.mem_singleton]
      exact (digitChar_ne_blank hlt).symm
    case isFalse hge =>
      have hlast := digitChar_ne_blank (Nat.mod_lt n (by decide : 0 < 16))
      rw [List.mem_append, List.mem_singleton, not_or]
      exact ⟨ih (n / 16) (by omega), hlast.symm⟩

section
variable (ty : CharType) (b : UInt8)

theorem toInt_cases : ty.toInt b = b.toNat ∨ ty.toInt b < 0 ∧ ty.toInt b = b.toNat - 256 := by
  have hb := b.toNat_lt
  cases ty with
  | unsigned => exact .inl rfl
  | signed =>
    have htoInt : CharType.signed.toInt b = Int.bmod b.toNat 256 :=
      BitVec.toInt_eq_toNat_bmod b.toBitVec
    rw [htoInt, Int.bmod_def]
    omega

theorem hex_of_ge (h : 16 ≤ ty.toInt b) : hex (ty.toInt b) = twoDigits b := by
  have hb := b.toNat_lt
  have heq : ty.toInt b = b.toNat := by
    rcases toInt_cases ty b with heq | ⟨hneg, -⟩ <;> omega
  have hbits : (BitVec.ofInt 32 (ty.toInt b)).toNat = b.toNat := by
    rw [heq, BitVec.toNat_ofInt]
    omega
  rw [hex, hbits, Nat.toDigits_of_base_le (by decide) (by omega),
    Nat.toDigits_of_lt_base (by omega)]
  rfl

theorem length_hex_iff : (hex (ty.toInt b)).length = 2 ↔ 16 ≤ ty.toInt b := by
  have hb := b.toNat_lt
  have htwo := Nat.length_toDigits_le_iff (b := 16) (n := (BitVec.ofInt 32 (ty.toInt b)).toNat)
    (k := 2) (by decide) (by decide)
  have hone := Nat.length_toDigits_le_iff (b := 16) (n := (BitVec.ofInt 32 (ty.toInt b)).toNat)
    (k := 1) (by decide) (by decide)
  have hcases := toInt_cases ty b
  rw [BitVec.toNat_ofInt] at htwo hone
  rw [hex, BitVec.toNat_ofInt]
  omega

end

/-! ## The dump that it is -/

section
variable {ty : CharType} {bytes : List UInt8}

theorem text_foldl (bs : List UInt8) (text : List Char) :
    (bs.foldl (fun (ss : OStream) b => (ss.insert [' ']).insert (hex (ty.toInt b)))
      ⟨0, text⟩).text =
      text ++ (bs.map fun b => hex (ty.toInt b)).flatMap (' ' :: ·) := by
  induction bs generalizing text with
  | nil => simp
  | cons b bs ih =>
    rw [List.foldl_cons, OStream.insert, OStream.insert, ih]
    simp

/-- A first byte of one digit comes after a blank, as if after an empty text. -/
theorem toHexString_cons (ty : CharType) (b : UInt8) (bs : List UInt8) :
    toHexString ty (b :: bs) = [' '].intercalate
      ((if (hex (ty.toInt b)).length = 1 then [[]] else []) ++
        (b :: bs).map fun b => hex (ty.toInt b)) := by
  have hpos : 0 < (hex (ty.toInt b)).length := Nat.length_toDigits_pos
  have htext : toHexString ty (b :: bs) = List.replicate (2 - (hex (ty.toInt b)).length) ' ' ++
      hex (ty.toInt b) ++ (bs.map fun b => hex (ty.toInt b)).flatMap (' ' :: ·) :=
    text_foldl bs _
  rw [htext]
  split
  case isTrue hone => simp [hone, intercalate_cons]
  case isFalse hone =>
    have hpad : 2 - (hex (ty.toInt b)).length = 0 := by omega
    simp [hpad, intercalate_cons]

theorem toHexString_eq (h : ∀ b ∈ bytes, 16 ≤ ty.toInt b) :
    toHexString ty bytes = hexDump bytes := by
  cases bytes with
  | nil => rfl
  | cons b bs =>
    have hdigits : (b :: bs).map (fun b => hex (ty.toInt b)) = (b :: bs).map twoDigits :=
      List.map_congr_left fun c hc => hex_of_ge ty c (h c hc)
    have hone : (hex (ty.toInt b)).length ≠ 1 := by
      rw [(length_hex_iff ty b).mpr (h b List.mem_cons_self)]
      decide
    rw [toHexString_cons, if_neg hone, hdigits]
    rfl

theorem ge_of_toHexString_eq (h : toHexString ty bytes = hexDump bytes) :
    ∀ b ∈ bytes, 16 ≤ ty.toInt b := by
  cases bytes with
  | nil => simp
  | cons b bs =>
    -- between the blanks are the digits of one byte each
    rw [toHexString_cons] at h
    have htexts := intercalate_inj (by simp) (by simp) ?_ ?_ h
    · split at htexts
      case isTrue =>
        have hlen := congrArg List.length htexts
        simp at hlen
      case isFalse =>
        intro c hc
        have hdigits : hex (ty.toInt c) = twoDigits c := List.map_inj_left.mp htexts c hc
        rw [← length_hex_iff, hdigits]
        rfl
    · intro t ht
      rcases List.mem_append.mp ht with ht | ht
      · split at ht
        case isTrue => simp_all
        case isFalse => cases ht
      · obtain ⟨c, -, rfl⟩ := List.mem_map.mp ht
        exact blank_not_mem_toDigits _
    · intro t ht
      obtain ⟨c, -, rfl⟩ := List.mem_map.mp ht
      exact blank_not_mem_twoDigits c

/-- The dump is of fixed width exactly when every element is at least 16 as an `int`. -/
theorem toHexString_fixed_width_iff (ty : CharType) (bytes : List UInt8) :
    FixedWidth ty bytes ↔ ∀ b ∈ bytes, 16 ≤ ty.toInt b := by
  constructor
  · exact fun h => ge_of_toHexString_eq h.dump
  · intro h
    have hdump := toHexString_eq h
    constructor
    case dump => exact hdump
    case length => rw [hdump, length_hexDump]
    case read => rw [hdump, readDump_hexDump]
    case joined =>
      rintro as bs ha hb rfl
      have has := toHexString_eq fun c hc => h c (List.mem_append_left bs hc)
      have hbs := toHexString_eq fun c hc => h c (List.mem_append_right as hc)
      rw [hdump, has, hbs, hexDump_append ha hb]

end

/-- The first byte is padded with a blank, those behind it are not padded, and a negative `char` has
eight digits. -/
theorem toHexString_not_fixed_width :
    toHexString .unsigned [0x05, 0x0a] = [' ', '5', ' ', 'a'] ∧
      toHexString .signed [0xff] = ['f', 'f', 'f', 'f', 'f', 'f', 'f', 'f'] ∧
      ¬ ∀ ty bytes, FixedWidth ty bytes := by
  refine ⟨by decide, by decide, fun hall => ?_⟩
  exact absurd (hall .unsigned [0x05, 0x0a]).dump (by decide)

end CxxUtil.Text
