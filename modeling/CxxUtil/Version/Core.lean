import CxxUtil.Foundations.Lexicographic

/-! # `Version`: the data and its operators

The class of `include/util/version.hpp` and the comparisons and the output operator of
`src/version.cpp`. A `std::string` is the list of its characters, and `unsigned` is `UInt32`. -/
namespace CxxUtil
open Foundations
set_option autoImplicit false

/-- `boost::variant<unsigned, std::string>`. -/
inductive Version.PreReleaseIdentifier
  | unsigned (n : UInt32)
  | text (s : List Char)
  deriving DecidableEq, Repr

/-- The tuple held in `mData`. -/
@[ext] structure Version.DataType where
  numbers : List UInt32
  preRelease : Option (List Version.PreReleaseIdentifier)
  buildMetadata : Option (List (List Char))
  deriving DecidableEq, Repr

structure Version where
  mData : Version.DataType
  deriving DecidableEq, Repr

namespace Version

def empty : Version := ⟨⟨[], none, none⟩⟩

def numbers (v : Version) : List UInt32 := v.mData.numbers
def preRelease (v : Version) : Option (List PreReleaseIdentifier) := v.mData.preRelease
def buildMetadata (v : Version) : Option (List (List Char)) := v.mData.buildMetadata

/-! ## Comparison -/

/-- `std::string`'s `<`. -/
def stringLess : List Char → List Char → Bool := lexicographicalCompare fun c d => decide (c < d)

/-- `boost::variant`'s `<`: the alternatives first, then the values. -/
def identifierLess : PreReleaseIdentifier → PreReleaseIdentifier → Bool
  | .unsigned m, .unsigned n => decide (m < n)
  | .unsigned _, .text _ => true
  | .text _, .unsigned _ => false
  | .text s, .text t => stringLess s t

/-- `boost::optional`'s `<`: `none` is less than any value. -/
def optionalLess {α : Type*} (less : α → α → Bool) : Option α → Option α → Bool
  | _, none => false
  | none, some _ => true
  | some a, some b => less a b

def preReleaseLess :
    Option (List PreReleaseIdentifier) → Option (List PreReleaseIdentifier) → Bool :=
  optionalLess (lexicographicalCompare identifierLess)

def operatorEq (a b : Version) : Bool :=
  a.numbers == b.numbers && a.preRelease == b.preRelease

def operatorLt (a b : Version) : Bool :=
  if a.numbers == b.numbers then
    -- `none` is less than any value, the opposite of what is wanted of a release
    if preReleaseLess a.preRelease b.preRelease then
      a.preRelease.isSome && b.preRelease.isSome
    else
      a.preRelease.isSome && !b.preRelease.isSome
  else
    lexicographicalCompare (fun m n => decide (m < n)) a.numbers b.numbers

def operatorNe (a b : Version) : Bool := !operatorEq a b
def operatorGt (a b : Version) : Bool := operatorLt b a
def operatorLe (a b : Version) : Bool := operatorLt a b || operatorEq a b
def operatorGe (a b : Version) : Bool := operatorGt a b || operatorEq a b

/-! ## Output -/

/-- `uint_` of Karma: decimal, without leading zeros. -/
def printUInt (n : UInt32) : List Char := Nat.toDigits 10 n.toNat

def printIdentifier : PreReleaseIdentifier → List Char
  | .unsigned n => printUInt n
  | .text s => s

/-- `-(c << auto_ % '.')` on the printed elements: nothing for an absent optional. -/
def printPart (c : Char) : Option (List (List Char)) → List Char
  | none => []
  | some texts => c :: ['.'].intercalate texts

def print (v : Version) : List Char :=
  if v.numbers.length ≠ 0 then
    ['.'].intercalate (v.numbers.map printUInt)
      ++ printPart '-' (v.preRelease.map (·.map printIdentifier))
      ++ printPart '+' v.buildMetadata
  else []

/-! ## The orders compared are trichotomous -/

theorem uint_trichotomous : Trichotomous fun m n : UInt32 => decide (m < n) where
  irrefl m := by simp
  eq_of_not m n h₁ h₂ := by
    simp only [decide_eq_false_iff_not, UInt32.not_lt] at h₁ h₂
    exact UInt32.le_antisymm h₂ h₁
  asymm m n h := by
    simp only [decide_eq_true_eq, decide_eq_false_iff_not, UInt32.not_lt] at h ⊢
    exact UInt32.le_of_lt h

theorem char_trichotomous : Trichotomous fun c d : Char => decide (c < d) where
  irrefl c := by simp
  eq_of_not c d h₁ h₂ := by
    simp only [decide_eq_false_iff_not, Char.not_lt] at h₁ h₂
    exact Char.le_antisymm h₂ h₁
  asymm c d h := by
    simp only [decide_eq_true_eq, decide_eq_false_iff_not] at h ⊢
    exact Char.lt_asymm h

theorem stringLess_trichotomous : Trichotomous stringLess :=
  lexicographicalCompare_trichotomous char_trichotomous

theorem stringLess_iff (s t : List Char) : stringLess s t = true ↔ s < t := by
  simpa [stringLess] using lexicographicalCompare_iff char_trichotomous s t

theorem identifierLess_trichotomous : Trichotomous identifierLess where
  irrefl a := by
    cases a with
    | unsigned n => exact uint_trichotomous.irrefl n
    | text s => exact stringLess_trichotomous.irrefl s
  eq_of_not a b h₁ h₂ := by
    cases a with
    | unsigned m =>
      cases b with
      | unsigned n => rw [uint_trichotomous.eq_of_not m n h₁ h₂]
      | text t => cases h₁
    | text s =>
      cases b with
      | unsigned n => cases h₂
      | text t => rw [stringLess_trichotomous.eq_of_not s t h₁ h₂]
  asymm a b h := by
    cases a with
    | unsigned m =>
      cases b with
      | unsigned n => exact uint_trichotomous.asymm m n h
      | text t => rfl
    | text s =>
      cases b with
      | unsigned n => cases h
      | text t => exact stringLess_trichotomous.asymm s t h

end Version
end CxxUtil
