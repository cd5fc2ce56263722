import CxxUtil.Version.Acceptance

/-! # The comparison operators and Semantic Versioning precedence

Precedence is defined on the texts: `LowerPrecedence p q` compares the numbers numerically and then
the pre-releases, identifier by identifier. `operator<` compares what the texts are held as, and a
digit run above the maximum of `unsigned` is held as text, so it is put in its place by its
characters. `Misplaced` says when that place is the wrong one. -/
namespace CxxUtil.Version
open Foundations
set_option autoImplicit false

/-- Precedence of identifiers: numbers by value, others in ASCII order, a number below the rest. -/
def IdentifierLower (x y : List Char) : Prop :=
  if IsDigits x then if IsDigits y then decimal x < decimal y else True
  else if IsDigits y then False else x < y

instance (x y : List Char) : Decidable (IdentifierLower x y) :=
  inferInstanceAs (Decidable (ite _ _ _))

/-- Precedence of pre-releases: a pre-release is below its release. -/
def PreReleaseLower : Option (List (List Char)) → Option (List (List Char)) → Prop
  | some us, some ws => List.Lex IdentifierLower us ws
  | some _, none => True
  | none, _ => False

/-- The order of Semantic Versioning 2.0.0. Build metadata do not enter. -/
def LowerPrecedence (p q : VersionText) : Prop :=
  List.Lex (· < ·) (p.numbers.map decimal) (q.numbers.map decimal) ∨
    p.numbers.map decimal = q.numbers.map decimal ∧ PreReleaseLower p.preRelease q.preRelease

instance : ∀ a b, Decidable (PreReleaseLower a b)
  | some us, some ws => inferInstanceAs (Decidable (List.Lex IdentifierLower us ws))
  | some _, none => .isTrue trivial
  | none, _ => .isFalse id

instance (p q : VersionText) : Decidable (LowerPrecedence p q) :=
  inferInstanceAs (Decidable (_ ∨ _ ∧ _))

def SamePrecedence (p q : VersionText) : Prop := ¬ LowerPrecedence p q ∧ ¬ LowerPrecedence q p

/-- A number above the maximum of `unsigned`. -/
def Overlong (t : List Char) : Prop := IsDigits t ∧ UInt32.size ≤ decimal t

/-- `x` is an overlong number and belongs below `y`, a longer number or no number at all, but is
after it in ASCII order. -/
def SortsAfter (x y : List Char) : Prop :=
  Overlong x ∧ ((Overlong y ∧ x.length < y.length) ∨ ¬ IsDigits y) ∧ y < x

instance (t : List Char) : Decidable (Overlong t) := inferInstanceAs (Decidable (_ ∧ _))

instance (x y : List Char) : Decidable (SortsAfter x y) := inferInstanceAs (Decidable (_ ∧ _ ∧ _))

/-- The versions differ first in two pre-release identifiers one of which sorts after the other. -/
def Misplaced (p q : VersionText) : Prop :=
  p.numbers = q.numbers ∧ ∃ us ∈ p.preRelease, ∃ ws ∈ q.preRelease, ∃ x y,
    firstDifference us ws = some (x, y) ∧ (SortsAfter x y ∨ SortsAfter y x)

/-! ## What `operator<` decides -/

theorem operatorLt_of_numbers_ne {a b : Version} (h : a.numbers ≠ b.numbers) :
    operatorLt a b = true ↔ List.Lex (· < ·) a.numbers b.numbers := by
  rw [operatorLt, if_neg (by simpa using h), lexicographicalCompare_iff uint_trichotomous]
  simp

theorem operatorLt_of_numbers_eq {a b : Version} (h : a.numbers = b.numbers) :
    operatorLt a b = true ↔
      match a.preRelease, b.preRelease with
      | some us, some ws => List.Lex (fun x y => identifierLess x y = true) us ws
      | some _, none => True
      | none, _ => False := by
  rw [operatorLt, if_pos (by simpa using h)]
  cases a.preRelease with
  | none => cases b.preRelease <;> simp [preReleaseLess, optionalLess]
  | some us =>
    cases b.preRelease with
    | none => simp [preReleaseLess, optionalLess]
    | some ws =>
      have hlex := lexicographicalCompare_iff identifierLess_trichotomous us ws
      simpa [preReleaseLess, optionalLess] using hlex

/-! ## Identifiers -/

def Canonical (t : List Char) : Prop := IsDigits t → NoLeadingZero t

theorem held_of_overlong {t : List Char} (ht : Overlong t) : held t = .text t := by
  unfold held
  rw [if_neg]
  rintro ⟨-, hfit⟩
  have := ht.2
  omega

theorem held_of_not_isDigits {t : List Char} (hne : t ≠ []) (ht : ¬ IsDigits t) :
    held t = .text t := by
  unfold held
  rw [if_neg]
  rintro ⟨hall, -⟩
  exact ht ⟨hne, List.all_eq_true.mp hall⟩

theorem ofNat_inj {m n : ℕ} (hm : m < UInt32.size) (hn : n < UInt32.size)
    (h : UInt32.ofNat m = UInt32.ofNat n) : m = n := by
  rw [← UInt32.toNat_ofNat_of_lt' hm, h, UInt32.toNat_ofNat_of_lt' hn]

theorem held_kinds {t : List Char} (ht : IsIdentifier t) :
    (IsDigits t ∧ decimal t < UInt32.size ∧ held t = .unsigned (UInt32.ofNat (decimal t))) ∨
      (Overlong t ∧ held t = .text t) ∨ (¬ IsDigits t ∧ held t = .text t) := by
  by_cases hdig : IsDigits t
  · by_cases hfit : decimal t < UInt32.size
    · exact .inl ⟨hdig, hfit, held_of_isDigits hdig hfit⟩
    · have hlong : Overlong t := ⟨hdig, Nat.le_of_not_lt hfit⟩
      exact .inr (.inl ⟨hlong, held_of_overlong hlong⟩)
  · exact .inr (.inr ⟨hdig, held_of_not_isDigits ht.1 hdig⟩)

theorem held_inj {x y : List Char} (hx : IsIdentifier x) (hy : IsIdentifier y) (hx0 : Canonical x)
    (hy0 : Canonical y) (h : held x = held y) : x = y := by
  rcases held_kinds hx with ⟨hxd, hxf, hxh⟩ | ⟨-, hxh⟩ | ⟨-, hxh⟩ <;>
    rcases held_kinds hy with ⟨hyd, hyf, hyh⟩ | ⟨-, hyh⟩ | ⟨-, hyh⟩ <;>
    rw [hxh, hyh] at h
  case inl.inl =>
    have hval := ofNat_inj hxf hyf (PreReleaseIdentifier.unsigned.inj h)
    exact decimal_inj hxd hyd (hx0 hxd) (hy0 hyd) hval
  all_goals first
    | exact PreReleaseIdentifier.text.inj h
    | cases h

theorem lt_iff_not_lt {x y : List Char} (hne : x ≠ y) : x < y ↔ ¬ y < x :=
  ⟨fun h h' => List.lt_asymm h h', fun h =>
    Decidable.byContradiction fun h' => hne (List.le_antisymm h h')⟩

/-- Of two overlong numbers held as text the order is that of the values, unless the longer one
comes first in ASCII order. -/
theorem overlong_lt_iff {x y : List Char} (hne : x ≠ y) (hx : Overlong x) (hy : Overlong y)
    (hx0 : Canonical x) (hy0 : Canonical y) :
    (x < y ↔ decimal x < decimal y) ↔ ¬ (SortsAfter x y ∨ SortsAfter y x) := by
  have hnot := lt_iff_not_lt hne
  simp only [SortsAfter, hx, hy, hx.1, hy.1, true_and, not_true, or_false]
  -- without leading zeros the longer number is the larger one
  rcases Nat.lt_trichotomy x.length y.length with hlen | hlen | hlen
  · have hval := decimal_lt_of_length_lt hx.1 hy.1 (hy0 hy.1) hlen
    simp [hval, hlen, hnot, Nat.not_lt.mpr hlen.le]
  · have hval := decimal_lt_iff_lt hx.1.2 hy.1.2 hlen
    simp [hval, hlen]
  · have hval := decimal_lt_of_length_lt hy.1 hx.1 (hx0 hx.1) hlen
    simp [Nat.not_lt.mpr hval.le, hlen, Nat.not_lt.mpr hlen.le]

/-- On two identifiers that differ, `variant`'s order of what they are held as is precedence exactly
when neither sorts after the other. -/
theorem identifierLess_held_iff {x y : List Char} (hne : x ≠ y) (hx : IsIdentifier x)
    (hy : IsIdentifier y) (hx0 : Canonical x) (hy0 : Canonical y) :
    (identifierLess (held x) (held y) = true ↔ IdentifierLower x y) ↔
      ¬ (SortsAfter x y ∨ SortsAfter y x) := by
  have hfits {t : List Char} (h : decimal t < UInt32.size) : ¬ Overlong t := fun hl => by
    have := hl.2
    omega
  rcases held_kinds hx with ⟨hxd, hxf, hxh⟩ | ⟨hxl, hxh⟩ | ⟨hxd, hxh⟩ <;>
    rcases held_kinds hy with ⟨hyd, hyf, hyh⟩ | ⟨hyl, hyh⟩ | ⟨hyd, hyh⟩ <;>
    rw [hxh, hyh]
  -- unsigned values come first in the variant's order, as numbers do in precedence
  case inl.inl =>
    have hlt := UInt32.ofNat_lt_iff_lt hxf hyf
    simp [identifierLess, IdentifierLower, SortsAfter, hxd, hyd, hlt, hfits hxf, hfits hyf]
  case inl.inr.inl =>
    have hlt : decimal x < decimal y := by
      have := hyl.2
      omega
    simp [identifierLess, IdentifierLower, SortsAfter, hxd, hyl.1, hlt, hfits hxf]
  case inl.inr.inr =>
    have hyl : ¬ Overlong y := fun h => hyd h.1
    simp [identifierLess, IdentifierLower, SortsAfter, hxd, hyd, hfits hxf, hyl]
  -- an overlong number is compared as text, also with what is no number
  case inr.inl.inl =>
    have hlt : ¬ decimal x < decimal y := by
      have := hxl.2
      omega
    simp [identifierLess, IdentifierLower, SortsAfter, hxl.1, hyd, hlt, hfits hyf]
  case inr.inl.inr.inl =>
    simp only [identifierLess, IdentifierLower, hxl.1, hyl.1, if_true, stringLess_iff]
    exact overlong_lt_iff hne hxl hyl hx0 hy0
  case inr.inl.inr.inr =>
    have hyl : ¬ Overlong y := fun h => hyd h.1
    simp [identifierLess, IdentifierLower, SortsAfter, hxl, hxl.1, hyd, hyl, stringLess_iff,
      lt_iff_not_lt hne]
  case inr.inr.inl =>
    have hxl : ¬ Overlong x := fun h => hxd h.1
    simp [identifierLess, IdentifierLower, SortsAfter, hxd, hyd, hfits hyf, hxl]
  case inr.inr.inr.inl =>
    have hxl : ¬ Overlong x := fun h => hxd h.1
    simp [identifierLess, IdentifierLower, SortsAfter, hxd, hyl, hyl.1, hxl, stringLess_iff]
  case inr.inr.inr.inr =>
    have hxl : ¬ Overlong x := fun h => hxd h.1
    have hyl : ¬ Overlong y := fun h => hyd h.1
    simp [identifierLess, IdentifierLower, SortsAfter, hxd, hyd, hxl, hyl, stringLess_iff]

theorem identifierLower_irrefl (x : List Char) : ¬ IdentifierLower x x := by
  unfold IdentifierLower
  split <;> simp

theorem identifierLower_connected {x y : List Char} (hx0 : Canonical x) (hy0 : Canonical y)
    (hne : x ≠ y) : IdentifierLower x y ∨ IdentifierLower y x := by
  by_cases hx : IsDigits x <;> by_cases hy : IsDigits y <;> simp only [IdentifierLower, hx, hy,
    if_true, if_false, true_or, or_true]
  · exact Nat.lt_or_gt_of_ne fun h => hne (decimal_inj hx hy (hx0 hx) (hy0 hy) h)
  · exact (Decidable.em (y < x)).elim .inr fun h => .inl ((lt_iff_not_lt hne).mpr h)

/-! ## Pre-releases and numbers -/

section
variable {p q : VersionText} (hp : p.IsSemVer) (hq : q.IsSemVer)
include hp

theorem VersionText.IsSemVer.identifier {us : List (List Char)} (hus : us ∈ p.preRelease)
    {x : List Char} (hx : x ∈ us) : IsIdentifier x ∧ Canonical x :=
  ⟨(p.preRelease_identifiers us hus).2 x hx, hp.preRelease us hus x hx⟩

include hq

theorem decimal_inj_on : ∀ t ∈ p.numbers, ∀ u ∈ q.numbers, decimal t = decimal u → t = u :=
  fun t ht u hu h => decimal_inj (p.numbers_digits t ht) (q.numbers_digits u hu) (hp.numbers t ht)
    (hq.numbers u hu) h

theorem held_inj_on {us ws : List (List Char)} (hus : us ∈ p.preRelease) (hws : ws ∈ q.preRelease) :
    ∀ x ∈ us, ∀ y ∈ ws, held x = held y → x = y := fun _ hx _ hy h =>
  have ⟨hx, hx0⟩ := hp.identifier hus hx
  have ⟨hy, hy0⟩ := hq.identifier hws hy
  held_inj hx hy hx0 hy0 h

theorem preRelease_eq_iff :
    p.data.preRelease = q.data.preRelease ↔ p.preRelease = q.preRelease := by
  cases hpp : p.preRelease with
  | none => cases hqp : q.preRelease <;> simp [VersionText.data, hpp, hqp]
  | some us =>
    cases hqp : q.preRelease with
    | none => simp [VersionText.data, hpp, hqp]
    | some ws =>
      simpa [VersionText.data, hpp, hqp] using map_inj_on (held_inj_on hp hq hpp hqp)

theorem preReleaseLower_connected (hne : p.preRelease ≠ q.preRelease) :
    PreReleaseLower p.preRelease q.preRelease ∨ PreReleaseLower q.preRelease p.preRelease := by
  cases hpp : p.preRelease with
  | none =>
    cases hqp : q.preRelease with
    | none => exact absurd (hpp.trans hqp.symm) hne
    | some ws => exact .inr trivial
  | some us =>
    cases hqp : q.preRelease with
    | none => exact .inl trivial
    | some ws =>
      refine lex_connected (fun x hx y hy hxy => ?_) fun h => hne (by rw [hpp, hqp, h])
      exact identifierLower_connected (hp.identifier hpp hx).2 (hq.identifier hqp hy).2 hxy

theorem samePrecedence_iff :
    SamePrecedence p q ↔ p.numbers = q.numbers ∧ p.preRelease = q.preRelease := by
  have hnums := map_inj_on (decimal_inj_on hp hq)
  constructor
  · rintro ⟨hpq, hqp⟩
    have heq : p.numbers.map decimal = q.numbers.map decimal := by
      by_contra hne
      rcases lex_connected (fun _ _ _ _ h => Nat.lt_or_gt_of_ne h) hne with h | h
      · exact hpq (.inl h)
      · exact hqp (.inl h)
    refine ⟨hnums.mp heq, ?_⟩
    by_contra hne
    rcases preReleaseLower_connected hp hq hne with h | h
    · exact hpq (.inr ⟨heq, h⟩)
    · exact hqp (.inr ⟨heq.symm, h⟩)
  · rintro ⟨hnum, hpre⟩
    have hlex := List.lex_irrefl Nat.lt_irrefl (q.numbers.map decimal)
    have hlower : ¬ PreReleaseLower q.preRelease q.preRelease := by
      cases q.preRelease with
      | none => exact id
      | some ws => exact List.lex_irrefl identifierLower_irrefl ws
    simp [SamePrecedence, LowerPrecedence, hnum, hpre, hlex, hlower]

theorem numbers_inj_on (hpf : p.Fits) (hqf : q.Fits) : ∀ t ∈ p.numbers, ∀ u ∈ q.numbers,
    UInt32.ofNat (decimal t) = UInt32.ofNat (decimal u) → t = u := fun t ht u hu h =>
  decimal_inj_on hp hq t ht u hu (ofNat_inj (hpf t ht) (hqf u hu) h)

theorem numbers_eq_iff (hpf : p.Fits) (hqf : q.Fits) :
    p.data.numbers = q.data.numbers ↔ p.numbers = q.numbers :=
  map_inj_on (numbers_inj_on hp hq hpf hqf)

theorem numbers_lex_iff (hpf : p.Fits) (hqf : q.Fits) :
    List.Lex (· < ·) p.data.numbers q.data.numbers ↔
      List.Lex (· < ·) (p.numbers.map decimal) (q.numbers.map decimal) := by
  rw [lex_map_iff (decimal_inj_on hp hq), VersionText.data, VersionText.data,
    lex_map_iff (numbers_inj_on hp hq hpf hqf)]
  exact lex_congr fun t ht u hu => UInt32.ofNat_lt_iff_lt (hpf t ht) (hqf u hu)

/-! ## The operators -/

theorem operatorEq_iff (hpf : p.Fits) (hqf : q.Fits) :
    operatorEq ⟨p.data⟩ ⟨q.data⟩ = true ↔ SamePrecedence p q := by
  rw [samePrecedence_iff hp hq, ← numbers_eq_iff hp hq hpf hqf, ← preRelease_eq_iff hp hq]
  simp [operatorEq, Version.numbers, Version.preRelease]

/-- On two pre-releases `operator<` and precedence agree unless the first identifiers in which they
differ are misplaced. -/
theorem lex_held_iff {us ws : List (List Char)} (hus : us ∈ p.preRelease)
    (hws : ws ∈ q.preRelease) :
    (List.Lex (fun x y => identifierLess x y = true) (us.map held) (ws.map held) ↔
        List.Lex IdentifierLower us ws) ↔
      ¬ ∃ x y, firstDifference us ws = some (x, y) ∧ (SortsAfter x y ∨ SortsAfter y x) := by
  have hirrefl (x : List Char) : ¬ identifierLess (held x) (held x) = true := by
    simp [identifierLess_trichotomous.irrefl]
  rw [lex_map_iff (held_inj_on hp hq hus hws), lex_iff_firstDifference hirrefl,
    lex_iff_firstDifference identifierLower_irrefl]
  cases hfirst : firstDifference us ws with
  | none => simp
  | some xy =>
    obtain ⟨x, y⟩ := xy
    obtain ⟨hne, hx, hy⟩ := firstDifference_ne hfirst
    obtain ⟨hx, hx0⟩ := hp.identifier hus hx
    obtain ⟨hy, hy0⟩ := hq.identifier hws hy
    rw [identifierLess_held_iff hne hx hy hx0 hy0]
    simp

/-- `operator<` is lower precedence unless the versions are misplaced. -/
theorem operatorLt_iff_lowerPrecedence (hpf : p.Fits) (hqf : q.Fits) :
    (operatorLt ⟨p.data⟩ ⟨q.data⟩ = true ↔ LowerPrecedence p q) ↔ ¬ Misplaced p q := by
  by_cases hnum : p.numbers = q.numbers
  · have hlex := List.lex_irrefl Nat.lt_irrefl (q.numbers.map decimal)
    have hlower : LowerPrecedence p q ↔ PreReleaseLower p.preRelease q.preRelease := by
      simp [LowerPrecedence, hnum, hlex]
    have hdata : p.data.numbers = q.data.numbers := (numbers_eq_iff hp hq hpf hqf).mpr hnum
    rw [operatorLt_of_numbers_eq (a := ⟨p.data⟩) (b := ⟨q.data⟩) hdata, hlower]
    cases hpp : p.preRelease with
    | none => simp [Misplaced, Version.preRelease, VersionText.data, hpp, PreReleaseLower]
    | some us =>
      cases hqp : q.preRelease with
      | none => simp [Misplaced, Version.preRelease, VersionText.data, hpp, hqp, PreReleaseLower]
      | some ws =>
        simpa [Misplaced, Version.preRelease, VersionText.data, hpp, hqp, PreReleaseLower, hnum]
          using lex_held_iff hp hq hpp hqp
  · have hmap : p.numbers.map decimal ≠ q.numbers.map decimal := fun h =>
      hnum ((map_inj_on (decimal_inj_on hp hq)).mp h)
    have hdata : p.data.numbers ≠ q.data.numbers := fun h =>
      hnum ((numbers_eq_iff hp hq hpf hqf).mp h)
    rw [operatorLt_of_numbers_ne (a := ⟨p.data⟩) (b := ⟨q.data⟩) hdata]
    simp [LowerPrecedence, Misplaced, hnum, hmap, Version.numbers, numbers_lex_iff hp hq hpf hqf]

end

/-- Two accepted Semantic Versioning strings are compared by precedence exactly when they are not
misplaced. -/
theorem precedence_agrees_iff {v₁ v₂ a b : Version} {p q : VersionText} (hp : p.IsSemVer)
    (hq : q.IsSemVer) (ha : v₁.parse p.text = (a, .returned true))
    (hb : v₂.parse q.text = (b, .returned true)) :
    ((operatorLt a b = true ↔ LowerPrecedence p q) ∧
        (operatorEq a b = true ↔ SamePrecedence p q)) ↔ ¬ Misplaced p q := by
  obtain ⟨p', hp', hpf, -, rfl⟩ := VersionGrammar.parse_read ha
  obtain rfl := VersionText.text_injective hp'
  obtain ⟨q', hq', hqf, -, rfl⟩ := VersionGrammar.parse_read hb
  obtain rfl := VersionText.text_injective hq'
  rw [operatorLt_iff_lowerPrecedence hp hq hpf hqf, operatorEq_iff hp hq hpf hqf]
  simp

theorem preReleaseText_isSemVer {x : List Char} {hx : IsIdentifier x} (hx0 : Canonical x) :
    (preReleaseText x hx).IsSemVer where
  noV := rfl
  three := rfl
  numbers := by
    simp only [preReleaseText]
    decide
  preRelease := by simpa [preReleaseText, Canonical] using hx0

def shortText : VersionText :=
  preReleaseText ['4', '2', '9', '4', '9', '6', '7', '2', '9', '6'] (by decide)

def longText : VersionText :=
  preReleaseText ['1', '0', '0', '0', '0', '0', '0', '0', '0', '0', '0'] (by decide)

def letterText : VersionText := preReleaseText ['r', 'c'] (by decide)

theorem shortText_isSemVer : shortText.IsSemVer := preReleaseText_isSemVer fun _ => by decide
theorem longText_isSemVer : longText.IsSemVer := preReleaseText_isSemVer fun _ => by decide
theorem letterText_isSemVer : letterText.IsSemVer :=
  preReleaseText_isSemVer fun h => absurd h (by decide)

theorem precedence_agrees_overlong :
    ∃ a b, Version.parse .empty longText.text = (a, .returned true) ∧
      Version.parse .empty letterText.text = (b, .returned true) ∧
      (operatorLt a b = true ↔ LowerPrecedence longText letterText) := by
  have ha : Version.parse .empty longText.text = (_, .returned true) := Prod.ext rfl (by decide)
  have hb : Version.parse .empty letterText.text = (_, .returned true) := Prod.ext rfl (by decide)
  refine ⟨_, _, ha, hb, ?_⟩
  refine ((precedence_agrees_iff longText_isSemVer letterText_isSemVer ha hb).mpr ?_).1
  rintro ⟨-, us, hus, ws, hws, x, y, hxy, hsorts⟩
  obtain rfl := Option.some.inj hus
  obtain rfl := Option.some.inj hws
  obtain ⟨rfl, rfl⟩ := Prod.mk.inj (Option.some.inj hxy)
  exact absurd hsorts (by decide)

/-- The larger number is put below the smaller one. -/
theorem operatorLt_misplaces_overlong :
    shortText.IsSemVer ∧ longText.IsSemVer ∧
      ∃ a b, Version.parse .empty longText.text = (a, .returned true) ∧
        Version.parse .empty shortText.text = (b, .returned true) ∧
        operatorLt a b = true ∧ ¬ LowerPrecedence longText shortText :=
  ⟨shortText_isSemVer, longText_isSemVer, _, _, Prod.ext rfl (by decide), Prod.ext rfl (by decide),
    by decide, by decide⟩

end CxxUtil.Version
