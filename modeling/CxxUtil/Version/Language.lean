import CxxUtil.Foundations.Decimal
import CxxUtil.Version.Grammar

/-! # The texts the rules describe

`VersionText` is the plain reading of the grammar, with no parser in it: an optional `v`, the texts
between the dots of the three lists, and what these texts are made of. A version string is the text
of at most one `VersionText` (`VersionText.text_injective`). -/
namespace CxxUtil.Version
open Foundations Foundations.Parser VersionGrammar
set_option autoImplicit false

/-- A non-empty string over `[0-9A-Za-z-]`. -/
def IsIdentifier (t : List Char) : Prop := t ≠ [] ∧ ∀ c ∈ t, identifierChar c = true

instance (t : List Char) : Decidable (IsIdentifier t) :=
  @instDecidableAnd _ _ _ (List.decidableBAll _ t)

structure VersionText where
  v : Bool
  numbers : List (List Char)
  preRelease : Option (List (List Char))
  buildMetadata : Option (List (List Char))
  numbers_ne : numbers ≠ []
  numbers_digits : ∀ t ∈ numbers, IsDigits t
  preRelease_identifiers : ∀ ids ∈ preRelease, ids ≠ [] ∧ ∀ t ∈ ids, IsIdentifier t
  buildMetadata_identifiers : ∀ ids ∈ buildMetadata, ids ≠ [] ∧ ∀ t ∈ ids, IsIdentifier t

namespace VersionText

def text (p : VersionText) : List Char :=
  (if p.v then ['v'] else []) ++ ['.'].intercalate p.numbers ++ printPart '-' p.preRelease
    ++ printPart '+' p.buildMetadata

/-- Every number is at most the maximum of `unsigned`. -/
def Fits (p : VersionText) : Prop := ∀ t ∈ p.numbers, decimal t < UInt32.size

end VersionText

/-- A version of Semantic Versioning 2.0.0: three numbers, and no leading zeros in these and in the
numeric pre-release identifiers. -/
structure VersionText.IsSemVer (p : VersionText) : Prop where
  noV : p.v = false
  three : p.numbers.length = 3
  numbers : ∀ t ∈ p.numbers, NoLeadingZero t
  preRelease : ∀ ids ∈ p.preRelease, ∀ t ∈ ids, IsDigits t → NoLeadingZero t

/-- The language of the rules. -/
def InLanguage (s : List Char) : Prop := ∃ p : VersionText, p.text = s ∧ p.Fits

/-! ## What a piece of a pre-release is held as -/

/-- An unsigned when it consists of digits only and fits, the text itself otherwise. -/
def held (t : List Char) : PreReleaseIdentifier :=
  if t.all Char.isDigit ∧ decimal t < UInt32.size then .unsigned (UInt32.ofNat (decimal t))
  else .text t

/-- An identifier that begins with a number that fits and goes on with a letter or a hyphen. -/
def Mixed (t : List Char) : Prop :=
  t.takeWhile Char.isDigit ≠ [] ∧ t.takeWhile Char.isDigit ≠ t ∧
    decimal (t.takeWhile Char.isDigit) < UInt32.size

instance (t : List Char) : Decidable (Mixed t) :=
  inferInstanceAs (Decidable (_ ∧ _ ∧ _))

namespace VersionText

def Unmixed (p : VersionText) : Prop := ∀ ids ∈ p.preRelease, ∀ t ∈ ids, ¬ Mixed t

def data (p : VersionText) : DataType where
  numbers := p.numbers.map fun t => UInt32.ofNat (decimal t)
  preRelease := p.preRelease.map (·.map held)
  buildMetadata := p.buildMetadata

end VersionText

def HasMixedIdentifier (s : List Char) : Prop :=
  ∃ p : VersionText, p.text = s ∧ p.Fits ∧ ¬ p.Unmixed

/-! ## Characters -/

theorem identifierChar_of_isDigit {c : Char} (h : c.isDigit = true) : identifierChar c = true := by
  simp [identifierChar, h]

theorem isIdentifier_of_isDigits {t : List Char} (h : IsDigits t) : IsIdentifier t :=
  ⟨h.1, fun c hc => identifierChar_of_isDigit (h.2 c hc)⟩

theorem IsIdentifier.not_mem {t : List Char} (h : IsIdentifier t) {c : Char}
    (hc : identifierChar c = false) : c ∉ t := fun hmem => by
  rw [h.2 c hmem] at hc
  cases hc

theorem not_mem_of_isDigits {t : List Char} (h : IsDigits t) {c : Char} (hc : c.isDigit = false) :
    c ∉ t := fun hmem => by
  rw [h.2 c hmem] at hc
  cases hc

theorem takeWhile_of_isDigits {t : List Char} (h : IsDigits t) : t.takeWhile Char.isDigit = t :=
  List.takeWhile_eq_self_iff.mpr h.2

theorem not_mixed_of_isDigits {t : List Char} (h : IsDigits t) : ¬ Mixed t := fun hm =>
  hm.2.1 (takeWhile_of_isDigits h)

theorem held_of_isDigits {t : List Char} (h : IsDigits t) (hfit : decimal t < UInt32.size) :
    held t = .unsigned (UInt32.ofNat (decimal t)) := by
  simp only [held, List.all_eq_true]
  rw [if_pos ⟨h.2, hfit⟩]

/-! ## A string has at most one reading -/

theorem mem_joined_identifiers {ids : List (List Char)} (h : ∀ t ∈ ids, IsIdentifier t) {c : Char}
    (hc : c ∈ ['.'].intercalate ids) : c = '.' ∨ identifierChar c = true := by
  rcases mem_intercalate hc with hc | ⟨t, ht, hc⟩
  · exact .inl hc
  · exact .inr ((h t ht).2 c hc)

theorem not_mem_printPart {sep c : Char} {part : Option (List (List Char))}
    (h : ∀ ids ∈ part, ids ≠ [] ∧ ∀ t ∈ ids, IsIdentifier t) (hsep : c ≠ sep) (hdot : c ≠ '.')
    (hc : identifierChar c = false) : c ∉ printPart sep part := by
  intro hmem
  cases part with
  | none => cases hmem
  | some ids =>
    rcases List.mem_cons.mp hmem with hmem | hmem
    · exact hsep hmem
    · rcases mem_joined_identifiers (h ids rfl).2 hmem with hmem | hmem
      · exact hdot hmem
      · rw [hc] at hmem
        cases hmem

theorem printPart_injective {sep : Char} {a b : Option (List (List Char))}
    (ha : ∀ ids ∈ a, ids ≠ [] ∧ ∀ t ∈ ids, IsIdentifier t)
    (hb : ∀ ids ∈ b, ids ≠ [] ∧ ∀ t ∈ ids, IsIdentifier t) (h : printPart sep a = printPart sep b) :
    a = b := by
  cases a with
  | none =>
    cases b with
    | none => rfl
    | some ids => cases h
  | some ids =>
    cases b with
    | none => cases h
    | some ids' =>
      obtain ⟨hne, hids⟩ := ha ids rfl
      obtain ⟨hne', hids'⟩ := hb ids' rfl
      have hdot {us : List (List Char)} (hus : ∀ t ∈ us, IsIdentifier t) : ∀ t ∈ us, '.' ∉ t :=
        fun t ht => (hus t ht).not_mem (by decide)
      rw [intercalate_inj hne hne' (hdot hids) (hdot hids') (List.cons.inj h).2]

theorem printPart_append_stops {f : Char → Bool} {sep : Char} (hsep : f sep = false)
    (part : Option (List (List Char))) {rest : List Char} (hrest : StopsAt f rest) :
    StopsAt f (printPart sep part ++ rest) := by
  intro c hc
  cases part with
  | none => exact hrest c hc
  | some ids =>
    obtain rfl : sep = c := by simpa [printPart] using hc
    exact hsep

theorem printPart_stops {f : Char → Bool} {sep : Char} (hsep : f sep = false)
    (part : Option (List (List Char))) : StopsAt f (printPart sep part) := by
  rw [← List.append_nil (printPart sep part)]
  exact printPart_append_stops hsep part (stopsAt_nil f)

def dropV : List Char → List Char
  | 'v' :: s => s
  | s => s

def numbersChar (c : Char) : Bool := c.isDigit || c == '.'

namespace VersionText

def afterNumbers (p : VersionText) : List Char :=
  printPart '-' p.preRelease ++ printPart '+' p.buildMetadata

theorem mem_numbers_text (p : VersionText) {c : Char} (hc : c ∈ ['.'].intercalate p.numbers) :
    numbersChar c = true := by
  rcases mem_intercalate hc with rfl | ⟨t, ht, hc⟩
  · rfl
  · simp [numbersChar, (p.numbers_digits t ht).2 c hc]

theorem exists_numbers_cons (p : VersionText) :
    ∃ c s, ['.'].intercalate p.numbers = c :: s ∧ c.isDigit = true := by
  obtain ⟨t, ts, hts⟩ := List.exists_cons_of_ne_nil p.numbers_ne
  obtain ⟨hne, hdig⟩ := p.numbers_digits t (by simp [hts])
  obtain ⟨c, t, rfl⟩ := List.exists_cons_of_ne_nil hne
  exact ⟨c, t ++ ts.flatMap ('.' :: ·), by rw [hts, intercalate_cons]; rfl, hdig c (by simp)⟩

theorem dropV_text (p : VersionText) :
    dropV p.text = ['.'].intercalate p.numbers ++ p.afterNumbers := by
  obtain ⟨c, s, hs, hc⟩ := p.exists_numbers_cons
  cases hv : p.v with
  | true => simp [text, afterNumbers, hv, dropV]
  | false =>
    have hne : c ≠ 'v' := by
      rintro rfl
      exact absurd hc (by decide)
    simp [text, afterNumbers, hv, hs, dropV, hne]

theorem v_eq (p : VersionText) : p.v = (p.text.head? == some 'v') := by
  obtain ⟨c, s, hs, hc⟩ := p.exists_numbers_cons
  cases hv : p.v with
  | true => simp [text, hv]
  | false =>
    have hne : c ≠ 'v' := by
      rintro rfl
      exact absurd hc (by decide)
    simp [text, hv, hs, hne]

theorem afterNumbers_stops {f : Char → Bool} (hminus : f '-' = false) (hplus : f '+' = false)
    (p : VersionText) : StopsAt f p.afterNumbers :=
  printPart_append_stops hminus p.preRelease (printPart_stops hplus p.buildMetadata)

theorem preRelease_noPlus (p : VersionText) :
    ∀ c ∈ printPart '-' p.preRelease, (c != '+') = true := by
  intro c hc
  rw [bne_iff_ne]
  rintro rfl
  exact not_mem_printPart p.preRelease_identifiers (by decide) (by decide) (by decide) hc

theorem text_injective : Function.Injective text := by
  intro p q h
  have hdrop := congrArg dropV h
  rw [p.dropV_text, q.dropV_text] at hdrop
  have hnums : ['.'].intercalate p.numbers = ['.'].intercalate q.numbers := by
    have := congrArg (List.takeWhile numbersChar) hdrop
    rwa [takeWhile_append_stopsAt (fun _ => p.mem_numbers_text) (p.afterNumbers_stops rfl rfl),
      takeWhile_append_stopsAt (fun _ => q.mem_numbers_text) (q.afterNumbers_stops rfl rfl)] at this
  have hafter : p.afterNumbers = q.afterNumbers := by
    rw [hnums] at hdrop
    exact List.append_cancel_left hdrop
  have hpre : printPart '-' p.preRelease = printPart '-' q.preRelease := by
    have := congrArg (List.takeWhile (· != '+')) hafter
    rwa [afterNumbers, afterNumbers,
      takeWhile_append_stopsAt p.preRelease_noPlus (printPart_stops rfl p.buildMetadata),
      takeWhile_append_stopsAt q.preRelease_noPlus (printPart_stops rfl q.buildMetadata)] at this
  have hbuild : printPart '+' p.buildMetadata = printPart '+' q.buildMetadata := by
    rw [afterNumbers, afterNumbers, hpre] at hafter
    exact List.append_cancel_left hafter
  have hdot (r : VersionText) : ∀ t ∈ r.numbers, '.' ∉ t := fun t ht =>
    not_mem_of_isDigits (r.numbers_digits t ht) (by decide)
  have h₁ : p.v = q.v := by rw [p.v_eq, q.v_eq, h]
  have h₂ := intercalate_inj p.numbers_ne q.numbers_ne (hdot p) (hdot q) hnums
  have h₃ := printPart_injective p.preRelease_identifiers q.preRelease_identifiers hpre
  have h₄ := printPart_injective p.buildMetadata_identifiers q.buildMetadata_identifiers hbuild
  cases p
  cases q
  simp only [mk.injEq] at h₁ h₂ h₃ h₄ ⊢
  exact ⟨h₁, h₂, h₃, h₄⟩

end VersionText
end CxxUtil.Version
