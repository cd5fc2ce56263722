import CxxUtil.Version.Acceptance

/-! # What a failed parse leaves in the version

`parse` empties the version before it parses and not when it fails. Once the numbers have matched,
the version keeps them and what the optional parts behind them took. -/
namespace CxxUtil.Version
open Foundations Foundations.Parser VersionGrammar
set_option autoImplicit false

/-- Behind an optional `v` there is a digit run whose value fits in `unsigned`. -/
def BeginsWithNumber (s : List Char) : Prop :=
  (dropV s).takeWhile Char.isDigit ≠ [] ∧ decimal ((dropV s).takeWhile Char.isDigit) < UInt32.size

instance (s : List Char) : Decidable (BeginsWithNumber s) := inferInstanceAs (Decidable (_ ∧ _))

/-- The version holds the numbers and identifiers that a prefix of `s` spells. -/
def HoldsPrefix (w : Version) (s : List Char) : Prop :=
  ∃ p : VersionText, p.text <+: s ∧ w = ⟨p.data⟩

theorem not_holdsPrefix_empty (s : List Char) : ¬ HoldsPrefix .empty s := by
  rintro ⟨p, -, hp⟩
  have hnums : [] = p.numbers.map fun t => UInt32.ofNat (decimal t) :=
    congrArg (fun w : Version => w.mData.numbers) hp
  exact p.numbers_ne (List.map_eq_nil_iff.mp hnums.symm)

/-! ## What the numbers rule needs -/

theorem uint_ne_threw (s : List Char) : uint_ s ≠ .threw := by
  intro h
  unfold uint_ number at h
  split at h
  · cases h
  · split at h
    · cases h
    · cases h

theorem uint_failed_iff (s : List Char) : uint_ (dropV s) = .failed ↔ ¬ BeginsWithNumber s := by
  unfold uint_ number BeginsWithNumber
  by_cases hnil : (dropV s).takeWhile Char.isDigit = []
  · simp [hnil]
  · rw [if_neg hnil]
    by_cases hfit : decimal ((dropV s).takeWhile Char.isDigit) < UInt32.size
    · have hsome := fitsUnsigned_eq_some.mpr ⟨hfit, rfl⟩
      rw [decimal] at hsome
      simp [hsome, hnil, hfit]
    · have hnone : fitsUnsigned (decimal ((dropV s).takeWhile Char.isDigit)) = none := if_neg hfit
      rw [decimal] at hnone
      simp [hnone, hfit]

theorem numbers_failed_iff (s : List Char) :
    VersionGrammar.numbers (dropV s) = .failed ↔ ¬ BeginsWithNumber s := by
  rw [← uint_failed_iff, VersionGrammar.numbers, onErrorFail]
  cases hu : uint_ (dropV s) with
  | matched n rest =>
    obtain ⟨ns, rest', hlist⟩ := list_matches '.' uint_ne_threw hu
    simp [hlist]
  | failed => simp [list, hu]
  | threw => exact absurd hu (uint_ne_threw _)

/-! ## What the optional parts take -/

/-- The ordered choice takes a text and holds it, also where it leaves the end of an identifier. -/
theorem preReleaseIdentifier_takes {t r : List Char} {a : PreReleaseIdentifier}
    (h : preReleaseIdentifier (t ++ r) = .matched a r) : IsIdentifier t ∧ held t = a := by
  rcases alt_matched.mp h with hu | ⟨-, hi⟩
  · obtain ⟨n, hn, rfl⟩ := map_matched.mp hu
    obtain ⟨hdig, hfit, rfl⟩ := uint_read hn
    exact ⟨isIdentifier_of_isDigits hdig, held_of_isDigits hdig hfit⟩
  · obtain ⟨u, hid, -⟩ := map_matched.mp hi
    have hr := many1_stops (onErrorFail_matched.mp hid)
    obtain ⟨⟨hid, -⟩, heq⟩ := preReleaseIdentifier_read h hr
    exact ⟨hid, heq⟩

/-- Some part of an optional part's text is taken, and is what its attribute holds. -/
theorem optionalPart_pre_takes (s : List Char) :
    ∃ part : Option (List (List Char)),
      (∀ ids ∈ part, ids ≠ [] ∧ ∀ t ∈ ids, IsIdentifier t) ∧
      s = printPart '-' part ++ (optionalPart VersionGrammar.preRelease s).2 ∧
      (optionalPart VersionGrammar.preRelease s).1 = part.map (·.map held) := by
  cases hp : VersionGrammar.preRelease s with
  | matched as r =>
    obtain ⟨s₁, hlit, hlist⟩ := expect_matched.mp (onErrorFail_matched.mp hp)
    obtain ⟨ids, hne, hids, hs, has⟩ := list_read preReleaseIdentifier_consumes
      (fun t a r' _ hread => preReleaseIdentifier_takes hread) hlist
    refine ⟨some ids, ?_, ?_, by simp [optionalPart, hp, has]⟩
    · intro ids' hids'
      obtain rfl := Option.some.inj hids'
      exact ⟨hne, hids⟩
    · have hrest : (optionalPart VersionGrammar.preRelease s).2 = r := by simp [optionalPart, hp]
      rw [hrest, lit_matched.mp hlit, hs]
      rfl
  | failed =>
    refine ⟨none, fun ids hids => ?_, ?_, ?_⟩
    · cases hids
    · simp [optionalPart, hp, printPart]
    · simp [optionalPart, hp]
  | threw => exact absurd hp onErrorFail_ne_threw

/-- A parse that gets past the numbers leaves what a prefix of the string spells, also when it
fails behind them. -/
theorem parse_takes {v w : Version} {s : List Char} {b : Bool}
    (h : v.parse s = (w, .returned b)) :
    if BeginsWithNumber s then HoldsPrefix w s else w = .empty := by
  rw [parse_eq] at h
  cases hn : VersionGrammar.numbers (dropV s) with
  | failed =>
    rw [if_neg ((numbers_failed_iff s).mp hn)]
    simp only [hn, Prod.mk.injEq] at h
    exact h.1.symm
  | threw => exact absurd hn onErrorFail_ne_threw
  | matched ns s₁ =>
    have hbegins : BeginsWithNumber s := by
      by_contra hnot
      rw [(numbers_failed_iff s).mpr hnot] at hn
      cases hn
    simp only [hn, Prod.mk.injEq] at h
    obtain ⟨rfl, -⟩ := h
    obtain ⟨ts, hne, hts, hs, rfl⟩ := numbers_read hn
    obtain ⟨part, hpart, hs₁, hpre⟩ := optionalPart_pre_takes s₁
    obtain ⟨hbuild, hs₂⟩ := optionalPart_build_takes (optionalPart VersionGrammar.preRelease s₁).2
    rw [if_pos hbegins]
    refine ⟨⟨s.head? == some 'v', ts, part, _, hne, fun t ht => (hts t ht).1, hpart, hbuild⟩,
      ?_, ?_⟩
    · conv_rhs => rw [dropV_eq s, hs, hs₁, hs₂]
      simp [VersionText.text]
    · simp [VersionText.data, hpre]

/-- **A failed parse is clean exactly when it fails at the numbers.** Otherwise the version holds
what a prefix of the string spells. -/
theorem failed_parse_clean_iff {v w : Version} {s : List Char}
    (h : v.parse s = (w, .returned false)) :
    (w = v ∨ w = .empty) ∧ ¬ HoldsPrefix w s ↔ ¬ BeginsWithNumber s := by
  have htakes := parse_takes h
  by_cases hbegins : BeginsWithNumber s
  · rw [if_pos hbegins] at htakes
    exact ⟨fun hclean => absurd htakes hclean.2, fun hnot => absurd hbegins hnot⟩
  · rw [if_neg hbegins] at htakes
    subst htakes
    exact ⟨fun _ => hbegins, fun _ => ⟨.inr rfl, not_holdsPrefix_empty s⟩⟩

theorem failed_parse_clean_minus :
    ((Version.empty = ⟨⟨[7], none, none⟩⟩ ∨ Version.empty = .empty) ∧
      ¬ HoldsPrefix .empty "-1".toList) ↔ ¬ BeginsWithNumber "-1".toList :=
  failed_parse_clean_iff (v := ⟨⟨[7], none, none⟩⟩) (by decide)

/-- The last string that the tests see fail leaves its three numbers and its pre-release. -/
theorem failed_parse_keeps_fields :
    (Version.empty.parse "1.9.0-alpha(1)".toList =
      (⟨⟨[1, 9, 0], some [.text "alpha".toList], none⟩⟩, .returned false)) ∧
    ¬ ∀ (v w : Version) (s : List Char), v.parse s = (w, .returned false) →
      (w = v ∨ w = .empty) ∧ ¬ HoldsPrefix w s := by
  have hparse : Version.empty.parse "1.9.0-alpha(1)".toList =
      (⟨⟨[1, 9, 0], some [.text "alpha".toList], none⟩⟩, .returned false) := by decide
  refine ⟨hparse, fun hclaim => ?_⟩
  obtain ⟨hw | hw, -⟩ := hclaim _ _ _ hparse
  · exact absurd hw (by decide)
  · exact absurd hw (by decide)

end CxxUtil.Version
