import CxxUtil.Version.Language

/-! # What `Version::parse` accepts

`parse_accepts_iff`: an accepted string is the text of a `VersionText` whose numbers fit and whose
pre-release identifiers are not mixed, and the version then holds its fields. An identifier that
begins with a number that fits and goes on with a letter or a hyphen is where the ordered choice
`uint_ | identifier` commits too early; everything else in the language is accepted. -/
namespace CxxUtil.Version
open Foundations Foundations.Parser
set_option autoImplicit false

namespace VersionGrammar

/-! ## One element of each list -/

theorem fitsUnsigned_eq_some {n : ℕ} {m : UInt32} :
    fitsUnsigned n = some m ↔ n < UInt32.size ∧ UInt32.ofNat n = m := by
  simp [fitsUnsigned]

theorem digit_stops {r : List Char} (h : StopsAt identifierChar r) : StopsAt Char.isDigit r := by
  intro c hc
  cases hd : c.isDigit with
  | false => rfl
  | true =>
    have := h c hc
    rw [identifierChar_of_isDigit hd] at this
    cases this

theorem uint_consumes : Consumes uint_ := fun s a r h => by
  obtain ⟨t, ht, -⟩ := number_matched h
  exact ⟨t, ht⟩

theorem identifier_consumes : Consumes identifier := fun _ a _ h =>
  ⟨a, (many1_matched (onErrorFail_matched.mp h)).1⟩

theorem uint_read {t r : List Char} {n : UInt32} (h : uint_ (t ++ r) = .matched n r) :
    IsDigits t ∧ decimal t < UInt32.size ∧ UInt32.ofNat (decimal t) = n := by
  obtain ⟨t', ht, hne, hdig, hfits⟩ := number_matched h
  obtain rfl := List.append_cancel_right ht
  obtain ⟨hlt, hn⟩ := fitsUnsigned_eq_some.mp hfits
  exact ⟨⟨hne, hdig⟩, hlt, hn⟩

theorem uint_reads {t r : List Char} (ht : IsDigits t) (hfit : decimal t < UInt32.size)
    (hr : StopsAt Char.isDigit r) :
    uint_ (t ++ r) = .matched (UInt32.ofNat (decimal t)) r :=
  number_eq ht.1 ht.2 hr (fitsUnsigned_eq_some.mpr ⟨hfit, rfl⟩)

theorem identifier_read {t r u : List Char} (h : identifier (t ++ r) = .matched u r) :
    IsIdentifier t ∧ t = u := by
  obtain ⟨ht, hne, hid⟩ := many1_matched (onErrorFail_matched.mp h)
  obtain rfl := List.append_cancel_right ht
  exact ⟨⟨hne, hid⟩, rfl⟩

theorem identifier_reads {t r : List Char} (ht : IsIdentifier t) (hr : StopsAt identifierChar r) :
    identifier (t ++ r) = .matched t r :=
  onErrorFail_matched.mpr (many1_eq ht.1 ht.2 hr)

/-- In front of something no identifier can go on with, `uint_` takes the leading digits. -/
theorem uint_before {t r : List Char} (hr : StopsAt identifierChar r) :
    uint_ (t ++ r) =
      if t.takeWhile Char.isDigit ≠ [] ∧ decimal (t.takeWhile Char.isDigit) < UInt32.size then
        .matched (UInt32.ofNat (decimal (t.takeWhile Char.isDigit)))
          (t.dropWhile Char.isDigit ++ r)
      else .failed := by
  have hstop : StopsAt Char.isDigit (t.dropWhile Char.isDigit ++ r) := by
    intro c hc
    cases hd : t.dropWhile Char.isDigit with
    | nil => exact digit_stops hr c (by simpa [hd] using hc)
    | cons x u => exact stopsAt_dropWhile Char.isDigit t c (by simpa [hd] using hc)
  have hsplit : t ++ r = t.takeWhile Char.isDigit ++ (t.dropWhile Char.isDigit ++ r) := by
    rw [← List.append_assoc, List.takeWhile_append_dropWhile]
  have hdig : ∀ c ∈ t.takeWhile Char.isDigit, c.isDigit = true := fun _ hc =>
    List.mem_takeWhile_imp hc
  split
  · rename_i h
    rw [hsplit]
    exact uint_reads ⟨h.1, hdig⟩ h.2 hstop
  · rename_i h
    rw [hsplit]
    unfold uint_ number
    rw [takeWhile_append_stopsAt hdig hstop]
    split
    · rfl
    · rename_i hne
      have hnone : fitsUnsigned (decimal (t.takeWhile Char.isDigit)) = none := by
        rw [fitsUnsigned, if_neg fun hlt => h ⟨hne, hlt⟩]
      rw [decimal] at hnone
      simp only [hnone]

/-- The ordered choice on an identifier: a mixed one is left after its leading number. -/
theorem preReleaseIdentifier_eq {t r : List Char} (ht : IsIdentifier t)
    (hr : StopsAt identifierChar r) :
    preReleaseIdentifier (t ++ r) =
      if Mixed t then
        .matched (.unsigned (UInt32.ofNat (decimal (t.takeWhile Char.isDigit))))
          (t.dropWhile Char.isDigit ++ r)
      else .matched (held t) r := by
  have hid : map PreReleaseIdentifier.text identifier (t ++ r) = .matched (.text t) r := by
    simp only [map, identifier_reads ht hr, Reply.map]
  by_cases hm : Mixed t
  · rw [if_pos hm]
    simp only [preReleaseIdentifier, alt, map, uint_before hr, if_pos (And.intro hm.1 hm.2.2),
      Reply.map]
  · rw [if_neg hm]
    by_cases hw : t.takeWhile Char.isDigit = t
    · -- digits only: `uint_` takes them all or, when they do not fit, none
      have hd : IsDigits t := ⟨ht.1, List.takeWhile_eq_self_iff.mp hw⟩
      by_cases hfit : decimal t < UInt32.size
      · rw [held_of_isDigits hd hfit]
        simp only [preReleaseIdentifier, alt, map, uint_reads hd hfit (digit_stops hr), Reply.map]
      · have hheld : held t = .text t := if_neg fun h => hfit h.2
        have hfail : uint_ (t ++ r) = .failed := by
          rw [uint_before hr, hw]
          exact if_neg fun h => hfit h.2
        rw [hheld, preReleaseIdentifier, alt_failed_left (by rw [map, hfail, Reply.map])]
        exact hid
    · -- not mixed: there is no leading number that fits
      have hheld : held t = .text t := by
        refine if_neg fun h => hw (List.takeWhile_eq_self_iff.mpr ?_)
        simpa using h.1
      have hfail : uint_ (t ++ r) = .failed := by
        rw [uint_before hr]
        exact if_neg fun h => hm ⟨h.1, hw, h.2⟩
      rw [hheld, preReleaseIdentifier, alt_failed_left (by rw [map, hfail, Reply.map])]
      exact hid

theorem preReleaseIdentifier_matched {s r : List Char} {a : PreReleaseIdentifier}
    (h : preReleaseIdentifier s = .matched a r) :
    (∃ n, uint_ s = .matched n r) ∨ ∃ u, identifier s = .matched u r := by
  rcases alt_matched.mp h with h | ⟨-, h⟩
  · obtain ⟨n, hn, -⟩ := map_matched.mp h
    exact .inl ⟨n, hn⟩
  · obtain ⟨u, hu, -⟩ := map_matched.mp h
    exact .inr ⟨u, hu⟩

theorem preReleaseIdentifier_consumes : Consumes preReleaseIdentifier := fun s a r h => by
  rcases preReleaseIdentifier_matched h with ⟨n, hn⟩ | ⟨u, hu⟩
  · exact uint_consumes s n r hn
  · exact identifier_consumes s u r hu

theorem preReleaseIdentifier_read {t r : List Char} {a : PreReleaseIdentifier}
    (h : preReleaseIdentifier (t ++ r) = .matched a r) (hr : StopsAt identifierChar r) :
    (IsIdentifier t ∧ ¬ Mixed t) ∧ held t = a := by
  have ht : IsIdentifier t := by
    rcases preReleaseIdentifier_matched h with ⟨n, hn⟩ | ⟨u, hu⟩
    · exact isIdentifier_of_isDigits (uint_read hn).1
    · exact (identifier_read hu).1
  rw [preReleaseIdentifier_eq ht hr] at h
  split at h
  · -- a mixed identifier would have left some of `t`
    rename_i hm
    obtain ⟨-, hr'⟩ := Reply.matched.inj h
    have hnil : t.dropWhile Char.isDigit = [] := List.append_left_eq_self.mp hr'
    have := List.takeWhile_append_dropWhile (p := Char.isDigit) (l := t)
    rw [hnil, List.append_nil] at this
    exact absurd this hm.2.1
  · rename_i hm
    exact ⟨⟨ht, hm⟩, (Reply.matched.inj h).1⟩

/-! ## The three lists -/

theorem follows_stops {p : Char → Bool} {sep : Char} {rest r : List Char} (hsep : p sep = false)
    (hrest : StopsAt p rest) (h : Follows sep rest r) : StopsAt p r := by
  rcases h with rfl | h
  · exact hrest
  · intro c hc
    obtain rfl : sep = c := by simpa [h] using hc
    exact hsep

theorem numbers_read {s r : List Char} {ns : List UInt32} (h : numbers s = .matched ns r) :
    ∃ ts, ts ≠ [] ∧ (∀ t ∈ ts, IsDigits t ∧ decimal t < UInt32.size) ∧
      s = ['.'].intercalate ts ++ r ∧ ns = ts.map fun t => UInt32.ofNat (decimal t) := by
  refine list_read uint_consumes (fun t n r' _ hread => ?_) (onErrorFail_matched.mp h)
  obtain ⟨hdig, hfit, hn⟩ := uint_read hread
  exact ⟨⟨hdig, hfit⟩, hn⟩

theorem numbers_reads {ts : List (List Char)} {r : List Char} (hne : ts ≠ [])
    (hts : ∀ t ∈ ts, IsDigits t ∧ decimal t < UInt32.size) (hr : StopsAt numbersChar r) :
    numbers (['.'].intercalate ts ++ r) =
      .matched (ts.map fun t => UInt32.ofNat (decimal t)) r := by
  have hdot : r.head? ≠ some '.' := fun h => by simpa [numbersChar] using hr _ h
  have hdig : StopsAt Char.isDigit r := fun c hc => by
    have := hr c hc
    simp only [numbersChar, Bool.or_eq_false_iff] at this
    exact this.1
  rw [numbers, onErrorFail_matched]
  refine list_reads (fun t => UInt32.ofNat (decimal t)) hdot hne fun t ht r' hr' => ?_
  exact uint_reads (hts t ht).1 (hts t ht).2 (follows_stops (by decide) hdig hr')

theorem preRelease_read {s r : List Char} {as : List PreReleaseIdentifier}
    (h : preRelease s = .matched as r) (hr : StopsAt identifierChar r) :
    ∃ ids, ids ≠ [] ∧ (∀ t ∈ ids, IsIdentifier t ∧ ¬ Mixed t) ∧
      s = printPart '-' (some ids) ++ r ∧ as = ids.map held := by
  obtain ⟨s₁, hlit, hlist⟩ := expect_matched.mp (onErrorFail_matched.mp h)
  obtain ⟨ids, hne, hids, hs, has⟩ := list_read preReleaseIdentifier_consumes
    (fun t a r' hfol hread =>
      preReleaseIdentifier_read hread (follows_stops (by decide) hr hfol)) hlist
  refine ⟨ids, hne, hids, ?_, has⟩
  rw [lit_matched.mp hlit, hs]
  rfl

theorem preRelease_reads {ids : List (List Char)} {r : List Char} (hne : ids ≠ [])
    (hids : ∀ t ∈ ids, IsIdentifier t ∧ ¬ Mixed t) (hr : StopsAt identifierChar r)
    (hdot : r.head? ≠ some '.') :
    preRelease (printPart '-' (some ids) ++ r) = .matched (ids.map held) r := by
  rw [preRelease, onErrorFail_matched, expect_matched]
  refine ⟨['.'].intercalate ids ++ r, lit_matched.mpr rfl, ?_⟩
  refine list_reads held hdot hne fun t ht r' hr' => ?_
  rw [preReleaseIdentifier_eq (hids t ht).1 (follows_stops (by decide) hr hr'),
    if_neg (hids t ht).2]

theorem buildMetadata_read {s r : List Char} {ids : List (List Char)}
    (h : buildMetadata s = .matched ids r) :
    ids ≠ [] ∧ (∀ t ∈ ids, IsIdentifier t) ∧ s = printPart '+' (some ids) ++ r := by
  obtain ⟨s₁, hlit, hlist⟩ := expect_matched.mp (onErrorFail_matched.mp h)
  obtain ⟨ts, hne, hts, hs, hid⟩ := list_read (f := id) identifier_consumes
    (fun t u r' _ hread => identifier_read hread) hlist
  obtain rfl : ids = ts := by rw [hid, List.map_id]
  refine ⟨hne, hts, ?_⟩
  rw [lit_matched.mp hlit, hs]
  rfl

theorem buildMetadata_reads {ids : List (List Char)} (hne : ids ≠ [])
    (hids : ∀ t ∈ ids, IsIdentifier t) :
    buildMetadata (printPart '+' (some ids)) = .matched ids [] := by
  have hstop := stopsAt_nil identifierChar
  rw [buildMetadata, onErrorFail_matched, expect_matched]
  refine ⟨['.'].intercalate ids, lit_matched.mpr rfl, ?_⟩
  have hread : list identifier '.' (['.'].intercalate ids ++ []) = .matched (ids.map id) [] :=
    list_reads id (by simp) hne fun t ht r' hr' =>
      identifier_reads (hids t ht) (follows_stops (by decide) hstop hr')
  simpa using hread

/-! ## The whole call -/

/-- What an optional part leaves: its attribute, if it matched, and the rest. -/
def optionalPart {α : Type*} (p : Parser α) (s : List Char) : Option α × List Char :=
  match p s with
  | .matched a rest => (some a, rest)
  | _ => (none, s)

theorem optional_eq {α : Type*} {p : Parser α} {s : List Char} (h : p s ≠ .threw) :
    Parser.optional p s = .matched (optionalPart p s).1 (optionalPart p s).2 := by
  cases hp : p s with
  | matched a rest => simp [Parser.optional, optionalPart, hp]
  | failed => simp [Parser.optional, optionalPart, hp]
  | threw => exact absurd hp h

theorem optionalPart_v (s : List Char) : (optionalPart (lit 'v') s).2 = dropV s := by
  cases s with
  | nil => rfl
  | cons c s => by_cases hc : c = 'v' <;> simp [optionalPart, lit, dropV, hc]

/-- The fields left in `mData` and the value returned; no expectation failure escapes. -/
theorem parse_eq (v : Version) (s : List Char) :
    v.parse s =
      match numbers (dropV s) with
      | .matched ns s₁ =>
        (⟨⟨ns, (optionalPart preRelease s₁).1,
            (optionalPart buildMetadata (optionalPart preRelease s₁).2).1⟩⟩,
          .returned (decide ((optionalPart buildMetadata (optionalPart preRelease s₁).2).2 = [])))
      | _ => (.empty, .returned false) := by
  have hpre (s : List Char) := optional_eq (p := preRelease) (s := s) onErrorFail_ne_threw
  have hbuild (s : List Char) := optional_eq (p := buildMetadata) (s := s) onErrorFail_ne_threw
  have hv := optional_eq (p := lit 'v') (s := s) lit_ne_threw
  rw [optionalPart_v] at hv
  cases hn : numbers (dropV s) with
  | matched ns s₁ =>
    by_cases hend : (optionalPart buildMetadata (optionalPart preRelease s₁).2).2 = [] <;>
      simp [parse, start, Rule.onErrorFail, Rule.seq, Rule.expect, Rule.into, Rule.eoi, hv, hn,
        hpre, hbuild, hend]
  | failed =>
    simp [parse, start, Rule.onErrorFail, Rule.seq, Rule.expect, Rule.into, hv, hn, Version.empty]
  | threw => exact absurd hn onErrorFail_ne_threw

theorem dropV_eq (s : List Char) : s = (if s.head? == some 'v' then ['v'] else []) ++ dropV s := by
  cases s with
  | nil => rfl
  | cons c s => by_cases hc : c = 'v' <;> simp [dropV, hc]

/-- What is taken is the text of the attribute, be it all of the input or not. -/
theorem optionalPart_build_takes (s : List Char) :
    (∀ ids ∈ (optionalPart buildMetadata s).1, ids ≠ [] ∧ ∀ t ∈ ids, IsIdentifier t) ∧
      s = printPart '+' (optionalPart buildMetadata s).1 ++ (optionalPart buildMetadata s).2 := by
  cases hb : buildMetadata s with
  | matched ids r =>
    obtain ⟨hne, hids, hs⟩ := buildMetadata_read hb
    refine ⟨?_, by simpa [optionalPart, hb] using hs⟩
    intro ids' hids'
    simp only [optionalPart, hb] at hids'
    obtain rfl := Option.some.inj hids'
    exact ⟨hne, hids⟩
  | failed => exact ⟨by simp [optionalPart, hb], by simp [optionalPart, hb, printPart]⟩
  | threw => exact absurd hb onErrorFail_ne_threw

theorem optionalPart_pre_read {s : List Char}
    (h : StopsAt identifierChar (optionalPart preRelease s).2) :
    ∃ part : Option (List (List Char)),
      (∀ ids ∈ part, ids ≠ [] ∧ ∀ t ∈ ids, IsIdentifier t) ∧
      (∀ ids ∈ part, ∀ t ∈ ids, ¬ Mixed t) ∧
      s = printPart '-' part ++ (optionalPart preRelease s).2 ∧
      (optionalPart preRelease s).1 = part.map (·.map held) := by
  cases hp : preRelease s with
  | matched as r =>
    simp only [optionalPart, hp] at h ⊢
    obtain ⟨ids, hne, hids, hs, has⟩ := preRelease_read hp h
    refine ⟨some ids, ?_, ?_, hs, by simp [has]⟩
    · intro ids' hids'
      obtain rfl := Option.some.inj hids'
      exact ⟨hne, fun t ht => (hids t ht).1⟩
    · intro ids' hids' t ht
      obtain rfl := Option.some.inj hids'
      exact (hids t ht).2
  | failed =>
    simp only [optionalPart, hp]
    exact ⟨none, fun ids hids => by (cases hids), fun ids hids => by (cases hids), rfl, rfl⟩
  | threw => exact absurd hp onErrorFail_ne_threw

/-- An accepted string is the text of a `VersionText`, and the version holds its fields. -/
theorem parse_read {v w : Version} {s : List Char} (h : v.parse s = (w, .returned true)) :
    ∃ p : VersionText, p.text = s ∧ p.Fits ∧ p.Unmixed ∧ w = ⟨p.data⟩ := by
  rw [parse_eq] at h
  cases hn : numbers (dropV s) with
  | failed => simp [hn] at h
  | threw => simp [hn] at h
  | matched ns s₁ =>
    simp only [hn, Prod.mk.injEq, Outcome.returned.injEq, decide_eq_true_eq] at h
    obtain ⟨rfl, hend⟩ := h
    obtain ⟨ts, hne, hts, hs, rfl⟩ := numbers_read hn
    obtain ⟨hbuild, hs₂⟩ := optionalPart_build_takes (optionalPart preRelease s₁).2
    rw [hend, List.append_nil] at hs₂
    obtain ⟨part, hpart, hmixed, hs₁, hpre⟩ := optionalPart_pre_read (s := s₁)
      (hs₂ ▸ printPart_stops (by decide) _)
    refine ⟨⟨s.head? == some 'v', ts, part, _, hne, fun t ht => (hts t ht).1, hpart, hbuild⟩,
      ?_, fun t ht => (hts t ht).2, hmixed, ?_⟩
    · conv_rhs => rw [dropV_eq s, hs, hs₁, hs₂]
      simp [VersionText.text]
    · simp [VersionText.data, hpre]

theorem optionalPart_build_reads (p : VersionText) :
    optionalPart buildMetadata (printPart '+' p.buildMetadata) = (p.buildMetadata, []) := by
  cases hb : p.buildMetadata with
  | none => rfl
  | some ids =>
    obtain ⟨hne, hids⟩ := p.buildMetadata_identifiers ids hb
    rw [optionalPart, buildMetadata_reads hne hids]

theorem optionalPart_pre_reads (p : VersionText) (hmixed : p.Unmixed) :
    optionalPart preRelease p.afterNumbers =
      (p.preRelease.map (·.map held), printPart '+' p.buildMetadata) := by
  have hhead (c : Char) (hc : c ≠ '+') : (printPart '+' p.buildMetadata).head? ≠ some c := by
    cases p.buildMetadata with
    | none => simp [printPart]
    | some ids => simpa [printPart] using hc.symm
  cases hp : p.preRelease with
  | none =>
    have hlit : lit '-' (printPart '+' p.buildMetadata) = .failed :=
      lit_failed.mpr (hhead '-' (by decide))
    have hfail : preRelease (printPart '+' p.buildMetadata) = .failed := by
      rw [preRelease, onErrorFail, expect, hlit]
    rw [VersionText.afterNumbers, hp, printPart, List.nil_append, optionalPart, hfail]
    rfl
  | some ids =>
    obtain ⟨hne, hids⟩ := p.preRelease_identifiers ids hp
    rw [VersionText.afterNumbers, hp, optionalPart,
      preRelease_reads hne (fun t ht => ⟨hids t ht, hmixed ids hp t ht⟩)
        (printPart_stops (by decide) _) (hhead '.' (by decide))]
    rfl

/-- The text of a `VersionText` whose numbers fit and whose identifiers are not mixed is
accepted. -/
theorem parse_reads (v : Version) (p : VersionText) (hfits : p.Fits) (hmixed : p.Unmixed) :
    v.parse p.text = (⟨p.data⟩, .returned true) := by
  have hn : numbers (dropV p.text) =
      .matched (p.numbers.map fun t => UInt32.ofNat (decimal t)) p.afterNumbers := by
    rw [p.dropV_text]
    exact numbers_reads p.numbers_ne (fun t ht => ⟨p.numbers_digits t ht, hfits t ht⟩)
      (p.afterNumbers_stops rfl rfl)
  rw [parse_eq, hn]
  simp only [optionalPart_pre_reads p hmixed, optionalPart_build_reads, VersionText.data,
    decide_true]

theorem parse_accepts_iff (v : Version) (s : List Char) :
    (v.parse s).2 = .returned true ↔ ∃ p : VersionText, p.text = s ∧ p.Fits ∧ p.Unmixed := by
  constructor
  · intro h
    have heq : v.parse s = ((v.parse s).1, .returned true) := by rw [← h]
    obtain ⟨p, hs, hfits, hmixed, -⟩ := parse_read heq
    exact ⟨p, hs, hfits, hmixed⟩
  · rintro ⟨p, rfl, hfits, hmixed⟩
    rw [parse_reads v p hfits hmixed]

theorem parse_returns (v : Version) (s : List Char) : ∃ b, (v.parse s).2 = .returned b := by
  rw [parse_eq]
  split
  · exact ⟨_, rfl⟩
  · exact ⟨false, rfl⟩

end VersionGrammar

open VersionGrammar (parse_accepts_iff parse_returns)

/-! ## Agreement with the language -/

/-- On `s` the call returns, accepts exactly when `s` is in the language, and accepts `s` if it is a
Semantic Versioning string whose numbers fit. -/
def AgreesOn (v : Version) (s : List Char) : Prop :=
  (∃ b, (v.parse s).2 = .returned b ∧ (b = true ↔ InLanguage s)) ∧
    ((∃ p : VersionText, p.text = s ∧ p.IsSemVer ∧ p.Fits) → (v.parse s).2 = .returned true)

theorem parse_agrees_iff (v : Version) (s : List Char) :
    AgreesOn v s ↔ ¬ HasMixedIdentifier s := by
  constructor
  · rintro ⟨⟨b, hb, hiff⟩, -⟩ ⟨p, rfl, hfits, hmixed⟩
    rw [hiff.mpr ⟨p, rfl, hfits⟩] at hb
    obtain ⟨q, hq, -, hunmixed⟩ := (parse_accepts_iff v p.text).mp hb
    obtain rfl := VersionText.text_injective hq
    exact hmixed hunmixed
  · intro hmixed
    obtain ⟨b, hb⟩ := parse_returns v s
    have haccept : InLanguage s → (v.parse s).2 = .returned true := by
      rintro ⟨p, rfl, hfits⟩
      refine (parse_accepts_iff v p.text).mpr ⟨p, rfl, hfits, ?_⟩
      by_contra hun
      exact hmixed ⟨p, rfl, hfits, hun⟩
    refine ⟨⟨b, hb, ?_, ?_⟩, ?_⟩
    · rintro rfl
      obtain ⟨p, hp, hfits, -⟩ := (parse_accepts_iff v s).mp hb
      exact ⟨p, hp, hfits⟩
    · intro hs
      exact Outcome.returned.inj (hb.symm.trans (haccept hs))
    · rintro ⟨p, hp, -, hfits⟩
      exact haccept ⟨p, hp, hfits⟩

/-- `1.0.0-` and one identifier. -/
def preReleaseText (x : List Char) (hx : IsIdentifier x) : VersionText where
  v := false
  numbers := [['1'], ['0'], ['0']]
  preRelease := some [x]
  buildMetadata := none
  numbers_ne := by decide
  numbers_digits := by decide
  preRelease_identifiers := fun ids hids => by
    obtain rfl := Option.some.inj hids
    refine ⟨List.cons_ne_nil x [], fun t ht => ?_⟩
    rw [List.mem_singleton.mp ht]
    exact hx
  buildMetadata_identifiers := by simp

def mixedText : VersionText := preReleaseText ['1', 'a'] (by decide)

theorem parse_rejects_mixed :
    mixedText.text = ['1', '.', '0', '.', '0', '-', '1', 'a'] ∧
      ¬ AgreesOn .empty mixedText.text := by
  refine ⟨rfl, ?_⟩
  rintro ⟨⟨b, hb, hiff⟩, -⟩
  have hfalse : (Version.parse .empty mixedText.text).2 = .returned false := by decide
  obtain rfl := Outcome.returned.inj (hb.symm.trans hfalse)
  have hfits : mixedText.Fits := by unfold VersionText.Fits; decide
  exact absurd (hiff.mpr ⟨mixedText, rfl, hfits⟩) (by decide)

end CxxUtil.Version
