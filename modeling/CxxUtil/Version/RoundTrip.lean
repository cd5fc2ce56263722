import CxxUtil.Version.Acceptance

/-! # Printing an accepted version and parsing it again

What `operator<<` writes is again the text of a `VersionText`: numbers lose their leading zeros, and
every identifier is held after the second reading as it was after the first. -/
namespace CxxUtil.Version
open Foundations
set_option autoImplicit false

/-! ## One printed element -/

theorem printUInt_isDigits (n : UInt32) : IsDigits (printUInt n) :=
  ⟨Nat.toDigits_ne_nil, fun _ hc => Nat.isDigit_of_mem_toDigits (by decide) (by decide) hc⟩

theorem decimal_printUInt (n : UInt32) : decimal (printUInt n) = n.toNat :=
  Nat.ofDigitChars_ten_toDigits

theorem decimal_printUInt_lt (n : UInt32) : decimal (printUInt n) < UInt32.size := by
  rw [decimal_printUInt]
  exact n.toNat_lt_size

theorem ofNat_decimal_printUInt (n : UInt32) : UInt32.ofNat (decimal (printUInt n)) = n := by
  rw [decimal_printUInt, UInt32.ofNat_toNat]

theorem held_cases (t : List Char) : (∃ n, held t = .unsigned n) ∨ held t = .text t := by
  unfold held
  split
  · exact .inl ⟨_, rfl⟩
  · exact .inr rfl

/-- An identifier is printed as an identifier that is not mixed and is held the same way. -/
theorem printIdentifier_held {t : List Char} (ht : IsIdentifier t) (hm : ¬ Mixed t) :
    IsIdentifier (printIdentifier (held t)) ∧ ¬ Mixed (printIdentifier (held t)) ∧
      held (printIdentifier (held t)) = held t := by
  rcases held_cases t with ⟨n, hn⟩ | htext
  · have hdig := printUInt_isDigits n
    rw [hn, printIdentifier]
    refine ⟨isIdentifier_of_isDigits hdig, not_mixed_of_isDigits hdig, ?_⟩
    rw [held_of_isDigits hdig (decimal_printUInt_lt n), ofNat_decimal_printUInt]
  · rw [htext]
    exact ⟨ht, hm, htext⟩

/-! ## The whole text -/

theorem VersionText.printed_identifiers (p : VersionText) (hm : p.Unmixed) {ids : List (List Char)}
    (hids : ids ∈ p.data.preRelease.map (·.map printIdentifier)) :
    ids ≠ [] ∧ ∀ t ∈ ids, IsIdentifier t ∧ ¬ Mixed t := by
  cases hp : p.preRelease with
  | none => simp [VersionText.data, hp] at hids
  | some us =>
    obtain ⟨hne, hus⟩ := p.preRelease_identifiers us hp
    obtain rfl : (us.map held).map printIdentifier = ids := by
      simpa [VersionText.data, hp] using hids
    refine ⟨by simpa using hne, fun t ht => ?_⟩
    simp only [List.map_map, List.mem_map, Function.comp_apply] at ht
    obtain ⟨u, hu, rfl⟩ := ht
    obtain ⟨hid, hmixed, -⟩ := printIdentifier_held (hus u hu) (hm us hp u hu)
    exact ⟨hid, hmixed⟩

def VersionText.printed (p : VersionText) (hm : p.Unmixed) : VersionText where
  v := false
  numbers := p.data.numbers.map printUInt
  preRelease := p.data.preRelease.map (·.map printIdentifier)
  buildMetadata := p.buildMetadata
  numbers_ne := by simpa [VersionText.data] using p.numbers_ne
  numbers_digits := fun t ht => by
    obtain ⟨n, -, rfl⟩ := List.mem_map.mp ht
    exact printUInt_isDigits n
  preRelease_identifiers := fun ids hids =>
    have ⟨hne, hall⟩ := p.printed_identifiers hm hids
    ⟨hne, fun t ht => (hall t ht).1⟩
  buildMetadata_identifiers := p.buildMetadata_identifiers

theorem VersionText.printed_text (p : VersionText) (hm : p.Unmixed) :
    (p.printed hm).text = print ⟨p.data⟩ := by
  have hne : (Version.mk p.data).numbers.length ≠ 0 := by
    simpa [Version.numbers, VersionText.data] using p.numbers_ne
  rw [print, if_pos hne]
  rfl

theorem VersionText.printed_fits (p : VersionText) (hm : p.Unmixed) : (p.printed hm).Fits := by
  intro t ht
  obtain ⟨n, -, rfl⟩ := List.mem_map.mp ht
  exact decimal_printUInt_lt n

theorem VersionText.printed_unmixed (p : VersionText) (hm : p.Unmixed) : (p.printed hm).Unmixed :=
  fun _ hids t ht => ((p.printed_identifiers hm hids).2 t ht).2

theorem VersionText.printed_data (p : VersionText) (hm : p.Unmixed) :
    (p.printed hm).data = p.data := by
  have hnums : (p.printed hm).data.numbers = p.data.numbers := by
    simp [printed, VersionText.data, Function.comp_def, ofNat_decimal_printUInt]
  have hpre : (p.printed hm).data.preRelease = p.data.preRelease := by
    cases hp : p.preRelease with
    | none => simp [printed, VersionText.data, hp]
    | some us =>
      simp only [printed, VersionText.data, hp, Option.map_some, List.map_map, Option.some.injEq]
      refine List.map_congr_left fun u hu => ?_
      exact (printIdentifier_held ((p.preRelease_identifiers us hp).2 u hu) (hm us hp u hu)).2.2
  exact DataType.ext hnums hpre rfl

/-- What `operator<<` writes for an accepted version is accepted and gives the same fields. -/
theorem print_parse_round_trip {v w : Version} {s : List Char}
    (h : v.parse s = (w, .returned true)) (v' : Version) :
    ∃ w', v'.parse (print w) = (w', .returned true) ∧ w'.numbers = w.numbers ∧
      w'.preRelease = w.preRelease ∧ w'.buildMetadata = w.buildMetadata := by
  obtain ⟨p, -, -, hm, rfl⟩ := VersionGrammar.parse_read h
  refine ⟨⟨p.data⟩, ?_, rfl, rfl, rfl⟩
  rw [← p.printed_text hm,
    VersionGrammar.parse_reads v' _ (p.printed_fits hm) (p.printed_unmixed hm),
    p.printed_data hm]

/-- `v1.09-007.4294967296.x+01`: a number and an identifier lose their zeros, a digit run that does
not fit stays text, and build metadata are left alone. -/
def unevenText : List Char :=
  ['v', '1', '.', '0', '9', '-', '0', '0', '7', '.', '4', '2', '9', '4', '9', '6', '7', '2', '9',
    '6', '.', 'x', '+', '0', '1']

theorem print_parse_round_trip_uneven :
    ∃ w w', Version.parse .empty unevenText = (w, .returned true) ∧
      print w = ['1', '.', '9', '-', '7', '.', '4', '2', '9', '4', '9', '6', '7', '2', '9', '6',
        '.', 'x', '+', '0', '1'] ∧
      Version.parse .empty (print w) = (w', .returned true) ∧ w'.preRelease = w.preRelease := by
  obtain ⟨w, hw⟩ : ∃ w, Version.parse .empty unevenText = (w, .returned true) :=
    ⟨(Version.parse .empty unevenText).1, Prod.ext rfl (by decide)⟩
  obtain ⟨w', hw', -, hpre, -⟩ := print_parse_round_trip hw .empty
  refine ⟨w, w', hw, ?_, hw', hpre⟩
  obtain rfl : (Version.parse .empty unevenText).1 = w := congrArg Prod.fst hw
  decide

end CxxUtil.Version
