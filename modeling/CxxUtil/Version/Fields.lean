import CxxUtil.Version.Acceptance

/-! # The fields of an accepted string are its parts

`parts` cuts a string at the first `-` or `+`, at the next `+` and at the dots, without looking at
what is between them. On the strings that are accepted the rules find the same pieces. -/
namespace CxxUtil.Version
open Foundations Foundations.Parser
set_option autoImplicit false

/-- Neither of the two characters that end the numbers. -/
def notSeparator (c : Char) : Bool := c != '-' && c != '+'

structure Parts where
  numbers : List (List Char)
  preRelease : Option (List (List Char))
  buildMetadata : Option (List (List Char))
  deriving DecidableEq

/-- What is behind a `sep` that the text begins with, up to the end of what `p` lets through. -/
def partBehind (sep : Char) (p : Char → Bool) : List Char → Option (List (List Char))
  | c :: s => if c = sep then some ((s.takeWhile p).splitOn '.') else none
  | [] => none

def parts (s : List Char) : Parts :=
  let t := dropV s
  let rest := t.dropWhile notSeparator
  { numbers := (t.takeWhile notSeparator).splitOn '.'
    preRelease := partBehind '-' (· != '+') rest
    buildMetadata := partBehind '+' (fun _ => true) (rest.dropWhile (· != '+')) }

example : parts "v1.02-a-b.7+0-1.c".toList =
    ⟨[['1'], ['0', '2']], some [['a', '-', 'b'], ['7']], some [['0', '-', '1'], ['c']]⟩ := by decide

theorem splitOn_identifiers {ids : List (List Char)} (hne : ids ≠ [])
    (hids : ∀ t ∈ ids, IsIdentifier t) : (['.'].intercalate ids).splitOn '.' = ids :=
  List.splitOn_intercalate '.' (fun t ht => (hids t ht).not_mem (by decide)) hne

namespace VersionText

theorem numbers_notSeparator (p : VersionText) :
    ∀ c ∈ ['.'].intercalate p.numbers, notSeparator c = true := by
  intro c hc
  rcases mem_intercalate hc with rfl | ⟨t, ht, hc⟩
  · rfl
  · have hdigits := p.numbers_digits t ht
    have hminus : c ≠ '-' := by
      rintro rfl
      exact not_mem_of_isDigits hdigits (by decide) hc
    have hplus : c ≠ '+' := by
      rintro rfl
      exact not_mem_of_isDigits hdigits (by decide) hc
    simp [notSeparator, hminus, hplus]

theorem partBehind_afterNumbers (p : VersionText) :
    partBehind '-' (· != '+') p.afterNumbers = p.preRelease := by
  cases hp : p.preRelease with
  | some ids =>
    obtain ⟨hne, hids⟩ := p.preRelease_identifiers ids hp
    have hplus : ∀ c ∈ ['.'].intercalate ids, (c != '+') = true := fun c hc =>
      p.preRelease_noPlus c (by simpa [hp, printPart] using .inr hc)
    rw [afterNumbers, hp, printPart, List.cons_append, partBehind, if_pos rfl,
      takeWhile_append_stopsAt hplus (printPart_stops rfl p.buildMetadata), splitOn_identifiers hne hids]
  | none =>
    cases hb : p.buildMetadata with
    | some ids => simp [afterNumbers, hp, hb, printPart, partBehind]
    | none => simp [afterNumbers, hp, hb, printPart, partBehind]

theorem partBehind_buildMetadata (p : VersionText) :
    partBehind '+' (fun _ => true) (p.afterNumbers.dropWhile (· != '+')) = p.buildMetadata := by
  rw [afterNumbers, dropWhile_append_stopsAt p.preRelease_noPlus (printPart_stops rfl p.buildMetadata)]
  cases hb : p.buildMetadata with
  | some ids =>
    obtain ⟨hne, hids⟩ := p.buildMetadata_identifiers ids hb
    have hall : (['.'].intercalate ids).takeWhile (fun _ => true) = ['.'].intercalate ids :=
      List.takeWhile_eq_self_iff.mpr fun _ _ => rfl
    rw [printPart, partBehind, if_pos rfl, hall, splitOn_identifiers hne hids]
  | none => rfl

theorem parts_text (p : VersionText) :
    parts p.text = ⟨p.numbers, p.preRelease, p.buildMetadata⟩ := by
  have hdot : ∀ t ∈ p.numbers, '.' ∉ t := fun t ht =>
    not_mem_of_isDigits (p.numbers_digits t ht) (by decide)
  have htake := takeWhile_append_stopsAt p.numbers_notSeparator (p.afterNumbers_stops rfl rfl)
  have hdrop := dropWhile_append_stopsAt p.numbers_notSeparator (p.afterNumbers_stops rfl rfl)
  simp only [parts, p.dropV_text, htake, hdrop, p.partBehind_afterNumbers,
    p.partBehind_buildMetadata, List.splitOn_intercalate '.' hdot p.numbers_ne]

end VersionText

open VersionGrammar (parse_read)

/-- **The fields are the parts.** Whatever the version held before, the numbers of an accepted
string are the values of its pieces, the pre-release identifiers are the pieces as they are held,
and the build metadata are the pieces themselves. -/
theorem fields_are_parts {v w : Version} {s : List Char} (h : v.parse s = (w, .returned true)) :
    w.numbers.map UInt32.toNat = (parts s).numbers.map decimal ∧
      w.preRelease = (parts s).preRelease.map (·.map held) ∧
      w.buildMetadata = (parts s).buildMetadata := by
  obtain ⟨p, rfl, hfits, -, rfl⟩ := parse_read h
  rw [p.parts_text]
  refine ⟨?_, rfl, rfl⟩
  show (p.numbers.map fun t => UInt32.ofNat (decimal t)).map UInt32.toNat = _
  rw [List.map_map]
  refine List.map_congr_left fun t ht => ?_
  exact UInt32.toNat_ofNat_of_lt (hfits t ht)

theorem fields_are_parts_mixed_text :
    (Version.empty.parse "v1.02-a-b.7+0-1.c".toList).1.numbers.map UInt32.toNat =
      [['1'], ['0', '2']].map decimal ∧
    (Version.empty.parse "v1.02-a-b.7+0-1.c".toList).1.preRelease =
      some [.text ['a', '-', 'b'], .unsigned 7] ∧
    (Version.empty.parse "v1.02-a-b.7+0-1.c".toList).1.buildMetadata =
      some [['0', '-', '1'], ['c']] :=
  fields_are_parts (v := .empty) (s := "v1.02-a-b.7+0-1.c".toList) (by decide)

end CxxUtil.Version
