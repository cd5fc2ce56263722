import Mathlib.Data.List.Basic

/-! # Texts joined by a separator

The library's `intercalate` with one character between two texts, as recursion on the texts reads
it, and what can be told of the texts from the joined one. -/
namespace CxxUtil.Foundations
set_option autoImplicit false

theorem intercalate_cons (sep : Char) (t : List Char) (ts : List (List Char)) :
    [sep].intercalate (t :: ts) = t ++ ts.flatMap (sep :: ·) := by
  induction ts generalizing t with
  | nil => simp [List.intercalate]
  | cons u ts ih =>
    have hu := ih u
    simp only [List.intercalate, List.intersperse_cons_cons, List.flatten_cons] at hu ⊢
    rw [hu]
    simp

theorem mem_intercalate {sep c : Char} {ts : List (List Char)} (h : c ∈ [sep].intercalate ts) :
    c = sep ∨ ∃ t ∈ ts, c ∈ t := by
  cases ts with
  | nil => simp [List.intercalate] at h
  | cons t ts =>
    rw [intercalate_cons, List.mem_append, List.mem_flatMap] at h
    rcases h with h | ⟨u, hu, h⟩
    · exact .inr ⟨t, List.mem_cons_self, h⟩
    · rcases List.mem_cons.mp h with h | h
      · exact .inl h
      · exact .inr ⟨u, List.mem_cons_of_mem _ hu, h⟩

/-- Elements without the separator can be told from their joined text. -/
theorem intercalate_inj {sep : Char} {ts us : List (List Char)} (ht : ts ≠ []) (hu : us ≠ [])
    (hts : ∀ t ∈ ts, sep ∉ t) (hus : ∀ u ∈ us, sep ∉ u)
    (h : [sep].intercalate ts = [sep].intercalate us) : ts = us := by
  rw [← List.splitOn_intercalate sep hts ht, ← List.splitOn_intercalate sep hus hu, h]

theorem intercalate_append (sep : Char) {ts us : List (List Char)} (ht : ts ≠ []) (hu : us ≠ []) :
    [sep].intercalate (ts ++ us) = [sep].intercalate ts ++ sep :: [sep].intercalate us := by
  obtain ⟨t, ts, rfl⟩ := List.exists_cons_of_ne_nil ht
  obtain ⟨u, us, rfl⟩ := List.exists_cons_of_ne_nil hu
  simp only [List.cons_append, intercalate_cons, List.flatMap_append, List.flatMap_cons,
    List.append_assoc]

end CxxUtil.Foundations
