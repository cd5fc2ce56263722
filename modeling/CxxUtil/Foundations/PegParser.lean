import Mathlib.Data.List.TakeWhile
import CxxUtil.Foundations.Separated

/-! # Parsing expressions with expectation points

Recursive-descent parsers over a list of characters: ordered choice that never reconsiders, greedy
repetition, lists that give back a separator no element follows, and expectation points, which turn
a failure into an exception for an enclosing handler. A `Parser` returns its attribute; a `Rule`
writes into the attribute it is given and does not undo what it wrote when a later part fails.

`list_read` and `list_reads` say what a separated list reads: the texts of its elements, joined. -/
namespace CxxUtil.Foundations
set_option autoImplicit false

/-- How a parser ends: with an attribute and the rest of the input, by failing, or by throwing out
of an expectation point. -/
inductive Reply (α : Type*)
  | matched (attr : α) (rest : List Char)
  | failed
  | threw
  deriving DecidableEq, Repr

abbrev Parser (α : Type*) := List Char → Reply α

variable {α β : Type*}

def Reply.map (f : α → β) : Reply α → Reply β
  | .matched a rest => .matched (f a) rest
  | .failed => .failed
  | .threw => .threw

namespace Parser

def lit (c : Char) : Parser Unit
  | [] => .failed
  | x :: s => if x = c then .matched () s else .failed

def many1 (p : Char → Bool) : Parser (List Char) := fun s =>
  if s.takeWhile p = [] then .failed else .matched (s.takeWhile p) (s.dropWhile p)

/-- A maximal run of decimal digits whose value the attribute type can hold. -/
def number (fits : ℕ → Option α) : Parser α := fun s =>
  if s.takeWhile Char.isDigit = [] then .failed
  else
    match fits (Nat.ofDigitChars 10 (s.takeWhile Char.isDigit) 0) with
    | some a => .matched a (s.dropWhile Char.isDigit)
    | none => .failed

def map (f : α → β) (p : Parser α) : Parser β := fun s => (p s).map f

def alt (p q : Parser α) : Parser α := fun s =>
  match p s with
  | .failed => q s
  | r => r

/-- Always matches, unless `p` throws. -/
def optional (p : Parser α) : Parser (Option α) := fun s =>
  match p s with
  | .matched a rest => .matched (some a) rest
  | .failed => .matched none s
  | .threw => .threw

/-- `p`, then `q` behind an expectation point. -/
def expect (p : Parser Unit) (q : Parser α) : Parser α := fun s =>
  match p s with
  | .matched _ rest =>
    match q rest with
    | .failed => .threw
    | r => r
  | .failed => .failed
  | .threw => .threw

/-- An error handler that answers an unmet expectation by failing. -/
def onErrorFail (p : Parser α) : Parser α := fun s =>
  match p s with
  | .threw => .failed
  | r => r

/-- The elements after the first. Each of them takes a separator, so the length of the input bounds
the number of turns. -/
def listTail (p : Parser α) (sep : Char) : ℕ → Parser (List α)
  | 0, s => .matched [] s
  | n + 1, s =>
    match lit sep s with
    | .matched _ s₁ =>
      match p s₁ with
      | .matched a s₂ => (listTail p sep n s₂).map (a :: ·)
      | .failed => .matched [] s
      | .threw => .threw
    | _ => .matched [] s

def list (p : Parser α) (sep : Char) : Parser (List α) := fun s =>
  match p s with
  | .matched a rest => (listTail p sep rest.length rest).map (a :: ·)
  | .failed => .failed
  | .threw => .threw

end Parser

/-! ## Rules writing into an attribute -/

abbrev Rule (α : Type*) := α → List Char → α × Reply Unit

namespace Rule

/-- A parser whose attribute is written into a part of the rule's. -/
def into (p : Parser β) (write : β → α → α) : Rule α := fun attr s =>
  match p s with
  | .matched b rest => (write b attr, .matched () rest)
  | .failed => (attr, .failed)
  | .threw => (attr, .threw)

def seq (p q : Rule α) : Rule α := fun attr s =>
  match p attr s with
  | (attr, .matched _ rest) => q attr rest
  | r => r

/-- Two rules in sequence, the second behind an expectation point. -/
def expect (p q : Rule α) : Rule α := fun attr s =>
  match p attr s with
  | (attr, .matched _ rest) =>
    match q attr rest with
    | (attr, .failed) => (attr, .threw)
    | r => r
  | r => r

def onErrorFail (p : Rule α) : Rule α := fun attr s =>
  match p attr s with
  | (attr, .threw) => (attr, .failed)
  | r => r

def eoi : Rule α := fun attr s => (attr, if s = [] then .matched () s else .failed)

end Rule

theorem Reply.map_matched {f : α → β} {r : Reply α} {b : β} {rest : List Char} :
    r.map f = .matched b rest ↔ ∃ a, r = .matched a rest ∧ f a = b := by
  cases r with
  | matched a s =>
    simp only [Reply.map, Reply.matched.injEq]
    constructor
    · rintro ⟨rfl, rfl⟩
      exact ⟨a, ⟨rfl, rfl⟩, rfl⟩
    · rintro ⟨a', ⟨rfl, rfl⟩, rfl⟩
      exact ⟨rfl, rfl⟩
  | failed => simp [Reply.map]
  | threw => simp [Reply.map]

namespace Parser

theorem map_matched {f : α → β} {p : Parser α} {s rest : List Char} {b : β} :
    map f p s = .matched b rest ↔ ∃ a, p s = .matched a rest ∧ f a = b :=
  Reply.map_matched

theorem alt_matched {p q : Parser α} {s rest : List Char} {a : α} :
    alt p q s = .matched a rest ↔
      p s = .matched a rest ∨ p s = .failed ∧ q s = .matched a rest := by
  cases hp : p s <;> simp [alt, hp]

theorem alt_failed_left {p q : Parser α} {s : List Char} (h : p s = .failed) :
    alt p q s = q s := by
  simp only [alt, h]

/-! ## Characters and runs of characters -/

theorem lit_matched {c : Char} {s rest : List Char} {u : Unit} :
    lit c s = .matched u rest ↔ s = c :: rest := by
  cases s with
  | nil => simp [lit]
  | cons x s => by_cases hx : x = c <;> simp [lit, hx]

theorem lit_failed {c : Char} {s : List Char} : lit c s = .failed ↔ s.head? ≠ some c := by
  cases s with
  | nil => simp [lit]
  | cons x s => by_cases hx : x = c <;> simp [lit, hx]

theorem lit_ne_threw {c : Char} {s : List Char} : lit c s ≠ .threw := by
  cases s with
  | nil => simp [lit]
  | cons x s => by_cases hx : x = c <;> simp [lit, hx]

/-- `s` does not begin with a character of the class `p`. -/
def StopsAt (p : Char → Bool) (s : List Char) : Prop := ∀ c, s.head? = some c → p c = false

theorem stopsAt_nil (p : Char → Bool) : StopsAt p [] := fun _ hc => by cases hc

theorem takeWhile_of_stopsAt {p : Char → Bool} {s : List Char} (h : StopsAt p s) :
    s.takeWhile p = [] := by
  cases s with
  | nil => rfl
  | cons c s => simp [h c rfl]

theorem dropWhile_of_stopsAt {p : Char → Bool} {s : List Char} (h : StopsAt p s) :
    s.dropWhile p = s := by
  cases s with
  | nil => rfl
  | cons c s => simp [h c rfl]

theorem stopsAt_dropWhile (p : Char → Bool) (s : List Char) : StopsAt p (s.dropWhile p) := by
  induction s with
  | nil => intro c hc; simp at hc
  | cons x s ih =>
    cases hx : p x with
    | true => simpa [hx] using ih
    | false =>
      intro c hc
      obtain rfl : x = c := by simpa [hx] using hc
      exact hx

theorem takeWhile_append_stopsAt {p : Char → Bool} {t s : List Char} (ht : ∀ c ∈ t, p c = true)
    (hs : StopsAt p s) : (t ++ s).takeWhile p = t := by
  rw [List.takeWhile_append_of_pos ht, takeWhile_of_stopsAt hs, List.append_nil]

theorem dropWhile_append_stopsAt {p : Char → Bool} {t s : List Char} (ht : ∀ c ∈ t, p c = true)
    (hs : StopsAt p s) : (t ++ s).dropWhile p = s := by
  rw [List.dropWhile_append_of_pos ht, dropWhile_of_stopsAt hs]

theorem onErrorFail_matched {p : Parser α} {s rest : List Char} {a : α} :
    onErrorFail p s = .matched a rest ↔ p s = .matched a rest := by
  cases h : p s <;> simp [onErrorFail, h]

theorem onErrorFail_ne_threw {p : Parser α} {s : List Char} : onErrorFail p s ≠ .threw := by
  cases h : p s <;> simp [onErrorFail, h]

theorem expect_matched {p : Parser Unit} {q : Parser α} {s rest : List Char} {a : α} :
    expect p q s = .matched a rest ↔ ∃ s₁, p s = .matched () s₁ ∧ q s₁ = .matched a rest := by
  cases hp : p s with
  | matched u s₁ => cases hq : q s₁ <;> simp [expect, hp, hq]
  | failed => simp [expect, hp]
  | threw => simp [expect, hp]

theorem many1_eq {p : Char → Bool} {t s : List Char} (hne : t ≠ []) (ht : ∀ c ∈ t, p c = true)
    (hs : StopsAt p s) : many1 p (t ++ s) = .matched t s := by
  unfold many1
  rw [takeWhile_append_stopsAt ht hs, dropWhile_append_stopsAt ht hs, if_neg hne]

theorem many1_matched {p : Char → Bool} {s t rest : List Char} (h : many1 p s = .matched t rest) :
    s = t ++ rest ∧ t ≠ [] ∧ ∀ c ∈ t, p c = true := by
  unfold many1 at h
  split at h
  · cases h
  · rename_i hne
    obtain ⟨rfl, rfl⟩ := Reply.matched.inj h
    exact ⟨(List.takeWhile_append_dropWhile).symm, hne, fun c hc => List.mem_takeWhile_imp hc⟩

theorem many1_stops {p : Char → Bool} {s t rest : List Char} (h : many1 p s = .matched t rest) :
    StopsAt p rest := by
  unfold many1 at h
  split at h
  · cases h
  · obtain ⟨-, rfl⟩ := Reply.matched.inj h
    exact stopsAt_dropWhile p s

theorem number_matched {fits : ℕ → Option α} {s rest : List Char} {a : α}
    (h : number fits s = .matched a rest) :
    ∃ t, s = t ++ rest ∧ t ≠ [] ∧ (∀ c ∈ t, c.isDigit = true) ∧
      fits (Nat.ofDigitChars 10 t 0) = some a := by
  unfold number at h
  split at h
  · cases h
  · rename_i hne
    split at h
    · rename_i a' hfits
      obtain ⟨rfl, rfl⟩ := Reply.matched.inj h
      exact ⟨_, (List.takeWhile_append_dropWhile).symm, hne,
        fun c hc => List.mem_takeWhile_imp hc, hfits⟩
    · cases h

theorem number_eq {fits : ℕ → Option α} {t s : List Char} {a : α} (hne : t ≠ [])
    (ht : ∀ c ∈ t, c.isDigit = true) (hs : StopsAt Char.isDigit s)
    (hfits : fits (Nat.ofDigitChars 10 t 0) = some a) : number fits (t ++ s) = .matched a s := by
  unfold number
  rw [takeWhile_append_stopsAt ht hs, dropWhile_append_stopsAt ht hs, if_neg hne]
  simp only [hfits]

/-! ## Separated lists -/

/-- `r` is what an element of a list may be followed by: the separator, or what follows the list. -/
def Follows (sep : Char) (rest r : List Char) : Prop := r = rest ∨ r.head? = some sep

/-- `p` reads a prefix of its input. -/
def Consumes (p : Parser α) : Prop := ∀ s a r, p s = .matched a r → ∃ t, s = t ++ r

theorem follows_flatMap (sep : Char) (rest : List Char) (ts : List (List Char)) :
    Follows sep rest (ts.flatMap (sep :: ·) ++ rest) := by
  cases ts with
  | nil => exact .inl rfl
  | cons t ts => exact .inr (by simp)

theorem listTail_sound {p : Parser α} {sep : Char} (hp : Consumes p) (n : ℕ) :
    ∀ {s as rest}, listTail p sep n s = .matched as rest →
      ∃ items : List (List Char × α), as = items.map Prod.snd ∧
        s = (items.map Prod.fst).flatMap (sep :: ·) ++ rest ∧
        ∀ it ∈ items, ∃ r, Follows sep rest r ∧ p (it.1 ++ r) = .matched it.2 r := by
  induction n with
  | zero =>
    intro s as rest h
    obtain ⟨rfl, rfl⟩ := Reply.matched.inj h
    exact ⟨[], rfl, rfl, by simp⟩
  | succ n ih =>
    intro s as rest h
    rw [listTail] at h
    split at h
    · rename_i u s₁ hlit
      split at h
      · rename_i a s₂ ha
        obtain ⟨as', htail, rfl⟩ := Reply.map_matched.mp h
        obtain ⟨items, rfl, hs₂, hitems⟩ := ih htail
        obtain ⟨t, rfl⟩ := hp _ _ _ ha
        refine ⟨(t, a) :: items, rfl, ?_, ?_⟩
        · rw [lit_matched.mp hlit, hs₂]
          simp
        · intro it hit
          rcases List.mem_cons.mp hit with rfl | hit
          · exact ⟨s₂, hs₂ ▸ follows_flatMap sep rest _, ha⟩
          · exact hitems it hit
      · -- the separator is given back
        obtain ⟨rfl, rfl⟩ := Reply.matched.inj h
        exact ⟨[], rfl, rfl, by simp⟩
      · cases h
    · obtain ⟨rfl, rfl⟩ := Reply.matched.inj h
      exact ⟨[], rfl, rfl, by simp⟩

/-- The elements after the first are optional. -/
theorem listTail_matches {p : Parser α} (sep : Char) (hp : ∀ s, p s ≠ .threw) (n : ℕ) :
    ∀ s, ∃ as rest, listTail p sep n s = .matched as rest := by
  induction n with
  | zero => exact fun s => ⟨[], s, rfl⟩
  | succ n ih =>
    intro s
    rw [listTail]
    split
    · split
      · obtain ⟨as, rest, htail⟩ := ih ‹_›
        exact ⟨_, rest, by rw [htail, Reply.map]⟩
      · exact ⟨[], s, rfl⟩
      · exact absurd ‹_› (hp _)
    · exact ⟨[], s, rfl⟩

/-- A list fails only at its first element. -/
theorem list_matches {p : Parser α} (sep : Char) (hp : ∀ s, p s ≠ .threw) {s rest : List Char}
    {a : α} (h : p s = .matched a rest) : ∃ as rest', list p sep s = .matched as rest' := by
  obtain ⟨as, rest', htail⟩ := listTail_matches sep hp rest.length rest
  exact ⟨a :: as, rest', by simp [list, h, htail, Reply.map]⟩

/-- What a separated list has read: the texts of its elements, joined, each element in front of a
separator or of the rest. -/
theorem list_sound {p : Parser α} {sep : Char} (hp : Consumes p) {s rest : List Char}
    {as : List α} (h : list p sep s = .matched as rest) :
    ∃ items : List (List Char × α), items ≠ [] ∧ as = items.map Prod.snd ∧
      s = [sep].intercalate (items.map Prod.fst) ++ rest ∧
      ∀ it ∈ items, ∃ r, Follows sep rest r ∧ p (it.1 ++ r) = .matched it.2 r := by
  unfold list at h
  split at h
  · rename_i a s₁ ha
    obtain ⟨as', htail, rfl⟩ := Reply.map_matched.mp h
    obtain ⟨items, rfl, hs₁, hitems⟩ := listTail_sound hp _ htail
    obtain ⟨t, rfl⟩ := hp _ _ _ ha
    refine ⟨(t, a) :: items, by simp, rfl, ?_, ?_⟩
    · rw [List.map_cons, intercalate_cons, List.append_assoc, ← hs₁]
    · intro it hit
      rcases List.mem_cons.mp hit with rfl | hit
      · exact ⟨s₁, hs₁ ▸ follows_flatMap sep rest _, ha⟩
      · exact hitems it hit
  · cases h
  · cases h

/-- The same for a parser that reads only texts that are `good`, and reads `t` as `f t`. -/
theorem list_read {p : Parser α} {sep : Char} (hp : Consumes p) {good : List Char → Prop}
    {f : List Char → α} {s rest : List Char} {as : List α}
    (hread : ∀ t a r, Follows sep rest r → p (t ++ r) = .matched a r → good t ∧ f t = a)
    (h : list p sep s = .matched as rest) :
    ∃ ts, ts ≠ [] ∧ (∀ t ∈ ts, good t) ∧ s = [sep].intercalate ts ++ rest ∧ as = ts.map f := by
  obtain ⟨items, hne, rfl, hs, hitems⟩ := list_sound hp h
  have hitem : ∀ it ∈ items, good it.1 ∧ f it.1 = it.2 := fun it hit => by
    obtain ⟨r, hr, hmatched⟩ := hitems it hit
    exact hread it.1 it.2 r hr hmatched
  refine ⟨items.map Prod.fst, by simpa using hne, ?_, hs, ?_⟩
  · intro t ht
    obtain ⟨it, hit, rfl⟩ := List.mem_map.mp ht
    exact (hitem it hit).1
  · rw [List.map_map]
    exact List.map_congr_left fun it hit => (hitem it hit).2.symm

theorem listTail_complete {p : Parser α} {sep : Char} {rest : List Char}
    (hrest : rest.head? ≠ some sep) (items : List (List Char × α))
    (hread : ∀ it ∈ items, ∀ r, Follows sep rest r → p (it.1 ++ r) = .matched it.2 r) :
    ∀ {n}, items.length ≤ n →
      listTail p sep n ((items.map Prod.fst).flatMap (sep :: ·) ++ rest) =
        .matched (items.map Prod.snd) rest := by
  induction items with
  | nil =>
    intro n _
    cases n with
    | zero => rfl
    | succ n => simp [listTail, lit_failed.mpr hrest]
  | cons it items ih =>
    intro n hn
    obtain ⟨n, rfl⟩ : ∃ m, n = m + 1 := ⟨n - 1, by simp at hn; omega⟩
    have hhead := hread it List.mem_cons_self _ (follows_flatMap sep rest (items.map Prod.fst))
    have htail := ih (fun it hit => hread it (List.mem_cons_of_mem _ hit))
      (Nat.le_of_succ_le_succ hn)
    simp only [List.map_cons, List.flatMap_cons, List.cons_append, List.append_assoc, listTail,
      lit, if_true, hhead, htail, Reply.map]

/-- A list of elements, joined, is read as these elements when `p` reads each of them before a
separator and before the rest. -/
theorem list_complete {p : Parser α} {sep : Char} {rest : List Char}
    (hrest : rest.head? ≠ some sep) {items : List (List Char × α)} (hne : items ≠ [])
    (hread : ∀ it ∈ items, ∀ r, Follows sep rest r → p (it.1 ++ r) = .matched it.2 r) :
    list p sep ([sep].intercalate (items.map Prod.fst) ++ rest) =
      .matched (items.map Prod.snd) rest := by
  obtain ⟨it, items, rfl⟩ := List.exists_cons_of_ne_nil hne
  have hlen : items.length ≤ ((items.map Prod.fst).flatMap (sep :: ·) ++ rest).length := by
    clear hread hne
    induction items with
    | nil => simp
    | cons it items ih => simp at ih ⊢; omega
  have hhead := hread it List.mem_cons_self _ (follows_flatMap sep rest (items.map Prod.fst))
  have htail := listTail_complete hrest items
    (fun it hit => hread it (List.mem_cons_of_mem _ hit)) hlen
  simp only [List.map_cons, intercalate_cons, List.append_assoc, list, hhead, htail, Reply.map]

theorem list_reads {p : Parser α} {sep : Char} {rest : List Char} (f : List Char → α)
    (hrest : rest.head? ≠ some sep) {ts : List (List Char)} (hne : ts ≠ [])
    (hread : ∀ t ∈ ts, ∀ r, Follows sep rest r → p (t ++ r) = .matched (f t) r) :
    list p sep ([sep].intercalate ts ++ rest) = .matched (ts.map f) rest := by
  have hitems : ∀ it ∈ ts.map fun t => (t, f t), ∀ r, Follows sep rest r →
      p (it.1 ++ r) = .matched it.2 r := by
    intro it hit
    obtain ⟨t, ht, rfl⟩ := List.mem_map.mp hit
    exact hread t ht
  simpa [Function.comp_def] using list_complete hrest (by simpa using hne) hitems

end Parser
end CxxUtil.Foundations
