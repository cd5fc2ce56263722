import CxxUtil.Variants.Swap

/-! # Value semantics

Against a store that has, for every Variant, a type and a value or nothing: construction and
assignment from a Variant take the value out of their source, `swap` exchanges, and the assertion of
the fallback `apply`, where it is compiled out, does no harm. -/
namespace CxxUtil.Variants
open Foundations
set_option autoImplicit false

variable {I Ty Tag V : Type*}

/-- The Variants there are, and what each of them has. -/
structure RefStore (I Ty V : Type*) where
  live : I → Bool
  content : I → Option (Ty × V)

namespace RefStore

section
variable [DecidableEq I]

def put (n : I) (c : Option (Ty × V)) (st : RefStore I Ty V) : RefStore I Ty V :=
  { st with content := Function.update st.content n c }

def setLive (n : I) (b : Bool) (st : RefStore I Ty V) : RefStore I Ty V :=
  { st with live := Function.update st.live n b }

def exchange (m n : I) (st : RefStore I Ty V) : RefStore I Ty V :=
  (st.put m (st.content n)).put n (st.content m)

end

def init : RefStore I Ty V := ⟨fun _ => false, fun _ => none⟩

def step [DecidableEq Ty] (bounded : List Ty) (st : RefStore ℕ Ty V) :
    Action Ty V → Option (RefStore ℕ Ty V)
  | .convert n U x =>
    if st.live n = false ∧ U ∈ bounded then some ((st.setLive n true).put n (some (U, x)))
    else none
  | .moveConstruct n source =>
    if st.live n = false ∧ st.live source then
      some (((st.setLive n true).put n (st.content source)).put source none)
    else none
  | .assignValue n U x =>
    if st.live n ∧ U ∈ bounded then some (st.put n (some (U, x))) else none
  | .assignVariant n source =>
    if st.live n ∧ st.live source then some ((st.put source none).put n (st.content source))
    else none
  | .swap lhs rhs =>
    if st.live lhs ∧ st.live rhs then some (st.exchange lhs rhs) else none
  | .destroy n => if st.live n then some ((st.setLive n false).put n none) else none

/-- With the parameter of the assignment as a further Variant. -/
def extend (st : RefStore ℕ Ty V) : RefStore Name Ty V where
  live
    | .var n => st.live n
    | _ => false
  content
    | .var n => st.content n
    | _ => none

theorem extend_put (n : ℕ) (c : Option (Ty × V)) (st : RefStore ℕ Ty V) :
    (st.put n c).extend = st.extend.put (.var n) c := by
  unfold put extend
  congr 1
  funext m
  cases m with
  | var k =>
    by_cases hk : k = n
    · simp [hk]
    · simp [hk]
  | other => simp
  | tmp => simp

theorem extend_setLive (n : ℕ) (b : Bool) (st : RefStore ℕ Ty V) :
    (st.setLive n b).extend = st.extend.setLive (.var n) b := by
  unfold setLive extend
  congr 1
  funext m
  cases m with
  | var k =>
    by_cases hk : k = n
    · simp [hk]
    · simp [hk]
  | other => simp
  | tmp => simp

end RefStore

/-- Different bounded types have different tags. -/
def Types.Distinct (ts : Types Ty Tag V) : Prop :=
  ∀ A ∈ ts.bounded, ∀ B ∈ ts.bounded, ts.dtor A = ts.dtor B → A = B

section
variable (ts : Types Ty Tag V)

/-- The Variant holds what the store has. -/
def Represents (v : Variant Ty Tag V) : Option (Ty × V) → Prop
  | none => v.mDtor = none
  | some (U, x) => U ∈ ts.bounded ∧ v.mDtor = some (ts.dtor U) ∧ ∃ k, v.mData = some ⟨k, U, x⟩

theorem represents_void : Represents ts ⟨none, none⟩ none := rfl

/-- The Variants, the temporary of `swap` apart, are those of the store. -/
def Simulates (s : World Ty Tag V) (st : RefStore Name Ty V) : Prop :=
  ∀ n, n ≠ .tmp → s.live n = st.live n ∧ Represents ts (s.variants n) (st.content n)

end

section
variable {ts : Types Ty Tag V} {v v' : Variant Ty Tag V} {c : Option (Ty × V)}

theorem Represents.tagged (h : Represents ts v c) : Tagged ts v := by
  intro t ht
  cases c with
  | none => cases ht.symm.trans h
  | some p =>
    obtain ⟨hU, htag, k, hdata⟩ := h
    exact ⟨⟨p.1, hU, Option.some.inj (htag.symm.trans ht)⟩, _, hdata⟩

theorem Represents.moved (hinj : ts.Distinct) (htransfers : ts.Transfers) {k : ℕ}
    (h : Represents ts v c) (hmoved : Moved ts k v v') : Represents ts v' c := by
  cases c with
  | none => exact hmoved.1.trans h
  | some p =>
    obtain ⟨hU, htag, j, hdata⟩ := h
    obtain ⟨⟨i, T, x⟩, hdata', -, hT, heq, hvalue⟩ := hmoved.2 _ _ htag hdata
    obtain rfl : T = p.1 := hinj T hT p.1 hU heq
    obtain rfl : x = p.2 := hvalue htransfers
    exact ⟨hU, hmoved.1.trans htag, i, hdata'⟩

/-! ## The operations -/

section
variable {s s' : World Ty Tag V} {st st' : RefStore Name Ty V}

theorem Simulates.congr (h : Simulates ts s st)
    (hst : ∀ n, n ≠ .tmp → st.live n = st'.live n ∧ st.content n = st'.content n) :
    Simulates ts s st' := by
  intro n hn
  obtain ⟨hlive, hcontent⟩ := hst n hn
  rw [← hlive, ← hcontent]
  exact h n hn

/-- One Variant is made, changed or destroyed. -/
theorem Simulates.update (h : Simulates ts s st) (n : Name) (b : Bool)
    (hv : Represents ts v c) (hvariants : s'.variants = Function.update s.variants n v)
    (hlive : s'.live = Function.update s.live n b) :
    Simulates ts s' ((st.setLive n b).put n c) := by
  intro m hm
  rw [hvariants, hlive]
  simp only [RefStore.put, RefStore.setLive]
  by_cases hmn : m = n
  · subst hmn
    simp only [Function.update_self, true_and]
    exact hv
  · simp only [Function.update_of_ne hmn]
    exact h m hm

theorem Simulates.make (h : Simulates ts s st) (n : Name) :
    Simulates ts (s.make n) ((st.setLive n true).put n none) :=
  h.update n true (represents_void ts) rfl rfl

theorem Simulates.destroy (h : Simulates ts s st) (n : Name) :
    Simulates ts (s.destroy n) ((st.setLive n false).put n none) :=
  h.update n false (represents_void ts) (destroy_variants n s) (destroy_live n s)

theorem Simulates.convert (h : Simulates ts s st) (n : Name) {U : Ty} (hU : U ∈ ts.bounded)
    (x : V) : Simulates ts (convert ts n U x s) ((st.setLive n true).put n (some (U, x))) :=
  h.update n true ⟨hU, rfl, _, rfl⟩ (convert_variants ts n U x s) (convert_live ts n U x s)

variable [DecidableEq Tag] (hinj : ts.Distinct) (htransfers : ts.Transfers)
include hinj htransfers

theorem Simulates.swap (h : Simulates ts s st) {lhs rhs : Name} (hl : lhs ≠ .tmp)
    (hr : rhs ≠ .tmp) : Simulates ts (swap ts lhs rhs s) (st.exchange lhs rhs) := by
  obtain ⟨-, hlhs⟩ := h lhs hl
  obtain ⟨-, hrhs⟩ := h rhs hr
  have hswapped := swapped hlhs.tagged hrhs.tagged hl hr
  intro n hn
  simp only [RefStore.exchange, RefStore.put]
  refine ⟨?_, ?_⟩
  · rw [hswapped.live, Function.update_of_ne hn]
    exact (h n hn).1
  · by_cases hnr : n = rhs
    · subst hnr
      rw [Function.update_self]
      exact hlhs.moved hinj htransfers hswapped.right
    · rw [Function.update_of_ne hnr]
      by_cases hnl : n = lhs
      · subst hnl
        rw [Function.update_self]
        exact hrhs.moved hinj htransfers hswapped.left
      · rw [Function.update_of_ne hnl, hswapped.others n hnl hnr hn]
        exact (h n hn).2

theorem Simulates.moveConstruct (h : Simulates ts s st) {n source : Name} (hn : n ≠ .tmp)
    (hsource : source ≠ .tmp) (hne : source ≠ n) : Simulates ts (moveConstruct ts n source s)
      (((st.setLive n true).put n (st.content source)).put source none) := by
  refine ((h.make n).swap hinj htransfers hn hsource).congr ?_
  intro m _
  simp [RefStore.exchange, RefStore.put, RefStore.setLive, hne]

theorem Simulates.assign (h : Simulates ts s st) {n : Name} (hn : n ≠ .tmp) :
    Simulates ts (assign ts n s)
      (((st.setLive .other false).put n (st.content .other)).put .other none) := by
  refine ((h.swap hinj htransfers hn (by simp)).destroy .other).congr ?_
  intro m _
  simp [RefStore.exchange, RefStore.put, RefStore.setLive]

end

/-! ## Runs -/

section
variable [DecidableEq Ty] [DecidableEq Tag] (hinj : ts.Distinct) (htransfers : ts.Transfers)
include hinj htransfers

theorem simulates_step (s : World Ty Tag V) (st : RefStore ℕ Ty V) (act : Action Ty V)
    (h : Simulates ts s st.extend) :
    Option.Rel (fun s st => Simulates ts s st.extend) (step ts s act)
      (RefStore.step ts.bounded st act) := by
  have hlive (n : ℕ) : s.live (.var n) = st.live n := (h (.var n) (by simp)).1
  -- a parameter has come and gone
  have hassign {t : World Ty Tag V} {c : Option (Ty × V)} (n : ℕ) {st : RefStore ℕ Ty V}
      (ht : Simulates ts t ((st.extend.setLive .other true).put .other c)) :
      Simulates ts (assign ts (.var n) t) (st.put n c).extend := by
    refine (ht.assign hinj htransfers (by simp)).congr ?_
    intro m _
    rw [RefStore.extend_put]
    cases m with
    | var k => simp [RefStore.put, RefStore.setLive, Function.update_apply]
    | other => simp [RefStore.put, RefStore.setLive, RefStore.extend]
    | tmp => simp [RefStore.put, RefStore.setLive, RefStore.extend]
  cases act with
  | convert n U x =>
    simp only [step, RefStore.step, hlive]
    split
    case isTrue hguard =>
      refine .some ?_
      rw [RefStore.extend_put, RefStore.extend_setLive]
      exact h.convert (.var n) hguard.2 x
    case isFalse => exact .none
  | moveConstruct n source =>
    simp only [step, RefStore.step, hlive]
    split
    case isTrue hguard =>
      have hne : source ≠ n := by
        rintro rfl
        simp [hguard.1] at hguard
      refine .some ?_
      rw [RefStore.extend_put, RefStore.extend_put, RefStore.extend_setLive]
      exact h.moveConstruct hinj htransfers (by simp) (by simp) (by simpa using hne)
    case isFalse => exact .none
  | assignValue n U x =>
    simp only [step, RefStore.step, hlive]
    split
    case isTrue hguard => exact .some (hassign n (h.convert .other hguard.2 x))
    case isFalse => exact .none
  | assignVariant n source =>
    simp only [step, RefStore.step, hlive]
    split
    case isTrue hguard =>
      refine .some (hassign n ?_)
      refine (h.moveConstruct hinj htransfers (n := .other) (by simp) (by simp) (by simp)).congr ?_
      intro m _
      rw [RefStore.extend_put]
      cases m with
      | var k => simp [RefStore.put, RefStore.setLive, Function.update_apply]
      | other => simp [RefStore.put, RefStore.setLive, RefStore.extend]
      | tmp => simp [RefStore.put, RefStore.setLive]
    case isFalse => exact .none
  | swap lhs rhs =>
    simp only [step, RefStore.step, hlive]
    split
    case isTrue hguard =>
      refine .some ?_
      rw [RefStore.exchange, RefStore.extend_put, RefStore.extend_put]
      exact h.swap hinj htransfers (by simp) (by simp)
    case isFalse => exact .none
  | destroy n =>
    simp only [step, RefStore.step, hlive]
    split
    case isTrue hguard =>
      refine .some ?_
      rw [RefStore.extend_put, RefStore.extend_setLive]
      exact h.destroy (.var n)
    case isFalse => exact .none

end

/-! ## What a client sees -/

/-- The Variant is seen to hold the value `x` of the type `U`, and nothing else. -/
structure Shows [DecidableEq Tag] (ts : Types Ty Tag V) (v : Variant Ty Tag V) (U : Ty) (x : V) :
    Prop where
  get : ∀ T ∈ ts.bounded, (get ts T v).isSome = true ↔ T = U
  /-- Whatever a visitor does, it is done once, with the stored value as an object of `U`. -/
  visited : ∃ k, v.mData = some ⟨k, U, x⟩ ∧
    ∀ (σ : Type) (f : Ty → Option (Object Ty V) → σ → σ) (unbounded : σ → σ) (s : σ),
      apply ts f unbounded v s = f U (some ⟨k, U, x⟩) s

/-- The Variants are seen to hold what the store has. -/
structure Agrees [DecidableEq Tag] (ts : Types Ty Tag V) (s : World Ty Tag V)
    (st : RefStore ℕ Ty V) : Prop where
  live : ∀ n, s.live (.var n) = st.live n
  holds : ∀ n U x, st.content n = some (U, x) → Shows ts (s.variants (.var n)) U x
  empty : ∀ n, st.content n = none → ∀ T, get ts T (s.variants (.var n)) = none

theorem Represents.shows [DecidableEq Tag] (hinj : ts.Distinct) {U : Ty} {x : V}
    (h : Represents ts v (some (U, x))) : Shows ts v U x := by
  obtain ⟨hU, htag, k, hdata⟩ := h
  constructor
  case get =>
    intro T hT
    have hiff : ts.dtor U = ts.dtor T ↔ T = U :=
      ⟨fun heq => (hinj U hU T hT heq).symm, fun heq => heq ▸ rfl⟩
    simp [Variants.get, htag, hiff]
  case visited =>
    refine ⟨k, hdata, ?_⟩
    intro σ f unbounded s
    obtain ⟨T, hT, heq, happly⟩ := applyTo_bounded ts f unbounded hU htag s
    rw [apply, happly, hinj T hT U hU heq, hdata]

theorem Simulates.agrees [DecidableEq Tag] (hinj : ts.Distinct) {s : World Ty Tag V}
    {st : RefStore ℕ Ty V} (h : Simulates ts s st.extend) : Agrees ts s st where
  live n := (h (.var n) (by simp)).1
  holds n U x hcontent := by
    have hrep : Represents ts (s.variants (.var n)) (st.content n) := (h (.var n) (by simp)).2
    rw [hcontent] at hrep
    exact hrep.shows hinj
  empty n hcontent T := by
    have hrep : Represents ts (s.variants (.var n)) (st.content n) := (h (.var n) (by simp)).2
    rw [hcontent] at hrep
    have hvoid : (s.variants (.var n)).mDtor = none := hrep
    simp [Variants.get, hvoid]

/-- **Value semantics.** The same histories are possible on the Variants and on the store, and after
each of them the Variants hold what the store has. -/
theorem value_semantics [DecidableEq Ty] [DecidableEq Tag] (hinj : ts.Distinct)
    (htransfers : ts.Transfers) (as : List (Action Ty V)) :
    Option.Rel (Agrees ts) (run (step ts) init as)
      (run (RefStore.step ts.bounded) RefStore.init as) := by
  have hinit : Simulates ts (init : World Ty Tag V) (RefStore.init.extend) := by
    intro n _
    cases n with
    | var n => exact ⟨rfl, rfl⟩
    | other => exact ⟨rfl, rfl⟩
    | tmp => exact ⟨rfl, rfl⟩
  have hrun : Option.Rel (fun s st => Simulates ts s st.extend) (run (step ts) init as)
      (run (RefStore.step ts.bounded) RefStore.init as) :=
    run_rel (simulates_step hinj htransfers) hinit as
  generalize run (step ts) _ as = s, run (RefStore.step _) _ as = st at hrun
  cases hrun with
  | none => exact .none
  | some h => exact .some (h.agrees hinj)

end

/-- A move construction, a self-assignment, an assignment and a swap of a Variant with itself. -/
theorem value_semantics_test :
    ∃ s st, run (step testTypes) init [.convert 0 .A 5, .moveConstruct 1 0, .assignVariant 1 1,
        .assignValue 0 .B 7, .swap 0 0, .swap 0 1] = some s ∧
      st.content 0 = some (.A, 5) ∧ st.content 1 = some (.B, 7) ∧ Agrees testTypes s st := by
  have hrel : Option.Rel (Agrees testTypes) (run (step testTypes) init _) _ :=
    value_semantics (fun _ _ _ _ h => h) (fun _ _ => rfl)
      [.convert 0 .A 5, .moveConstruct 1 0, .assignVariant 1 1, .assignValue 0 .B 7, .swap 0 0,
        .swap 0 1]
  cases hrel with
  | some h => exact ⟨_, _, rfl, rfl, rfl, h⟩

end CxxUtil.Variants
