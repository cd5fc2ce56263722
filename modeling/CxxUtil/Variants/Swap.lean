import CxxUtil.Variants.Variant

/-! # What `swap` does -/
namespace CxxUtil.Variants
open Foundations
set_option autoImplicit false

section
variable {Ty Tag V : Type*} [DecidableEq Tag] (ts : Types Ty Tag V)

/-- A Variant that has a tag has that of a bounded type, and an object. -/
def Tagged (v : Variant Ty Tag V) : Prop :=
  ∀ t, v.mDtor = some t → (∃ U ∈ ts.bounded, ts.dtor U = t) ∧ ∃ o, v.mData = some o

theorem applyTo_void {σ : Type*} (f : Ty → Option (Object Ty V) → σ → σ) (unbounded : σ → σ)
    {v : Variant Ty Tag V} (hvoid : v.mDtor = none) (Ts : List Ty) (s : σ) :
    applyTo ts f unbounded v Ts s = unbounded s := by
  induction Ts with
  | nil => rfl
  | cons T Ts ih => simpa [applyTo, get, hvoid] using ih

theorem applyTo_bounded {σ : Type*} (f : Ty → Option (Object Ty V) → σ → σ) (unbounded : σ → σ)
    {v : Variant Ty Tag V} {Ts : List Ty} {U : Ty} (hU : U ∈ Ts)
    (htag : v.mDtor = some (ts.dtor U)) (s : σ) :
    ∃ T ∈ Ts, ts.dtor T = ts.dtor U ∧ applyTo ts f unbounded v Ts s = f T v.mData s := by
  induction Ts with
  | nil => cases hU
  | cons T Ts ih =>
    by_cases hT : ts.dtor U = ts.dtor T
    · exact ⟨T, List.mem_cons_self, hT.symm, by simp [applyTo, get, htag, hT]⟩
    · have hne : U ≠ T := fun h => hT (congrArg ts.dtor h)
      obtain ⟨T', hmem, heq, happly⟩ := ih ((List.mem_cons.mp hU).resolve_left hne)
      refine ⟨T', List.mem_cons_of_mem _ hmem, heq, ?_⟩
      simpa [applyTo, get, htag, hT] using happly

/-- The move constructors transfer values. -/
def Types.Transfers : Prop := ∀ U x, (ts.move U x).1 = x

/-- What `v` held is held by `v'`, as an object numbered from `k` on. -/
def Moved (k : ℕ) (v v' : Variant Ty Tag V) : Prop :=
  v'.mDtor = v.mDtor ∧ ∀ t o, v.mDtor = some t → v.mData = some o →
    ∃ o', v'.mData = some o' ∧ k ≤ o'.number ∧ o'.type ∈ ts.bounded ∧ ts.dtor o'.type = t ∧
      (ts.Transfers → o'.value = o.value)

/-- The same tag, and the same object with whatever value. -/
def SameObject (v v' : Variant Ty Tag V) : Prop :=
  v'.mDtor = v.mDtor ∧ v'.mData.map Object.number = v.mData.map Object.number

section
variable {ts} {k k' : ℕ} {v v' v'' : Variant Ty Tag V}
omit [DecidableEq Tag]

theorem Moved.trans (h : Moved ts k v v') (h' : Moved ts k' v' v'') (hk : k ≤ k') :
    Moved ts k v v'' := by
  refine ⟨h'.1.trans h.1, ?_⟩
  intro t o htag hdata
  obtain ⟨o', hdata', -, -, -, hvalue⟩ := h.2 t o htag hdata
  obtain ⟨o'', hdata'', hnum, hT, heq, hvalue'⟩ := h'.2 t o' (h.1.trans htag) hdata'
  exact ⟨o'', hdata'', Nat.le_trans hk hnum, hT, heq, fun ht => (hvalue' ht).trans (hvalue ht)⟩

theorem Moved.mono (h : Moved ts k' v v') (hk : k ≤ k') : Moved ts k v v' := by
  refine ⟨h.1, ?_⟩
  intro t o htag hdata
  obtain ⟨o', hdata', hnum, hrest⟩ := h.2 t o htag hdata
  exact ⟨o', hdata', Nat.le_trans hk hnum, hrest⟩

theorem Moved.tagged (h : Moved ts k v v') (hv : Tagged ts v) : Tagged ts v' := by
  intro t htag
  rw [h.1] at htag
  obtain ⟨hU, o, hdata⟩ := hv t htag
  obtain ⟨o', hdata', -⟩ := h.2 t o htag hdata
  exact ⟨hU, o', hdata'⟩

theorem SameObject.tagged (h : SameObject v v') (hv : Tagged ts v) : Tagged ts v' := by
  intro t htag
  rw [h.1] at htag
  obtain ⟨hU, o, hdata⟩ := hv t htag
  have hsome : (v'.mData.map Object.number).isSome := by simp [h.2, hdata]
  exact ⟨hU, Option.isSome_iff_exists.mp (by simpa using hsome)⟩

end

/-! ## One transfer -/

/-- What a transfer leads to. -/
structure Transferred (destination source : Name) (s s' : World Ty Tag V) : Prop where
  arrived : Moved ts s.constructed (s.variants source) (s'.variants destination)
  left : source ≠ destination → SameObject (s.variants source) (s'.variants source)
  others : ∀ n, n ≠ destination → n ≠ source → s'.variants n = s.variants n
  live : s'.live = s.live
  constructed_le : s.constructed ≤ s'.constructed
  destroyed : s'.destroyed = s.destroyed
  clobbered : s'.clobbered = (s.clobbered ||
    (s.variants source).mDtor.isSome && s.occupied destination)
  asserted : s'.asserted = (s.asserted || (s.variants source).mDtor.isNone)

section
variable {ts} {s : World Ty Tag V} {destination source : Name}

theorem transfer_void (hvoid : (s.variants source).mDtor = none) :
    transfer ts destination source s = assertFails (s.setDtor destination none) := by
  have hvoid' : ((s.setDtor destination none).variants source).mDtor = none := by
    by_cases hname : source = destination
    · simp [World.setDtor, hname]
    · simpa [World.setDtor, hname] using hvoid
  rw [transfer, hvoid, applyMoveTo, apply, applyTo_void ts _ _ hvoid']

theorem transfer_tagged (destination : Name) {t : Tag} {o : Object Ty V}
    (htag : (s.variants source).mDtor = some t)
    (hU : ∃ U ∈ ts.bounded, ts.dtor U = t) (hdata : (s.variants source).mData = some o) :
    ∃ T ∈ ts.bounded, ts.dtor T = t ∧ transfer ts destination source s =
      (((s.setDtor destination (some t)).setValue source o (ts.move T o.value).2).construct
        destination T (ts.move T o.value).1) := by
  obtain ⟨U, hmem, rfl⟩ := hU
  have hv : (s.setDtor destination (some (ts.dtor U))).variants source = s.variants source ∨
      source = destination := by
    by_cases hname : source = destination
    · exact .inr hname
    · exact .inl (by simp [World.setDtor, hname])
  have htag' : ((s.setDtor destination (some (ts.dtor U))).variants source).mDtor =
      some (ts.dtor U) := by
    rcases hv with hv | rfl
    · rw [hv, htag]
    · simp [World.setDtor]
  have hdata' : ((s.setDtor destination (some (ts.dtor U))).variants source).mData = some o := by
    rcases hv with hv | rfl
    · rw [hv, hdata]
    · simpa [World.setDtor] using hdata
  obtain ⟨T, hT, heq, happly⟩ := applyTo_bounded ts (moveTo ts destination source) assertFails
    hmem htag' (s.setDtor destination (some (ts.dtor U)))
  refine ⟨T, hT, heq, ?_⟩
  rw [transfer, htag, applyMoveTo, apply, happly, hdata']
  rfl

theorem transferred (destination : Name) (h : Tagged ts (s.variants source)) :
    Transferred ts destination source s (transfer ts destination source s) := by
  cases htag : (s.variants source).mDtor with
  | none =>
    rw [transfer_void htag]
    constructor
    case arrived =>
      refine ⟨by simp [assertFails, World.setDtor, htag], ?_⟩
      intro t o ht
      rw [htag] at ht
      cases ht
    case left =>
      intro hne
      simp [SameObject, assertFails, World.setDtor, hne]
    case others =>
      intro n hn _
      simp [assertFails, World.setDtor, hn]
    all_goals simp [assertFails, World.setDtor, htag]
  | some t =>
    obtain ⟨hU, o, hdata⟩ := h t htag
    obtain ⟨T, hT, heq, htransfer⟩ := transfer_tagged destination htag hU hdata
    rw [htransfer]
    constructor
    case arrived =>
      refine ⟨?_, ?_⟩
      · by_cases hname : destination = source
        · simp [World.construct, World.setValue, World.setDtor, hname, htag]
        · simp [World.construct, World.setValue, World.setDtor, hname, htag]
      · intro t' o' ht ho
        obtain rfl : t = t' := Option.some.inj (htag.symm.trans ht)
        obtain rfl : o = o' := Option.some.inj (hdata.symm.trans ho)
        refine ⟨⟨s.constructed, T, (ts.move T o.value).1⟩, ?_, Nat.le_refl _, hT, heq, ?_⟩
        · simp [World.construct, World.setValue, World.setDtor]
        · exact fun htransfers => htransfers T o.value
    case left =>
      intro hne
      simp [SameObject, World.construct, World.setValue, World.setDtor, hne, hdata]
    case others =>
      intro n hd hs
      simp [World.construct, World.setValue, World.setDtor, hd, hs]
    case live => rfl
    case constructed_le => exact Nat.le_succ _
    case destroyed => rfl
    case clobbered =>
      by_cases hname : destination = source
      · subst hname
        simp [World.construct, World.setValue, World.setDtor, World.occupied, htag, hdata]
      · simp [World.construct, World.setValue, World.setDtor, World.occupied, htag, hname]
    case asserted => simp [World.construct, World.setValue, World.setDtor, htag]

end

/-! ## The end of a Variant -/

/-- The object that a Variant destroys. -/
def Variant.held (v : Variant Ty Tag V) : Option ℕ :=
  v.mDtor.bind fun _ => v.mData.map Object.number

section
variable {ts}
omit [DecidableEq Tag]

theorem callDtor_eq (n : Name) (s : World Ty Tag V) :
    s.callDtor n = { s with destroyed := s.destroyed ++ (s.variants n).held.toList } := by
  unfold World.callDtor Variant.held
  cases (s.variants n).mDtor with
  | none => simp
  | some t =>
    cases (s.variants n).mData with
    | none => simp
    | some o => rfl

theorem destroy_eq (n : Name) (s : World Ty Tag V) :
    s.destroy n = { s with
      variants := Function.update s.variants n ⟨none, none⟩
      live := Function.update s.live n false
      destroyed := s.destroyed ++ (s.variants n).held.toList } := by
  rw [World.destroy, callDtor_eq]
  rfl

section
variable (n : Name) (s : World Ty Tag V)

@[simp] theorem destroy_variants :
    (s.destroy n).variants = Function.update s.variants n ⟨none, none⟩ := by
  rw [destroy_eq]

@[simp] theorem destroy_live : (s.destroy n).live = Function.update s.live n false := by
  rw [destroy_eq]

@[simp] theorem destroy_constructed : (s.destroy n).constructed = s.constructed := by
  rw [destroy_eq]

@[simp] theorem destroy_destroyed :
    (s.destroy n).destroyed = s.destroyed ++ (s.variants n).held.toList := by
  rw [destroy_eq]

@[simp] theorem destroy_clobbered : (s.destroy n).clobbered = s.clobbered := by
  rw [destroy_eq]

@[simp] theorem destroy_asserted : (s.destroy n).asserted = s.asserted := by
  rw [destroy_eq]

end

theorem SameObject.occupied_eq {s s' : World Ty Tag V} {n : Name}
    (h : SameObject (s.variants n) (s'.variants n)) (hdestroyed : s'.destroyed = s.destroyed) :
    s'.occupied n = s.occupied n := by
  have hany (v : Variant Ty Tag V) (l : List ℕ) : (v.mData.any fun o => !l.contains o.number) =
      (v.mData.map Object.number).any fun k => !l.contains k := by
    cases v.mData <;> rfl
  rw [World.occupied, World.occupied, hdestroyed, hany, hany, h.2]

theorem SameObject.held_eq {v v' : Variant Ty Tag V} (h : SameObject v v') : v'.held = v.held := by
  rw [Variant.held, Variant.held, h.1, h.2]

theorem Moved.held_ge {k j : ℕ} {v v' : Variant Ty Tag V} (h : Moved ts k v v') (hv : Tagged ts v)
    (hj : v'.held = some j) : k ≤ j := by
  unfold Variant.held at hj
  rw [h.1] at hj
  cases htag : v.mDtor with
  | none => simp [htag] at hj
  | some t =>
    obtain ⟨-, o, hdata⟩ := hv t htag
    obtain ⟨o', hdata', hnum, -⟩ := h.2 t o htag hdata
    obtain rfl : o'.number = j := by simpa [htag, hdata'] using hj
    exact hnum

end

/-! ## The whole of `swap` -/

/-- What `swap` leads to. The Variants may be one and the same. -/
structure Swapped (lhs rhs : Name) (s s' : World Ty Tag V) : Prop where
  left : Moved ts s.constructed (s.variants rhs) (s'.variants lhs)
  right : Moved ts s.constructed (s.variants lhs) (s'.variants rhs)
  tmp : s'.variants .tmp = ⟨none, none⟩
  others : ∀ n, n ≠ lhs → n ≠ rhs → n ≠ .tmp → s'.variants n = s.variants n
  live : s'.live = Function.update s.live .tmp false
  constructed_le : s.constructed ≤ s'.constructed
  /-- Only the temporary's object is destroyed. -/
  destroyed : ∃ j : Option ℕ, s'.destroyed = s.destroyed ++ j.toList ∧ ∀ i ∈ j, s.constructed ≤ i
  clobbered_of : s.clobbered = true → s'.clobbered = true
  clobbers : (s.variants rhs).mDtor.isSome = true → s.occupied lhs = true → s'.clobbered = true
  asserted : s'.asserted =
    (s.asserted || (s.variants lhs).mDtor.isNone || (s.variants rhs).mDtor.isNone)

section
variable {ts} {s : World Ty Tag V} {lhs rhs : Name}

theorem swapped (hlhs : Tagged ts (s.variants lhs)) (hrhs : Tagged ts (s.variants rhs))
    (hl : lhs ≠ .tmp) (hr : rhs ≠ .tmp) : Swapped ts lhs rhs s (swap ts lhs rhs s) := by
  have hmake (n : Name) (hn : n ≠ .tmp) : (s.make .tmp).variants n = s.variants n := by
    simp [World.make, hn]
  show Swapped ts lhs rhs s ((transfer ts rhs .tmp (transfer ts lhs rhs (transfer ts .tmp lhs
    (s.make .tmp)))).destroy .tmp)
  -- a Variant other than the temporary keeps its object in the first transfer
  have h₁ := transferred (s := s.make .tmp) .tmp (by rwa [hmake lhs hl])
  generalize transfer ts .tmp lhs (s.make .tmp) = s₁ at h₁ ⊢
  have hlhs₁ : SameObject (s.variants lhs) (s₁.variants lhs) := by
    rw [← hmake lhs hl]
    exact h₁.left hl
  have hrhs₁ (hne : lhs ≠ rhs) : s₁.variants rhs = s.variants rhs := by
    rw [h₁.others rhs hr hne.symm, hmake rhs hr]
  have hsame₁ : SameObject (s.variants rhs) (s₁.variants rhs) := by
    by_cases hne : lhs = rhs
    · exact hne ▸ hlhs₁
    · rw [hrhs₁ hne]
      exact ⟨rfl, rfl⟩
  have htmp₁ : Moved ts s.constructed (s.variants lhs) (s₁.variants .tmp) := by
    rw [← hmake lhs hl]
    exact h₁.arrived
  have hle₁ : s.constructed ≤ s₁.constructed := h₁.constructed_le
  -- the second transfer leaves the temporary alone
  have h₂ := transferred lhs (hsame₁.tagged hrhs)
  generalize transfer ts lhs rhs s₁ = s₂ at h₂ ⊢
  have htmp₂ : s₂.variants .tmp = s₁.variants .tmp := h₂.others .tmp hl.symm hr.symm
  have htagged : Tagged ts (s₂.variants .tmp) := htmp₂ ▸ htmp₁.tagged hlhs
  have h₃ := transferred rhs htagged
  generalize transfer ts rhs .tmp s₂ = s₃ at h₃ ⊢
  have hright : Moved ts s.constructed (s.variants lhs) (s₃.variants rhs) :=
    htmp₁.trans (htmp₂ ▸ h₃.arrived) (Nat.le_trans hle₁ h₂.constructed_le)
  have hswap (n : Name) (hn : n ≠ .tmp) : (s₃.destroy .tmp).variants n = s₃.variants n := by
    simp [hn]
  constructor
  case left =>
    rw [hswap lhs hl]
    by_cases hne : lhs = rhs
    · subst hne
      exact hright
    · rw [h₃.others lhs hne hl, ← hrhs₁ hne]
      exact h₂.arrived.mono hle₁
  case right =>
    rw [hswap rhs hr]
    exact hright
  case tmp => simp
  case others =>
    intro n hnl hnr hnt
    rw [hswap n hnt, h₃.others n hnr hnt, h₂.others n hnl hnr, h₁.others n hnt hnl, hmake n hnt]
  case live =>
    rw [destroy_live, h₃.live, h₂.live, h₁.live]
    simp [World.make]
  case constructed_le =>
    rw [destroy_constructed]
    exact Nat.le_trans hle₁ (Nat.le_trans h₂.constructed_le h₃.constructed_le)
  case destroyed =>
    refine ⟨(s₃.variants .tmp).held, ?_, ?_⟩
    · rw [destroy_destroyed, h₃.destroyed, h₂.destroyed, h₁.destroyed]
      rfl
    · intro i hi
      have hheld : (s₁.variants .tmp).held = some i := by
        rw [← htmp₂, ← (h₃.left hr.symm).held_eq]
        exact hi
      exact htmp₁.held_ge hlhs hheld
  case clobbered_of =>
    intro h
    rw [destroy_clobbered, h₃.clobbered, h₂.clobbered, h₁.clobbered]
    simp [World.make, h]
  case clobbers =>
    intro hsome hocc
    have hocc₁ : s₁.occupied lhs = true := by
      rw [hlhs₁.occupied_eq h₁.destroyed]
      exact hocc
    have hsome₁ : (s₁.variants rhs).mDtor.isSome = true := by rwa [hsame₁.1]
    rw [destroy_clobbered, h₃.clobbered, h₂.clobbered, hocc₁, hsome₁]
    simp
  case asserted =>
    rw [destroy_asserted, h₃.asserted, h₂.asserted, h₁.asserted, htmp₂, htmp₁.1, hsame₁.1,
      hmake lhs hl]
    simp only [World.make]
    cases s.asserted <;> cases (s.variants lhs).mDtor <;> cases (s.variants rhs).mDtor <;> rfl

end

/-! ## Steps -/

section
variable (n : Name) (U : Ty) (x : V) (s : World Ty Tag V)
omit [DecidableEq Tag]

theorem convert_eq : convert ts n U x s =
    { s with
      variants := Function.update s.variants n
        ⟨some (ts.dtor U), some ⟨s.constructed, U, x⟩⟩
      live := Function.update s.live n true
      constructed := s.constructed + 1 } := by
  simp [convert, World.make, World.setDtor, World.construct, World.occupied]

@[simp] theorem convert_variants : (convert ts n U x s).variants =
    Function.update s.variants n ⟨some (ts.dtor U), some ⟨s.constructed, U, x⟩⟩ := by
  rw [convert_eq]

@[simp] theorem convert_live : (convert ts n U x s).live = Function.update s.live n true := by
  rw [convert_eq]

@[simp] theorem convert_constructed : (convert ts n U x s).constructed = s.constructed + 1 := by
  rw [convert_eq]

@[simp] theorem convert_destroyed : (convert ts n U x s).destroyed = s.destroyed := by
  rw [convert_eq]

@[simp] theorem convert_clobbered : (convert ts n U x s).clobbered = s.clobbered := by
  rw [convert_eq]

@[simp] theorem convert_asserted : (convert ts n U x s).asserted = s.asserted := by
  rw [convert_eq]

end

/-- What the constructors without a source, the destructor and `swap` preserve, every step does. -/
theorem step_preserves [DecidableEq Ty] {P : World Ty Tag V → Prop}
    (hmake : ∀ s n, P s → P (s.make n))
    (hconvert : ∀ s n U x, U ∈ ts.bounded → P s → P (convert ts n U x s))
    (hswap : ∀ s lhs rhs, lhs ≠ .tmp → rhs ≠ .tmp → P s → P (swap ts lhs rhs s))
    (hdestroy : ∀ s n, P s → P (s.destroy n)) (s : World Ty Tag V) (act : Action Ty V)
    (s' : World Ty Tag V) (h : P s) (hs : step ts s act = some s') : P s' := by
  have hmove (n : Name) (source : ℕ) (hn : n ≠ .tmp) :
      P (moveConstruct ts n (.var source) s) :=
    hswap _ _ _ hn (by simp) (hmake s n h)
  have hassign (t : World Ty Tag V) (n : ℕ) (ht : P t) : P (assign ts (.var n) t) :=
    hdestroy _ _ (hswap t _ _ (by simp) (by simp) ht)
  cases step_effect ts hs with
  | convert hn hU => exact hconvert s _ _ _ hU h
  | moveConstruct hn hsource => exact hmove _ _ (by simp)
  | assignValue hn hU => exact hassign _ _ (hconvert s _ _ _ hU h)
  | assignVariant hn hsource => exact hassign _ _ (hmove _ _ (by simp))
  | swap hlhs hrhs => exact hswap s _ _ (by simp) (by simp) h
  | destroy hn => exact hdestroy s _ h

/-- Every Variant is tagged as it should be. -/
def AllTagged (s : World Ty Tag V) : Prop := ∀ n, Tagged ts (s.variants n)

section
variable {ts} {s s' : World Ty Tag V}
omit [DecidableEq Tag]

theorem tagged_void : Tagged ts (⟨none, none⟩ : Variant Ty Tag V) := by
  intro t ht
  cases ht

theorem AllTagged.update (h : AllTagged ts s) (n : Name) {v : Variant Ty Tag V}
    (hv : Tagged ts v) (hs' : s'.variants = Function.update s.variants n v) :
    AllTagged ts s' := by
  intro m
  rw [hs']
  by_cases hm : m = n
  · subst hm
    rwa [Function.update_self]
  · rw [Function.update_of_ne hm]
    exact h m

theorem AllTagged.make (h : AllTagged ts s) (n : Name) : AllTagged ts (s.make n) :=
  h.update n tagged_void rfl

theorem AllTagged.destroy (h : AllTagged ts s) (n : Name) : AllTagged ts (s.destroy n) :=
  h.update n tagged_void (destroy_variants n s)

theorem AllTagged.convert (h : AllTagged ts s) (n : Name) {U : Ty} (hU : U ∈ ts.bounded) (x : V) :
    AllTagged ts (convert ts n U x s) := by
  refine h.update n ?_ (convert_variants ts n U x s)
  intro t ht
  exact ⟨⟨U, hU, Option.some.inj ht⟩, _, rfl⟩

end

section
variable {ts} {s : World Ty Tag V} {lhs rhs : Name}

theorem AllTagged.swapped (h : AllTagged ts s) (hl : lhs ≠ .tmp) (hr : rhs ≠ .tmp) :
    Swapped ts lhs rhs s (swap ts lhs rhs s) :=
  CxxUtil.Variants.swapped (h lhs) (h rhs) hl hr

theorem AllTagged.swap (h : AllTagged ts s) (hl : lhs ≠ .tmp) (hr : rhs ≠ .tmp) :
    AllTagged ts (swap ts lhs rhs s) := by
  have hswapped := h.swapped hl hr
  intro n
  by_cases htmp : n = .tmp
  · rw [htmp, hswapped.tmp]
    exact tagged_void
  · by_cases hlhs : n = lhs
    · rw [hlhs]
      exact hswapped.left.tagged (h rhs)
    · by_cases hrhs : n = rhs
      · rw [hrhs]
        exact hswapped.right.tagged (h lhs)
      · rw [hswapped.others n hlhs hrhs htmp]
        exact h n

theorem allTagged_step [DecidableEq Ty] (s : World Ty Tag V) (act : Action Ty V)
    (s' : World Ty Tag V) (h : AllTagged ts s) (hs : step ts s act = some s') :
    AllTagged ts s' :=
  step_preserves ts (fun _ n h => h.make n) (fun _ n _ x hU h => h.convert n hU x)
    (fun _ _ _ hl hr h => h.swap hl hr) (fun _ n h => h.destroy n) s act s' h hs

end

end
end CxxUtil.Variants
