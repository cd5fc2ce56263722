import CxxUtil.Asio.TransparentService

/-! # Who keeps an implementation alive

The references to an implementation are those of its I/O object, of the calls under way and of what
its methods have captured: tokens and handlers hold none (`Counted`). -/
namespace CxxUtil.Asio.TransparentService
open Foundations Handles
set_option autoImplicit false

/-- A handle of this kind has a pointer of its own. -/
def Kind.owns : Kind → Bool
  | token _ _ => false
  | handler _ => false
  | _ => true

/-- Something other than a handler points to the implementation. -/
def Owned (p : ℕ) (hs : List (Handle Kind ℕ)) : Prop :=
  ∃ h ∈ hs, h.kind.owns = true ∧ h.target = some p

def HandlerAlive (p : ℕ) (hs : List (Handle Kind ℕ)) : Prop := ∃ h ∈ hs, h.kind = .handler p

/-- `refs` is exact, and tokens and handlers hold nothing. -/
structure Counted (w : World) : Prop where
  numbered : Numbered w.made w.handles
  exact_ : ∀ p, w.refs p = holders p w.handles
  unowned : ∀ h ∈ w.handles, h.kind.owns = false → h.target = none

variable {w : World} {id : ℕ}

theorem acquire_refs (t : Option ℕ) (w : World) (p : ℕ) :
    (acquire t w).refs p = w.refs p + points p t := by
  cases t with
  | none => rfl
  | some q =>
    by_cases hq : q = p
    · subst hq
      simp [acquire, points]
    · simp [acquire, points, hq, Function.update_of_ne (Ne.symm hq)]

theorem release_refs (t : Option ℕ) (w : World) (p : ℕ) :
    (release t w).refs p = w.refs p - points p t := by
  cases t with
  | none => rfl
  | some q =>
    by_cases hq : q = p
    · subst hq
      simp [release, points]
    · simp [release, points, hq, Function.update_of_ne (Ne.symm hq)]

@[simp] theorem acquire_handles (t : Option ℕ) (w : World) :
    (acquire t w).handles = w.handles := by cases t <;> rfl

@[simp] theorem acquire_made (t : Option ℕ) (w : World) : (acquire t w).made = w.made := by
  cases t <;> rfl

@[simp] theorem release_handles (t : Option ℕ) (w : World) :
    (release t w).handles = w.handles := by cases t <;> rfl

@[simp] theorem release_made (t : Option ℕ) (w : World) : (release t w).made = w.made := by
  cases t <;> rfl

namespace Counted

theorem add (h : Counted w) {kind : Kind} {t : Option ℕ} (ht : kind.owns = false → t = none) :
    Counted (add kind t (acquire t w)) where
  numbered := by simpa [TransparentService.add] using h.numbered.add kind t
  exact_ p := by
    show (acquire t w).refs p = holders p ((acquire t w).handles ++ [⟨_, kind, t⟩])
    rw [acquire_refs, acquire_handles, holders_add, h.exact_]
  unowned k hk hkind := by
    simp only [TransparentService.add, acquire_handles] at hk
    rcases List.mem_append.mp hk with hk | hk
    · exact h.unowned k hk hkind
    · obtain rfl := List.mem_singleton.mp hk
      exact ht hkind

theorem copyTo (h : Counted w) {kind : Kind}
    (hkind : ∀ k, lookup w.handles id = some k → kind.owns = false → k.kind.owns = false) :
    Counted (copyTo kind id w) := by
  unfold TransparentService.copyTo
  split
  case h_1 => exact h
  case h_2 k hl => exact h.add fun ho => h.unowned k (lookup_mem hl).1 (hkind k hl ho)

theorem moveTo (h : Counted w) {kind : Kind}
    (hkind : ∀ k, lookup w.handles id = some k → kind.owns = false → k.kind.owns = false) :
    Counted (moveTo kind id w) := by
  unfold TransparentService.moveTo
  split
  case h_1 => exact h
  case h_2 k hl =>
    have hclear (p : ℕ) : holders p (clear id w).handles + points p k.target =
        holders p w.handles :=
      holders_modify p h.numbered hl
    have hn : Numbered w.made (clear id w).handles := h.numbered.modify fun _ => rfl
    refine ⟨hn.add kind k.target, fun p => ?_, fun k' hk' ho => ?_⟩
    · show w.refs p = holders p ((clear id w).handles ++ [⟨w.made, kind, k.target⟩])
      rw [holders_add, hclear, h.exact_]
    · rcases List.mem_append.mp hk' with hk' | hk'
      · obtain ⟨k₀, hk₀, rfl⟩ := List.mem_map.mp hk'
        by_cases hid : k₀.id = id
        · simp [hid]
        · simp only [hid, if_false] at ho ⊢
          exact h.unowned k₀ hk₀ ho
      · obtain rfl := List.mem_singleton.mp hk'
        exact h.unowned k (lookup_mem hl).1 (hkind k hl ho)

theorem drop (h : Counted w) (id : ℕ) : Counted (drop id w) := by
  unfold TransparentService.drop
  split
  case h_1 => exact h
  case h_2 k hl =>
    refine ⟨?_, fun p => ?_, fun k' hk' ho => ?_⟩
    · simpa using h.numbered.remove
    · have hp := holders_remove p h.numbered hl
      rw [release_refs, release_handles]
      show w.refs p - _ = holders p (remove id w.handles)
      rw [h.exact_]
      omega
    · rw [release_handles] at hk'
      exact h.unowned k' (List.mem_of_mem_filter hk') ho

theorem transformCompletionToken (h : Counted w) (call impl : ℕ) :
    Counted (transformCompletionToken call impl w) := by
  have hpassed : Counted (TransparentService.copyTo .parameter call w) :=
    h.copyTo fun _ _ ho => by cases ho
  have hmoved : Counted (TransparentService.moveTo .parameter w.made _) :=
    hpassed.moveTo fun _ _ ho => by cases ho
  have htoken : Counted (TransparentService.add (.token call impl) none _) :=
    hmoved.add fun _ => rfl
  exact (htoken.drop _).drop _

/-- An implementation is referred to exactly when something other than a handler points to it. -/
theorem refs_pos_iff (h : Counted w) (p : ℕ) : 1 ≤ w.refs p ↔ Owned p w.handles := by
  rw [h.exact_]
  refine (holders_pos_iff p).trans ⟨?_, ?_⟩
  · rintro ⟨k, hk, ht⟩
    refine ⟨k, hk, ?_, ht⟩
    by_contra ho
    rw [h.unowned k hk (by simpa using ho)] at ht
    cases ht
  · rintro ⟨k, hk, -, ht⟩
    exact ⟨k, hk, ht⟩

end Counted

/-! ## Steps -/

/-- What a step does. -/
inductive Effect (w : World) : Action → World → Prop
  | construct : Effect w .construct (construct w)
  | startMethod {id i p : ℕ} (hl : lookup w.handles id = some ⟨i, .object, some p⟩) :
      Effect w (.startMethod id) (startMethod id p w)
  | makeHandler {id c p : ℕ} {k : Handle Kind ℕ} (hl : lookup w.handles id = some k)
      (hk : k.kind = .token c p) : Effect w (.makeHandler id) (makeHandler id p w)
  | capture {id : ℕ} {k : Handle Kind ℕ} (hl : lookup w.handles id = some k)
      (hk : k.kind = .call) : Effect w (.capture id) (copyTo .capture id w)
  | copy {id : ℕ} {k : Handle Kind ℕ} (hl : lookup w.handles id = some k)
      (hk : k.kind.copyable = true) : Effect w (.copy id) (copyTo k.kind id w)
  | move {id : ℕ} {k : Handle Kind ℕ} (hl : lookup w.handles id = some k)
      (hk : k.kind.movable = true) : Effect w (.move id) (moveTo k.kind id w)
  | same {act : Action} : Effect w act w
  | destroy {id : ℕ} {k : Handle Kind ℕ} (hl : lookup w.handles id = some k)
      (htoken : ∀ h ∈ w.handles, h.kind.isTokenOf id = false) :
      Effect w (.destroy id) (drop id w)

theorem step_effect {act : Action} {w' : World} (hs : step w act = some w') :
    Effect w act w' := by
  cases act with
  | construct =>
    obtain rfl := Option.some.inj hs
    exact .construct
  | startMethod id =>
    simp only [step] at hs
    split at hs
    case h_1 hl =>
      obtain rfl := Option.some.inj hs
      exact .startMethod hl
    case h_2 => cases hs
  | makeHandler id =>
    simp only [step] at hs
    split at hs
    case h_1 hl =>
      obtain rfl := Option.some.inj hs
      exact .makeHandler hl rfl
    case h_2 => cases hs
  | capture id =>
    simp only [step] at hs
    split at hs
    case h_1 hl =>
      obtain rfl := Option.some.inj hs
      exact .capture hl rfl
    case h_2 => cases hs
  | copy id =>
    simp only [step] at hs
    split at hs
    case h_1 hl =>
      obtain ⟨hk, hs⟩ := Option.ite_none_right_eq_some.mp hs
      obtain rfl := Option.some.inj hs
      exact .copy hl hk
    case h_2 => cases hs
  | move id =>
    simp only [step] at hs
    split at hs
    case h_1 hl =>
      obtain ⟨hk, hs⟩ := Option.ite_none_right_eq_some.mp hs
      obtain rfl := Option.some.inj hs
      exact .move hl hk
    case h_2 => cases hs
  | close id =>
    simp only [step] at hs
    split at hs
    · obtain rfl := Option.some.inj hs
      exact .same
    · cases hs
  | invoke id =>
    simp only [step] at hs
    split at hs
    · obtain rfl := Option.some.inj hs
      exact .same
    · cases hs
  | destroy id =>
    simp only [step] at hs
    split at hs
    case h_1 k hl =>
      obtain ⟨htoken, hs⟩ := Option.ite_none_left_eq_some.mp hs
      obtain rfl := Option.some.inj hs
      exact .destroy hl (by simpa using htoken)
    case h_2 => cases hs

theorem counted_step (w : World) (act : Action) (w' : World) (h : Counted w)
    (hs : step w act = some w') : Counted w' := by
  cases step_effect hs with
  | construct =>
    have hnumbered : Counted { w with implementations := w.implementations + 1 } :=
      ⟨h.numbered, h.exact_, h.unowned⟩
    exact hnumbered.add fun ho => by cases ho
  | @startMethod id i p hl =>
    have hcall : Counted (copyTo .call id w) := h.copyTo fun _ _ ho => by cases ho
    exact hcall.transformCompletionToken _ _
  | makeHandler hl hk =>
    refine h.copyTo fun k' hl' _ => ?_
    obtain rfl := Option.some.inj (hl.symm.trans hl')
    rw [hk]
    rfl
  | capture hl hk => exact h.copyTo fun _ _ ho => by cases ho
  | copy hl hk =>
    refine h.copyTo fun k' hl' ho => ?_
    obtain rfl := Option.some.inj (hl.symm.trans hl')
    exact ho
  | move hl hk =>
    refine h.moveTo fun k' hl' ho => ?_
    obtain rfl := Option.some.inj (hl.symm.trans hl')
    exact ho
  | same => exact h
  | destroy hl htoken => exact h.drop _

/-! ## The handles after a step -/

theorem copyTo_handles {k : Handle Kind ℕ} (hl : lookup w.handles id = some k) (kind : Kind) :
    (copyTo kind id w).handles = w.handles ++ [⟨w.made, kind, k.target⟩] := by
  simp [copyTo, hl, add]

theorem moveTo_handles {k : Handle Kind ℕ} (hl : lookup w.handles id = some k) (kind : Kind) :
    (moveTo kind id w).handles =
      modify id (fun h => { h with target := none }) w.handles ++ [⟨w.made, kind, k.target⟩] := by
  simp [moveTo, hl, add, clear]

theorem drop_handles {k : Handle Kind ℕ} (hl : lookup w.handles id = some k) :
    (drop id w).handles = remove id w.handles := by
  simp [drop, hl]

/-- The token has no pointer: both parameters that held one are gone. -/
theorem startMethod_handles {i p : ℕ} (hn : Numbered w.made w.handles)
    (hl : lookup w.handles id = some ⟨i, .object, some p⟩) :
    (startMethod id p w).handles =
      w.handles ++ [⟨w.made, .call, some p⟩, ⟨w.made + 3, .token w.made p, none⟩] := by
  have hle (j : ℕ) : w.made ≤ w.made + j := Nat.le_add_right _ _
  simp [startMethod, transformCompletionToken, copyTo, moveTo, drop, clear, add, hl,
    lookup_append hn (Nat.le_refl _), lookup_append hn (hle _), modify_append hn (hle _),
    remove_append hn (hle _), Nat.add_assoc]

/-! ## Handlers -/

/-- A handle of one of the kinds points to the implementation. -/
def OwnedBy (keeps : Kind → Bool) (p : ℕ) (hs : List (Handle Kind ℕ)) : Prop :=
  ∃ h ∈ hs, keeps h.kind = true ∧ h.target = some p

/-- Each token is younger than the local of its call, and each handler has a handle of one of the
kinds that points to its implementation. -/
structure Guarded (keeps : Kind → Bool) (hs : List (Handle Kind ℕ)) : Prop where
  tokens : ∀ h ∈ hs, ∀ c p, h.kind = .token c p →
    ∃ k ∈ hs, k.id = c ∧ k.kind = .call ∧ k.target = some p
  handlers : ∀ p, HandlerAlive p hs → OwnedBy keeps p hs

section
variable {keeps : Kind → Bool} {hs : List (Handle Kind ℕ)} {k : Handle Kind ℕ}

theorem Guarded.owned_of_token (h : Guarded keeps hs) (hkeeps : keeps .call = true) {c p : ℕ}
    (hmem : k ∈ hs) (hk : k.kind = .token c p) : OwnedBy keeps p hs := by
  obtain ⟨call, hcall, -, hkind, ht⟩ := h.tokens k hmem c p hk
  exact ⟨call, hcall, by rw [hkind]; exact hkeeps, ht⟩

theorem Guarded.append (h : Guarded keeps hs) {later : List (Handle Kind ℕ)}
    (htoken : ∀ h ∈ later, ∀ c p, h.kind = .token c p →
      ∃ k ∈ later, k.id = c ∧ k.kind = .call ∧ k.target = some p)
    (hhandler : ∀ h ∈ later, ∀ p, h.kind = .handler p → OwnedBy keeps p hs) :
    Guarded keeps (hs ++ later) where
  tokens k hk c p hkind := by
    rcases List.mem_append.mp hk with hk | hk
    · obtain ⟨call, hcall, hspec⟩ := h.tokens k hk c p hkind
      exact ⟨call, List.mem_append_left _ hcall, hspec⟩
    · obtain ⟨call, hcall, hspec⟩ := htoken k hk c p hkind
      exact ⟨call, List.mem_append_right _ hcall, hspec⟩
  handlers p hp := by
    obtain ⟨k, hk, hkind⟩ := hp
    have howned : OwnedBy keeps p hs := by
      rcases List.mem_append.mp hk with hk | hk
      · exact h.handlers p ⟨k, hk, hkind⟩
      · exact hhandler k hk p hkind
    obtain ⟨o, ho, hspec⟩ := howned
    exact ⟨o, List.mem_append_left _ ho, hspec⟩

theorem cleared_kind (h : Handle Kind ℕ) :
    (if h.id = id then { h with target := none } else h).kind = h.kind := by
  split
  · rfl
  · rfl

theorem Guarded.move {n : ℕ} (h : Guarded keeps hs) (hn : Numbered n hs)
    (hl : lookup hs id = some k) (hk : k.kind.movable = true) :
    Guarded keeps (modify id (fun h => { h with target := none }) hs ++ [⟨n, k.kind, k.target⟩]) where
  tokens t ht c p hkind := by
    rcases List.mem_append.mp ht with ht | ht
    · obtain ⟨t₀, ht₀, rfl⟩ := List.mem_map.mp ht
      rw [cleared_kind] at hkind
      obtain ⟨call, hcall, rfl, hck, hct⟩ := h.tokens t₀ ht₀ c p hkind
      have hne : call.id ≠ id := by
        intro hid
        subst hid
        obtain rfl := Option.some.inj ((lookup_of_mem hn hcall).symm.trans hl)
        rw [hck] at hk
        cases hk
      exact ⟨call, List.mem_append_left _ (mem_modify_of_ne hcall hne), rfl, hck, hct⟩
    · obtain rfl := List.mem_singleton.mp ht
      replace hkind : k.kind = .token c p := hkind
      rw [hkind] at hk
      cases hk
  handlers p hp := by
    have hp₀ : HandlerAlive p hs := by
      obtain ⟨t, ht, hkind⟩ := hp
      rcases List.mem_append.mp ht with ht | ht
      · obtain ⟨t₀, ht₀, rfl⟩ := List.mem_map.mp ht
        rw [cleared_kind] at hkind
        exact ⟨t₀, ht₀, hkind⟩
      · obtain rfl := List.mem_singleton.mp ht
        exact ⟨k, (lookup_mem hl).1, hkind⟩
    obtain ⟨o, ho, hown, ht⟩ := h.handlers p hp₀
    by_cases hid : o.id = id
    · subst hid
      obtain rfl := Option.some.inj ((lookup_of_mem hn ho).symm.trans hl)
      exact ⟨⟨n, o.kind, o.target⟩, List.mem_append_right _ (List.mem_singleton_self _), hown, ht⟩
    · exact ⟨o, List.mem_append_left _ (mem_modify_of_ne ho hid), hown, ht⟩

/-- The handle that goes is not the last one that its implementation's handlers depend on. -/
def SparesHandlers (id : ℕ) (hs : List (Handle Kind ℕ)) : Prop :=
  ∀ k ∈ lookup hs id, k.kind.owns = true → ∀ p ∈ k.target, HandlerAlive p hs →
    Owned p (remove id hs)

/-- `SparesHandlers`, for the handles of some kinds. -/
def SparesHandlersBy (keeps : Kind → Bool) (id : ℕ) (hs : List (Handle Kind ℕ)) : Prop :=
  ∀ k ∈ lookup hs id, keeps k.kind = true → ∀ p ∈ k.target, HandlerAlive p hs →
    OwnedBy keeps p (remove id hs)

theorem Guarded.remove {n : ℕ} (h : Guarded keeps hs) (hn : Numbered n hs)
    (hl : lookup hs id = some k) (htoken : ∀ h ∈ hs, h.kind.isTokenOf id = false)
    (hspares : SparesHandlersBy keeps id hs) : Guarded keeps (remove id hs) where
  tokens t ht c p hkind := by
    have htoken := htoken t (mem_remove.mp ht).1
    obtain ⟨call, hcall, rfl, hspec⟩ := h.tokens t (mem_remove.mp ht).1 c p hkind
    have hne : call.id ≠ id := by simpa [hkind, Kind.isTokenOf] using htoken
    exact ⟨call, mem_remove.mpr ⟨hcall, hne⟩, rfl, hspec⟩
  handlers p hp := by
    have hp₀ : HandlerAlive p hs := by
      obtain ⟨t, ht, hkind⟩ := hp
      exact ⟨t, (mem_remove.mp ht).1, hkind⟩
    obtain ⟨o, ho, hown, ht⟩ := h.handlers p hp₀
    by_cases hid : o.id = id
    · subst hid
      exact hspares o (lookup_of_mem hn ho) hown p ht hp₀
    · exact ⟨o, mem_remove.mpr ⟨ho, hid⟩, hown, ht⟩

end

/-- No I/O object is destroyed, no call returns and no captured pointer is dropped as the last one
to an implementation that has a handler alive. -/
def KeepsOwner (w : World) : Action → Prop
  | .destroy id => SparesHandlers id w.handles
  | _ => True

/-- `KeepsOwner`, where handles of some kinds are enough to keep an implementation. -/
def KeepsOneOf (keeps : Kind → Bool) (w : World) : Action → Prop
  | .destroy id => SparesHandlersBy keeps id w.handles
  | _ => True

theorem keepsOneOf_owns (w : World) (act : Action) :
    KeepsOneOf Kind.owns w act ↔ KeepsOwner w act := by
  cases act <;> exact Iff.rfl

theorem guarded_step {keeps : Kind → Bool} (hcall : keeps .call = true) (w : World) (act : Action)
    (w' : World) (h : Counted w ∧ Guarded keeps w.handles) (hkeeps : KeepsOneOf keeps w act)
    (hs : step w act = some w') : Counted w' ∧ Guarded keeps w'.handles := by
  obtain ⟨hcounted, hguarded⟩ := h
  refine ⟨counted_step w act w' hcounted hs, ?_⟩
  cases step_effect hs with
  | construct =>
    rw [construct, add, acquire_handles]
    exact hguarded.append (by simp) (by simp)
  | startMethod hl =>
    rw [startMethod_handles hcounted.numbered hl]
    refine hguarded.append ?_ (by simp)
    simp
  | @makeHandler id c p k hl hk =>
    rw [makeHandler, copyTo_handles hl]
    refine hguarded.append (by simp) fun t ht p' hp' => ?_
    obtain rfl := List.mem_singleton.mp ht
    obtain rfl := Kind.handler.inj hp'
    exact hguarded.owned_of_token hcall (lookup_mem hl).1 hk
  | capture hl hk =>
    rw [copyTo_handles hl]
    exact hguarded.append (by simp) (by simp)
  | @copy id k hl hk =>
    rw [copyTo_handles hl]
    refine hguarded.append (fun t ht c p hkind => ?_) fun t ht p hkind => ?_
    · obtain rfl := List.mem_singleton.mp ht
      replace hkind : k.kind = .token c p := hkind
      rw [hkind] at hk
      cases hk
    · obtain rfl := List.mem_singleton.mp ht
      exact hguarded.handlers p ⟨k, (lookup_mem hl).1, hkind⟩
  | move hl hk =>
    rw [moveTo_handles hl]
    exact hguarded.move hcounted.numbered hl hk
  | same => exact hguarded
  | destroy hl htoken =>
    rw [drop_handles hl]
    exact hguarded.remove hcounted.numbered hl htoken hkeeps

theorem counted_init : Counted init := ⟨numbered_nil, fun _ => rfl, fun _ hk => by cases hk⟩

theorem ownedBy_of_run {keeps : Kind → Bool} (hcall : keeps .call = true) {as : List Action}
    (h : run step init as = some w) (hkeeps : Along step (KeepsOneOf keeps) init as) {p : ℕ}
    (hp : HandlerAlive p w.handles) : OwnedBy keeps p w.handles := by
  have hguarded : Guarded keeps init.handles := by
    refine ⟨fun _ hk => ?_, fun p hp => ?_⟩
    · cases hk
    · obtain ⟨_, hk, _⟩ := hp
      cases hk
  have hkept := run_invariant_along (guarded_step hcall) ⟨counted_init, hguarded⟩ hkeeps h
  exact hkept.2.handlers p hp

/-- **Who keeps an implementation alive.** The references to an implementation are those of its I/O
object, of the calls under way and of captured pointers. A run in which none of these goes while it
is the last one and a handler is alive keeps a reference for every handler. -/
theorem implementation_outlives_handlers {as : List Action} (h : run step init as = some w) :
    (∀ p, 1 ≤ w.refs p ↔ Owned p w.handles) ∧
      (Along step KeepsOwner init as → ∀ p, HandlerAlive p w.handles → 1 ≤ w.refs p) := by
  have hcounted := run_invariant counted_step counted_init h
  refine ⟨hcounted.refs_pos_iff, fun hkeeps p hp => ?_⟩
  have hkeeps' : Along step (KeepsOneOf Kind.owns) init as :=
    hkeeps.imp fun w act => (keepsOneOf_owns w act).mpr
  exact (hcounted.refs_pos_iff p).mpr (ownedBy_of_run rfl h hkeeps' hp)

/-- Of some kinds it is enough to watch the handles. -/
theorem refs_pos_of_keepsOneOf {keeps : Kind → Bool} (hcall : keeps .call = true)
    (howns : ∀ k, keeps k = true → k.owns = true) {as : List Action}
    (h : run step init as = some w) (hkeeps : Along step (KeepsOneOf keeps) init as) {p : ℕ}
    (hp : HandlerAlive p w.handles) : 1 ≤ w.refs p := by
  have hcounted := run_invariant counted_step counted_init h
  obtain ⟨o, ho, hkind, ht⟩ := ownedBy_of_run hcall h hkeeps hp
  exact (hcounted.refs_pos_iff p).mpr ⟨o, ho, howns _ hkind, ht⟩

def Kind.capturesOrCalls : Kind → Bool
  | capture | call => true
  | _ => false

def Kind.objectsOrCalls : Kind → Bool
  | object | call => true
  | _ => false

/-- Methods that capture `shared_from_this()` for as long as their handlers live: then the I/O
object may go at any time. -/
theorem implementation_outlives_of_captures {as : List Action} (h : run step init as = some w)
    (hkeeps : Along step (KeepsOneOf Kind.capturesOrCalls) init as) {p : ℕ}
    (hp : HandlerAlive p w.handles) : 1 ≤ w.refs p :=
  refs_pos_of_keepsOneOf rfl (fun k hk => by cases k <;> first | rfl | cases hk) h hkeeps hp

/-- An I/O object that outlives its handlers: then the methods need not capture anything. -/
theorem implementation_outlives_of_object {as : List Action} (h : run step init as = some w)
    (hkeeps : Along step (KeepsOneOf Kind.objectsOrCalls) init as) {p : ℕ}
    (hp : HandlerAlive p w.handles) : 1 ≤ w.refs p :=
  refs_pos_of_keepsOneOf rfl (fun k hk => by cases k <;> first | rfl | cases hk) h hkeeps hp

instance (p : ℕ) (hs : List (Handle Kind ℕ)) : Decidable (Owned p hs) :=
  inferInstanceAs (Decidable (∃ h ∈ hs, _))

instance (p : ℕ) (hs : List (Handle Kind ℕ)) : Decidable (HandlerAlive p hs) :=
  inferInstanceAs (Decidable (∃ h ∈ hs, _))

instance (id : ℕ) (hs : List (Handle Kind ℕ)) : Decidable (SparesHandlers id hs) :=
  inferInstanceAs (Decidable (∀ k ∈ lookup hs id, _))

instance (w : World) : ∀ act, Decidable (KeepsOwner w act)
  | .destroy id => inferInstanceAs (Decidable (SparesHandlers id w.handles))
  | .construct | .startMethod _ | .makeHandler _ | .capture _ | .copy _ | .move _ | .close _
  | .invoke _ => .isTrue trivial

/-- A method captures its implementation, and the I/O object goes before the handler. -/
theorem implementation_outlives_captured :
    ∃ w, run step init
        [.construct, .startMethod 0, .makeHandler 4, .capture 1, .destroy 4, .destroy 1,
          .destroy 0, .move 5, .destroy 5, .copy 7, .invoke 7] = some w ∧
      ∀ p, HandlerAlive p w.handles → 1 ≤ w.refs p := by
  have hrun : run step init
      [.construct, .startMethod 0, .makeHandler 4, .capture 1, .destroy 4, .destroy 1,
        .destroy 0, .move 5, .destroy 5, .copy 7, .invoke 7] = some _ := rfl
  exact ⟨_, hrun, (implementation_outlives_handlers hrun).2 (by decide)⟩

/-- A method that captures nothing returns and the I/O object goes: the handler's pointer is null. -/
theorem implementation_destroyed_before_handler :
    (∃ w, run step init
        [.construct, .startMethod 0, .makeHandler 4, .destroy 4, .destroy 1, .destroy 0] =
          some w ∧ w.handles = [⟨5, .handler 0, none⟩] ∧ w.refs 0 = 0) ∧
    ¬ ∀ (as : List Action) (w : World), run step init as = some w →
      ∀ p, HandlerAlive p w.handles → 1 ≤ w.refs p := by
  have hrun : run step init
      [.construct, .startMethod 0, .makeHandler 4, .destroy 4, .destroy 1, .destroy 0] =
        some _ := rfl
  refine ⟨⟨_, hrun, rfl, rfl⟩, fun hclaim => ?_⟩
  have hrefs := hclaim _ _ hrun 0 ⟨_, List.mem_cons_self, rfl⟩
  exact absurd hrefs (by decide)

end CxxUtil.Asio.TransparentService
