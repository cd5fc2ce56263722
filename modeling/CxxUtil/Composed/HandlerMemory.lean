import CxxUtil.Composed.Op
import CxxUtil.Foundations.Handles
import CxxUtil.Foundations.Lifecycle

/-! # The memory of `composed::handler_ptr`

`include/composed/handler_ptr.hpp`. A block is one allocation, with the `data` made in it: the
handler and storage for a `T`. Blocks are numbered in the order in which they are allocated, and a
`handler_ptr` is a variable that holds one, or none. The constructor of `T`, its destructor and the
handler are client code, which may do all the rest, with any variables, before it returns. -/
namespace CxxUtil.Composed.HandlerMemory
open Foundations Handles
set_option autoImplicit false

inductive Event
  | allocate
  | makeData
  | makeT
  | invoke
  | destroyT
  | takeHandler
  | destroyData
  | deallocate
  | callHandler
  | destroyHandler
  deriving DecidableEq, Repr

/-- The client code that runs with a block. `invoked`: `invoke` has called the deleter. -/
inductive ClientCode
  | constructor
  | destructor (invoked : Bool)
  | handler
  deriving DecidableEq, Repr

/-- `frames` is the client code that has not returned, innermost first. -/
structure World where
  blocks : ℕ
  ptrs : List (Handle Unit ℕ)
  made : ℕ
  frames : List (ℕ × ClientCode)
  log : List (ℕ × Event)

def init : World := ⟨0, [], 0, [], []⟩

/-- `half_deleter`, up to what is done with the handler that it returns. -/
def halfDeleter : List Event := [.takeHandler, .destroyData, .deallocate]

/-- The constructor up to the constructor of `T`. -/
def construct (s : World) : World :=
  { s with
    blocks := s.blocks + 1
    frames := (s.blocks, .constructor) :: s.frames
    log := record s.blocks [.allocate, .makeData] s.log }

/-- The constructor when that of `T` has returned. -/
def endConstruct (b : ℕ) (outer : List (ℕ × ClientCode)) (s : World) : World :=
  { s with
    ptrs := s.ptrs ++ [⟨s.made, (), some b⟩]
    made := s.made + 1
    frames := outer
    log := record b [.makeT] s.log }

/-- The constructor of `T` throws, and the `half_data_ptr` is destroyed. -/
def throwConstruct (b : ℕ) (outer : List (ℕ × ClientCode)) (s : World) : World :=
  { s with frames := outer, log := record b (halfDeleter ++ [.destroyHandler]) s.log }

def setTarget (t : Option ℕ) (v : Handle Unit ℕ) : Handle Unit ℕ := { v with target := t }

theorem setTarget_id (t : Option ℕ) (v : Handle Unit ℕ) : (setTarget t v).id = v.id := rfl

/-- The move constructor, of `unique_ptr`. -/
def moveConstruct (v : Handle Unit ℕ) (s : World) : World :=
  { s with
    ptrs := modify v.id (setTarget none) s.ptrs ++ [⟨s.made, (), v.target⟩]
    made := s.made + 1 }

/-- `deleter`, called on a pointer that is not null, up to the destructor of `T`. -/
def destroyData (t : Option ℕ) (s : World) : World :=
  match t with
  | none => s
  | some b =>
    { s with frames := (b, .destructor false) :: s.frames, log := record b [.destroyT] s.log }

/-- `i = std::move(j)`, which releases `j`, stores in `i` and destroys what was in `i` before. -/
def moveAssign (i j : ℕ) (s : World) : Option World := do
  let w ← lookup s.ptrs j
  let released := modify j (setTarget none) s.ptrs
  let v ← lookup released i
  return destroyData v.target { s with ptrs := modify i (setTarget w.target) released }

def destroy (v : Handle Unit ℕ) (s : World) : World :=
  destroyData v.target { s with ptrs := remove v.id s.ptrs }

/-- `invoke`, up to the destructor of `T`. -/
def invoke (i b : ℕ) (s : World) : World :=
  { s with
    ptrs := modify i (setTarget none) s.ptrs
    frames := (b, .destructor true) :: s.frames
    log := record b [.invoke, .destroyT] s.log }

/-- `deleter` when the destructor of `T` has returned, and what follows: `invoke` calls the handler,
and elsewhere it is dropped. -/
def endDestructor (b : ℕ) (invoked : Bool) (outer : List (ℕ × ClientCode)) (s : World) : World :=
  if invoked then
    { s with
      frames := (b, .handler) :: outer
      log := record b (halfDeleter ++ [.callHandler]) s.log }
  else { s with frames := outer, log := record b (halfDeleter ++ [.destroyHandler]) s.log }

/-- The handler has returned or thrown. -/
def endHandler (b : ℕ) (outer : List (ℕ × ClientCode)) (s : World) : World :=
  { s with frames := outer, log := record b [.destroyHandler] s.log }

inductive Action
  | construct
  | moveConstruct (i : ℕ)
  | moveAssign (i j : ℕ)
  | destroy (i : ℕ)
  | invoke (i : ℕ)
  | ret
  | throw
  deriving DecidableEq, Repr

/-- `T`'s destructor is `noexcept`. -/
def step (s : World) : Action → Option World
  | .construct => some (construct s)
  | .moveConstruct i => (lookup s.ptrs i).map fun v => moveConstruct v s
  | .moveAssign i j => moveAssign i j s
  | .destroy i => (lookup s.ptrs i).map fun v => destroy v s
  | .invoke i =>
    match (lookup s.ptrs i).bind Handle.target with
    | some b => some (invoke i b s)
    | none => none
  | .ret =>
    match s.frames with
    | (b, .constructor) :: outer => some (endConstruct b outer s)
    | (b, .destructor invoked) :: outer => some (endDestructor b invoked outer s)
    | (b, .handler) :: outer => some (endHandler b outer s)
    | [] => none
  | .throw =>
    match s.frames with
    | (b, .constructor) :: outer => some (throwConstruct b outer s)
    | (b, .handler) :: outer => some (endHandler b outer s)
    | _ => none

/-- What a step does. -/
inductive Effect (s : World) : World → Prop
  | construct : Effect s (construct s)
  | moveConstruct {v : Handle Unit ℕ} (hv : lookup s.ptrs v.id = some v) :
      Effect s (moveConstruct v s)
  | moveAssign {i j : ℕ} {v w : Handle Unit ℕ} (hw : lookup s.ptrs j = some w)
      (hv : lookup (modify j (setTarget none) s.ptrs) i = some v) :
      Effect s (destroyData v.target
        { s with
          ptrs := modify i (setTarget w.target) (modify j (setTarget none) s.ptrs) })
  | destroy {v : Handle Unit ℕ} (hv : lookup s.ptrs v.id = some v) : Effect s (destroy v s)
  | invoke {v : Handle Unit ℕ} {b : ℕ} (hv : lookup s.ptrs v.id = some v)
      (hb : v.target = some b) : Effect s (invoke v.id b s)
  | endConstruct {b : ℕ} {outer : List (ℕ × ClientCode)}
      (hframes : s.frames = (b, .constructor) :: outer) : Effect s (endConstruct b outer s)
  | throwConstruct {b : ℕ} {outer : List (ℕ × ClientCode)}
      (hframes : s.frames = (b, .constructor) :: outer) : Effect s (throwConstruct b outer s)
  | endDestructor {b : ℕ} {invoked : Bool} {outer : List (ℕ × ClientCode)}
      (hframes : s.frames = (b, .destructor invoked) :: outer) :
      Effect s (endDestructor b invoked outer s)
  | endHandler {b : ℕ} {outer : List (ℕ × ClientCode)}
      (hframes : s.frames = (b, .handler) :: outer) : Effect s (endHandler b outer s)

theorem step_effect {s s' : World} {act : Action} (hs : step s act = some s') : Effect s s' := by
  cases act with
  | construct =>
    obtain rfl := Option.some.inj hs
    exact .construct
  | moveConstruct i =>
    obtain ⟨v, hv, rfl⟩ := Option.map_eq_some_iff.mp hs
    obtain rfl := (lookup_mem hv).2
    exact .moveConstruct hv
  | moveAssign i j =>
    obtain ⟨w, hw, hs⟩ := Option.bind_eq_some_iff.mp hs
    obtain ⟨v, hv, hs⟩ := Option.bind_eq_some_iff.mp hs
    obtain rfl := Option.some.inj hs
    exact .moveAssign hw hv
  | destroy i =>
    obtain ⟨v, hv, rfl⟩ := Option.map_eq_some_iff.mp hs
    obtain rfl := (lookup_mem hv).2
    exact .destroy hv
  | invoke i =>
    simp only [step] at hs
    split at hs
    case h_1 b hlookup =>
      obtain ⟨v, hv, hb⟩ := Option.bind_eq_some_iff.mp hlookup
      obtain rfl := (lookup_mem hv).2
      obtain rfl := Option.some.inj hs
      exact .invoke hv hb
    case h_2 => cases hs
  | ret =>
    simp only [step] at hs
    split at hs
    case h_1 hframes =>
      obtain rfl := Option.some.inj hs
      exact .endConstruct hframes
    case h_2 hframes =>
      obtain rfl := Option.some.inj hs
      exact .endDestructor hframes
    case h_3 hframes =>
      obtain rfl := Option.some.inj hs
      exact .endHandler hframes
    case h_4 => cases hs
  | throw =>
    simp only [step] at hs
    split at hs
    case h_1 hframes =>
      obtain rfl := Option.some.inj hs
      exact .throwConstruct hframes
    case h_2 hframes =>
      obtain rfl := Option.some.inj hs
      exact .endHandler hframes
    case h_3 => cases hs

/-! ## Where a block is -/

/-- What has happened to a block that a variable holds (`none`), or that client code runs with. -/
def history : Option ClientCode → List Event
  | some .constructor => [.allocate, .makeData]
  | none => [.allocate, .makeData, .makeT]
  | some (.destructor false) => [.allocate, .makeData, .makeT, .destroyT]
  | some (.destructor true) => [.allocate, .makeData, .makeT, .invoke, .destroyT]
  | some .handler =>
    [.allocate, .makeData, .makeT, .invoke, .destroyT, .takeHandler, .destroyData, .deallocate,
      .callHandler]

/-- A `T` that was never made, one that was destroyed without `invoke`, and one that `invoke`
destroyed. -/
def lives : List (List Event) :=
  [[.allocate, .makeData, .takeHandler, .destroyData, .deallocate, .destroyHandler],
    [.allocate, .makeData, .makeT, .destroyT, .takeHandler, .destroyData, .deallocate,
      .destroyHandler],
    [.allocate, .makeData, .makeT, .invoke, .destroyT, .takeHandler, .destroyData, .deallocate,
      .callHandler, .destroyHandler]]

theorem history_begins (st : Option ClientCode) : ∃ life ∈ lives, history st <+: life := by
  cases st with
  | none => decide
  | some code =>
    cases code with
    | constructor => decide
    | destructor invoked => cases invoked <;> decide
    | handler => decide

def held (t : Option ℕ) : List (ℕ × Option ClientCode) := (t.map fun b => (b, none)).toList

def owned (vs : List (Handle Unit ℕ)) : List (ℕ × Option ClientCode) :=
  vs.flatMap fun v => held v.target

def running (frames : List (ℕ × ClientCode)) : List (ℕ × Option ClientCode) :=
  frames.map fun f => (f.1, some f.2)

def places (s : World) : List (ℕ × Option ClientCode) := owned s.ptrs ++ running s.frames

theorem owned_append (vs ws : List (Handle Unit ℕ)) : owned (vs ++ ws) = owned vs ++ owned ws :=
  List.flatMap_append

theorem owned_perm {vs ws : List (Handle Unit ℕ)} (hperm : vs.Perm ws) :
    (owned vs).Perm (owned ws) := hperm.flatMap_right _

theorem mem_owned {vs : List (Handle Unit ℕ)} {v : Handle Unit ℕ} {b : ℕ} (hv : v ∈ vs)
    (hb : v.target = some b) : (b, none) ∈ owned vs := by
  apply List.mem_flatMap.mpr
  refine ⟨v, hv, ?_⟩
  rw [hb]
  exact List.mem_singleton_self _

/-- A variable is given something else to hold. -/
theorem owned_modify {n i : ℕ} {vs : List (Handle Unit ℕ)} {v : Handle Unit ℕ}
    (hn : Numbered n vs) (hv : lookup vs i = some v) (t : Option ℕ) :
    ∃ rest, (owned vs).Perm (held v.target ++ rest) ∧
      (owned (modify i (setTarget t) vs)).Perm (held t ++ rest) := by
  obtain ⟨others, hperm, hne⟩ := hn.perm hv
  exact ⟨owned others, owned_perm hperm, owned_perm (modify_perm hv hperm hne)⟩

theorem owned_remove {n i : ℕ} {vs : List (Handle Unit ℕ)} {v : Handle Unit ℕ}
    (hn : Numbered n vs) (hv : lookup vs i = some v) :
    (owned vs).Perm (held v.target ++ owned (remove i vs)) := by
  obtain ⟨others, hperm, hne⟩ := hn.perm hv
  have hremove := owned_perm (remove_perm hv hperm hne)
  exact (owned_perm hperm).trans (List.Perm.append_left _ hremove.symm)

/-! ## The invariant -/

structure Sound (s : World) : Prop where
  numbered : Numbered s.made s.ptrs
  blocks : Lifecycle history lives s.blocks (places s) s.log

theorem sound_init : Sound init where
  numbered := numbered_nil
  blocks := Lifecycle.empty

section
variable {s : World}

/-- The block that the innermost client code runs with comes first. -/
theorem Sound.innermost (h : Sound s) {b : ℕ} {code : ClientCode}
    {outer : List (ℕ × ClientCode)} (hframes : s.frames = (b, code) :: outer) :
    Lifecycle history lives s.blocks ((b, some code) :: (owned s.ptrs ++ running outer))
      s.log := by
  apply h.blocks.perm
  rw [places, hframes]
  exact List.perm_middle

/-- What a variable has held is destroyed, if it has held anything. -/
theorem Sound.destroyData {t : Option ℕ} {vs : List (Handle Unit ℕ)}
    (hn : Numbered s.made vs)
    (h : Lifecycle history lives s.blocks (held t ++ (owned vs ++ running s.frames)) s.log) :
    Sound (destroyData t { s with ptrs := vs }) := by
  cases t with
  | none => exact ⟨hn, h⟩
  | some b =>
    refine ⟨hn, ?_⟩
    have hfirst : Lifecycle history lives s.blocks ((b, none) :: (owned vs ++ running s.frames))
        s.log := h
    have hnext := hfirst.advance (some (.destructor false)) [.destroyT] rfl
    exact hnext.perm List.perm_middle.symm

theorem Sound.moveConstruct (h : Sound s) {v : Handle Unit ℕ}
    (hv : lookup s.ptrs v.id = some v) : Sound (moveConstruct v s) := by
  refine ⟨(h.numbered.modify (setTarget_id _)).add () v.target, h.blocks.perm ?_⟩
  obtain ⟨rest, hbefore, hafter⟩ := owned_modify h.numbered hv none
  have hmoved := List.Perm.append_right (held v.target) hafter.symm
  apply List.Perm.append_right
  show (owned s.ptrs).Perm (owned (_ ++ [_]))
  rw [owned_append]
  have hnew : owned [⟨s.made, (), v.target⟩] = held v.target := List.flatMap_singleton ..
  rw [hnew]
  exact hbefore.trans (List.perm_append_comm.trans hmoved)

theorem Sound.moveAssign (h : Sound s) {i j : ℕ} {v w : Handle Unit ℕ}
    (hw : lookup s.ptrs j = some w)
    (hv : lookup (modify j (setTarget none) s.ptrs) i = some v) :
    Sound (HandlerMemory.destroyData v.target
      { s with
        ptrs := modify i (setTarget w.target) (modify j (setTarget none) s.ptrs) }) := by
  have hreleased : Numbered s.made (modify j (setTarget none) s.ptrs) :=
    h.numbered.modify (setTarget_id _)
  apply Sound.destroyData (hreleased.modify (setTarget_id _))
  apply h.blocks.perm
  rw [places, ← List.append_assoc]
  apply List.Perm.append_right
  obtain ⟨before, hbefore, hrelease⟩ := owned_modify h.numbered hw none
  obtain ⟨rest, hstore, hafter⟩ := owned_modify hreleased hv w.target
  -- `w` gives up its block, then `v` its own, then `v` takes that of `w`
  have hsame : before.Perm (held v.target ++ rest) := hrelease.symm.trans hstore
  have hboth := hbefore.trans (List.Perm.append_left (held w.target) hsame)
  have hswap : (held w.target ++ (held v.target ++ rest)).Perm
      (held v.target ++ (held w.target ++ rest)) := by
    rw [← List.append_assoc, ← List.append_assoc]
    exact List.Perm.append_right rest List.perm_append_comm
  exact (hboth.trans hswap).trans (List.Perm.append_left _ hafter.symm)

theorem Sound.destroy (h : Sound s) {v : Handle Unit ℕ} (hv : lookup s.ptrs v.id = some v) :
    Sound (destroy v s) := by
  apply Sound.destroyData h.numbered.remove
  apply h.blocks.perm
  rw [places, ← List.append_assoc]
  exact List.Perm.append_right _ (owned_remove h.numbered hv)

theorem Sound.invoke (h : Sound s) {v : Handle Unit ℕ} {b : ℕ}
    (hv : lookup s.ptrs v.id = some v) (hb : v.target = some b) : Sound (invoke v.id b s) := by
  refine ⟨h.numbered.modify (setTarget_id _), ?_⟩
  obtain ⟨rest, hbefore, hafter⟩ := owned_modify h.numbered hv none
  rw [hb] at hbefore
  have hfirst : Lifecycle history lives s.blocks ((b, none) :: (rest ++ running s.frames)) s.log :=
    h.blocks.perm (List.Perm.append_right _ hbefore)
  have hnext := hfirst.advance (some (.destructor true)) [.invoke, .destroyT] rfl
  exact hnext.perm (List.perm_middle.symm.trans (List.Perm.append_right _ hafter.symm))

theorem Sound.endConstruct (h : Sound s) {b : ℕ} {outer : List (ℕ × ClientCode)}
    (hframes : s.frames = (b, .constructor) :: outer) : Sound (endConstruct b outer s) := by
  refine ⟨h.numbered.add () (some b), ?_⟩
  have hnext := (h.innermost hframes).advance none [.makeT] rfl
  apply hnext.perm
  show List.Perm _ (owned (_ ++ [_]) ++ running outer)
  rw [owned_append, List.append_assoc]
  exact List.perm_middle.symm

theorem Sound.endDestructor (h : Sound s) {b : ℕ} {invoked : Bool}
    {outer : List (ℕ × ClientCode)} (hframes : s.frames = (b, .destructor invoked) :: outer) :
    Sound (endDestructor b invoked outer s) := by
  have hfirst := h.innermost hframes
  cases invoked with
  | true =>
    refine ⟨h.numbered, ?_⟩
    have hnext := hfirst.advance (some .handler) (halfDeleter ++ [.callHandler]) rfl
    exact hnext.perm List.perm_middle.symm
  | false => exact ⟨h.numbered, hfirst.finish (by decide)⟩

theorem sound_step (act : Action) (s' : World) (h : Sound s) (hs : step s act = some s') :
    Sound s' := by
  cases step_effect hs with
  | construct =>
    refine ⟨h.numbered, ?_⟩
    have hnext := h.blocks.enter (some .constructor) [.allocate, .makeData] rfl
    exact hnext.perm List.perm_middle.symm
  | moveConstruct hv => exact h.moveConstruct hv
  | moveAssign hw hv => exact h.moveAssign hw hv
  | destroy hv => exact h.destroy hv
  | invoke hv hb => exact h.invoke hv hb
  | endConstruct hframes => exact h.endConstruct hframes
  | throwConstruct hframes => exact ⟨h.numbered, (h.innermost hframes).finish (by decide)⟩
  | endDestructor hframes => exact h.endDestructor hframes
  | endHandler hframes => exact ⟨h.numbered, (h.innermost hframes).finish (by decide)⟩

theorem Sound.holder_unique (h : Sound s) {v w : Handle Unit ℕ} {b : ℕ} (hv : v ∈ s.ptrs)
    (hw : w ∈ s.ptrs) (hvb : v.target = some b) (hwb : w.target = some b) : w = v := by
  obtain ⟨rest, hperm, -⟩ := h.numbered.perm (lookup_of_mem h.numbered hv)
  have howned : (owned s.ptrs).Perm ((b, none) :: owned rest) := by
    have hcons := owned_perm hperm
    rwa [owned, owned, List.flatMap_cons, hvb] at hcons
  have hplaces := h.blocks.perm (List.Perm.append_right (running s.frames) howned)
  cases List.mem_cons.mp (hperm.mem_iff.mp hw) with
  | inl heq => exact heq
  | inr hrest =>
    have hmem : (b, none) ∈ owned rest ++ running s.frames :=
      List.mem_append_left _ (mem_owned hrest hwb)
    exact absurd rfl (hplaces.others hmem)

theorem mem_places {b : ℕ} (hb : b ∈ (places s).map Prod.fst) :
    (∃ v ∈ s.ptrs, v.target = some b) ∨ ∃ f ∈ s.frames, f.1 = b := by
  obtain ⟨p, hp, rfl⟩ := List.mem_map.mp hb
  cases List.mem_append.mp hp with
  | inl howned =>
    obtain ⟨v, hv, hp⟩ := List.mem_flatMap.mp howned
    obtain ⟨c, hc, rfl⟩ := Option.map_eq_some_iff.mp (Option.mem_toList.mp hp)
    exact .inl ⟨v, hv, hc⟩
  | inr hrunning =>
    obtain ⟨f, hf, rfl⟩ := List.mem_map.mp hrunning
    exact .inr ⟨f, hf, rfl⟩

/-- **Each block has one life.** Whatever client code does, from wherever it runs, what happens to a
block is the beginning of a life in which the `T` is destroyed if it was made, the memory is freed
once, and the handler is called, after that, if `invoke` was. What a `handler_ptr` holds is there,
and no other holds it; what none holds and no client code runs with has lived to the end. -/
theorem one_life {as : List Action} (h : run step init as = some s) (b : ℕ) :
    (∃ life ∈ lives, eventsOf b s.log <+: life) ∧
    (∀ v ∈ s.ptrs, v.target = some b →
      eventsOf b s.log = [.allocate, .makeData, .makeT] ∧
        ∀ w ∈ s.ptrs, w.target = some b → w = v) ∧
    (b < s.blocks → (∀ v ∈ s.ptrs, v.target ≠ some b) → (∀ f ∈ s.frames, f.1 ≠ b) →
      eventsOf b s.log ∈ lives) := by
  have hsound : Sound s := run_invariant (fun s a s' => sound_step a s') sound_init h
  refine ⟨hsound.blocks.begins_life history_begins (by decide) b, fun v hv hb => ⟨?_, ?_⟩, ?_⟩
  · exact hsound.blocks.present (b, none) (List.mem_append_left _ (mem_owned hv hb))
  · exact fun w hw hwb => hsound.holder_unique hv hw hb hwb
  · intro hlt hptrs hframes
    apply hsound.blocks.absent b hlt
    intro hmem
    cases mem_places hmem with
    | inl hheld =>
      obtain ⟨v, hv, hb⟩ := hheld
      exact hptrs v hv hb
    | inr hrunning =>
      obtain ⟨f, hf, hb⟩ := hrunning
      exact hframes f hf hb

end

/-- An `invoke` whose `T`, in its destructor, makes two more, the first of which throws. -/
theorem one_life_nested :
    ∃ s, run step init [.construct, .ret, .moveConstruct 0, .invoke 1, .construct, .throw,
        .construct, .ret, .ret, .ret, .destroy 2, .ret] = some s ∧
      eventsOf 0 s.log ∈ lives ∧ eventsOf 0 s.log =
        [.allocate, .makeData, .makeT, .invoke, .destroyT, .takeHandler, .destroyData, .deallocate,
          .callHandler, .destroyHandler] := by
  have hrun : run step init [.construct, .ret, .moveConstruct 0, .invoke 1, .construct, .throw,
      .construct, .ret, .ret, .ret, .destroy 2, .ret] = some _ := rfl
  exact ⟨_, hrun, (one_life hrun 0).2.2 (by decide) (by decide) (by decide), rfl⟩

/-! ## What `composed::op` sees -/

/-- The conversion to `bool`. -/
def owns (s : World) (i : ℕ) : Bool := (lookup s.ptrs i).any fun v => v.target.isSome

theorem lookup_released {s : World} {v : Handle Unit ℕ} (hv : lookup s.ptrs v.id = some v) :
    lookup (modify v.id (setTarget none) s.ptrs) v.id = some (setTarget none v) := by
  rw [lookup_modify (setTarget_id none), hv]
  rfl

theorem owns_moveConstruct {s : World} (h : Sound s) {v : Handle Unit ℕ}
    (hv : lookup s.ptrs v.id = some v) :
    owns (moveConstruct v s) s.made = handlerPtr.moveTo (owns s v.id) ∧
      owns (moveConstruct v s) v.id = handlerPtr.moveFrom (owns s v.id) := by
  have hreleased : Numbered s.made (modify v.id (setTarget none) s.ptrs) :=
    h.numbered.modify (setTarget_id none)
  constructor
  · have hnew : lookup (moveConstruct v s).ptrs s.made = some ⟨s.made, (), v.target⟩ :=
      (lookup_append hreleased (Nat.le_refl _) _).trans (by simp)
    rw [owns, hnew, owns, hv]
    rfl
  · have hold : lookup (moveConstruct v s).ptrs v.id = some (setTarget none v) := by
      show List.find? _ (_ ++ _) = _
      rw [List.find?_append]
      exact congrArg (Option.or · _) (lookup_released hv)
    rw [owns, hold]
    rfl

theorem owns_invoke {s : World} {v : Handle Unit ℕ} (hv : lookup s.ptrs v.id = some v) (b : ℕ) :
    owns (invoke v.id b s) v.id = handlerPtr.invoke (owns s v.id) := by
  have hreleased : lookup (invoke v.id b s).ptrs v.id = some (setTarget none v) :=
    lookup_released hv
  rw [owns, hreleased]
  rfl

theorem owns_endConstruct {s : World} (h : Sound s) (b : ℕ) (outer : List (ℕ × ClientCode)) :
    owns (endConstruct b outer s) s.made = handlerPtr.make := by
  have hnew : lookup (endConstruct b outer s).ptrs s.made = some ⟨s.made, (), some b⟩ :=
    (lookup_append h.numbered (Nat.le_refl _) _).trans (by simp)
  rw [owns, hnew]
  rfl

end CxxUtil.Composed.HandlerMemory
