import Mathlib.Data.List.Nodup
import Mathlib.Data.List.Perm.Basic

/-! # Objects that live through stages

Objects are numbered in the order in which they are made. An object that is alive is in one place,
at some stage, and what happens to it is logged under its number. `history` says what has happened
to an object that has reached a stage, and `lives` lists the whole lives. `Lifecycle` holds as long
as objects are only made, moved between places, brought from one stage to another with the events
between the two, and ended with the events that complete a life. -/
namespace CxxUtil.Foundations
set_option autoImplicit false

variable {St Ev : Type*}

/-- What has happened to the object `b`. -/
def eventsOf (b : ℕ) (log : List (ℕ × Ev)) : List Ev := (log.filter (·.1 == b)).map Prod.snd

def record (b : ℕ) (evs : List Ev) (log : List (ℕ × Ev)) : List (ℕ × Ev) :=
  log ++ evs.map (Prod.mk b)

@[simp] theorem eventsOf_record (b : ℕ) (evs : List Ev) (log : List (ℕ × Ev)) :
    eventsOf b (record b evs log) = eventsOf b log ++ evs := by
  have hall : (evs.map (Prod.mk b)).filter (·.1 == b) = evs.map (Prod.mk b) := by
    apply List.filter_eq_self.mpr
    intro p hp
    obtain ⟨ev, -, rfl⟩ := List.mem_map.mp hp
    exact beq_self_eq_true b
  rw [eventsOf, record, List.filter_append, List.map_append, hall, List.map_map]
  show eventsOf b log ++ evs.map id = _
  rw [List.map_id]

theorem eventsOf_record_of_ne {b c : ℕ} (hne : c ≠ b) (evs : List Ev) (log : List (ℕ × Ev)) :
    eventsOf c (record b evs log) = eventsOf c log := by
  have hnone : (evs.map (Prod.mk b)).filter (·.1 == c) = [] := by
    apply List.filter_eq_nil_iff.mpr
    intro p hp
    obtain ⟨ev, -, rfl⟩ := List.mem_map.mp hp
    simpa using hne.symm
  rw [eventsOf, record, List.filter_append, hnone, List.append_nil, eventsOf]

structure Lifecycle (history : St → List Ev) (lives : List (List Ev)) (made : ℕ)
    (places : List (ℕ × St)) (log : List (ℕ × Ev)) : Prop where
  once : (places.map Prod.fst).Nodup
  lt : ∀ p ∈ places, p.1 < made
  present : ∀ p ∈ places, eventsOf p.1 log = history p.2
  absent : ∀ b < made, b ∉ places.map Prod.fst → eventsOf b log ∈ lives
  unmade : ∀ b, made ≤ b → eventsOf b log = []

namespace Lifecycle

variable {history : St → List Ev} {lives : List (List Ev)} {made b : ℕ}
  {places places' rest : List (ℕ × St)} {log : List (ℕ × Ev)} {st st' : St}

theorem empty : Lifecycle history lives 0 [] [] where
  once := List.nodup_nil
  lt p hp := by cases hp
  present p hp := by cases hp
  absent b hb := by cases hb
  unmade b _ := rfl

theorem perm (h : Lifecycle history lives made places log) (hperm : places.Perm places') :
    Lifecycle history lives made places' log where
  once := (hperm.map Prod.fst).nodup_iff.mp h.once
  lt p hp := h.lt p (hperm.mem_iff.mpr hp)
  present p hp := h.present p (hperm.mem_iff.mpr hp)
  absent b hb hnot := h.absent b hb fun hmem => hnot ((hperm.map Prod.fst).mem_iff.mp hmem)
  unmade := h.unmade

theorem enter (h : Lifecycle history lives made places log) (st : St) (evs : List Ev)
    (hst : history st = evs) :
    Lifecycle history lives (made + 1) ((made, st) :: places) (record made evs log) := by
  have hold (p : ℕ × St) (hp : p ∈ places) : p.1 ≠ made := Nat.ne_of_lt (h.lt p hp)
  constructor
  case once =>
    apply List.nodup_cons.mpr
    refine ⟨fun hmem => ?_, h.once⟩
    obtain ⟨p, hp, hfst⟩ := List.mem_map.mp hmem
    exact hold p hp hfst
  case lt =>
    intro p hp
    cases List.mem_cons.mp hp with
    | inl heq =>
      subst heq
      exact Nat.lt_succ_self made
    | inr hp => exact Nat.lt_succ_of_lt (h.lt p hp)
  case present =>
    intro p hp
    cases List.mem_cons.mp hp with
    | inl heq =>
      subst heq
      rw [eventsOf_record, h.unmade made (Nat.le_refl made), List.nil_append, hst]
    | inr hp =>
      rw [eventsOf_record_of_ne (hold p hp)]
      exact h.present p hp
  case absent =>
    intro b hb hnot
    rw [List.map_cons, List.mem_cons, not_or] at hnot
    rw [eventsOf_record_of_ne hnot.1]
    apply h.absent b _ hnot.2
    have hne : b ≠ made := hnot.1
    omega
  case unmade =>
    intro b hb
    have hne : b ≠ made := by omega
    rw [eventsOf_record_of_ne hne]
    exact h.unmade b (by omega)

theorem others (h : Lifecycle history lives made ((b, st) :: rest) log) {p : ℕ × St}
    (hp : p ∈ rest) : p.1 ≠ b := by
  have hnot := (List.nodup_cons.mp h.once).1
  rintro rfl
  exact hnot (List.mem_map.mpr ⟨p, hp, rfl⟩)

theorem advance (h : Lifecycle history lives made ((b, st) :: rest) log) (st' : St) (evs : List Ev)
    (hst : history st' = history st ++ evs) :
    Lifecycle history lives made ((b, st') :: rest) (record b evs log) := by
  have hb : b < made := h.lt (b, st) List.mem_cons_self
  constructor
  case once => exact h.once
  case lt =>
    intro p hp
    cases List.mem_cons.mp hp with
    | inl heq =>
      subst heq
      exact hb
    | inr hp => exact h.lt p (List.mem_cons_of_mem _ hp)
  case present =>
    intro p hp
    cases List.mem_cons.mp hp with
    | inl heq =>
      subst heq
      have hnow : eventsOf b log = history st := h.present (b, st) List.mem_cons_self
      rw [eventsOf_record, hnow, hst]
    | inr hp =>
      rw [eventsOf_record_of_ne (h.others hp)]
      exact h.present p (List.mem_cons_of_mem _ hp)
  case absent =>
    intro c hc hnot
    have hne : c ≠ b := fun heq => hnot (heq ▸ List.mem_cons_self)
    rw [eventsOf_record_of_ne hne]
    exact h.absent c hc hnot
  case unmade =>
    intro c hc
    have hne : c ≠ b := by omega
    rw [eventsOf_record_of_ne hne]
    exact h.unmade c hc

theorem finish (h : Lifecycle history lives made ((b, st) :: rest) log) {evs : List Ev}
    (hlife : history st ++ evs ∈ lives) :
    Lifecycle history lives made rest (record b evs log) := by
  have hb : b < made := h.lt (b, st) List.mem_cons_self
  constructor
  case once => exact (List.nodup_cons.mp h.once).2
  case lt => exact fun p hp => h.lt p (List.mem_cons_of_mem _ hp)
  case present =>
    intro p hp
    rw [eventsOf_record_of_ne (h.others hp)]
    exact h.present p (List.mem_cons_of_mem _ hp)
  case absent =>
    intro c hc hnot
    by_cases hcb : c = b
    · subst hcb
      have hnow : eventsOf c log = history st := h.present (c, st) List.mem_cons_self
      rw [eventsOf_record, hnow]
      exact hlife
    · rw [eventsOf_record_of_ne hcb]
      apply h.absent c hc
      rw [List.map_cons, List.mem_cons, not_or]
      exact ⟨hcb, hnot⟩
  case unmade =>
    intro c hc
    have hne : c ≠ b := by omega
    rw [eventsOf_record_of_ne hne]
    exact h.unmade c hc

/-- Whatever has happened to an object is the beginning of a life. -/
theorem begins_life (h : Lifecycle history lives made places log)
    (hbegins : ∀ st, ∃ life ∈ lives, history st <+: life) (hlives : lives ≠ []) (b : ℕ) :
    ∃ life ∈ lives, eventsOf b log <+: life := by
  by_cases hb : b < made
  · by_cases hplace : b ∈ places.map Prod.fst
    · obtain ⟨p, hp, rfl⟩ := List.mem_map.mp hplace
      rw [h.present p hp]
      exact hbegins p.2
    · exact ⟨_, h.absent b hb hplace, List.prefix_rfl⟩
  · obtain ⟨life, hlife⟩ := List.exists_mem_of_ne_nil lives hlives
    rw [h.unmade b (Nat.not_lt.mp hb)]
    exact ⟨life, hlife, List.nil_prefix⟩

end Lifecycle
end CxxUtil.Foundations
