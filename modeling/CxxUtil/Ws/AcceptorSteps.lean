import CxxUtil.Ws.AcceptorQueue

/-! # The number of steps

A demand costs `close()` five steps at most, and so does a supply: the loop test, the call into the
queue and what `post()` does there. `rank` adds up what the queue and the active calls may still
cost, and a call by client code adds to it (`cost`). -/
namespace CxxUtil.Ws.AcceptorImpl
open Foundations Queue ProducerConsumerQueue Asio
set_option autoImplicit false

/-- The difference of the two sizes fits in `int`. -/
def SizesFit (q : ProducerConsumerQueue Consumer Datum) : Prop :=
  -2 ^ 31 ≤ (q.mData.length : ℤ) - q.mHandlers.length ∧
    (q.mData.length : ℤ) - q.mHandlers.length < 2 ^ 31

instance (q : ProducerConsumerQueue Consumer Datum) : Decidable (SizesFit q) :=
  inferInstanceAs (Decidable (_ ∧ _))

def Frame.weight : Frame → ℕ
  | post => 2
  | abortDemand => 3
  | discardSupply => 2

def Control.weight : Control → ℕ
  | client => 1
  | test => 0

def load (q : ProducerConsumerQueue Consumer Datum) : ℕ :=
  5 * ((q.mData.length - q.mHandlers.length) + (q.mHandlers.length - q.mData.length)) +
    2 * min q.mHandlers.length q.mData.length

/-- A bound on the steps that the active calls take if the client code makes no further ones. -/
def rank (s : AcceptorLoop) : ℕ :=
  load s.world.mConnectionQueue + (s.world.frames.map Frame.weight).sum + s.world.control.weight

/-- What a call by client code may add to that. -/
def cost : Action → ℕ
  | .asyncAccept _ => 7
  | .close => 3
  | .openEvent .. | .failEvent .. | .transport .. => 1
  | .next => 7
  | .resume | .ret | .throw => 0

section
variable {s u u' : AcceptorLoop}

theorem load_emplaceHandler (q : ProducerConsumerQueue Consumer Datum) (c : Consumer) :
    load (q.emplaceHandler c) ≤ load q + 5 ∧
      (q.mHandlers.length < q.mData.length → load (q.emplaceHandler c) + 3 = load q) := by
  simp only [load, emplaceHandler, List.length_append, List.length_singleton]
  omega

theorem load_emplaceData (q : ProducerConsumerQueue Consumer Datum) (d : Datum) :
    load (q.emplaceData d) ≤ load q + 5 ∧
      (q.mData.length < q.mHandlers.length → load (q.emplaceData d) + 3 = load q) := by
  simp only [load, emplaceData, List.length_append, List.length_singleton]
  omega

theorem load_popPair {q q' : ProducerConsumerQueue Consumer Datum} {p : Consumer × Datum}
    (h : q.popPair = some (p, q')) : load q' + 2 = load q := by
  obtain ⟨hhandlers, hdata⟩ := popPair_eq_some.mp h
  simp only [load, hhandlers, hdata, List.length_cons]
  omega

theorem rank_consume (c : Consumer) (s : AcceptorLoop) :
    rank (consume c s) = load (s.world.mConnectionQueue.emplaceHandler c) +
      (2 + (s.world.frames.map Frame.weight).sum) + 0 := rfl

theorem rank_produce (d : Datum) (s : AcceptorLoop) :
    rank (produce d s) = load (s.world.mConnectionQueue.emplaceData d) +
      (2 + (s.world.frames.map Frame.weight).sum) + 0 := rfl

theorem depth_eq_of_fits (h : SizesFit u.world.mConnectionQueue) :
    depth u = (u.world.mConnectionQueue.mData.length : ℤ) -
      u.world.mConnectionQueue.mHandlers.length := depth_eq_sub h.1 h.2

theorem weight_unwound (fs : List Frame) :
    ((unwound fs).map Frame.weight).sum ≤ (fs.map Frame.weight).sum := by
  cases fs with
  | nil => exact Nat.le_refl _
  | cons f fs => cases f <;> simp [unwound]

theorem weight_afterPost (fs : List Frame) : (afterPost fs).weight ≤ 1 := by
  cases afterPost fs with
  | client => exact Nat.le_refl _
  | test => exact Nat.zero_le _

theorem rank_call {c : Consumer} {d : Datum} {q : ProducerConsumerQueue Consumer Datum}
    (hc : s.world.control = .test) (hpop : s.world.mConnectionQueue.popPair = some ((c, d), q)) :
    rank (s.update fun w => callConsumer c d { w with mConnectionQueue := q }) + 1 ≤ rank s := by
  have hload := load_popPair hpop
  have hbefore : rank s = load s.world.mConnectionQueue +
      (s.world.frames.map Frame.weight).sum + 0 := by rw [rank, hc]; rfl
  cases c with
  | accept a =>
    change load q + (s.world.frames.map Frame.weight).sum + 1 + 1 ≤ rank s
    omega
  | discard =>
    simp only [callConsumer_discard]
    change load q + (s.world.frames.map Frame.weight).sum + s.world.control.weight + 1 ≤ rank s
    rw [hbefore, hc, Control.weight]
    omega

theorem rank_client (hc : u.world.control = .client) : rank u =
    load u.world.mConnectionQueue + (u.world.frames.map Frame.weight).sum + 1 := by
  rw [rank, hc]
  rfl

theorem rank_test {f : Frame} {outer : List Frame} (hc : u.world.control = .test)
    (hframes : u.world.frames = f :: outer) : rank u =
    load u.world.mConnectionQueue + (f.weight + (outer.map Frame.weight).sum) + 0 := by
  rw [rank, hc, hframes]
  rfl

theorem rank_abort {outer : List Frame} (hc : u.world.control = .test)
    (hframes : u.world.frames = .abortDemand :: outer) (hfits : SizesFit u.world.mConnectionQueue)
    (hdepth : depth u < 0) : rank (produce .aborted u) + 1 ≤ rank u := by
  have hbefore := rank_test hc hframes
  have hsub := depth_eq_of_fits hfits
  have hload := (load_emplaceData u.world.mConnectionQueue .aborted).2 (by omega)
  rw [rank_produce, hframes, List.map_cons, List.sum_cons]
  omega

theorem rank_discard {outer : List Frame} (hc : u.world.control = .test)
    (hframes : u.world.frames = .discardSupply :: outer)
    (hfits : SizesFit u.world.mConnectionQueue) (hdepth : 0 < depth u) :
    rank (consume .discard u) + 1 ≤ rank u := by
  have hbefore := rank_test hc hframes
  have hsub := depth_eq_of_fits hfits
  have hload := (load_emplaceHandler u.world.mConnectionQueue .discard).2 (by omega)
  rw [rank_consume, hframes, List.map_cons, List.sum_cons]
  omega

theorem rank_throw {f : Frame} {outer : List Frame} (hc : u.world.control = .client)
    (hframes : u.world.frames = f :: outer) :
    rank (u.update fun w => { w with frames := unwound outer }) + 1 ≤ rank u := by
  have hbefore := rank_client hc
  have hweight := weight_unwound outer
  have hpos : 2 ≤ f.weight := by cases f <;> decide
  have hafter : rank (u.update fun w => { w with frames := unwound outer }) =
      load u.world.mConnectionQueue + ((unwound outer).map Frame.weight).sum +
        u.world.control.weight := rfl
  rw [hafter, hc]
  rw [hframes, List.map_cons, List.sum_cons] at hbefore
  change load _ + _ + 1 + 1 ≤ rank u
  omega

theorem rank_step {act : Action} (hfits : act = .resume → u.world.frames.head? ≠ some .post →
      SizesFit u.world.mConnectionQueue) (hs : step u act = some u') :
    rank u' + 1 ≤ rank u + cost act := by
  cases step_effect hs with
  | asyncAccept mq hc =>
    have hbefore := rank_client hc
    have hload := (load_emplaceHandler u.world.mConnectionQueue (.accept ⟨u.world.accepts, mq⟩)).1
    change load (u.world.mConnectionQueue.emplaceHandler (.accept ⟨u.world.accepts, mq⟩)) +
      (2 + (u.world.frames.map Frame.weight).sum) + 0 + 1 ≤ rank u + 7
    omega
  | close hc =>
    have hbefore := rank_client hc
    change load u.world.mConnectionQueue + (3 + (u.world.frames.map Frame.weight).sum) + 0 + 1 ≤
      rank u + 3
    omega
  | openEvent con got hc hcon =>
    rw [connectionEvent_eq]
    exact Nat.le_refl _
  | failEvent con got hc hcon =>
    rw [connectionEvent_eq]
    exact Nat.le_refl _
  | transport con ec hc => exact Nat.le_refl _
  | next e es hc hposted =>
    have hbefore := rank_client hc
    have hload := (load_emplaceData u.world.mConnectionQueue
      (.established e (u.world.transportEc e.con))).1
    change load (u.world.mConnectionQueue.emplaceData
      (.established e (u.world.transportEc e.con))) +
        (2 + (u.world.frames.map Frame.weight).sum) + 0 + 1 ≤ rank u + 7
    omega
  | call outer c d q hc hframes hpop => exact rank_call hc hpop
  | posted outer hc hframes hpop =>
    have hbefore := rank_test hc hframes
    have hweight := weight_afterPost outer
    change _ = _ + (2 + _) + 0 at hbefore
    change load u.world.mConnectionQueue + (outer.map Frame.weight).sum + (afterPost outer).weight +
      1 ≤ rank u
    omega
  | abort outer hc hframes hdepth =>
    exact rank_abort hc hframes (hfits rfl (head?_ne_post hframes (by decide))) hdepth
  | aborted outer hc hframes hdepth =>
    have hbefore := rank_test hc hframes
    have hafter : rank (u.update fun w => { w with frames := .discardSupply :: outer }) =
        load u.world.mConnectionQueue + (2 + (outer.map Frame.weight).sum) +
          u.world.control.weight := rfl
    rw [hafter, hc]
    change _ = _ + (3 + _) + 0 at hbefore
    change load _ + _ + 0 + 1 ≤ rank u
    omega
  | discard outer hc hframes hdepth =>
    exact rank_discard hc hframes (hfits rfl (head?_ne_post hframes (by decide))) hdepth
  | closed outer hc hframes hdepth =>
    have hbefore := rank_test hc hframes
    change _ = _ + (2 + _) + 0 at hbefore
    change load u.world.mConnectionQueue + (outer.map Frame.weight).sum + 1 + 1 ≤ rank u
    omega
  | ret f outer hc hframes => exact Nat.le_of_eq (rank_client hc).symm
  | throw f outer hc hframes => exact rank_throw hc hframes

end
end CxxUtil.Ws.AcceptorImpl
