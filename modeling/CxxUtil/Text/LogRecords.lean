import CxxUtil.Text.LogSafely

/-! # The lines of the log

`src/log.cpp`: the formatter that every sink is given, applied to a record's attributes. -/
namespace CxxUtil.Text.LogRecords
open Foundations LogSafely
set_option autoImplicit false

/-! ## Records -/

/-- The attributes that the formatter looks up, where the record has them, and the message. -/
structure Record where
  timeStamp : Option LocalTime
  channel : Option (List Char)
  role : Option (List Char)
  protocol : Option (List Char)
  devicePath : Option (List Char)
  remoteEndpoint : Option (List Char)
  serialId : Option (List Char)
  requestId : Option (List Char)
  smessage : List Char

/-- `expr::if_(expr::has_attr<std::string>(name))[expr::stream << …]`. -/
def ifHasAttr (attr : Option (List Char)) (pieces : List Char → List (List Char))
    (os : FormatStream) : FormatStream :=
  match attr with
  | some v => (pieces v).foldl (fun os t => os.insert t) os
  | none => os

/-- `expr::attr<attrs::local_clock::value_type, util::LogSafely>("TimeStamp")`. -/
def insertTimeStamp (timeStamp : Option LocalTime) (os : FormatStream) : FormatStream :=
  match timeStamp with
  | some t => insertLocalClock os t
  | none => os

def spaced (v : List Char) : List (List Char) := [" ".toList, v]

def bracketed (opening v : List Char) : List (List Char) := [opening, v, "]".toList]

def defaultFormatter (r : Record) (os : FormatStream) : FormatStream :=
  let os := os.insert ['[']
  let os := (insertTimeStamp r.timeStamp os).insert [']']
  let os := ifHasAttr r.channel spaced os
  let os := ifHasAttr r.role (bracketed " [".toList) os
  let os := ifHasAttr r.protocol spaced os
  let os := ifHasAttr r.devicePath (bracketed " [".toList) os
  let os := ifHasAttr r.remoteEndpoint (bracketed " [".toList) os
  let os := ifHasAttr r.serialId (bracketed " [".toList) os
  let os := ifHasAttr r.requestId (bracketed " [RequestId=".toList) os
  (os.insert " ".toList).insert r.smessage

/-- What a sink writes of a record. -/
def line (r : Record) : List Char := (defaultFormatter r ⟨' ', 0, []⟩).text

/-! ## The text of a line -/

/-- `f` appends `t` to a stream that has no width set, and leaves it without. -/
def Writes (f : FormatStream → FormatStream) (t : List Char) : Prop :=
  ∀ os, os.width = 0 → (f os).width = 0 ∧ (f os).text = os.text ++ t

def attrText (attr : Option (List Char)) (pieces : List Char → List (List Char)) : List Char :=
  attr.elim [] fun v => (pieces v).flatten

section
variable {f g : FormatStream → FormatStream} {t u : List Char}

theorem Writes.then (hf : Writes f t) (hg : Writes g u) : Writes (fun os => g (f os)) (t ++ u) := by
  intro os hos
  obtain ⟨hwidth, htext⟩ := hf os hos
  obtain ⟨hwidth', htext'⟩ := hg _ hwidth
  exact ⟨hwidth', by rw [htext', htext, List.append_assoc]⟩

theorem writes_nothing : Writes id [] := fun os hos => ⟨hos, (List.append_nil os.text).symm⟩

theorem writes_insert (t : List Char) : Writes (fun os => os.insert t) t := by
  intro os hos
  refine ⟨rfl, ?_⟩
  show os.text ++ (List.replicate (os.width - t.length) os.fill ++ t) = os.text ++ t
  rw [hos, Nat.zero_sub]
  rfl

theorem writes_pieces (ts : List (List Char)) :
    Writes (fun os => ts.foldl (fun os t => os.insert t) os) ts.flatten := by
  induction ts with
  | nil => exact writes_nothing
  | cons t ts ih => exact (writes_insert t).then ih

theorem writes_ifHasAttr (attr : Option (List Char)) (pieces : List Char → List (List Char)) :
    Writes (ifHasAttr attr pieces) (attrText attr pieces) := by
  cases attr with
  | none => exact writes_nothing
  | some v => exact writes_pieces (pieces v)

theorem writes_timeStamp (timeStamp : Option LocalTime) :
    Writes (insertTimeStamp timeStamp) (timeStamp.elim [] stamp) := by
  cases timeStamp with
  | none => exact writes_nothing
  | some t =>
    intro os _
    exact ⟨rfl, by rw [insertTimeStamp, insertLocalClock_text, ← stamp_eq]; rfl⟩

end

/-- What is between the time stamp and the message. -/
def tags (r : Record) : List Char :=
  attrText r.channel spaced ++ (attrText r.role (bracketed " [".toList) ++
    (attrText r.protocol spaced ++ (attrText r.devicePath (bracketed " [".toList) ++
      (attrText r.remoteEndpoint (bracketed " [".toList) ++
        (attrText r.serialId (bracketed " [".toList) ++
          attrText r.requestId (bracketed " [RequestId=".toList))))))

theorem writes_tags (r : Record) :
    Writes (fun os => ifHasAttr r.requestId (bracketed " [RequestId=".toList)
      (ifHasAttr r.serialId (bracketed " [".toList)
        (ifHasAttr r.remoteEndpoint (bracketed " [".toList)
          (ifHasAttr r.devicePath (bracketed " [".toList)
            (ifHasAttr r.protocol spaced
              (ifHasAttr r.role (bracketed " [".toList) (ifHasAttr r.channel spaced os)))))))
      (tags r) :=
  (writes_ifHasAttr _ _).then <| (writes_ifHasAttr _ _).then <| (writes_ifHasAttr _ _).then <|
    (writes_ifHasAttr _ _).then <| (writes_ifHasAttr _ _).then <|
      (writes_ifHasAttr _ _).then (writes_ifHasAttr _ _)

theorem line_eq (r : Record) :
    line r = '[' :: (r.timeStamp.elim [] stamp ++ ']' :: (tags r ++ ' ' :: r.smessage)) := by
  have hmessage := (writes_insert " ".toList).then (writes_insert r.smessage)
  have hstamp := (writes_timeStamp r.timeStamp).then (writes_insert [']'])
  have hline := ((writes_insert ['[']).then hstamp).then ((writes_tags r).then hmessage)
  have htext := (hline ⟨' ', 0, []⟩ rfl).2
  rw [List.nil_append, List.append_assoc, List.append_assoc] at htext
  exact htext

/-- The last microsecond of a year. -/
def newYearsEve : LocalTime :=
  ⟨2016, 12, 31, ⟨86399999999⟩, by decide, by decide, by decide, by decide⟩

def newYear : LocalTime := ⟨2017, 1, 1, ⟨0⟩, by decide, by decide, by decide, by decide⟩

/-- A record of a source that has a role and no channel. -/
def roleRecord (role smessage : List Char) : Record :=
  ⟨none, none, some role, none, none, none, none, none, smessage⟩

example : line { roleRecord "server".toList "bye".toList with timeStamp := some newYearsEve } =
    "[2016-12-31T23:59:59.999999] [server] bye".toList := by decide

section
variable {r r' : Record} {t u : LocalTime}

/-- A line begins with its time stamp in brackets. -/
theorem line_take (h : r.timeStamp = some t) : (line r).take 28 = '[' :: (stamp t ++ [']']) := by
  have hlen : ('[' :: (stamp t ++ [']'])).length = 28 := by
    rw [List.length_cons, List.length_append, length_stamp]
    rfl
  have hline : line r = ('[' :: (stamp t ++ [']'])) ++ (tags r ++ ' ' :: r.smessage) := by
    rw [line_eq, h, List.cons_append, List.append_assoc]
    rfl
  rw [hline, List.take_left' hlen]

theorem readStamp_line (h : r.timeStamp = some t) : readStamp ((line r).drop 1) = t.key := by
  rw [line_eq, h, List.drop_one, List.tail_cons]
  exact readStamp_stamp t _

theorem message_suffix (r : Record) : ' ' :: r.smessage <:+ line r := by
  refine ⟨'[' :: (r.timeStamp.elim [] stamp ++ ']' :: tags r), ?_⟩
  rw [line_eq, List.cons_append, List.append_assoc, List.cons_append]

theorem line_lt_line (h : r.timeStamp = some t) (h' : r'.timeStamp = some u) (hlt : t.Earlier u) :
    line r < line r' := by
  have hlen : (stamp t).length = (stamp u).length := by rw [length_stamp, length_stamp]
  rw [line_eq, line_eq, h, h', List.cons_lt_cons_iff]
  exact .inr ⟨rfl, (append_lt_append_iff hlen _ _).mpr (.inl ((stamp_lt_iff t u).mpr hlt))⟩

/-- The first 28 characters are compared as the times are. -/
theorem line_take_lt_iff (h : r.timeStamp = some t) (h' : r'.timeStamp = some u) :
    (line r).take 28 < (line r').take 28 ↔ t.Earlier u := by
  have hlen : (stamp t).length = (stamp u).length := by rw [length_stamp, length_stamp]
  rw [line_take h, line_take h', List.cons_lt_cons_iff, append_lt_append_iff hlen, stamp_lt_iff]
  constructor
  · rintro (hlt | ⟨-, hlt | ⟨-, hlt⟩⟩)
    · exact absurd hlt (by decide)
    · exact hlt
    · exact absurd hlt (List.lt_irrefl _)
  · intro hlt
    exact .inr ⟨rfl, .inl hlt⟩

end

/-- **A log is in order.** Whatever records are written, their lines come in the order of their
first 28 characters, the time stamps in brackets, if and only if the records come in the order of
their times. Of two records with different times the earlier has the smaller line, in lexicographic
order. The time of a record can be read back from its line, which ends with its message. -/
theorem lines_in_order {rs : List Record} {time : Record → LocalTime}
    (htime : ∀ r ∈ rs, r.timeStamp = some (time r)) :
    ((rs.map line).Pairwise (fun l l' => ¬ l'.take 28 < l.take 28) ↔
      rs.Pairwise fun r r' => ¬ (time r').Earlier (time r)) ∧
    (∀ r ∈ rs, ∀ r' ∈ rs, (time r).Earlier (time r') → line r < line r') ∧
    ∀ r ∈ rs, readStamp ((line r).drop 1) = (time r).key ∧ ' ' :: r.smessage <:+ line r := by
  refine ⟨?_, fun r hr r' hr' hlt => ?_, fun r hr => ?_⟩
  · rw [List.pairwise_map]
    refine List.Pairwise.iff_of_mem fun {r r'} hr hr' => ?_
    exact not_congr (line_take_lt_iff (htime r' hr') (htime r hr))
  · exact line_lt_line (htime r hr) (htime r' hr') hlt
  · exact ⟨readStamp_line (htime r hr), message_suffix r⟩

/-- Two records written across the turn of the year, the later first. -/
theorem lines_in_order_new_year :
    let rs := [{ roleRecord ['s'] ['b'] with timeStamp := some newYear },
      { roleRecord ['s'] ['a'] with timeStamp := some newYearsEve }]
    ¬ (rs.map line).Pairwise fun l l' => ¬ l'.take 28 < l.take 28 := by
  intro rs hpairwise
  have htime : ∀ r ∈ rs, r.timeStamp = some (r.timeStamp.getD newYear) := by
    intro r hr
    rcases List.mem_pair.mp hr with rfl | rfl <;> rfl
  have hrs := (lines_in_order htime).1.mp hpairwise
  have hlt : newYearsEve.Earlier newYear :=
    show [2016, 12, 31, 86399999999] < [2017, 1, 1, 0] by decide
  exact List.pairwise_pair.mp hrs hlt

end CxxUtil.Text.LogRecords
