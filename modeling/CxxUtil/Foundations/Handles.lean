import Mathlib.Data.List.Nodup
import Mathlib.Data.List.Perm.Basic

/-! # Handles that share what they point to

A handle is an object with a number, a pointer that may be null, and whatever else is of interest
about it (`kind`). `holders p` counts the handles that point to `p`; the lemmas below say what making
a handle, changing one and destroying one do to that count. Handles are numbered in the order in
which they are made (`Numbered`), so that a number names at most one of them. -/
namespace CxxUtil.Foundations
set_option autoImplicit false

structure Handle (K P : Type*) where
  id : ℕ
  kind : K
  target : Option P
  deriving DecidableEq, Repr

namespace Handles
variable {K P : Type*}

def lookup (hs : List (Handle K P)) (id : ℕ) : Option (Handle K P) := hs.find? fun h => h.id == id

def modify (id : ℕ) (f : Handle K P → Handle K P) (hs : List (Handle K P)) : List (Handle K P) :=
  hs.map fun h => if h.id = id then f h else h

def remove (id : ℕ) (hs : List (Handle K P)) : List (Handle K P) :=
  hs.filter fun h => h.id != id

@[simp] theorem lookup_cons (h : Handle K P) (hs : List (Handle K P)) (id : ℕ) :
    lookup (h :: hs) id = if h.id = id then some h else lookup hs id := by
  by_cases hid : h.id = id
  · rw [if_pos hid, lookup, List.find?_cons_of_pos (by simpa using hid)]
  · rw [if_neg hid, lookup, List.find?_cons_of_neg (by simpa using hid), lookup]

@[simp] theorem modify_nil (id : ℕ) (f : Handle K P → Handle K P) : modify id f [] = [] := rfl

@[simp] theorem modify_cons (h : Handle K P) (hs : List (Handle K P)) (id : ℕ)
    (f : Handle K P → Handle K P) :
    modify id f (h :: hs) = (if h.id = id then f h else h) :: modify id f hs := rfl

@[simp] theorem remove_nil (id : ℕ) : remove id ([] : List (Handle K P)) = [] := rfl

@[simp] theorem remove_cons (h : Handle K P) (hs : List (Handle K P)) (id : ℕ) :
    remove id (h :: hs) = if h.id = id then remove id hs else h :: remove id hs := by
  by_cases hid : h.id = id
  · rw [if_pos hid, remove, List.filter_cons_of_neg (by simpa using hid), remove]
  · rw [if_neg hid, remove, List.filter_cons_of_pos (by simpa using hid), remove]

/-- The first `n` numbers have been given to handles, and each names at most one that is left. -/
structure Numbered (n : ℕ) (hs : List (Handle K P)) : Prop where
  nodup : (hs.map Handle.id).Nodup
  lt : ∀ h ∈ hs, h.id < n

section
variable {n id : ℕ} {hs : List (Handle K P)} {h : Handle K P} {f : Handle K P → Handle K P}

theorem lookup_mem (hl : lookup hs id = some h) : h ∈ hs ∧ h.id = id :=
  ⟨List.mem_of_find?_eq_some hl, by simpa using List.find?_some hl⟩

theorem lookup_modify (hf : ∀ h, (f h).id = h.id) :
    lookup (modify id f hs) id = (lookup hs id).map f := by
  induction hs with
  | nil => rfl
  | cons k ks ih =>
    rw [modify_cons, lookup_cons, lookup_cons]
    by_cases hk : k.id = id
    · rw [if_pos hk, if_pos ((hf k).trans hk), if_pos hk]
      rfl
    · rw [if_neg hk, if_neg hk, if_neg hk]
      exact ih

theorem lookup_append_left (hl : lookup hs id = some h) (later : List (Handle K P)) :
    lookup (hs ++ later) id = some h := by
  have hfind : hs.find? (fun k => k.id == id) = some h := hl
  rw [lookup, List.find?_append, hfind, Option.some_or]

theorem lookup_of_mem (hn : Numbered n hs) (hmem : h ∈ hs) : lookup hs h.id = some h := by
  have hnodup := hn.nodup
  clear hn
  induction hs with
  | nil => cases hmem
  | cons k ks ih =>
    obtain ⟨hk, hks⟩ := List.nodup_cons.mp hnodup
    rw [lookup_cons]
    rcases List.mem_cons.mp hmem with rfl | hmem
    · exact if_pos rfl
    · have hne : k.id ≠ h.id := fun heq => hk (heq ▸ List.mem_map_of_mem hmem)
      rw [if_neg hne]
      exact ih hmem hks

/-- The handle that a number names, and the others. -/
theorem Numbered.perm (hn : Numbered n hs) (hl : lookup hs id = some h) :
    ∃ rest, hs.Perm (h :: rest) ∧ ∀ k ∈ rest, k.id ≠ id := by
  obtain ⟨hmem, rfl⟩ := lookup_mem hl
  obtain ⟨before, after, rfl⟩ := List.append_of_mem hmem
  have hperm : (before ++ h :: after).Perm (h :: (before ++ after)) := List.perm_middle
  refine ⟨before ++ after, hperm, fun k hk heq => ?_⟩
  have hnodup := (hperm.map Handle.id).nodup_iff.mp hn.nodup
  exact (List.nodup_cons.mp hnodup).1 (heq ▸ List.mem_map_of_mem hk)

theorem modify_perm (hl : lookup hs id = some h) {rest : List (Handle K P)}
    (hperm : hs.Perm (h :: rest)) (hrest : ∀ k ∈ rest, k.id ≠ id) :
    (modify id f hs).Perm (f h :: rest) := by
  refine (hperm.map _).trans ?_
  rw [List.map_cons, if_pos (lookup_mem hl).2]
  refine List.Perm.of_eq (congrArg _ ?_)
  exact (List.map_congr_left fun k hk => if_neg (hrest k hk)).trans (List.map_id' rest)

theorem remove_perm {rest : List (Handle K P)} (hl : lookup hs id = some h)
    (hperm : hs.Perm (h :: rest)) (hrest : ∀ k ∈ rest, k.id ≠ id) :
    (remove id hs).Perm rest := by
  refine (hperm.filter _).trans ?_
  rw [List.filter_cons_of_neg (by simpa using (lookup_mem hl).2)]
  exact List.Perm.of_eq (List.filter_eq_self.mpr fun k hk => by simpa using hrest k hk)

theorem mem_modify_of_ne (hmem : h ∈ hs) (hid : h.id ≠ id) : h ∈ modify id f hs :=
  List.mem_map.mpr ⟨h, hmem, if_neg hid⟩

theorem mem_remove : h ∈ remove id hs ↔ h ∈ hs ∧ h.id ≠ id := by
  simp [remove]

/-! ## Numbers -/

theorem numbered_nil : Numbered 0 ([] : List (Handle K P)) := ⟨List.nodup_nil, nofun⟩

theorem Numbered.add (hn : Numbered n hs) (kind : K) (target : Option P) :
    Numbered (n + 1) (hs ++ [⟨n, kind, target⟩]) where
  nodup := by
    rw [List.map_append, List.nodup_append]
    refine ⟨hn.nodup, List.nodup_singleton _, fun a ha b hb => ?_⟩
    obtain ⟨h, hh, rfl⟩ := List.mem_map.mp ha
    have hlt := hn.lt h hh
    have hb : b = n := by simpa using hb
    omega
  lt h hmem := by
    rcases List.mem_append.mp hmem with hmem | hmem
    · exact Nat.lt_succ_of_lt (hn.lt h hmem)
    · obtain rfl := List.mem_singleton.mp hmem
      exact Nat.lt_succ_self n

theorem Numbered.modify (hn : Numbered n hs) (hf : ∀ h, (f h).id = h.id) :
    Numbered n (modify id f hs) := by
  have hid : ∀ h : Handle K P, (if h.id = id then f h else h).id = h.id := by
    intro h
    split
    · exact hf h
    · rfl
  refine ⟨?_, fun h hmem => ?_⟩
  · have hmap : (Handles.modify id f hs).map Handle.id = hs.map Handle.id := by
      rw [Handles.modify, List.map_map]
      exact List.map_congr_left fun h _ => hid h
    rw [hmap]
    exact hn.nodup
  · obtain ⟨k, hk, rfl⟩ := List.mem_map.mp hmem
    rw [hid]
    exact hn.lt k hk

theorem Numbered.remove (hn : Numbered n hs) : Numbered n (remove id hs) where
  nodup := hn.nodup.sublist (List.filter_sublist.map _)
  lt h hmem := hn.lt h (List.mem_of_mem_filter hmem)

end

/-! ## Handles made later -/

section
variable {n id : ℕ} {hs : List (Handle K P)} (hn : Numbered n hs) (hid : n ≤ id)
  (later : List (Handle K P))
include hn hid

theorem Numbered.ne {h : Handle K P} (hmem : h ∈ hs) : h.id ≠ id := by
  have hlt := hn.lt h hmem
  omega

theorem lookup_append : lookup (hs ++ later) id = lookup later id := by
  have hnone : hs.find? (fun h => h.id == id) = none :=
    List.find?_eq_none.mpr fun k hk => by simpa using hn.ne hid hk
  rw [lookup, List.find?_append, hnone, Option.none_or, lookup]

theorem modify_append (f : Handle K P → Handle K P) :
    modify id f (hs ++ later) = hs ++ modify id f later := by
  have hsame : modify id f hs = hs :=
    (List.map_congr_left fun k hk => if_neg (hn.ne hid hk)).trans (List.map_id' hs)
  rw [modify, List.map_append, ← modify, hsame, modify]

theorem remove_append : remove id (hs ++ later) = hs ++ remove id later := by
  have hsame : remove id hs = hs :=
    List.filter_eq_self.mpr fun k hk => by simpa using hn.ne hid hk
  rw [remove, List.filter_append, ← remove, hsame, remove]

end

/-! ## Counting holders -/

section
variable [DecidableEq P] (p : P)

/-- Whether the pointer is to `p`, as a number. -/
def points (t : Option P) : ℕ := if t = some p then 1 else 0

def holders (hs : List (Handle K P)) : ℕ := hs.countP fun h => h.target = some p

variable {n id : ℕ} {hs : List (Handle K P)} {h : Handle K P} {f : Handle K P → Handle K P}

theorem holders_cons (h : Handle K P) (hs : List (Handle K P)) :
    holders p (h :: hs) = holders p hs + points p h.target := by
  simp [holders, points, List.countP_cons]

theorem holders_perm {hs' : List (Handle K P)} (hperm : hs.Perm hs') :
    holders p hs = holders p hs' := hperm.countP_eq _

@[simp] theorem holders_add (hs : List (Handle K P)) (h : Handle K P) :
    holders p (hs ++ [h]) = holders p hs + points p h.target := by
  rw [holders_perm p List.perm_append_comm, List.singleton_append, holders_cons]

theorem holders_modify (hn : Numbered n hs) (hl : lookup hs id = some h) :
    holders p (modify id f hs) + points p h.target = holders p hs + points p (f h).target := by
  obtain ⟨rest, hperm, hrest⟩ := hn.perm hl
  rw [holders_perm p (modify_perm hl hperm hrest), holders_perm p hperm, holders_cons,
    holders_cons]
  omega

theorem holders_remove (hn : Numbered n hs) (hl : lookup hs id = some h) :
    holders p (remove id hs) + points p h.target = holders p hs := by
  obtain ⟨rest, hperm, hrest⟩ := hn.perm hl
  rw [holders_perm p (remove_perm hl hperm hrest), holders_perm p hperm, holders_cons]

theorem holders_pos_iff : 0 < holders p hs ↔ ∃ h ∈ hs, h.target = some p := by
  simp [holders, List.countP_pos_iff]

end
end Handles
end CxxUtil.Foundations
