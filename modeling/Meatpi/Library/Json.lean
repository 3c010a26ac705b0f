import Mathlib.Data.List.Basic
import Mathlib.Data.Rat.Defs

/-!
# JSON values

A JSON document as a tree, read the way a C program reads it: a member is the
first one of its name (`Json.getItem`), and asking anything else than an object
for a member, or anything else than a container for its children, finds none. A
string is its characters up to the terminating NUL.
-/

namespace Meatpi

open List

variable {key' : List Char} {key : List Char}

inductive Json where
  | null
  | bool (b : Bool)
  | num (q : ℚ)
  | str (s : List Char)
  | arr (items : List Json)
  | obj (members : List (List Char × Json))

namespace Json

/-- What a loop over a value runs through: the elements, or the members' values. -/
def children : Json → List Json
  | arr items => items
  | obj members => members.map Prod.snd
  | _ => []

/-- The first member of that name. -/
def getItem (key : List Char) : Json → Option Json
  | obj members => members.lookup key
  | _ => none

/-- The children of a member that may be absent. -/
def childrenOf (key : List Char) (j : Json) : List Json := ((j.getItem key).map children).getD []

/-- The first entry of that name gets another value. -/
def setFirst (key : List Char) (v : Json) : List (List Char × Json) → List (List Char × Json)
  | [] => []
  | (k, w) :: members => if k = key then (k, v) :: members else (k, w) :: setFirst key v members

/-- The first member of that name gets another value. -/
def setItem (j : Json) (key : List Char) (v : Json) : Json :=
  match j with
  | obj members => obj (setFirst key v members)
  | j => j

/-- The same container with other children. -/
def withChildren (cs : List Json) : Json → Json
  | arr _ => arr cs
  | obj members => obj ((members.map Prod.fst).zip cs)
  | j => j

/-- The text of a string value. -/
def asStr : Json → Option (List Char)
  | str s => some s
  | _ => none

/-- The truth of a boolean value. -/
def asBool : Json → Option Bool
  | bool b => some b
  | _ => none

theorem lookup_setFirst (key : List Char) (v : Json) :
    ∀ {members : List (List Char × Json)} {w : Json}, members.lookup key = some w →
      (setFirst key v members).lookup key = some v := by
  intro members
  induction members with
  | nil => intro w h; cases h
  | cons m members ih =>
    obtain ⟨k, u⟩ := m
    intro w h
    by_cases hk : k = key
    · rw [setFirst, if_pos hk, hk, lookup_cons_self]
    · have hne : (key == k) = false := by simpa using fun h => hk h.symm
      rw [lookup_cons, hne] at h
      rw [setFirst, if_neg hk, lookup_cons, hne]
      exact ih h

theorem lookup_setFirst_ne (hne : key' ≠ key) (v : Json) :
    ∀ members : List (List Char × Json),
      (setFirst key v members).lookup key' = members.lookup key' := by
  intro members
  induction members with
  | nil => rfl
  | cons m members ih =>
    obtain ⟨k, u⟩ := m
    by_cases hk : k = key
    · have hne' : (key' == k) = false := by simpa [hk] using hne
      rw [setFirst, if_pos hk, lookup_cons, lookup_cons, hne']
    · rw [setFirst, if_neg hk, lookup_cons, lookup_cons, ih]

theorem getItem_setItem {j w : Json} (v : Json) (h : j.getItem key = some w) :
    (j.setItem key v).getItem key = some v := by
  cases j with
  | obj members => exact lookup_setFirst key v h
  | _ => cases h

theorem getItem_setItem_ne (hne : key' ≠ key) (v j : Json) :
    (j.setItem key v).getItem key' = j.getItem key' := by
  cases j with
  | obj members => exact lookup_setFirst_ne hne v members
  | _ => rfl

theorem children_withChildren {j : Json} {cs : List Json} (h : cs.length = j.children.length) :
    (j.withChildren cs).children = cs := by
  cases j with
  | arr items => rfl
  | obj members =>
    have hlen : (members.map Prod.fst).length = cs.length := by
      rw [h, children, length_map, length_map]
    exact map_snd_zip (by omega)
  | _ => exact (eq_nil_of_length_eq_zero h).symm

end Json

theorem lookup_of_nodup {members : List (List Char × Json)}
    (hnodup : (members.map Prod.fst).Nodup) : ∀ m ∈ members, members.lookup m.1 = some m.2 := by
  induction members with
  | nil => exact fun m hm => absurd hm not_mem_nil
  | cons m members ih =>
    obtain ⟨key, item⟩ := m
    rw [map_cons, nodup_cons] at hnodup
    intro m' hm'
    rcases mem_cons.mp hm' with rfl | hold
    · exact lookup_cons_self
    · have hne : (m'.1 == key) = false := by
        rw [beq_eq_false_iff_ne]
        rintro rfl
        exact hnodup.1 (mem_map.mpr ⟨m', hold, rfl⟩)
      rw [lookup_cons, hne]
      exact ih hnodup.2 m' hold

end Meatpi
