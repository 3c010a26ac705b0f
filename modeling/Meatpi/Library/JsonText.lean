import Mathlib.Data.Rat.Encodable
import Mathlib.Logic.Equiv.List
import Meatpi.Library.Json

/-!
# Printing and parsing JSON

A program prints documents and parses texts with a library. What it relies on is
that a document that was printed parses to itself (`JsonCodec`). There is such a
pair for any choice of texts for some documents (`JsonCodec.pinned`): every other
document gets a text that no sensible one starts like.
-/

namespace Meatpi

open List Nat

/-- A library that prints and parses: its unformatted print, and its parse of a
text. -/
structure JsonCodec where
  print : Json → List UInt8
  parse : List UInt8 → Option Json
  /-- what was printed parses -/
  parse_print : ∀ j, parse (print j) = some j

namespace Json

/-! ## A number for every document -/

mutual

/-- A number that tells a document from all others. -/
def code : Json → ℕ
  | null => Nat.pair 0 0
  | bool b => Nat.pair 1 b.toNat
  | num q => Nat.pair 2 (Encodable.encode q)
  | str s => Nat.pair 3 (Encodable.encode (s.map Char.toNat))
  | arr items => Nat.pair 4 (codeItems items)
  | obj members => Nat.pair 5 (codeMembers members)

/-- The number of some elements. -/
def codeItems : List Json → ℕ
  | [] => 0
  | j :: items => Nat.pair (code j) (codeItems items) + 1

/-- The number of some members. -/
def codeMembers : List (List Char × Json) → ℕ
  | [] => 0
  | (k, j) :: members =>
    Nat.pair (Encodable.encode (k.map Char.toNat)) (Nat.pair (code j) (codeMembers members)) + 1

end

theorem text_code_inj {s t : List Char}
    (h : Encodable.encode (s.map Char.toNat) = Encodable.encode (t.map Char.toNat)) : s = t := by
  apply map_injective_iff.mpr _ (Encodable.encode_injective h)
  intro a b hab
  exact Char.ext (UInt32.toNat_inj.mp hab)

mutual

theorem code_inj : ∀ {a b : Json}, code a = code b → a = b
  | null, null, _ => rfl
  | bool a, bool b, h => by
    simp only [code, pair_eq_pair, true_and] at h
    cases a <;> cases b <;> first | rfl | cases h
  | num a, num b, h => by
    simp only [code, pair_eq_pair, true_and] at h
    rw [Encodable.encode_injective h]
  | str a, str b, h => by
    simp only [code, pair_eq_pair, true_and] at h
    rw [text_code_inj h]
  | arr a, arr b, h => by
    simp only [code, pair_eq_pair, true_and] at h
    rw [codeItems_inj h]
  | obj a, obj b, h => by
    simp only [code, pair_eq_pair, true_and] at h
    rw [codeMembers_inj h]
  | null, bool _, h | null, num _, h | null, str _, h | null, arr _, h | null, obj _, h
  | bool _, null, h | bool _, num _, h | bool _, str _, h | bool _, arr _, h | bool _, obj _, h
  | num _, null, h | num _, bool _, h | num _, str _, h | num _, arr _, h | num _, obj _, h
  | str _, null, h | str _, bool _, h | str _, num _, h | str _, arr _, h | str _, obj _, h
  | arr _, null, h | arr _, bool _, h | arr _, num _, h | arr _, str _, h | arr _, obj _, h
  | obj _, null, h | obj _, bool _, h | obj _, num _, h | obj _, str _, h | obj _, arr _, h => by
    simp only [code, pair_eq_pair] at h
    omega

theorem codeItems_inj : ∀ {a b : List Json}, codeItems a = codeItems b → a = b
  | [], [], _ => rfl
  | [], _ :: _, h => by
    rw [codeItems, codeItems] at h
    omega
  | _ :: _, [], h => by
    rw [codeItems, codeItems] at h
    omega
  | a :: as, b :: bs, h => by
    rw [codeItems, codeItems, Nat.add_right_cancel_iff, pair_eq_pair] at h
    rw [code_inj h.1, codeItems_inj h.2]

theorem codeMembers_inj : ∀ {a b : List (List Char × Json)}, codeMembers a = codeMembers b → a = b
  | [], [], _ => rfl
  | [], (_, _) :: _, h => by
    rw [codeMembers, codeMembers] at h
    omega
  | (_, _) :: _, [], h => by
    rw [codeMembers, codeMembers] at h
    omega
  | (k, a) :: as, (l, b) :: bs, h => by
    rw [codeMembers, codeMembers, Nat.add_right_cancel_iff, pair_eq_pair, pair_eq_pair] at h
    rw [text_code_inj h.1, code_inj h.2.1, codeMembers_inj h.2.2]

end

end Json

/-! ## A library with chosen texts -/

namespace JsonCodec

variable {pins : List (Json × List UInt8)}

open Classical in
/-- The chosen text of a document, or else a zero byte and as many ones as its
number says. -/
noncomputable def pinnedText (pins : List (Json × List UInt8)) (j : Json) : List UInt8 :=
  match pins.find? fun pin => decide (pin.1 = j) with
  | some pin => pin.2
  | none => 0 :: List.replicate j.code 1

/-- Chosen texts that tell documents apart. -/
structure Pins (pins : List (Json × List UInt8)) : Prop where
  apart : ∀ p ∈ pins, ∀ q ∈ pins, p.2 = q.2 → p.1 = q.1
  text : ∀ p ∈ pins, p.2.head? ≠ some 0

theorem pinnedText_cases (pins : List (Json × List UInt8)) (j : Json) :
    (∃ pin ∈ pins, pin.1 = j ∧ pinnedText pins j = pin.2) ∨
      pinnedText pins j = 0 :: List.replicate j.code 1 := by
  rw [pinnedText]
  split
  · rename_i pin hfind
    left
    refine ⟨pin, List.mem_of_find?_eq_some hfind, ?_, rfl⟩
    have hsame := List.find?_some hfind
    simpa only [decide_eq_true_eq] using hsame
  · exact Or.inr rfl

theorem pinnedText_injective (h : Pins pins) : Function.Injective (pinnedText pins) := by
  intro a b hab
  rcases pinnedText_cases pins a with ⟨p, hp, rfl, hpa⟩ | ha <;>
    rcases pinnedText_cases pins b with ⟨q, hq, rfl, hqb⟩ | hb
  · rw [hpa, hqb] at hab
    exact h.apart p hp q hq hab
  · rw [hpa, hb] at hab
    exact absurd (congrArg List.head? hab) (h.text p hp)
  · rw [ha, hqb] at hab
    exact absurd (congrArg List.head? hab.symm) (h.text q hq)
  · rw [ha, hb, cons.injEq] at hab
    apply Json.code_inj
    rw [← @length_replicate UInt8 a.code 1, hab.2, length_replicate]

/-- The library with chosen texts for some documents. -/
noncomputable def pinned (pins : List (Json × List UInt8)) (h : Pins pins) : JsonCodec where
  print := pinnedText pins
  parse := Function.partialInv (pinnedText pins)
  parse_print := fun j => Function.partialInv_left (pinnedText_injective h) j

end JsonCodec

theorem noPins : JsonCodec.Pins [] := ⟨fun _ h => (by cases h), fun _ h => (by cases h)⟩

end Meatpi
