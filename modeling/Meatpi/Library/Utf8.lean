import Mathlib.Data.UInt
import Mathlib.Tactic.IntervalCases

/-!
# UTF-8 texts with ASCII around them

Bytes are UTF-8 if they encode characters. An ASCII byte is a character of its
own wherever it stands, so what is before or behind it is UTF-8 or not on its own
(`isUtf8_cons`, `isUtf8_append_ascii`).
-/

namespace Meatpi

open List String

variable {a : List UInt8} {b : UInt8}

/-- The bytes of some characters. -/
def IsUtf8 (bytes : List UInt8) : Prop := ∃ cs : List Char, cs.flatMap String.utf8EncodeChar = bytes

/-- The number of bytes of a string. -/
def strlen (s : List Char) : ℕ := (s.map Char.utf8Size).sum

def IsAscii (bytes : List UInt8) : Prop := ∀ b ∈ bytes, b.toNat < 0x80

theorem utf8EncodeChar_cases (c : Char) :
    (∃ b : UInt8, b.toNat < 0x80 ∧ c.val.toNat = b.toNat ∧ String.utf8EncodeChar c = [b]) ∨
      ∀ b ∈ String.utf8EncodeChar c, 0x80 ≤ b.toNat := by
  rw [String.utf8EncodeChar]
  split_ifs with h₁ h₂ h₃
  · left
    refine ⟨UInt8.ofNat c.val.toNat, ?_, ?_, rfl⟩ <;> rw [UInt8.toNat_ofNat'] <;> omega
  all_goals
    right
    intro b hb
    simp only [mem_cons, not_mem_nil, or_false] at hb
    rcases hb with rfl | rfl | rfl | rfl <;> rw [UInt8.toNat_ofNat'] <;> omega

theorem length_utf8EncodeChar_le (c : Char) : (String.utf8EncodeChar c).length ≤ 4 := by
  rw [length_utf8EncodeChar]
  exact c.utf8Size_le_four

theorem isUtf8_append {s t : List UInt8} (hs : IsUtf8 s) (ht : IsUtf8 t) : IsUtf8 (s ++ t) := by
  obtain ⟨cs, rfl⟩ := hs
  obtain ⟨ds, rfl⟩ := ht
  exact ⟨cs ++ ds, flatMap_append⟩

theorem isUtf8_ascii (hb : b.toNat < 0x80) : IsUtf8 [b] := by
  refine ⟨[Char.ofNat b.toNat], ?_⟩
  have hval : (Char.ofNat b.toNat).val.toNat = b.toNat := by
    have hvalid : b.toNat.isValidChar := Or.inl (by omega)
    rw [Char.ofNat, dif_pos hvalid]
    rfl
  rw [flatMap_singleton, String.utf8EncodeChar, hval, if_pos (by omega), UInt8.ofNat_toNat]

theorem isUtf8_cons (hb : b.toNat < 0x80) (s : List UInt8) : IsUtf8 (b :: s) ↔ IsUtf8 s := by
  constructor
  · rintro ⟨cs, hcs⟩
    cases cs with
    | nil => cases hcs
    | cons c cs =>
      rw [flatMap_cons] at hcs
      rcases utf8EncodeChar_cases c with ⟨d, -, -, hd⟩ | hhigh
      · rw [hd] at hcs
        exact ⟨cs, (cons.inj hcs).2⟩
      · cases henc : String.utf8EncodeChar c with
        | nil => exact absurd henc utf8EncodeChar_ne_nil
        | cons d ds =>
          rw [henc] at hcs hhigh
          obtain ⟨rfl, -⟩ := cons.inj hcs
          have hlow := hhigh d mem_cons_self
          omega
  · exact isUtf8_append (isUtf8_ascii hb)

theorem isUtf8_ascii_append (ha : IsAscii a) (s : List UInt8) : IsUtf8 (a ++ s) ↔ IsUtf8 s := by
  induction a with
  | nil => exact Iff.rfl
  | cons b a ih =>
    rw [cons_append, isUtf8_cons (ha b mem_cons_self), ih fun d hd => ha d (mem_cons_of_mem b hd)]

theorem isUtf8_concat (hb : b.toNat < 0x80) (s : List UInt8) : IsUtf8 (s ++ [b]) ↔ IsUtf8 s := by
  constructor
  · rintro ⟨cs, hcs⟩
    cases cs using List.reverseRecOn with
    | nil => exact absurd hcs.symm (append_ne_nil_of_right_ne_nil s (cons_ne_nil b []))
    | append_singleton cs c =>
      rw [flatMap_append, flatMap_singleton] at hcs
      rcases utf8EncodeChar_cases c with ⟨d, -, -, hd⟩ | hhigh
      · rw [hd] at hcs
        exact ⟨cs, (append_inj' hcs rfl).1⟩
      · have hlast : b ∈ String.utf8EncodeChar c := by
          have hne : String.utf8EncodeChar c ≠ [] := utf8EncodeChar_ne_nil
          have hend := congrArg List.getLast? hcs
          rw [List.getLast?_append_of_ne_nil _ hne, List.getLast?_concat] at hend
          exact List.mem_of_getLast? hend
        have hlow := hhigh b hlast
        omega
  · exact fun hs => isUtf8_append hs (isUtf8_ascii hb)

theorem isUtf8_append_ascii (ha : IsAscii a) (s : List UInt8) : IsUtf8 (s ++ a) ↔ IsUtf8 s := by
  induction a using List.reverseRecOn with
  | nil => rw [append_nil]
  | append_singleton a b ih =>
    rw [← List.append_assoc, isUtf8_concat (ha b List.mem_concat_self),
      ih fun d hd => ha d (List.mem_append_left [b] hd)]

end Meatpi
