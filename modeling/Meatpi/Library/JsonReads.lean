import Meatpi.Library.Json
import Meatpi.Library.JsonGrammar
import Meatpi.Library.Numeral
import Meatpi.Library.Utf8

/-!
# What a JSON text says

The value a reader takes off the front of some bytes and what it leaves behind
(`Reads`). A string is read to its closing quote with its escapes resolved
(`CharsAt`). What follows does not change what is read (`Reads.append`), a run of
bytes that need no escape stands for itself only (`CharsAt.plain_inv`), and a
string that reads as the very bytes in front of it was such a run
(`CharsAt.same`).
-/

namespace Meatpi.JsonGrammar

open List

variable {ms : List (List Char × Json)} {raw : List UInt8} {q : ℚ}

variable {v : Json} {m rest s t : List UInt8} {b c d : UInt8} {n : ℕ}

/-! ## Numbers -/

def digitsValue (ds : List UInt8) : ℕ := ofDigitsBE 10 (ds.map fun b => b.toNat - 0x30)

/-- The factor an exponent stands for. -/
def expFactor : List UInt8 → ℚ
  | _ :: 0x2D :: ds => 1 / 10 ^ digitsValue ds
  | _ :: 0x2B :: ds => 10 ^ digitsValue ds
  | _ :: ds => 10 ^ digitsValue ds
  | [] => 1

def numberValue (sign int frac exp : List UInt8) : ℚ :=
  (if sign = [] then 1 else -1) *
    (digitsValue int + digitsValue frac.tail / 10 ^ frac.tail.length) * expFactor exp

/-- A number at the front of some bytes. -/
def NumberAt (s : List UInt8) (q : ℚ) (rest : List UInt8) : Prop :=
  ∃ sign int frac exp, (sign = [] ∨ sign = [0x2D]) ∧ IsInt int ∧ IsFrac frac ∧ IsExp exp ∧
    s = sign ++ int ++ frac ++ exp ++ rest ∧ q = numberValue sign int frac exp

/-! ## Strings -/

/-- The byte behind a backslash and the one it stands for. -/
def escaped : UInt8 → Option UInt8
  | 0x22 => some 0x22
  | 0x5C => some 0x5C
  | 0x2F => some 0x2F
  | 0x62 => some 0x08
  | 0x66 => some 0x0C
  | 0x6E => some 0x0A
  | 0x72 => some 0x0D
  | 0x74 => some 0x09
  | _ => none

/-- Bytes as the characters of a text. -/
def chars (s : List UInt8) : List Char := s.map fun b => Char.ofNat b.toNat

/-- A byte that needs no escape. -/
def IsBare (b : UInt8) : Prop := 0x20 ≤ b ∧ b ≠ 0x22 ∧ b ≠ 0x5C

instance (b : UInt8) : Decidable (IsBare b) := inferInstanceAs (Decidable (_ ∧ _))

/-- Four hexadecimal digits and their value. -/
def UnitAt (h : List UInt8) (n : ℕ) : Prop :=
  h.length = 4 ∧ (∀ b ∈ h, isHex b = true) ∧ n = hexNum (chars h)

/-- The bytes behind an opening quote, what they stand for, and what is behind the
closing quote. -/
inductive CharsAt : List UInt8 → List UInt8 → List UInt8 → Prop
  | close {rest : List UInt8} : CharsAt (0x22 :: rest) [] rest
  | plain {b : UInt8} {s t rest : List UInt8} : IsBare b → CharsAt s t rest →
      CharsAt (b :: s) (b :: t) rest
  | escape {e b : UInt8} {s t rest : List UInt8} : escaped e = some b → CharsAt s t rest →
      CharsAt (0x5C :: e :: s) (b :: t) rest
  | unicode {h s t rest : List UInt8} {n : ℕ} : UnitAt h n → n < 0xD800 ∨ 0xE000 ≤ n →
      CharsAt s t rest →
      CharsAt (0x5C :: 0x75 :: (h ++ s)) (String.utf8EncodeChar (Char.ofNat n) ++ t) rest
  | pair {h l s t rest : List UInt8} {n m : ℕ} : UnitAt h n → 0xD800 ≤ n → n < 0xDC00 →
      UnitAt l m → 0xDC00 ≤ m → m < 0xE000 → CharsAt s t rest →
      CharsAt (0x5C :: 0x75 :: (h ++ 0x5C :: 0x75 :: (l ++ s)))
        (String.utf8EncodeChar (Char.ofNat (0x10000 + (n - 0xD800) * 0x400 + (m - 0xDC00))) ++ t)
        rest

theorem not_isBare_quote : ¬ IsBare 0x22 := by decide

theorem not_isBare_backslash : ¬ IsBare 0x5C := by decide

namespace CharsAt

theorem append (h : CharsAt s t rest) (more : List UInt8) :
    CharsAt (s ++ more) t (rest ++ more) := by
  induction h with
  | close => exact .close
  | plain hb _ ih => exact .plain hb ih
  | escape he _ ih => exact .escape he ih
  | unicode hh hn _ ih =>
    rw [cons_append, cons_append, append_assoc]
    exact .unicode hh hn ih
  | pair hh h₁ h₂ hl h₃ h₄ _ ih =>
    rw [cons_append, cons_append, append_assoc, cons_append, cons_append,
      append_assoc]
    exact .pair hh h₁ h₂ hl h₃ h₄ ih

theorem bare (hraw : ∀ b ∈ raw, IsBare b) (rest : List UInt8) :
    CharsAt (raw ++ 0x22 :: rest) raw rest := by
  induction raw with
  | nil => exact .close
  | cons b raw ih =>
    exact .plain (hraw b mem_cons_self) (ih fun d hd => hraw d (mem_cons_of_mem b hd))

theorem plain_inv {s t rest : List UInt8} (hraw : (∀ b ∈ raw, IsBare b))
    (h : CharsAt (raw ++ 0x22 :: s) t rest) : t = raw ∧ rest = s := by
  induction raw generalizing s t rest with
  | nil =>
    cases h with
    | close => exact ⟨rfl, rfl⟩
    | plain hb _ => exact absurd hb not_isBare_quote
  | cons b raw ih =>
    have hbare := hraw b mem_cons_self
    rw [cons_append] at h
    generalize hmore : raw ++ 0x22 :: s = more at h
    cases h with
    | close => exact absurd hbare not_isBare_quote
    | plain _ h =>
      rw [← hmore] at h
      obtain ⟨rfl, rfl⟩ := ih (fun d hd => hraw d (mem_cons_of_mem b hd)) h
      exact ⟨rfl, rfl⟩
    | escape => exact absurd hbare not_isBare_backslash
    | unicode => exact absurd hbare not_isBare_backslash
    | pair => exact absurd hbare not_isBare_backslash

/-- The bytes of a string are at least as many as it stands for, and more unless
they need no escape. -/
theorem raw_length (h : CharsAt s t rest) :
    ∃ raw, s = raw ++ 0x22 :: rest ∧ (raw = t ∧ (∀ b ∈ t, IsBare b) ∨ t.length < raw.length) := by
  induction h with
  | close => exact ⟨[], rfl, Or.inl ⟨rfl, fun b hb => absurd hb not_mem_nil⟩⟩
  | @plain b s t rest hb _ ih =>
    obtain ⟨raw, rfl, hraw⟩ := ih
    refine ⟨b :: raw, rfl, ?_⟩
    rcases hraw with ⟨rfl, hbare⟩ | hshorter
    · exact Or.inl ⟨rfl, forall_mem_cons.mpr ⟨hb, hbare⟩⟩
    · exact Or.inr (by rw [length_cons, length_cons]; omega)
  | @escape e b s t rest _ _ ih =>
    obtain ⟨raw, rfl, hraw⟩ := ih
    refine ⟨0x5C :: e :: raw, rfl, Or.inr ?_⟩
    rw [length_cons, length_cons, length_cons]
    rcases hraw with ⟨rfl, -⟩ | hshorter <;> omega
  | @unicode h s t rest n hh _ _ ih =>
    obtain ⟨raw, rfl, hraw⟩ := ih
    refine ⟨0x5C :: 0x75 :: (h ++ raw), by simp, Or.inr ?_⟩
    have hlen := length_utf8EncodeChar_le (Char.ofNat n)
    have hfour := hh.1
    rw [length_append, length_cons, length_cons, length_append]
    rcases hraw with ⟨rfl, -⟩ | hshorter <;> omega
  | @pair h l s t rest n m hh _ _ hl _ _ _ ih =>
    obtain ⟨raw, rfl, hraw⟩ := ih
    refine ⟨0x5C :: 0x75 :: (h ++ 0x5C :: 0x75 :: (l ++ raw)), by simp, Or.inr ?_⟩
    have hlen := length_utf8EncodeChar_le
      (Char.ofNat (0x10000 + (n - 0xD800) * 0x400 + (m - 0xDC00)))
    have hfour := hh.1
    rw [length_append, length_cons, length_cons, length_append,
      length_cons, length_cons, length_append]
    rcases hraw with ⟨rfl, -⟩ | hshorter <;> omega

end CharsAt

/-! ## Values -/

/-- What is read: a value, or what stands in the brackets of an array or an
object. -/
inductive Piece where
  | value (v : Json)
  | elements (vs : List Json)
  | members (ms : List (List Char × Json))

/-- A piece at the front of some bytes, and what is behind it; the elements and
the members are read up to their closing bracket and with it. -/
inductive Reads : List UInt8 → Piece → List UInt8 → Prop
  /-- `null` -/
  | nullWord {rest : List UInt8} : Reads (0x6E :: 0x75 :: 0x6C :: 0x6C :: rest) (.value .null) rest
  /-- `true` -/
  | trueWord {rest : List UInt8} :
      Reads (0x74 :: 0x72 :: 0x75 :: 0x65 :: rest) (.value (.bool true)) rest
  /-- `false` -/
  | falseWord {rest : List UInt8} :
      Reads (0x66 :: 0x61 :: 0x6C :: 0x73 :: 0x65 :: rest) (.value (.bool false)) rest
  | number {s rest : List UInt8} {q : ℚ} : NumberAt s q rest → Reads s (.value (.num q)) rest
  | string {s t rest : List UInt8} : CharsAt s t rest →
      Reads (0x22 :: s) (.value (.str (chars t))) rest
  | noElements {w rest : List UInt8} : IsWs w →
      Reads (0x5B :: (w ++ 0x5D :: rest)) (.value (.arr [])) rest
  | array {s rest : List UInt8} {vs : List Json} : Reads s (.elements vs) rest →
      Reads (0x5B :: s) (.value (.arr vs)) rest
  | noMembers {w rest : List UInt8} : IsWs w →
      Reads (0x7B :: (w ++ 0x7D :: rest)) (.value (.obj [])) rest
  | object {s rest : List UInt8} {ms : List (List Char × Json)} : Reads s (.members ms) rest →
      Reads (0x7B :: s) (.value (.obj ms)) rest
  | lastElement {w w' s rest : List UInt8} {v : Json} : IsWs w → IsWs w' →
      Reads s (.value v) (w' ++ 0x5D :: rest) → Reads (w ++ s) (.elements [v]) rest
  | element {w w' s s' rest : List UInt8} {v : Json} {vs : List Json} : IsWs w → IsWs w' →
      Reads s (.value v) (w' ++ 0x2C :: s') → Reads s' (.elements vs) rest →
      Reads (w ++ s) (.elements (v :: vs)) rest
  | lastMember {w w' u u' s k t rest : List UInt8} {v : Json} : IsWs w → IsWs w' → IsWs u →
      IsWs u' → CharsAt s k (w' ++ 0x3A :: (u ++ t)) →
      Reads t (.value v) (u' ++ 0x7D :: rest) →
      Reads (w ++ 0x22 :: s) (.members [(chars k, v)]) rest
  | member {w w' u u' s k t s' rest : List UInt8} {v : Json} {ms : List (List Char × Json)} :
      IsWs w → IsWs w' → IsWs u → IsWs u' → CharsAt s k (w' ++ 0x3A :: (u ++ t)) →
      Reads t (.value v) (u' ++ 0x2C :: s') → Reads s' (.members ms) rest →
      Reads (w ++ 0x22 :: s) (.members ((chars k, v) :: ms)) rest

/-- A whole text and its value. -/
def Says (s : List UInt8) (v : Json) : Prop :=
  ∃ w t w', IsWs w ∧ IsWs w' ∧ s = w ++ t ∧ Reads t (.value v) w'

theorem NumberAt.append (h : NumberAt s q rest) (more : List UInt8) :
    NumberAt (s ++ more) q (rest ++ more) := by
  obtain ⟨sign, int, frac, exp, hsign, hint, hfrac, hexp, rfl, hq⟩ := h
  exact ⟨sign, int, frac, exp, hsign, hint, hfrac, hexp, by simp, hq⟩

namespace Reads

theorem append {p : Piece} (h : Reads s p rest) (more : List UInt8) :
    Reads (s ++ more) p (rest ++ more) := by
  induction h with
  | nullWord => exact .nullWord
  | trueWord => exact .trueWord
  | falseWord => exact .falseWord
  | number hq => exact .number (hq.append more)
  | string ht => exact .string (ht.append more)
  | noElements hw =>
    rw [cons_append, append_assoc]
    exact .noElements hw
  | array _ ih => exact .array ih
  | noMembers hw =>
    rw [cons_append, append_assoc]
    exact .noMembers hw
  | object _ ih => exact .object ih
  | lastElement hw hw' _ ih =>
    rw [append_assoc] at ih
    rw [append_assoc]
    exact .lastElement hw hw' ih
  | element hw hw' _ _ ih ihs =>
    rw [append_assoc] at ih
    rw [append_assoc]
    exact .element hw hw' ih ihs
  | lastMember hw hw' hu hu' hk _ ih =>
    have hkey := hk.append more
    rw [append_assoc, cons_append, append_assoc] at hkey
    rw [append_assoc] at ih
    rw [append_assoc]
    exact .lastMember hw hw' hu hu' hkey ih
  | member hw hw' hu hu' hk _ _ ih ihs =>
    have hkey := hk.append more
    rw [append_assoc, cons_append, append_assoc] at hkey
    rw [append_assoc] at ih
    rw [append_assoc]
    exact .member hw hw' hu hu' hkey ih ihs

end Reads

/-! ## Reading a known text -/

theorem span_of_number (h : NumberAt s q rest) :
    ∃ b n, s = b :: n ++ rest ∧ (isDigit b = true ∨ b = 0x2D) ∧ ∀ d ∈ b :: n, IsNumberByte d := by
  obtain ⟨sign, int, frac, exp, hsign, hint, hfrac, hexp, rfl, -⟩ := h
  have hnumber : IsNumber (sign ++ int ++ frac ++ exp) :=
    ⟨sign, int, frac, exp, hsign, hint, hfrac, hexp, rfl⟩
  obtain ⟨b, n, heq, hb⟩ := isNumber_head hnumber
  exact ⟨b, n, by rw [heq], hb, heq ▸ numberByte_of_isNumber hnumber⟩

theorem run_unique {P : UInt8 → Prop} {n : List UInt8} (hm : ∀ b ∈ m, P b) (hn : ∀ b ∈ n, P b)
    (hc : ¬ P c) (hd : ¬ P d) (heq : m ++ c :: s = n ++ d :: t) : m = n ∧ c = d ∧ s = t := by
  induction m generalizing n with
  | nil =>
    cases n with
    | nil => exact ⟨rfl, cons.inj heq⟩
    | cons b n =>
      obtain ⟨rfl, -⟩ := cons.inj heq
      exact absurd (hn c mem_cons_self) hc
  | cons a m ih =>
    cases n with
    | nil =>
      obtain ⟨rfl, -⟩ := cons.inj heq
      exact absurd (hm a mem_cons_self) hd
    | cons b n =>
      obtain ⟨rfl, htail⟩ := cons.inj heq
      obtain ⟨rfl, hrest⟩ := ih (fun b hb => hm b (mem_cons_of_mem a hb))
        (fun b hb => hn b (mem_cons_of_mem a hb)) htail
      exact ⟨rfl, hrest⟩

/-- A byte that is no white space. -/
def IsSolid (b : UInt8) : Prop := ¬ (b = 0x20 ∨ b = 0x09 ∨ b = 0x0A ∨ b = 0x0D)

instance (b : UInt8) : Decidable (IsSolid b) := inferInstanceAs (Decidable (¬ _))

theorem ws_unique {w : List UInt8} (hw : IsWs w) (hc : IsSolid c) (hd : IsSolid d)
    (heq : w ++ c :: s = d :: t) : w = [] ∧ c = d ∧ s = t :=
  run_unique (P := fun b => b = 0x20 ∨ b = 0x09 ∨ b = 0x0A ∨ b = 0x0D) (n := []) hw
    (fun _ hb => absurd hb not_mem_nil) hc hd heq

theorem Reads.number_inv (hb : isDigit b = true ∨ b = 0x2D) (hm : ∀ d ∈ b :: m, IsNumberByte d)
    (hc : ¬ IsNumberByte c) (hd : ¬ IsNumberByte d) (hrest : rest = d :: t)
    (h : Reads (b :: m ++ c :: s) (.value v) rest) : d = c ∧ t = s := by
  have hnumber : ∃ q, NumberAt (b :: m ++ c :: s) q rest := by
    have hnot : b ≠ 0x6E ∧ b ≠ 0x74 ∧ b ≠ 0x66 ∧ b ≠ 0x22 ∧ b ≠ 0x5B ∧ b ≠ 0x7B := by
      rcases hb with hb | rfl
      · refine ⟨?_, ?_, ?_, ?_, ?_, ?_⟩ <;> rintro rfl <;> exact absurd hb (by decide)
      · decide
    generalize hmore : b :: m ++ c :: s = more at h
    cases h with
    | nullWord => exact absurd (cons.inj hmore).1 hnot.1
    | trueWord => exact absurd (cons.inj hmore).1 hnot.2.1
    | falseWord => exact absurd (cons.inj hmore).1 hnot.2.2.1
    | number hq => exact ⟨_, hq⟩
    | string => exact absurd (cons.inj hmore).1 hnot.2.2.2.1
    | noElements => exact absurd (cons.inj hmore).1 hnot.2.2.2.2.1
    | array => exact absurd (cons.inj hmore).1 hnot.2.2.2.2.1
    | noMembers => exact absurd (cons.inj hmore).1 hnot.2.2.2.2.2
    | object => exact absurd (cons.inj hmore).1 hnot.2.2.2.2.2
  obtain ⟨q, hq⟩ := hnumber
  obtain ⟨b', n, heq, -, hn⟩ := span_of_number hq
  rw [hrest] at heq
  obtain ⟨-, rfl, rfl⟩ := run_unique hm hn hc hd heq
  exact ⟨rfl, rfl⟩

theorem Reads.string_inv (h : Reads (0x22 :: s) (.value v) rest) :
    ∃ t, v = .str (chars t) ∧ CharsAt s t rest := by
  generalize hmore : (0x22 : UInt8) :: s = more at h
  cases h with
  | number hq =>
    obtain ⟨b, n, rfl, hb, -⟩ := span_of_number hq
    obtain ⟨rfl, -⟩ := cons.inj hmore
    rcases hb with hb | hb <;> exact absurd hb (by decide)
  | string ht =>
    obtain ⟨-, rfl⟩ := cons.inj hmore
    exact ⟨_, rfl, ht⟩
  | _ => exact absurd (cons.inj hmore).1 (by decide)

theorem Reads.object_inv (hb : IsSolid b) (hclose : b ≠ 0x7D)
    (h : Reads (0x7B :: b :: s) (.value (.obj ms)) rest) : Reads (b :: s) (.members ms) rest := by
  generalize hmore : (0x7B : UInt8) :: b :: s = more at h
  cases h with
  | noMembers hw =>
    exact absurd (ws_unique hw (by decide) hb (cons.inj hmore).2.symm).2.1.symm hclose
  | object h =>
    obtain ⟨-, rfl⟩ := cons.inj hmore
    exact h

theorem Reads.member_inv (key : List UInt8) (hkey : ∀ b ∈ key, IsBare b) (hc : IsSolid c)
    (h : Reads (0x22 :: (key ++ 0x22 :: 0x3A :: c :: s)) (.members ms) rest) :
    ∃ v u r, IsWs u ∧ Reads (c :: s) (.value v) (u ++ r) ∧
      (r = 0x7D :: rest ∧ ms = [(chars key, v)] ∨ ∃ s' ms', r = 0x2C :: s' ∧
        Reads s' (.members ms') rest ∧ ms = (chars key, v) :: ms') := by
  have hname : ∀ {w w' u s₁ k t : List UInt8}, IsWs w → IsWs w' → IsWs u →
      w ++ 0x22 :: s₁ = 0x22 :: (key ++ 0x22 :: 0x3A :: c :: s) →
      CharsAt s₁ k (w' ++ 0x3A :: (u ++ t)) → (t.head?.any fun b => decide (IsSolid b)) = true →
      k = key ∧ t = c :: s := by
    intro w w' u s₁ k t hw hw' hu heq hk ht
    obtain ⟨-, -, rfl⟩ := ws_unique hw (by decide) (by decide) heq
    obtain ⟨rfl, hcolon⟩ := hk.plain_inv hkey
    obtain ⟨-, -, htext⟩ := ws_unique hw' (by decide) (by decide) hcolon
    cases t with
    | nil => cases ht
    | cons d t =>
      have hd : IsSolid d := by simpa using ht
      obtain ⟨-, rfl, rfl⟩ := ws_unique hu hd hc htext
      exact ⟨rfl, rfl⟩
  have hsolid : ∀ {t r : List UInt8} {v : Json}, Reads t (.value v) r →
      (t.head?.any fun b => decide (IsSolid b)) = true := by
    intro t r v h
    cases h with
    | number hq =>
      obtain ⟨b, n, rfl, hb, -⟩ := span_of_number hq
      have hb' : IsSolid b := by
        rcases hb with hb | rfl
        · rintro (rfl | rfl | rfl | rfl) <;> exact absurd hb (by decide)
        · decide
      simpa using hb'
    | _ => rfl
  generalize hmore : 0x22 :: (key ++ 0x22 :: 0x3A :: c :: s) = more at h
  cases h with
  | lastMember hw hw' hu hu' hk hv =>
    obtain ⟨rfl, rfl⟩ := hname hw hw' hu hmore.symm hk (hsolid hv)
    exact ⟨_, _, _, hu', hv, Or.inl ⟨rfl, rfl⟩⟩
  | member hw hw' hu hu' hk hv hms =>
    obtain ⟨rfl, rfl⟩ := hname hw hw' hu hmore.symm hk (hsolid hv)
    exact ⟨_, _, _, hu', hv, Or.inr ⟨_, _, rfl, hms, rfl⟩⟩

theorem Reads.number_then {e : UInt8} {u z : List UInt8} (hb : isDigit b = true ∨ b = 0x2D)
    (hm : ∀ d ∈ b :: m, IsNumberByte d) (hc : c = 0x7D ∨ c = 0x2C) (he : e = 0x7D ∨ e = 0x2C)
    (hu : IsWs u) (h : Reads (b :: m ++ c :: s) (.value v) (u ++ e :: z)) : c = e ∧ s = z := by
  have hclose : ∀ {d : UInt8}, d = 0x7D ∨ d = 0x2C → ¬ IsNumberByte d := by
    rintro d (rfl | rfl) (hd | hd) <;> exact absurd hd (by decide)
  cases u with
  | nil =>
    obtain ⟨rfl, rfl⟩ := h.number_inv hb hm (hclose hc) (hclose he) rfl
    exact ⟨rfl, rfl⟩
  | cons d u =>
    have hd := hu d mem_cons_self
    have hnot : ¬ IsNumberByte d := by
      rcases hd with rfl | rfl | rfl | rfl <;> rintro (hd | hd) <;> exact absurd hd (by decide)
    obtain ⟨rfl, -⟩ := h.number_inv hb hm (hclose hc) hnot rfl
    rcases hc with rfl | rfl <;> exact absurd hd (by decide)

/-! ## Printed integers -/

/-- The decimal digits of a number. -/
def decBytes (n : ℕ) : List UInt8 := (Nat.toDigits 10 n).map fun c => UInt8.ofNat c.toNat

/-- An integer as it is printed. -/
def intBytes (i : ℤ) : List UInt8 := (if i < 0 then [0x2D] else []) ++ decBytes i.natAbs

theorem decBytes_lt (h : n < 10) : decBytes n = [UInt8.ofNat (0x30 + n)] := by
  match n, h with
  | 0, _ | 1, _ | 2, _ | 3, _ | 4, _ | 5, _ | 6, _ | 7, _ | 8, _ | 9, _ => rfl

theorem decBytes_ge (h : 10 ≤ n) : decBytes n = decBytes (n / 10) ++ decBytes (n % 10) := by
  rw [decBytes, Nat.toDigits_of_base_le (by omega) h, map_append]
  have hlt : n % 10 < 10 := Nat.mod_lt n (by omega)
  generalize n % 10 = d at hlt
  refine congrArg (_ ++ ·) ?_
  match d, hlt with
  | 0, _ | 1, _ | 2, _ | 3, _ | 4, _ | 5, _ | 6, _ | 7, _ | 8, _ | 9, _ => rfl

theorem digit_spec (h : n < 10) :
    isDigit (UInt8.ofNat (0x30 + n)) = true ∧ (UInt8.ofNat (0x30 + n)).toNat - 0x30 = n := by
  match n, h with
  | 0, _ | 1, _ | 2, _ | 3, _ | 4, _ | 5, _ | 6, _ | 7, _ | 8, _ | 9, _ => decide

theorem decBytes_spec (n : ℕ) : IsInt (decBytes n) ∧ IsDigits (decBytes n) ∧
    (0 < n → (decBytes n).head? ≠ some 0x30) ∧ digitsValue (decBytes n) = n := by
  induction n using Nat.strong_induction_on with
  | _ n ih =>
    by_cases hn : n < 10
    · obtain ⟨hdigit, hvalue⟩ := digit_spec hn
      have hdigits : IsDigits [UInt8.ofNat (0x30 + n)] :=
        ⟨cons_ne_nil _ _, forall_mem_singleton.mpr hdigit⟩
      have hhead : 0 < n → [UInt8.ofNat (0x30 + n)].head? ≠ some 0x30 := by
        intro hpos hzero
        rw [head?_cons, Option.some_inj] at hzero
        rw [hzero] at hvalue
        exact absurd hvalue (show ¬ 0 = n by omega)
      rw [decBytes_lt hn]
      refine ⟨?_, hdigits, hhead, ?_⟩
      · rcases Nat.eq_zero_or_pos n with rfl | hpos
        · exact Or.inl rfl
        · exact Or.inr ⟨hdigits, hhead hpos⟩
      · rw [digitsValue, ofDigitsBE, map_singleton, foldl_cons, foldl_nil]
        omega
    · obtain ⟨-, ⟨hne, hall⟩, hhead, hvalue⟩ := ih (n / 10) (by omega)
      obtain ⟨hdigit, hlast⟩ := digit_spec (Nat.mod_lt n (show 0 < 10 by omega))
      have hdigits : IsDigits (decBytes (n / 10) ++ [UInt8.ofNat (0x30 + n % 10)]) := by
        refine ⟨append_ne_nil_of_left_ne_nil hne _, fun b hb => ?_⟩
        rcases mem_append.mp hb with hb | hb
        · exact hall b hb
        · rw [mem_singleton.mp hb]
          exact hdigit
      have hfirst : (decBytes (n / 10) ++ [UInt8.ofNat (0x30 + n % 10)]).head? ≠ some 0x30 := by
        rw [head?_append_of_ne_nil _ hne]
        exact hhead (by omega)
      rw [decBytes_ge (by omega), decBytes_lt (Nat.mod_lt n (by omega))]
      refine ⟨Or.inr ⟨hdigits, hfirst⟩, hdigits, fun _ => hfirst, ?_⟩
      rw [digitsValue, map_append, map_singleton, ofDigitsBE_concat, ← digitsValue]
      omega

/-- **A printed integer** is read as that integer. -/
theorem numberAt_intBytes (i : ℤ) (rest : List UInt8) : NumberAt (intBytes i ++ rest) i rest := by
  obtain ⟨hint, -, -, hvalue⟩ := decBytes_spec i.natAbs
  refine ⟨if i < 0 then [0x2D] else [], decBytes i.natAbs, [], [], ?_, hint, Or.inl rfl,
    Or.inl rfl, ?_, ?_⟩
  · split_ifs
    · exact Or.inr rfl
    · exact Or.inl rfl
  · rw [intBytes, append_nil, append_nil]
  · have habs : (i.natAbs : ℚ) = ((i.natAbs : ℤ) : ℚ) := rfl
    rw [numberValue, hvalue, expFactor, mul_one, tail_nil, habs]
    have hzero : ((digitsValue [] : ℕ) : ℚ) / 10 ^ ([] : List UInt8).length = 0 := by
      rw [show digitsValue [] = 0 from rfl, Nat.cast_zero, zero_div]
    rw [hzero, add_zero]
    split_ifs with hneg hnil
    · cases hnil
    · rw [show (i.natAbs : ℤ) = -i by omega, Int.cast_neg, neg_one_mul, neg_neg]
    · rw [show (i.natAbs : ℤ) = i by omega, one_mul]
    · rename_i hnil
      exact absurd rfl hnil

theorem intBytes_cons (i : ℤ) : ∃ b n, intBytes i = b :: n ∧ (isDigit b = true ∨ b = 0x2D) ∧
    ∀ d ∈ b :: n, IsNumberByte d := by
  obtain ⟨-, ⟨hne, hall⟩, -, -⟩ := decBytes_spec i.natAbs
  rw [intBytes]
  split_ifs
  · refine ⟨0x2D, decBytes i.natAbs, rfl, Or.inr rfl, fun d hd => ?_⟩
    rcases mem_cons.mp hd with rfl | hd
    · exact Or.inr (by simp)
    · exact Or.inl (hall d hd)
  · cases hdec : decBytes i.natAbs with
    | nil => exact absurd hdec hne
    | cons b n =>
      rw [hdec] at hall
      exact ⟨b, n, rfl, Or.inl (hall b mem_cons_self), fun d hd => Or.inl (hall d hd)⟩

end Meatpi.JsonGrammar
