import Meatpi.Library.JsonGrammar

/-!
# The shape of a JSON text

What a JSON text is to a program that reads quotes, backslashes, brackets and the
ends of words, and nothing else. Every value of the grammar is such a token
(`Derives.isToken`), and not every token is a value: the shape does not know an
escape from a backslash with any byte after it, a brace from a bracket, or a number
from a word.
-/

namespace Meatpi.JsonGrammar

variable {b : UInt8} {s : List UInt8}

/-- What stands between two quotes: a backslash takes the next byte with it. -/
inductive IsBody : List UInt8 → Prop
  | nil : IsBody []
  | plain {b : UInt8} {s : List UInt8} : b ≠ 0x22 → b ≠ 0x5C → IsBody s → IsBody (b :: s)
  | escape {b : UInt8} {s : List UInt8} : IsBody s → IsBody (0x5C :: b :: s)

def IsOpening (b : UInt8) : Prop := b = 0x7B ∨ b = 0x5B

def IsClosing (b : UInt8) : Prop := b = 0x7D ∨ b = 0x5D

/-- A text whose brackets close, whichever they are. -/
inductive IsNest : List UInt8 → Prop
  | nil : IsNest []
  | inert {b : UInt8} {s : List UInt8} : IsInert b → IsNest s → IsNest (b :: s)
  | quoted {body s : List UInt8} : IsBody body → IsNest s → IsNest (0x22 :: (body ++ 0x22 :: s))
  | nested {o c : UInt8} {inner s : List UInt8} : IsOpening o → IsNest inner → IsClosing c →
      IsNest s → IsNest (o :: (inner ++ c :: s))

/-- A byte that ends a word. -/
def EndsWord (b : UInt8) : Prop :=
  b = 0x2C ∨ IsClosing b ∨ b = 0x20 ∨ b = 0x09 ∨ b = 0x0A ∨ b = 0x0D

instance (b : UInt8) : Decidable (IsOpening b) := inferInstanceAs (Decidable (_ ∨ _))

instance (b : UInt8) : Decidable (EndsWord b) :=
  inferInstanceAs (Decidable (_ ∨ (_ ∨ _) ∨ _ ∨ _ ∨ _ ∨ _))

def IsQuoted (s : List UInt8) : Prop := ∃ body, IsBody body ∧ s = 0x22 :: (body ++ [0x22])

def IsBracketed (s : List UInt8) : Prop :=
  ∃ o inner c, IsOpening o ∧ IsNest inner ∧ IsClosing c ∧ s = o :: (inner ++ [c])

def IsWord (s : List UInt8) : Prop :=
  ∃ b n, s = b :: n ∧ b ≠ 0x22 ∧ ¬ IsOpening b ∧ ∀ d ∈ b :: n, ¬ EndsWord d

/-- One token: a string, a text in brackets, or a word. -/
def IsToken (s : List UInt8) : Prop := IsQuoted s ∨ IsBracketed s ∨ IsWord s

/-- The words that are values. -/
def IsScalar (s : List UInt8) : Prop :=
  s = [0x6E, 0x75, 0x6C, 0x6C] ∨ s = [0x74, 0x72, 0x75, 0x65] ∨
    s = [0x66, 0x61, 0x6C, 0x73, 0x65] ∨ IsNumber s

/-! ## Every text has the shape -/

theorem IsChars.isBody (h : IsChars s) : IsBody s := by
  induction h with
  | nil => exact .nil
  | plain _ hq hb _ ih => exact .plain hq hb ih
  | escape _ _ ih => exact .escape ih
  | @unicode h s _ hhex _ ih =>
    refine .escape ?_
    clear * - hhex ih
    induction h with
    | nil => exact ih
    | cons b h ih' =>
      have hb : isHex b = true := hhex b List.mem_cons_self
      refine .plain ?_ ?_ (ih' fun d hd => hhex d (List.mem_cons_of_mem b hd))
      · rintro rfl
        exact absurd hb (by decide)
      · rintro rfl
        exact absurd hb (by decide)

theorem IsNest.append {t : List UInt8} (hs : IsNest s) (ht : IsNest t) : IsNest (s ++ t) := by
  induction hs with
  | nil => exact ht
  | inert hb _ ih => exact .inert hb ih
  | @quoted body s hbody _ ih =>
    rw [List.cons_append, List.append_assoc]
    exact .quoted hbody ih
  | @nested o c inner s ho hinner hc _ _ ih =>
    rw [List.cons_append, List.append_assoc]
    exact .nested ho hinner hc ih

theorem isNest_inner {o c : UInt8} (ho : IsOpening o) (hc : IsClosing c) (h : IsNest s) :
    IsNest (o :: s ++ [c]) :=
  .nested ho h hc .nil

/-- **The brackets of a text close**, and its strings are skipped. -/
theorem Derives.isNest {form : Form} (h : Derives form s) : IsNest s := by
  refine h.nesting (P := IsNest) .nil (fun _ _ => IsNest.append) (fun b hb => .inert hb .nil) ?_
    (fun _ => isNest_inner (Or.inl rfl) (Or.inl rfl))
    fun _ => isNest_inner (Or.inr rfl) (Or.inr rfl)
  rintro t ⟨body, hbody, rfl⟩
  exact .quoted hbody.isBody .nil

theorem not_endsWord_of_isNumberByte (h : IsNumberByte b) : ¬ EndsWord b := by
  rintro (rfl | (rfl | rfl) | rfl | rfl | rfl | rfl) <;>
    exact absurd h (by unfold IsNumberByte; decide)

theorem isWord_of_isNumber (h : IsNumber s) : IsWord s := by
  obtain ⟨b, n, rfl, -⟩ := isNumber_head h
  have hb : IsInert b := isInert_of_isNumberByte (numberByte_of_isNumber h b List.mem_cons_self)
  refine ⟨b, n, rfl, hb.1.1, ?_, fun d hd =>
    not_endsWord_of_isNumberByte (numberByte_of_isNumber h d hd)⟩
  rintro (rfl | rfl)
  · exact hb.1.2.1 rfl
  · exact hb.2.1 rfl

theorem isWord_of_all {n : List UInt8} (hq : b ≠ 0x22) (ho : ¬ IsOpening b)
    (h : (b :: n).all (fun d => decide (¬ EndsWord d)) = true) : IsWord (b :: n) :=
  ⟨b, n, rfl, hq, ho, fun d hd => of_decide_eq_true (List.all_eq_true.mp h d hd)⟩

theorem IsScalar.isWord (h : IsScalar s) : IsWord s := by
  rcases h with rfl | rfl | rfl | h
  · exact isWord_of_all (by decide) (by decide) (by decide)
  · exact isWord_of_all (by decide) (by decide) (by decide)
  · exact isWord_of_all (by decide) (by decide) (by decide)
  · exact isWord_of_isNumber h

theorem IsScalar.derives (h : IsScalar s) : Derives .value s := by
  rcases h with rfl | rfl | rfl | h
  · exact .nullWord
  · exact .trueWord
  · exact .falseWord
  · exact .number h

/-- A value is a string, a text in brackets, or a word, and which of them its first
byte tells. -/
theorem Derives.value_cases (h : Derives .value s) : IsString s ∨ IsBracketed s ∨ IsScalar s := by
  have hnest : ∀ {w : List UInt8}, IsWs w → IsNest w := fun hw =>
    rule_of_isInert .nil (fun _ _ => IsNest.append) (fun b hb => .inert hb .nil)
      (isInert_of_isWs hw)
  cases h with
  | nullWord => exact Or.inr (Or.inr (Or.inl rfl))
  | trueWord => exact Or.inr (Or.inr (Or.inr (Or.inl rfl)))
  | falseWord => exact Or.inr (Or.inr (Or.inr (Or.inr (Or.inl rfl))))
  | number h => exact Or.inr (Or.inr (Or.inr (Or.inr (Or.inr h))))
  | string h => exact Or.inl h
  | noElements h => exact Or.inr (Or.inl ⟨_, _, _, Or.inr rfl, hnest h, Or.inr rfl, rfl⟩)
  | array h => exact Or.inr (Or.inl ⟨_, _, _, Or.inr rfl, h.isNest, Or.inr rfl, rfl⟩)
  | noMembers h => exact Or.inr (Or.inl ⟨_, _, _, Or.inl rfl, hnest h, Or.inl rfl, rfl⟩)
  | object h => exact Or.inr (Or.inl ⟨_, _, _, Or.inl rfl, h.isNest, Or.inl rfl, rfl⟩)

theorem IsString.isQuoted (h : IsString s) : IsQuoted s := by
  obtain ⟨body, hbody, rfl⟩ := h
  exact ⟨body, hbody.isBody, rfl⟩

/-- **Every value is a token.** -/
theorem Derives.isToken (h : Derives .value s) : IsToken s := by
  rcases h.value_cases with h | h | h
  · exact Or.inl h.isQuoted
  · exact Or.inr (Or.inl h)
  · exact Or.inr (Or.inr h.isWord)

theorem IsToken.head (h : IsToken s) :
    ∃ b n, s = b :: n ∧ ¬ (b = 0x20 ∨ b = 0x09 ∨ b = 0x0A ∨ b = 0x0D) := by
  rcases h with ⟨body, -, rfl⟩ | ⟨o, inner, c, ho, -, -, rfl⟩ | ⟨b, n, rfl, -, -, hword⟩
  · exact ⟨_, _, rfl, by decide⟩
  · refine ⟨_, _, rfl, ?_⟩
    rcases ho with rfl | rfl
    · decide
    · decide
  · exact ⟨_, _, rfl, fun h => hword b List.mem_cons_self (Or.inr (Or.inr h))⟩

/-! ## Tokens that are no value -/

theorem not_isOpening_quote : ¬ IsOpening 0x22 := by decide

theorem derives_quoted_iff {body : List UInt8} :
    Derives .value (0x22 :: (body ++ [0x22])) ↔ IsChars body := by
  constructor
  · intro h
    rcases h.value_cases with ⟨body', hbody, heq⟩ | ⟨o, inner, c, ho, -, -, heq⟩ | h
    · obtain rfl := List.append_cancel_right (List.cons.inj heq).2
      exact hbody
    · obtain ⟨rfl, -⟩ := List.cons.inj heq
      exact absurd ho not_isOpening_quote
    · obtain ⟨b, n, heq, hb, -⟩ := h.isWord
      exact absurd (List.cons.inj heq).1.symm hb
  · exact fun h => .string ⟨body, h, rfl⟩

theorem derives_word_iff (hs : IsWord s) : Derives .value s ↔ IsScalar s := by
  constructor
  · intro h
    obtain ⟨b, n, rfl, hb, ho, -⟩ := hs
    rcases h.value_cases with ⟨body', -, heq⟩ | ⟨o, inner, c, ho', -, -, heq⟩ | h
    · exact absurd (List.cons.inj heq).1 hb
    · obtain ⟨rfl, -⟩ := List.cons.inj heq
      exact absurd ho' ho
    · exact h
  · exact IsScalar.derives

end Meatpi.JsonGrammar
