import Mathlib.Data.List.Basic

/-!
# JSON texts

The grammar of JSON over bytes. A program that only looks for the end of a value
does not parse it: it counts braces outside strings. What such a count rests on is
that a text is made of bytes that mean nothing to it, strings, and texts in braces
(`Derives.nesting`).
-/

namespace Meatpi.JsonGrammar

variable {s : List UInt8}

/-- Insignificant white space. -/
def IsWs (s : List UInt8) : Prop := ∀ b ∈ s, b = 0x20 ∨ b = 0x09 ∨ b = 0x0A ∨ b = 0x0D

def isDigit (b : UInt8) : Bool := decide (0x30 ≤ b) && decide (b ≤ 0x39)

def isHex (b : UInt8) : Bool :=
  isDigit b || (decide (0x41 ≤ b) && decide (b ≤ 0x46)) || (decide (0x61 ≤ b) && decide (b ≤ 0x66))

/-- A run of digits. -/
def IsDigits (s : List UInt8) : Prop := s ≠ [] ∧ ∀ b ∈ s, isDigit b = true

/-- An integer part: no zero in front of other digits. -/
def IsInt (s : List UInt8) : Prop := s = [0x30] ∨ IsDigits s ∧ s.head? ≠ some 0x30

/-- An optional fraction. -/
def IsFrac (s : List UInt8) : Prop := s = [] ∨ ∃ ds, IsDigits ds ∧ s = 0x2E :: ds

/-- An optional exponent. -/
def IsExp (s : List UInt8) : Prop :=
  s = [] ∨ ∃ e sign ds, (e = 0x65 ∨ e = 0x45) ∧ (sign = [] ∨ sign = [0x2B] ∨ sign = [0x2D]) ∧
    IsDigits ds ∧ s = e :: (sign ++ ds)

def IsNumber (s : List UInt8) : Prop :=
  ∃ sign int frac exp, (sign = [] ∨ sign = [0x2D]) ∧ IsInt int ∧ IsFrac frac ∧ IsExp exp ∧
    s = sign ++ int ++ frac ++ exp

/-- What stands between the quotes of a string. -/
inductive IsChars : List UInt8 → Prop
  | nil : IsChars []
  | plain {b : UInt8} {s : List UInt8} : 0x20 ≤ b → b ≠ 0x22 → b ≠ 0x5C → IsChars s →
      IsChars (b :: s)
  | escape {b : UInt8} {s : List UInt8} :
      b ∈ ([0x22, 0x5C, 0x2F, 0x62, 0x66, 0x6E, 0x72, 0x74] : List UInt8) → IsChars s →
      IsChars (0x5C :: b :: s)
  | unicode {h s : List UInt8} : h.length = 4 → (∀ b ∈ h, isHex b = true) → IsChars s →
      IsChars (0x5C :: 0x75 :: (h ++ s))

def IsString (s : List UInt8) : Prop := ∃ body, IsChars body ∧ s = 0x22 :: body ++ [0x22]

inductive Form where
  | value
  | elements
  | members

/-- The texts of the grammar's forms. -/
inductive Derives : Form → List UInt8 → Prop
  /-- `null` -/
  | nullWord : Derives .value [0x6E, 0x75, 0x6C, 0x6C]
  /-- `true` -/
  | trueWord : Derives .value [0x74, 0x72, 0x75, 0x65]
  /-- `false` -/
  | falseWord : Derives .value [0x66, 0x61, 0x6C, 0x73, 0x65]
  | number {s : List UInt8} : IsNumber s → Derives .value s
  | string {s : List UInt8} : IsString s → Derives .value s
  | noElements {w : List UInt8} : IsWs w → Derives .value (0x5B :: w ++ [0x5D])
  | array {s : List UInt8} : Derives .elements s → Derives .value (0x5B :: s ++ [0x5D])
  | noMembers {w : List UInt8} : IsWs w → Derives .value (0x7B :: w ++ [0x7D])
  | object {s : List UInt8} : Derives .members s → Derives .value (0x7B :: s ++ [0x7D])
  | element {w s w' : List UInt8} : IsWs w → Derives .value s → IsWs w' →
      Derives .elements (w ++ s ++ w')
  | moreElements {s t : List UInt8} : Derives .elements s → Derives .elements t →
      Derives .elements (s ++ 0x2C :: t)
  | member {w k w' v s v' : List UInt8} : IsWs w → IsString k → IsWs w' → IsWs v →
      Derives .value s → IsWs v' →
      Derives .members (w ++ k ++ w' ++ 0x3A :: (v ++ s ++ v'))
  | moreMembers {s t : List UInt8} : Derives .members s → Derives .members t →
      Derives .members (s ++ 0x2C :: t)

/-- The text of an object, from brace to brace. -/
def IsObject (s : List UInt8) : Prop :=
  ∃ inner, (IsWs inner ∨ Derives .members inner) ∧ s = 0x7B :: inner ++ [0x7D]

/-- The members of an object in their order: what stands between the quotes of the
key, and the text of the value. -/
inductive Lists : List UInt8 → List (List UInt8 × List UInt8) → Prop
  | member {w k w' v s v' : List UInt8} : IsWs w → IsChars k → IsWs w' → IsWs v →
      Derives .value s → IsWs v' →
      Lists (w ++ (0x22 :: k ++ [0x22]) ++ w' ++ 0x3A :: (v ++ s ++ v')) [(k, s)]
  | more {s t : List UInt8} {ms ns : List (List UInt8 × List UInt8)} : Lists s ms → Lists t ns →
      Lists (s ++ 0x2C :: t) (ms ++ ns)

/-- A whole text: one value with white space around it. -/
def IsJsonText (text : List UInt8) : Prop :=
  ∃ w s w', IsWs w ∧ Derives .value s ∧ IsWs w' ∧ text = w ++ s ++ w'

/-- A whole text that is an object, with its members. -/
def ObjectText (text : List UInt8) (ms : List (List UInt8 × List UInt8)) : Prop :=
  ∃ w inner w', IsWs w ∧ (IsWs inner ∧ ms = [] ∨ Lists inner ms) ∧ IsWs w' ∧
    text = w ++ (0x7B :: inner ++ [0x7D]) ++ w'

/-- A byte of a number. -/
def IsNumberByte (b : UInt8) : Prop :=
  isDigit b = true ∨ b ∈ ([0x2D, 0x2B, 0x2E, 0x65, 0x45] : List UInt8)

theorem numberByte_of_isInt (h : IsInt s) : ∀ b ∈ s, isDigit b = true := by
  intro b hb
  rcases h with rfl | ⟨hdigits, -⟩
  · obtain rfl := List.mem_singleton.mp hb
    rfl
  · exact hdigits.2 b hb

theorem numberByte_of_isNumber (h : IsNumber s) : ∀ b ∈ s, IsNumberByte b := by
  obtain ⟨sign, int, frac, exp, hsign, hint, hfrac, hexp, rfl⟩ := h
  intro d hd
  simp only [List.mem_append] at hd
  rcases hd with ((hd | hd) | hd) | hd
  · rcases hsign with rfl | rfl
    · exact absurd hd List.not_mem_nil
    · exact Or.inr (by simp_all)
  · exact Or.inl (numberByte_of_isInt hint d hd)
  · rcases hfrac with rfl | ⟨ds, hds, rfl⟩
    · exact absurd hd List.not_mem_nil
    · rcases List.mem_cons.mp hd with rfl | hd
      · exact Or.inr (by simp)
      · exact Or.inl (hds.2 d hd)
  · rcases hexp with rfl | ⟨e, esign, ds, he, hesign, hds, rfl⟩
    · exact absurd hd List.not_mem_nil
    · rcases List.mem_cons.mp hd with rfl | hd
      · exact Or.inr (by rcases he with rfl | rfl <;> simp)
      · rcases List.mem_append.mp hd with hd | hd
        · exact Or.inr (by rcases hesign with rfl | rfl | rfl <;> simp_all)
        · exact Or.inl (hds.2 d hd)

theorem isNumber_head (h : IsNumber s) : ∃ b n, s = b :: n ∧ (isDigit b = true ∨ b = 0x2D) := by
  obtain ⟨sign, int, frac, exp, hsign, hint, -, -, rfl⟩ := h
  rcases hsign with rfl | rfl
  · cases int with
    | nil =>
      rcases hint with h | ⟨h, -⟩
      · cases h
      · exact absurd rfl h.1
    | cons b int =>
      exact ⟨b, int ++ frac ++ exp, by simp, Or.inl (numberByte_of_isInt hint b List.mem_cons_self)⟩
  · exact ⟨0x2D, int ++ frac ++ exp, by simp, Or.inr rfl⟩

/-- A byte that is no quote and no brace. -/
def IsPlain (b : UInt8) : Prop := b ≠ 0x22 ∧ b ≠ 0x7B ∧ b ≠ 0x7D

/-- A plain byte that is no square bracket either. -/
def IsInert (b : UInt8) : Prop := IsPlain b ∧ b ≠ 0x5B ∧ b ≠ 0x5D

instance (b : UInt8) : Decidable (IsPlain b) := inferInstanceAs (Decidable (_ ∧ _ ∧ _))

instance (b : UInt8) : Decidable (IsInert b) := inferInstanceAs (Decidable (_ ∧ _ ∧ _))

theorem isInert_of_isNumberByte {b : UInt8} (h : IsNumberByte b) : IsInert b := by
  have hdigit : ∀ c : UInt8, isDigit c = false → b = c → isDigit b = true → False := by
    rintro c hc rfl hb
    rw [hc] at hb
    cases hb
  rcases h with h | h
  · exact ⟨⟨fun hb => hdigit _ rfl hb h, fun hb => hdigit _ rfl hb h, fun hb => hdigit _ rfl hb h⟩,
      fun hb => hdigit _ rfl hb h, fun hb => hdigit _ rfl hb h⟩
  · simp only [List.mem_cons, List.not_mem_nil, or_false] at h
    rcases h with rfl | rfl | rfl | rfl | rfl <;> decide

theorem isInert_of_isWs (h : IsWs s) : ∀ b ∈ s, IsInert b := by
  intro b hb
  rcases h b hb with rfl | rfl | rfl | rfl <;> decide

section Rule

variable {P : List UInt8 → Prop} (hnil : P []) (happend : ∀ s t, P s → P t → P (s ++ t))
  (hinert : ∀ b, IsInert b → P [b])

include hnil happend hinert

theorem rule_of_isInert {s : List UInt8} (h : (∀ b ∈ s, IsInert b)) : P s := by
  induction s with
  | nil => exact hnil
  | cons b s ih =>
    exact happend [b] s (hinert b (h b List.mem_cons_self))
      (ih fun c hc => h c (List.mem_cons_of_mem _ hc))

variable (hstring : ∀ s, IsString s → P s) (hbraces : ∀ s, P s → P (0x7B :: s ++ [0x7D]))
  (hsquare : ∀ s, P s → P (0x5B :: s ++ [0x5D]))

include hstring hbraces hsquare

/-- **The rule of the nesting**: what holds of inert bytes and strings, and is kept
by putting texts together and into braces or brackets, holds of every text. -/
theorem Derives.nesting {form : Form} (h : Derives form s) : P s := by
  have hrun : ∀ {t : List UInt8}, (∀ b ∈ t, IsInert b) → P t := rule_of_isInert hnil happend hinert
  have hword : ∀ t : List UInt8, t.all (fun b => decide (IsInert b)) = true → P t :=
    fun t ht => hrun fun b hb => of_decide_eq_true (List.all_eq_true.mp ht b hb)
  have hws : ∀ {w : List UInt8}, IsWs w → P w := fun h => hrun (isInert_of_isWs h)
  have hjoin : ∀ s t (b : UInt8), P s → P [b] → P t → P (s ++ b :: t) := fun s t b hs hb ht =>
    happend s (b :: t) hs (happend [b] t hb ht)
  induction h with
  | nullWord => exact hword _ (by decide)
  | trueWord => exact hword _ (by decide)
  | falseWord => exact hword _ (by decide)
  | number h => exact hrun fun b hb => isInert_of_isNumberByte (numberByte_of_isNumber h b hb)
  | string h => exact hstring _ h
  | noElements h => exact hsquare _ (hws h)
  | array _ ih => exact hsquare _ ih
  | noMembers h => exact hbraces _ (hws h)
  | object _ ih => exact hbraces _ ih
  | element h _ h' ih => exact happend _ _ (happend _ _ (hws h) ih) (hws h')
  | moreElements _ _ ih ih' => exact hjoin _ _ _ ih (hinert _ (by decide)) ih'
  | member h hk h' hv _ hv' ih =>
    exact hjoin _ _ _ (happend _ _ (happend _ _ (hws h) (hstring _ hk)) (hws h'))
      (hinert _ (by decide)) (happend _ _ (happend _ _ (hws hv) ih) (hws hv'))
  | moreMembers _ _ ih ih' => exact hjoin _ _ _ ih (hinert _ (by decide)) ih'

end Rule

section BraceRule

variable {P : List UInt8 → Prop} (hnil : P []) (happend : ∀ s t, P s → P t → P (s ++ t))
  (hplain : ∀ b, IsPlain b → P [b]) (hstring : ∀ s, IsString s → P s)
  (hbraces : ∀ s, P s → P (0x7B :: s ++ [0x7D]))

include hnil happend hplain hstring hbraces

theorem Derives.rule {form : Form} (h : Derives form s) : P s := by
  refine h.nesting hnil happend (fun b hb => hplain b hb.1) hstring hbraces fun t ht => ?_
  exact happend _ _ (happend [0x5B] t (hplain _ (by decide)) ht) (hplain _ (by decide))

theorem IsObject.rule (h : IsObject s) : ∃ inner, P inner ∧ s = 0x7B :: inner ++ [0x7D] := by
  obtain ⟨inner, hinner, rfl⟩ := h
  refine ⟨inner, ?_, rfl⟩
  rcases hinner with hws | hmembers
  · exact rule_of_isInert hnil happend (fun b hb => hplain b hb.1) (isInert_of_isWs hws)
  · exact hmembers.rule hnil happend hplain hstring hbraces

end BraceRule

end Meatpi.JsonGrammar
