import Mathlib.Data.Fintype.Card

/-!
# Inline dictionaries

A stream names its keys by numbers and carries the dictionary with it: a definition
says what a number means in the records after it. A writer gives a key its number
when it first writes it; a reader keeps the last definition of each number. The
reader stays right when the writer forgets its numbers and starts again at one, as
long as it forgets all of them.
-/

namespace Meatpi.Library

open Function

variable {P K V W : Type*}

/-- A record of the stream: a definition, a value under a number, or something that
has no key. -/
inductive Inline (K V W : Type*) where
  | define (id : ℕ) (key : K)
  | keyed (id : ℕ) (value : V)
  | bare (record : W)
  deriving DecidableEq

/-! ## The reader -/

/-- What the numbers mean after some records. -/
def learn (dict : ℕ → Option K) : List (Inline K V W) → ℕ → Option K
  | [] => dict
  | .define id key :: records => learn (update dict id (some key)) records
  | .keyed _ _ :: records => learn dict records
  | .bare _ :: records => learn dict records

/-- What a sequential reader recovers, if every number is defined. -/
def readInline (dict : ℕ → Option K) : List (Inline K V W) → Option (List (K × V ⊕ W))
  | [] => some []
  | .define id key :: records => readInline (update dict id (some key)) records
  | .keyed id value :: records =>
    (dict id).bind fun key => (readInline dict records).map (.inl (key, value) :: ·)
  | .bare record :: records => (readInline dict records).map (.inr record :: ·)

theorem learn_append (dict : ℕ → Option K) (records more : List (Inline K V W)) :
    learn dict (records ++ more) = learn (learn dict records) more := by
  induction records generalizing dict with
  | nil => rfl
  | cons record records ih =>
    cases record with
    | define id key => exact ih _
    | keyed id value => exact ih _
    | bare record => exact ih _

theorem readInline_append {dict : ℕ → Option K} {records more : List (Inline K V W)}
    {found found' : List (K × V ⊕ W)} (h : readInline dict records = some found)
    (h' : readInline (learn dict records) more = some found') :
    readInline dict (records ++ more) = some (found ++ found') := by
  induction records generalizing dict found with
  | nil =>
    rw [← Option.some.inj h]
    exact h'
  | cons record records ih =>
    cases record with
    | define id key => exact ih h h'
    | keyed id value =>
      rw [readInline, Option.bind_eq_some_iff] at h
      obtain ⟨key, hkey, h⟩ := h
      obtain ⟨found, hfound, rfl⟩ := Option.map_eq_some_iff.mp h
      rw [List.cons_append, readInline, hkey, ih hfound h']
      rfl
    | bare record =>
      obtain ⟨found, hfound, rfl⟩ := Option.map_eq_some_iff.mp h
      rw [List.cons_append, readInline, ih hfound h']
      rfl

/-! ## The writer -/

/-- The records of a value: its key is defined when it has no number yet. -/
def writeInline (number : P → ℕ) (next : ℕ) (key : P → K) (p : P) (value : V) :
    List (Inline K V W) :=
  if number p = 0 then
    [.define (next + 1) (key p), .keyed (next + 1) value]
  else
    [.keyed (number p) value]

/-- The numbers in use are the first ones, and the reader knows them. -/
structure Known [Fintype P] (number : P → ℕ) (next : ℕ) (key : P → K) (dict : ℕ → Option K) :
    Prop where
  le : ∀ p, number p ≤ next
  count : (Finset.univ.filter fun p => number p ≠ 0).card = next
  dict : ∀ p, number p ≠ 0 → dict (number p) = some (key p)

variable [Fintype P]

theorem known_forget (key : P → K) (dict : ℕ → Option K) :
    Known (fun _ : P => 0) 0 key dict where
  le _ := Nat.le_refl 0
  count := by
    rw [Finset.card_eq_zero, Finset.filter_eq_empty_iff]
    exact fun _ _ h => h rfl
  dict _ h := absurd rfl h

variable {number : P → ℕ} {next : ℕ} {key : P → K} {dict : ℕ → Option K}

theorem Known.next_le (h : Known number next key dict) : next ≤ Fintype.card P := by
  rw [← h.count]
  exact Finset.card_le_univ _

theorem Known.congr (h : Known number next key dict) {key' : P → K}
    (hkey : ∀ p, number p ≠ 0 → key' p = key p) : Known number next key' dict where
  le := h.le
  count := h.count
  dict p hp := by rw [h.dict p hp, hkey p hp]

/-- **A value is recovered.** -/
theorem Known.read_write (h : Known number next key dict) (p : P) (value : V) :
    readInline dict (writeInline number next key p value : List (Inline K V W)) =
      some [.inl (key p, value)] := by
  rw [writeInline]
  split
  · rw [readInline, readInline, update_self]
    rfl
  · rename_i hp
    rw [readInline, h.dict p hp]
    rfl

theorem Known.write_numbered (h : Known number next key dict) {p : P} (hp : number p ≠ 0)
    (value : V) :
    Known number next key
      (learn dict (writeInline number next key p value : List (Inline K V W))) := by
  rw [writeInline, if_neg hp]
  exact h

theorem Known.write_new [DecidableEq P] (h : Known number next key dict) {p : P} (hp : number p = 0)
    (value : V) :
    Known (update number p (next + 1)) (next + 1) key
      (learn dict (writeInline number next key p value : List (Inline K V W))) := by
  rw [writeInline, if_pos hp]
  refine ⟨?_, ?_, ?_⟩
  · intro p'
    rcases eq_or_ne p' p with rfl | hne
    · rw [update_self]
    · rw [update_of_ne hne]
      exact Nat.le_succ_of_le (h.le p')
  · have hset : (Finset.univ.filter fun p' => update number p (next + 1) p' ≠ 0) =
        insert p (Finset.univ.filter fun p' => number p' ≠ 0) := by
      ext p'
      rcases eq_or_ne p' p with rfl | hne
      · simp
      · simp [hne]
    rw [hset, Finset.card_insert_of_notMem (by simp [hp]), h.count]
  · intro p' hp'
    rw [learn, learn, learn]
    rcases eq_or_ne p' p with rfl | hne
    · rw [update_self, update_self]
    · rw [update_of_ne hne] at hp' ⊢
      have hle := h.le p'
      rw [update_of_ne (by omega)]
      exact h.dict p' hp'

end Meatpi.Library
