import Mathlib.Data.List.Basic

/-!
# Lines and tokens of a text

`IsText isEol ls t`: the text `t` is the lines `ls`, each closed by a non-empty
run of line ends (the last one may go without). A reader that splits at every
line end sees the lines of `ls` and, inside the runs, empty lines.

`printTokens` puts one blank between tokens; splitting at blanks gives the
tokens back.
-/

namespace Meatpi

open List

variable {toks : List (List Char)} {t : List Char} {α : Type}

/-- `t` is the lines `ls`, closed by runs of line ends. -/
inductive IsText (isEol : Char → Bool) : List (List Char) → List Char → Prop
  | nil : IsText isEol [] []
  /-- a last line without a line end -/
  | last (l : List Char) : IsText isEol [l] l
  | cons (l : List Char) (c : Char) (eol : List Char) {ls : List (List Char)} {t : List Char} :
      isEol c = true → (∀ d ∈ eol, isEol d = true) → IsText isEol ls t →
      IsText isEol (l :: ls) (l ++ c :: (eol ++ t))

variable {β : Type*} {isEol : Char → Bool}

/-- The empty lines inside a run of line ends do nothing to a fold that skips
empty lines. -/
theorem foldl_splitOnP_eols {f : β → List Char → β} (hf : ∀ b, f b [] = b) :
    ∀ {eol : List Char}, (∀ d ∈ eol, isEol d = true) → ∀ b,
      ((eol ++ t).splitOnP isEol).foldl f b = (t.splitOnP isEol).foldl f b := by
  intro eol
  induction eol with
  | nil => intro _ b; rfl
  | cons d eol ih =>
    intro hd b
    have hsplit : ((d :: eol) ++ t).splitOnP isEol = [] :: (eol ++ t).splitOnP isEol := by
      have hnil : ∀ c ∈ ([] : List Char), isEol c = false := by simp
      exact splitOnP_append_cons_of_forall_mem hnil d (hd d mem_cons_self) (eol ++ t)
    rw [hsplit, foldl_cons, hf]
    exact ih (fun c hc => hd c (mem_cons_of_mem _ hc)) b

/-- **Reading a text line by line** is reading its lines. -/
theorem IsText.foldl_splitOnP {f : β → List Char → β} (hf : ∀ b, f b [] = b)
    {ls : List (List Char)} (h : IsText isEol ls t) (hls : ∀ l ∈ ls, ∀ c ∈ l, isEol c = false) :
    ∀ b, (t.splitOnP isEol).foldl f b = ls.foldl f b := by
  induction h with
  | nil => intro b; simp [splitOnP_nil, hf]
  | last l =>
    intro b
    rw [splitOnP_eq_singleton (hls l mem_cons_self)]
  | cons l c eol hc heol _ ih =>
    intro b
    rw [splitOnP_append_cons_of_forall_mem (hls l mem_cons_self) c hc,
      foldl_cons, foldl_splitOnP_eols hf heol]
    exact ih (fun l' hl' => hls l' (mem_cons_of_mem _ hl')) _

/-! ## Tokens -/

/-- The tokens with one blank between them. -/
def printTokens : List (List Char) → List Char
  | [] => []
  | tok :: toks => tok ++ toks.flatMap fun tok => ' ' :: tok

theorem printTokens_cons_cons (tok tok' : List Char) (toks : List (List Char)) :
    printTokens (tok :: tok' :: toks) = tok ++ ' ' :: printTokens (tok' :: toks) := by
  simp [printTokens]

theorem mem_printTokens {c : Char} (hc : c ∈ printTokens toks) :
    c = ' ' ∨ ∃ tok ∈ toks, c ∈ tok := by
  induction toks with
  | nil => simp [printTokens] at hc
  | cons tok toks ih =>
    rcases toks with _ | ⟨tok', toks⟩
    · simp only [printTokens, flatMap_nil, append_nil] at hc
      exact .inr ⟨tok, mem_cons_self, hc⟩
    · rcases mem_append.mp hc with hc | hc
      · exact .inr ⟨tok, mem_cons_self, hc⟩
      · rcases mem_cons.mp hc with hc | hc
        · exact .inl hc
        · rcases ih hc with hc | ⟨tk, htk, hc⟩
          · exact .inl hc
          · exact .inr ⟨tk, mem_cons_of_mem _ htk, hc⟩

theorem splitOnP_printTokens {isBlank : Char → Bool} (hblank : isBlank ' ' = true) (h : toks ≠ [])
    (htoks : (∀ tok ∈ toks, ∀ c ∈ tok, isBlank c = false)) :
    (printTokens toks).splitOnP isBlank = toks := by
  induction toks with
  | nil => exact absurd rfl h
  | cons tok toks ih =>
    have htok := htoks tok mem_cons_self
    rcases toks with _ | ⟨tok', toks⟩
    · simp only [printTokens, flatMap_nil, append_nil]
      exact splitOnP_eq_singleton htok
    · rw [printTokens_cons_cons, splitOnP_append_cons_of_forall_mem htok _ hblank,
        ih (by simp) fun tk htk => htoks tk (mem_cons_of_mem _ htk)]

/-- The bytes of an ASCII text. -/
def asciiBytes (s : String) : List UInt8 := s.toList.map fun c => c.toNat.toUInt8

/-! ## Pieces between separators -/

theorem not_mem_of_mem_splitOn [DecidableEq α] {sep : α} {s piece : List α}
    (h : piece ∈ s.splitOn sep) : sep ∉ piece := by
  induction s generalizing piece with
  | nil =>
    rw [splitOn_nil, mem_singleton] at h
    rw [h]
    exact not_mem_nil
  | cons c s ih =>
    rw [splitOn_cons_eq_if_modifyHead] at h
    split_ifs at h with hc
    · rcases mem_cons.mp h with rfl | h
      · exact not_mem_nil
      · exact ih h
    · cases hs : s.splitOn sep with
      | nil => exact absurd hs (splitOn_ne_nil sep s)
      | cons first more =>
        rw [hs] at h
        rcases mem_cons.mp h with rfl | h
        · rw [mem_cons, not_or]
          refine ⟨fun heq => hc ?_, ih (hs ▸ mem_cons_self)⟩
          rw [heq]
          exact beq_self_eq_true c
        · exact ih (hs ▸ mem_cons_of_mem first h)

theorem splitOn_terminated [DecidableEq α] (sep : α) (s : List α) :
    ∃ lines last, s.splitOn sep = lines ++ [last] ∧
      s = lines.flatMap (fun line => line ++ [sep]) ++ last := by
  induction s with
  | nil => exact ⟨[], [], splitOn_nil sep, rfl⟩
  | cons c s ih =>
    obtain ⟨lines, last, hsplit, hs⟩ := ih
    rw [splitOn_cons_eq_if_modifyHead, hsplit]
    split_ifs with hc
    · refine ⟨[] :: lines, last, rfl, ?_⟩
      rw [beq_iff_eq.1 hc, flatMap_cons, append_assoc, ← hs]
      rfl
    · cases lines with
      | nil =>
        exact ⟨[], c :: last, rfl, congrArg (c :: ·) hs⟩
      | cons first lines =>
        exact ⟨(c :: first) :: lines, last, rfl, congrArg (c :: ·) hs⟩

theorem splitOn_flatMap_terminated [DecidableEq α] {sep : α} {lines : List (List α)}
    (h : ∀ line ∈ lines, sep ∉ line) :
    (lines.flatMap fun line => line ++ [sep]).splitOn sep = lines ++ [[]] := by
  induction lines with
  | nil => exact splitOn_nil sep
  | cons line lines ih =>
    rw [flatMap_cons, append_assoc, singleton_append,
      splitOn_append_cons_self_of_not_mem (h line mem_cons_self),
      ih fun l hl => h l (mem_cons_of_mem line hl)]
    rfl

/-- The pieces that a separator ends. -/
def completeLines {α : Type} [DecidableEq α] (sep : α) (s : List α) : List (List α) :=
  (s.splitOn sep).dropLast

theorem completeLines_cons [DecidableEq α] (sep c : α) (s : List α) :
    completeLines sep (c :: s) = if c = sep then [] :: completeLines sep s
      else (completeLines sep s).modifyHead (c :: ·) := by
  have hdrop : ∀ pieces : List (List α),
      (pieces.modifyHead (c :: ·)).dropLast = pieces.dropLast.modifyHead (c :: ·) := by
    intro pieces
    rcases pieces with _ | ⟨first, _ | ⟨second, pieces⟩⟩ <;> rfl
  rw [completeLines, completeLines, splitOn_cons_eq_if_modifyHead]
  by_cases hc : c = sep
  · rw [if_pos hc, if_pos (beq_iff_eq.2 hc), dropLast_cons_of_ne_nil (splitOn_ne_nil sep s)]
  · rw [if_neg hc, if_neg (mt beq_iff_eq.1 hc), hdrop]

theorem completeLines_append [DecidableEq α] {sep : α} (s : List α) {t : List α} (ht : sep ∉ t) :
    completeLines sep (s ++ t) = completeLines sep s := by
  induction s with
  | nil =>
    rw [nil_append, completeLines, splitOn_eq_singleton ht]
    rfl
  | cons c s ih => rw [cons_append, completeLines_cons, completeLines_cons, ih]

end Meatpi
