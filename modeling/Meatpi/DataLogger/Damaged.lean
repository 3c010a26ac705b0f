import Mathlib.Data.List.MinMax
import Meatpi.DataLogger.Backfill

/-!
# Paging past damaged files

Whatever is in a file, a page that starts inside it reads something of it, as long
as the file ends with a line end (`off_lt_of_ended`): a line, or a window of a line
that is longer. A file that does not end so is never finished
(`off_lt_of_torn`), and every page at its tail asks for the same page again.
Where no file is torn, a client gets to the newest one unless a page ends too early
(`export_getsPast`).
-/

namespace Meatpi

open List Option

variable {g newest : DlFile} {w : DlWalk} {bytes : List UInt8} {epochs : List ℕ} {epoch : ℤ}

variable {f : DlFile} {since : DlSince} {front later : List DlFile} {rest : List UInt8} {n : ℕ}

variable {q : DlExportQuery}

/-! ## Windows of any bytes -/

theorem dlExportWalk_consumed (buf line : List UInt8) (w : DlWalk) :
    (dlExportWalk q line buf w).consumed = w.consumed ∨
      ∃ front back, buf = front ++ 10 :: back ∧
        (dlExportWalk q line buf w).consumed = w.consumed + line.length + (front.length + 1) := by
  induction buf generalizing line w with
  | nil =>
    exact .inl rfl
  | cons c buf ih =>
    rw [dlExportWalk]
    split_ifs with hc hstop
    · -- the line ends here and the walk stops with it
      have hline : (dlExportLine q (line ++ [c]) w).consumed = w.consumed ∨
          (dlExportLine q (line ++ [c]) w).consumed = w.consumed + (line ++ [c]).length := by
        rw [dlExportLine]
        split_ifs
        · exact .inl rfl
        · exact .inr rfl
        · exact .inr rfl
      rcases hline with hline | hline
      · exact .inl hline
      · refine .inr ⟨[], buf, by rw [hc]; rfl, ?_⟩
        rw [hline, length_append, length_singleton, length_nil, Nat.add_assoc]
    · have hline : (dlExportLine q (line ++ [c]) w).consumed = w.consumed + line.length + 1 := by
        rw [dlExportLine] at hstop ⊢
        split_ifs at hstop ⊢
        · exact absurd rfl hstop
        · exact congrArg (w.consumed + ·) length_append
        · exact congrArg (w.consumed + ·) length_append
      rcases ih [] (dlExportLine q (line ++ [c]) w) with h | ⟨front, back, hbuf, h⟩
      · refine .inr ⟨[], buf, by rw [hc]; rfl, ?_⟩
        rw [h, hline, length_nil]
      · refine .inr ⟨10 :: front, back, by rw [hbuf, hc]; rfl, ?_⟩
        rw [h, length_nil, length_cons]
        omega
    · rcases ih (line ++ [c]) w with h | ⟨front, back, hbuf, h⟩
      · exact .inl h
      · refine .inr ⟨c :: front, back, by rw [hbuf]; rfl, ?_⟩
        rw [h, length_append, length_singleton, length_cons]
        omega

theorem dlExportWalk_mono (buf line : List UInt8) (w : DlWalk) :
    w.consumed ≤ (dlExportWalk q line buf w).consumed := by
  rcases dlExportWalk_consumed (q := q) buf line w with h | ⟨front, back, -, h⟩
  · exact Nat.le_of_eq h.symm
  · omega

theorem dlExportLine_first (line : List UInt8) (hfresh : w.budget.lines = q.limit) :
    (dlExportLine q line w).consumed = w.consumed + line.length := by
  rw [dlExportLine]
  split_ifs with hsends hfits
  · omega
  · rfl
  · rfl

/-- The bytes end with a line end, or there are none. -/
def DlEnded (bytes : List UInt8) : Prop := bytes = [] ∨ bytes.getLast? = some 10

instance (bytes : List UInt8) : Decidable (DlEnded bytes) := inferInstanceAs (Decidable (_ ∨ _))

theorem ne_nil_of_torn {front back : List UInt8} (h : ¬DlEnded (front ++ 10 :: back)) :
    back ≠ [] := by
  rintro rfl
  exact h (.inr List.getLast?_concat)

theorem torn_drop (h : ¬DlEnded bytes) (hn : n < bytes.length) : ¬DlEnded (bytes.drop n) := by
  rintro (hnil | hlast)
  · rw [drop_eq_nil_iff] at hnil
    omega
  · rw [List.getLast?_drop, if_neg (by omega)] at hlast
    exact h (.inr hlast)

theorem ended_drop (h : DlEnded bytes) (n : ℕ) : DlEnded (bytes.drop n) := by
  by_cases hn : n < bytes.length
  · rcases h with rfl | hlast
    · exact absurd hn (Nat.not_lt_zero n)
    · refine .inr ?_
      rw [List.getLast?_drop, if_neg (by omega), hlast]
  · exact .inl (drop_of_length_le (by omega))

theorem dlExportWalk_window (buf : List UInt8) (b : DlBudget) :
    (dlExportWalk q [] buf { consumed := 0, stop := false, budget := b, sent := [] }).consumed ≤
        buf.length ∧
      (¬DlEnded buf → (dlExportWalk q [] buf
        { consumed := 0, stop := false, budget := b, sent := [] }).consumed < buf.length) := by
  rcases dlExportWalk_consumed (q := q) buf []
    { consumed := 0, stop := false, budget := b, sent := [] } with h | ⟨front, back, rfl, h⟩
  · rw [h]
    refine ⟨Nat.zero_le _, fun htorn => length_pos_iff.2 ?_⟩
    rintro rfl
    exact htorn (.inl rfl)
  · rw [h, length_append, length_cons, length_nil]
    dsimp only
    refine ⟨by omega, fun htorn => ?_⟩
    have hback := length_pos_iff.2 (ne_nil_of_torn htorn)
    omega

theorem dlExportWindow_eq {b : DlBudget}
    (hn : min (min dlExportWindowSize rest.length) b.scan.toNat = n)
    (hw : dlExportWalk q [] (rest.take n)
      { consumed := 0, stop := false, budget := b, sent := [] } = w) :
    (dlExportWindow q rest b).consumed = if w.consumed = 0 ∧ ¬w.stop then
        if n < rest.length ∧ n = dlExportWindowSize then n else 0
      else w.consumed := by
  rw [dlExportWindow, hn]
  rw [hw]
  by_cases hnone : w.consumed = 0 ∧ ¬w.stop
  · rw [if_pos hnone, if_pos hnone]
    by_cases hraw : n < rest.length ∧ n = dlExportWindowSize
    · rw [if_pos hraw, if_pos hraw]
    · rw [if_neg hraw, if_neg hraw]
  · rw [if_neg hnone, if_neg hnone]

theorem dlExportWindow_consumed (rest : List UInt8) (b : DlBudget) :
    (dlExportWindow q rest b).consumed ≤ rest.length ∧
      (¬DlEnded rest → (dlExportWindow q rest b).consumed < rest.length) := by
  generalize hn : min (min dlExportWindowSize rest.length) b.scan.toNat = n
  have hle : n ≤ rest.length := by omega
  have htake : (rest.take n).length = n := length_take_of_le hle
  obtain ⟨hwalk, htorn⟩ := dlExportWalk_window (q := q) (rest.take n) b
  rw [htake] at hwalk htorn
  have hpos : ¬DlEnded rest → 0 < rest.length := by
    intro h
    refine length_pos_iff.2 ?_
    rintro rfl
    exact h (.inl rfl)
  rw [dlExportWindow_eq hn rfl]
  split_ifs with hnone hraw
  · exact ⟨hle, fun _ => hraw.1⟩
  · exact ⟨Nat.zero_le _, hpos⟩
  · refine ⟨Nat.le_trans hwalk hle, fun h => ?_⟩
    rcases Nat.lt_or_eq_of_le hle with hlt | heq
    · exact Nat.lt_of_le_of_lt hwalk hlt
    · rw [heq, take_length] at htorn
      rw [heq, take_length]
      exact htorn h

theorem dlExportWindow_pos {b : DlBudget} (hended : DlEnded rest) (hsome : rest ≠ [])
    (hfresh : b.lines = q.limit) (hscan : (dlExportWindowSize : ℤ) ≤ b.scan) :
    0 < (dlExportWindow q rest b).consumed := by
  have hsize : dlExportWindowSize = 1024 := rfl
  have hn : min (min dlExportWindowSize rest.length) b.scan.toNat =
      min dlExportWindowSize rest.length := by omega
  rw [dlExportWindow_eq hn rfl]
  by_cases hline : (10 : UInt8) ∈ rest.take (min dlExportWindowSize rest.length)
  · -- the first line of a page goes out, whatever its length is
    obtain ⟨front, back, hsplit, hfront⟩ := eq_append_cons_of_mem hline
    rw [hsplit, dlExportWalk_line hfront, nil_append]
    generalize hw : dlExportLine q (front ++ [10])
      { consumed := 0, stop := false, budget := b, sent := [] } = w
    have hfirst : w.consumed = 0 + (front ++ [10]).length := by
      rw [← hw]
      exact dlExportLine_first (front ++ [10]) hfresh
    rw [length_append, length_singleton] at hfirst
    have hmono := dlExportWalk_mono (q := q) back [] w
    split_ifs with hstop hnone hraw hnone hraw
    all_goals omega
  · have hlong : ¬rest.length ≤ dlExportWindowSize := by
      intro hshort
      rw [Nat.min_eq_right hshort, take_length] at hline
      rcases hended with hnil | hlast
      · exact hsome hnil
      · exact hline (List.mem_of_getLast? hlast)
    rw [dlExportWalk_begun hline, if_pos ⟨rfl, Bool.false_ne_true⟩, if_pos]
    · omega
    · omega

/-! ## A file of any bytes -/

theorem dlExportWindows_off (fuel : ℕ) (rest : List UInt8) (off : ℕ) (b : DlBudget) :
    off ≤ (dlExportWindows q fuel rest off b).off ∧
      (dlExportWindows q fuel rest off b).off ≤ off + rest.length ∧
      (¬DlEnded rest → (dlExportWindows q fuel rest off b).off < off + rest.length) := by
  induction fuel generalizing rest off b with
  | zero =>
    refine ⟨Nat.le_refl _, Nat.le_add_right _ _, fun htorn => ?_⟩
    refine Nat.lt_add_of_pos_right (length_pos_iff.2 ?_)
    rintro rfl
    exact htorn (.inl rfl)
  | succ fuel ih =>
    rw [dlExportWindows]
    by_cases hends : b.spent = true ∨ rest = []
    · rw [if_pos hends]
      refine ⟨Nat.le_refl _, Nat.le_add_right _ _, fun htorn => ?_⟩
      refine Nat.lt_add_of_pos_right (length_pos_iff.2 ?_)
      rintro rfl
      exact htorn (.inl rfl)
    · obtain ⟨hle, htorn⟩ := dlExportWindow_consumed (q := q) rest b
      generalize dlExportWindow q rest b = w at hle htorn
      dsimp only
      split_ifs
      · exact ⟨Nat.le_add_right _ _, Nat.add_le_add_left hle off,
          fun h => Nat.add_lt_add_left (htorn h) off⟩
      · obtain ⟨hlow, hhigh, hends⟩ := ih (rest.drop w.consumed) (off + w.consumed) w.budget
        rw [length_drop] at hhigh hends
        generalize dlExportWindows q fuel (rest.drop w.consumed) (off + w.consumed) w.budget = r
          at hlow hhigh hends
        refine ⟨Nat.le_trans (Nat.le_add_right off _) hlow, ?_, fun h => ?_⟩
        · refine Nat.le_trans hhigh ?_
          omega
        · have hlt := htorn h
          refine Nat.lt_of_lt_of_le (hends (torn_drop h hlt)) ?_
          omega

theorem dlExportWindows_pos {fuel : ℕ} {b : DlBudget} (off : ℕ) (hended : DlEnded rest)
    (hsome : rest ≠ []) (hb : b.spent = false) (hfresh : b.lines = q.limit)
    (hscan : (dlExportWindowSize : ℤ) ≤ b.scan) :
    off < (dlExportWindows q (fuel + 1) rest off b).off := by
  have hpos := dlExportWindow_pos (q := q) hended hsome hfresh hscan
  rw [dlExportWindows, if_neg (not_or.2 ⟨Bool.eq_false_iff.1 hb, hsome⟩)]
  generalize dlExportWindow q rest b = w at hpos
  dsimp only
  split_ifs
  · exact Nat.lt_add_of_pos_right hpos
  · exact Nat.lt_of_lt_of_le (Nat.lt_add_of_pos_right hpos)
      (dlExportWindows_off fuel (rest.drop w.consumed) (off + w.consumed) w.budget).1

/-- What a page reads of a file. -/
def dlReading (q : DlExportQuery) (file : DlFile) (off : ℕ) (b : DlBudget) : DlReading :=
  dlExportWindows q (file.text.length + 1) (file.text.drop off) off
    { b with bytes := b.bytes - (dlExportFileLine q.csv file.epoch).length }

variable {file : DlFile} {off : ℕ} {b : DlBudget}

theorem le_dlReading (file : DlFile) (off : ℕ) (b : DlBudget) :
    off ≤ (dlReading q file off b).off :=
  (dlExportWindows_off _ _ _ _).1

/-- **A torn file is never finished.** -/
theorem off_lt_of_torn (htorn : ¬DlEnded file.text) (hoff : off < file.text.length) (b : DlBudget) :
    (dlReading q file off b).off < file.text.length := by
  have h := (dlExportWindows_off (q := q) (file.text.length + 1) (file.text.drop off) off
    { b with bytes := b.bytes - (dlExportFileLine q.csv file.epoch).length }).2.2
    (torn_drop htorn hoff)
  rw [length_drop] at h
  rw [dlReading]
  omega

/-- **A page that starts in a file reads something of it** if the file ends with a line
end. -/
theorem off_lt_of_ended (hlimit : 1 ≤ q.limit) (hended : DlEnded file.text)
    (hoff : off < file.text.length) :
    off < (dlReading q file off (dlExportBudget q.limit)).off := by
  have hline := dlExportFileLine_length q.csv file.epoch
  refine dlExportWindows_pos off (ended_drop hended off) ?_ ?_ rfl ?_
  · rw [Ne, drop_eq_nil_iff]
    omega
  · refine spent_eq_false.2 ⟨hlimit, ?_, ?_⟩
    · change 0 < (65536 : ℤ) - _
      omega
    · change (0 : ℤ) < 512 * 1024
      omega
  · change (1024 : ℤ) ≤ 512 * 1024
    omega

/-! ## The files of a page -/

theorem dlExportFiles_step (epoch : ℤ) (file : DlFile) (later : List DlFile) (off : ℕ)
    (hb : b.spent = false) :
    dlExportFiles q epoch (file :: later) off b =
      if (dlReading q file off b).off < file.text.length then
        { sent := .file (dlExportFileLine q.csv file.epoch) :: (dlReading q file off b).sent
          cursor := ⟨file.epoch, (dlReading q file off b).off⟩
          more := true }
      else if later.isEmpty then
        { sent := .file (dlExportFileLine q.csv file.epoch) :: (dlReading q file off b).sent
          cursor := ⟨file.epoch, (dlReading q file off b).off⟩
          more := false }
      else
        { dlExportFiles q file.epoch later 0 (dlReading q file off b).budget with
          sent := .file (dlExportFileLine q.csv file.epoch) :: (dlReading q file off b).sent ++
            (dlExportFiles q file.epoch later 0 (dlReading q file off b).budget).sent } := by
  rw [dlExportFiles, hb]
  rfl

theorem dlExportFiles_more {files : List DlFile} :
    ∀ {epoch : ℤ} {off : ℕ} {b : DlBudget}, (dlExportFiles q epoch files off b).more = true →
      ∃ f ∈ files, (dlExportFiles q epoch files off b).cursor.epoch = f.epoch ∧
        (dlExportFiles q epoch files off b).cursor.off < f.text.length := by
  induction files with
  | nil =>
    intro epoch off b h
    cases h
  | cons file later ih =>
    intro epoch off b h
    cases hb : b.spent with
    | true =>
      rw [dlExportFiles, hb] at h
      cases h
    | false =>
      rw [dlExportFiles_step epoch file later off hb] at h ⊢
      split_ifs at h ⊢ with hinside
      · exact ⟨file, mem_cons_self, rfl, hinside⟩
      · obtain ⟨f, hf, hcursor⟩ := ih h
        exact ⟨f, mem_cons_of_mem file hf, hcursor⟩

theorem dlExportFiles_more_cons (hb : b.spent = false)
    (h : (dlExportFiles q epoch (file :: later) off b).more = true) :
    (dlReading q file off b).off < file.text.length ∧
        (dlExportFiles q epoch (file :: later) off b).cursor =
          ⟨file.epoch, (dlReading q file off b).off⟩ ∨
      ∃ f ∈ later, (dlExportFiles q epoch (file :: later) off b).cursor.epoch = f.epoch ∧
        (dlExportFiles q epoch (file :: later) off b).cursor.off < f.text.length := by
  rw [dlExportFiles_step epoch file later off hb] at h ⊢
  split_ifs at h ⊢ with hinside
  · exact .inl ⟨hinside, rfl⟩
  · exact .inr (dlExportFiles_more h)

theorem dlExportFiles_inside (hb : b.spent = false)
    (hinside : (dlReading q file off b).off < file.text.length) :
    (dlExportFiles q epoch (file :: later) off b).more = true ∧
      (dlExportFiles q epoch (file :: later) off b).cursor =
        ⟨file.epoch, (dlReading q file off b).off⟩ := by
  rw [dlExportFiles_step epoch file later off hb, if_pos hinside]
  exact ⟨rfl, rfl⟩

theorem dlExportFiles_epoch {files : List DlFile} :
    ∀ {epoch : ℤ} {off : ℕ} {b : DlBudget},
      (dlExportFiles q epoch files off b).cursor.epoch = epoch ∨
        ∃ f ∈ files, (dlExportFiles q epoch files off b).cursor.epoch = f.epoch := by
  induction files with
  | nil =>
    intro epoch off b
    exact .inl rfl
  | cons file later ih =>
    intro epoch off b
    cases hb : b.spent with
    | true =>
      rw [dlExportFiles, hb]
      exact .inl rfl
    | false =>
      rw [dlExportFiles_step epoch file later off hb]
      split_ifs
      · exact .inr ⟨file, mem_cons_self, rfl⟩
      · exact .inr ⟨file, mem_cons_self, rfl⟩
      · rcases @ih file.epoch 0 (dlReading q file off b).budget with h | ⟨f, hf, h⟩
        · exact .inr ⟨file, mem_cons_self, h⟩
        · exact .inr ⟨f, mem_cons_of_mem file hf, h⟩

/-- The loop over the files ends with a spent budget, as a file is finished that
another one follows. -/
def DlSpends (q : DlExportQuery) : List DlFile → ℕ → DlBudget → Prop
  | [], _, _ => False
  | file :: later, off, b =>
    ¬(dlReading q file off b).off < file.text.length ∧ later ≠ [] ∧
      ((dlReading q file off b).budget.spent = true ∨
        DlSpends q later 0 (dlReading q file off b).budget)

theorem dlExportFiles_done :
    ∀ {epoch : ℤ} {file : DlFile} {off : ℕ} {b : DlBudget}, b.spent = false →
      (dlExportFiles q epoch (file :: later) off b).more = false →
      ¬DlSpends q (file :: later) off b →
      ∃ front last, file :: later = front ++ [last] ∧
        (dlExportFiles q epoch (file :: later) off b).cursor.epoch = last.epoch := by
  induction later with
  | nil =>
    intro epoch file off b hb h _
    rw [dlExportFiles_step epoch file [] off hb] at h ⊢
    by_cases hinside : (dlReading q file off b).off < file.text.length
    · rw [if_pos hinside] at h
      cases h
    · rw [if_neg hinside]
      exact ⟨[], file, rfl, rfl⟩
  | cons next later ih =>
    intro epoch file off b hb h hspends
    rw [dlExportFiles_step epoch file (next :: later) off hb] at h ⊢
    by_cases hinside : (dlReading q file off b).off < file.text.length
    · rw [if_pos hinside] at h
      cases h
    · rw [if_neg hinside, isEmpty_cons, if_neg Bool.false_ne_true] at h ⊢
      rw [DlSpends, not_and, not_and, not_or] at hspends
      obtain ⟨hroom, hrest⟩ := hspends hinside (cons_ne_nil next later)
      obtain ⟨front, last, hlast, hcursor⟩ := ih (Bool.eq_false_iff.2 hroom) h hrest
      exact ⟨file :: front, last, congrArg (file :: ·) hlast, hcursor⟩

theorem dlExportFiles_spends :
    ∀ {epoch : ℤ} {file : DlFile} {off : ℕ} {b : DlBudget}, b.spent = false →
      DlSpends q (file :: later) off b →
      (dlExportFiles q epoch (file :: later) off b).more = false ∧
        ∃ front f back, file :: later = front ++ f :: back ∧ back ≠ [] ∧
          (dlExportFiles q epoch (file :: later) off b).cursor.epoch = f.epoch := by
  induction later with
  | nil =>
    intro epoch file off b _ h
    exact absurd rfl h.2.1
  | cons next later ih =>
    intro epoch file off b hb h
    obtain ⟨hinside, -, hends⟩ := h
    rw [dlExportFiles_step epoch file (next :: later) off hb, if_neg hinside,
      isEmpty_cons, if_neg Bool.false_ne_true]
    cases hroom : (dlReading q file off b).budget.spent with
    | true =>
      rw [dlExportFiles, hroom]
      exact ⟨rfl, [], file, next :: later, rfl, cons_ne_nil next later, rfl⟩
    | false =>
      have hrest := hends.resolve_left (Bool.eq_false_iff.1 hroom)
      obtain ⟨hmore, front, f, back, hfiles, hback, hcursor⟩ := ih hroom hrest
      exact ⟨hmore, file :: front, f, back, congrArg (file :: ·) hfiles, hback, hcursor⟩

/-- **Of complete lines that fit a window**, a page spends line by line: no window shows. -/
theorem dlSpends_iff_spent {later : List DlLogged} {file : DlLogged} {left : List (List UInt8)}
    (hleft : left <:+ file.lines) (b : DlBudget) :
    DlSpends q (file.file :: later.map DlLogged.file)
        (file.lines.flatten.length - left.flatten.length) b ↔
      ∃ f, (takeFiles q file left later b).2 = .spent f := by
  induction later generalizing file left b with
  | nil =>
    refine iff_of_false (fun h => h.2.1 rfl) ?_
    rintro ⟨f, hf⟩
    rw [takeFiles] at hf
    dsimp only at hf
    split at hf <;> cases hf
  | cons next later ih =>
    generalize hr : dlReading q file.file (file.lines.flatten.length - left.flatten.length) b = r
    obtain ⟨hbudget, -, -, hends⟩ := reading_takes hleft (b.named q file) hr
    have hnext := @ih next next.lines suffix_rfl (takeLines q left (b.named q file)).budget
    rw [Nat.sub_self] at hnext
    rw [map_cons, DlSpends, hr, hends, hbudget, not_not, takeFiles]
    dsimp only
    by_cases hnil : (takeLines q left (b.named q file)).left = []
    · rw [if_pos hnil]
      cases hspent : (takeLines q left (b.named q file)).budget.spent with
      | true => exact iff_of_true ⟨hnil, cons_ne_nil _ _, .inl rfl⟩ ⟨file, rfl⟩
      | false =>
        rw [if_neg Bool.false_ne_true, ← hnext]
        exact ⟨fun h => h.2.2.resolve_left Bool.false_ne_true,
          fun h => ⟨hnil, cons_ne_nil _ _, .inr h⟩⟩
    · rw [if_neg hnil]
      refine iff_of_false (fun h => hnil h.1) ?_
      rintro ⟨f, ⟨⟩⟩

/-! ## Where a page starts -/

theorem le_of_mem_drop_findIdx (hsorted : epochs.Pairwise (· < ·)) (epoch : ℤ) :
    ∀ e ∈ epochs.drop (epochs.findIdx fun (e : ℕ) => decide (epoch ≤ e)), epoch ≤ (e : ℕ) := by
  induction hsorted with
  | nil =>
    intro e he
    cases he
  | cons hlt _ ih =>
    rename_i a as _
    rw [findIdx_cons]
    cases ha : decide (epoch ≤ (a : ℕ)) with
    | true =>
      have hle := of_decide_eq_true ha
      intro e he
      rcases mem_cons.1 he with rfl | he
      · exact hle
      · have h := hlt e he
        omega
    | false => exact ih

variable {c : DlCursor}

theorem dlExportStart_cases (hsorted : epochs.Pairwise (· < ·)) (hpos : 0 < c.epoch) :
    (∃ (front : List ℕ) (e : ℕ) (later : List ℕ), epochs = front ++ e :: later ∧
      (e : ℤ) = c.epoch ∧ dlExportStart epochs (.exact c) = (front.length, c.off)) ∨
      ∃ idx, dlExportStart epochs (.exact c) = (idx, 0) ∧
        ∀ e ∈ epochs.drop idx, c.epoch < (e : ℕ) := by
  by_cases hnil : epochs = []
  · refine .inr ⟨0, ?_, ?_⟩
    · rw [dlExportStart, if_pos (.inr hnil)]
    · rw [hnil]
      intro e he
      cases he
  · have hepoch : ¬((DlSince.exact c).epoch ≤ 0 ∨ epochs = []) := by
      rintro (h | h)
      · change c.epoch ≤ 0 at h
        omega
      · exact hnil h
    have hdrop := le_of_mem_drop_findIdx hsorted c.epoch
    generalize hidx : epochs.findIdx (fun (e : ℕ) => decide (c.epoch ≤ e)) = idx at hdrop
    have hstart : dlExportStart epochs (.exact c) =
        if (epochs[idx]?).map Int.ofNat = some c.epoch then (idx, c.off) else (idx, 0) := by
      rw [dlExportStart, if_neg hepoch]
      rw [hidx]
    by_cases hfound : (epochs[idx]?).map Int.ofNat = some c.epoch
    · obtain ⟨e, he, hce⟩ := map_eq_some_iff.1 hfound
      obtain ⟨hlt, hget⟩ := List.getElem?_eq_some_iff.1 he
      refine .inl ⟨epochs.take idx, e, epochs.drop (idx + 1), ?_, hce, ?_⟩
      · rw [← hget, ← drop_eq_getElem_cons hlt, take_append_drop]
      · rw [hstart, if_pos hfound, length_take_of_le (Nat.le_of_lt hlt)]
    · refine .inr ⟨idx, by rw [hstart, if_neg hfound], ?_⟩
      -- the first of the files that are left has another name, and the others a later one
      cases hrest : epochs.drop idx with
      | nil =>
        intro e he
        cases he
      | cons a as =>
        have hsorted' : (epochs.drop idx).Pairwise (· < ·) := hsorted.drop
        rw [hrest] at hdrop hsorted'
        have ha : epochs[idx]? = some a := by
          rw [← List.head?_drop, hrest]
          rfl
        have hne : (a : ℤ) ≠ c.epoch := by
          intro h
          rw [ha] at hfound
          exact hfound (congrArg some h)
        have hle := hdrop a mem_cons_self
        intro e he
        rcases mem_cons.1 he with rfl | he
        · omega
        · have h := (pairwise_cons.1 hsorted').1 e he
          omega

/-! ## A folder -/

/-- Cursors in the order of files, and of places in a file. -/
def DlCursor.Before (c c' : DlCursor) : Prop :=
  c.epoch < c'.epoch ∨ c.epoch = c'.epoch ∧ c.off < c'.off

/-- What a client asks for that follows the cursors as long as there is more. -/
def dlAsked (page : DlSince → DlExportPage) : ℕ → Option DlSince
  | 0 => some .start
  | n + 1 => (dlAsked page n).bind fun since =>
    if (page since).more then some (.exact (page since).cursor) else none

/-- Every page that reports more moves the cursor forward, and a client gets to the
newest file. -/
structure DlGetsPast (page : DlSince → DlExportPage) (dir : List DlFile) : Prop where
  forward : ∀ c, (page (.exact c)).more = true → c.Before (page (.exact c)).cursor
  newest : ∀ f ∈ dir, (∀ g ∈ dir, g.epoch ≤ f.epoch) →
    ∃ n since, dlAsked page n = some since ∧ (page since).cursor.epoch = f.epoch

/-- The files of a page. -/
def dlPageFiles (dir : List DlFile) (since : DlSince) : List DlFile × ℕ :=
  let files := dlExportListEpochs dir
  let start := dlExportStart (files.map DlFile.epoch) since
  (files.drop start.1, start.2)

/-- What the folder has to be: all its files end with a line end, the newest is among
those that are listed, a file of epoch 0 is finished in one page, and no page on a
client's way spends its budget as it finishes a file that another one follows. -/
structure DlPassable (q : DlExportQuery) (dir : List DlFile) : Prop where
  ended : ∀ f ∈ dlExportListEpochs dir, DlEnded f.text
  listed : ∀ f ∈ dir, (∀ g ∈ dir, g.epoch ≤ f.epoch) → f ∈ dlExportListEpochs dir
  zero : ∀ f ∈ dlExportListEpochs dir, f.epoch = 0 →
    ¬(dlReading q f 0 (dlExportBudget q.limit)).off < f.text.length
  spends : ∀ n since, dlAsked (dlExportPage dir q) n = some since →
    ¬DlSpends q (dlPageFiles dir since).1 (dlPageFiles dir since).2 (dlExportBudget q.limit)

variable {dir : List DlFile}

theorem dlExportPage_eq (dir : List DlFile) (since : DlSince) :
    dlExportPage dir q since = dlExportFiles q
      ((dlPageFiles dir since).1.head?.elim since.epoch fun f => f.epoch)
      (dlPageFiles dir since).1 (dlPageFiles dir since).2 (dlExportBudget q.limit) := rfl

theorem dlExportListEpochs_subset (hf : f ∈ dlExportListEpochs dir) : f ∈ dir :=
  mem_of_mem_take ((mem_insertionSort _).1 hf)

theorem dlExportListEpochs_sorted (hnodup : (dir.map DlFile.epoch).Nodup) :
    (dlExportListEpochs dir).Pairwise fun f g => f.epoch < g.epoch := by
  have hle : (dlExportListEpochs dir).Pairwise fun f g => f.epoch ≤ g.epoch :=
    pairwise_insertionSort _ _
  have hne : (dlExportListEpochs dir).Pairwise fun f g => f.epoch ≠ g.epoch := by
    have htake : ((dir.take dlExportMaxFiles).map DlFile.epoch).Nodup := by
      rw [map_take]
      exact hnodup.sublist (take_sublist _ _)
    have hperm := (perm_insertionSort (fun f g : DlFile => f.epoch ≤ g.epoch)
      (dir.take dlExportMaxFiles)).map DlFile.epoch
    exact pairwise_map.1 (hperm.nodup_iff.2 htake)
  exact hle.imp₂ (fun _ _ h h' => lt_of_le_of_ne h h') hne

theorem dlPageFiles_zero (h : since.epoch ≤ 0) :
    dlPageFiles dir since = (dlExportListEpochs dir, 0) := by
  rw [dlPageFiles, dlExportStart_zero _ h]
  rfl

theorem dlPageFiles_exact (hnodup : (dir.map DlFile.epoch).Nodup)
    (hfiles : dlExportListEpochs dir = front ++ f :: later) (hpos : 0 < f.epoch) (off : ℕ) :
    dlPageFiles dir (.exact ⟨f.epoch, off⟩) = (f :: later, off) := by
  have hepochs := pairwise_map.2 (dlExportListEpochs_sorted hnodup)
  rw [hfiles, map_append] at hepochs
  rw [dlPageFiles, hfiles, map_append, map_cons, dlExportStart_found hepochs hpos, length_map,
    drop_left]

/-- A place in the files of a folder where a page of a client starts: a file of epoch 0
is always read from its start. -/
structure DlPlace (dir : List DlFile) (since : DlSince) (f : DlFile) (later : List DlFile)
    (off : ℕ) : Prop where
  files : dlPageFiles dir since = (f :: later, off)
  split : ∃ front, dlExportListEpochs dir = front ++ f :: later
  off_le : off ≤ f.text.length
  zero : 0 < f.epoch ∨ off = 0

theorem DlPlace.page {off : ℕ} (h : DlPlace dir since f later off) :
    dlExportPage dir q since =
      dlExportFiles q f.epoch (f :: later) off (dlExportBudget q.limit) := by
  rw [dlExportPage_eq, h.files]
  rfl

theorem DlPlace.inside {off : ℕ} (h : DlPlace dir since f later off) (hlimit : 1 ≤ q.limit)
    (hinside : (dlReading q f off (dlExportBudget q.limit)).off < f.text.length) :
    (dlExportPage dir q since).more = true ∧ (dlExportPage dir q since).cursor =
      ⟨f.epoch, (dlReading q f off (dlExportBudget q.limit)).off⟩ := by
  rw [h.page]
  exact dlExportFiles_inside (dlExportBudget_spent hlimit) hinside

theorem DlPlace.spends {off : ℕ} (h : DlPlace dir since f later off) (hlimit : 1 ≤ q.limit)
    (hspends : DlSpends q (f :: later) off (dlExportBudget q.limit)) :
    (dlExportPage dir q since).more = false ∧
      ∃ front g back, f :: later = front ++ g :: back ∧ back ≠ [] ∧
        (dlExportPage dir q since).cursor.epoch = g.epoch := by
  rw [h.page]
  exact dlExportFiles_spends (dlExportBudget_spent hlimit) hspends

theorem DlPlace.of_cursor (hnodup : (dir.map DlFile.epoch).Nodup)
    (hf : f ∈ dlExportListEpochs dir) (hepoch : c.epoch = f.epoch) (hoff : c.off ≤ f.text.length) :
    ∃ later off, DlPlace dir (.exact c) f later off ∧ off ≤ c.off := by
  obtain ⟨epoch, off⟩ := c
  obtain rfl : epoch = f.epoch := hepoch
  obtain ⟨front, later, hfiles⟩ := append_of_mem hf
  by_cases hpos : 0 < f.epoch
  · exact ⟨later, off, ⟨dlPageFiles_exact hnodup hfiles hpos off, ⟨front, hfiles⟩, hoff,
      .inl hpos⟩, Nat.le_refl off⟩
  · -- epoch 0 is the first of the list
    have hfront : front = [] := by
      cases front with
      | nil => rfl
      | cons g front =>
        have hsorted := dlExportListEpochs_sorted hnodup
        rw [hfiles] at hsorted
        have hlt := (pairwise_append.1 hsorted).2.2 g mem_cons_self f mem_cons_self
        omega
    have hstart : (DlSince.exact ⟨f.epoch, off⟩).epoch ≤ 0 := by
      change (f.epoch : ℤ) ≤ 0
      omega
    refine ⟨later, 0, ⟨?_, ⟨front, hfiles⟩, Nat.zero_le _, .inr rfl⟩, Nat.zero_le off⟩
    rw [dlPageFiles_zero hstart, hfiles, hfront]
    rfl

theorem DlPlace.of_asked (hnodup : (dir.map DlFile.epoch).Nodup)
    (hsome : dlExportListEpochs dir ≠ []) :
    ∀ {n : ℕ} {since : DlSince}, dlAsked (dlExportPage dir q) n = some since →
      ∃ f later off, DlPlace dir since f later off := by
  intro n
  cases n with
  | zero =>
    intro since h
    obtain rfl := some.inj h
    obtain ⟨f, later, hfiles⟩ := exists_cons_of_ne_nil hsome
    refine ⟨f, later, 0, ?_, ⟨[], hfiles⟩, Nat.zero_le _, .inr rfl⟩
    have hzero : DlSince.start.epoch ≤ 0 := Int.le_refl 0
    rw [dlPageFiles_zero hzero, hfiles]
  | succ n =>
    intro since h
    obtain ⟨since', -, h⟩ := bind_eq_some_iff.1 h
    rw [ite_none_right_eq_some] at h
    obtain ⟨hmore, h⟩ := h
    obtain rfl := some.inj h
    obtain ⟨f, hf, hepoch, hoff⟩ := dlExportFiles_more hmore
    have hlisted : f ∈ dlExportListEpochs dir := mem_of_mem_drop hf
    obtain ⟨later, off, hplace, -⟩ := DlPlace.of_cursor hnodup hlisted hepoch (Nat.le_of_lt hoff)
    exact ⟨f, later, off, hplace⟩

theorem DlPlace.lt_of_later (hnodup : (dir.map DlFile.epoch).Nodup) {off : ℕ}
    (h : DlPlace dir since f later off) : ∀ g ∈ later, f.epoch < g.epoch := by
  obtain ⟨front, hfiles⟩ := h.split
  have hsorted := dlExportListEpochs_sorted hnodup
  rw [hfiles] at hsorted
  exact (pairwise_cons.1 (pairwise_append.1 hsorted).2.1).1

theorem DlPlace.le_cursor (hnodup : (dir.map DlFile.epoch).Nodup) {off : ℕ}
    (h : DlPlace dir since f later off) :
    (f.epoch : ℤ) ≤ (dlExportPage dir q since).cursor.epoch := by
  have hlater := h.lt_of_later hnodup
  rw [h.page]
  rcases @dlExportFiles_epoch q (f :: later) f.epoch off (dlExportBudget q.limit) with
    hcursor | ⟨g, hg, hcursor⟩
  · exact Int.le_of_eq hcursor.symm
  · rw [hcursor]
    rcases mem_cons.1 hg with rfl | hg
    · exact Int.le_refl _
    · exact Int.ofNat_le.2 (Nat.le_of_lt (hlater g hg))

theorem DlPlace.listed {off : ℕ} (h : DlPlace dir since f later off) :
    ∃ g ∈ dlExportListEpochs dir, (dlExportPage dir q since).cursor.epoch = g.epoch := by
  obtain ⟨front, hfiles⟩ := h.split
  rw [h.page, hfiles]
  rcases @dlExportFiles_epoch q (f :: later) f.epoch off (dlExportBudget q.limit) with
    hcursor | ⟨g, hg, hcursor⟩
  · exact ⟨f, mem_append_right front mem_cons_self, hcursor⟩
  · exact ⟨g, mem_append_right front hg, hcursor⟩

theorem dlAsked_mono (hnodup : (dir.map DlFile.epoch).Nodup) (k : ℕ)
    (h : dlAsked (dlExportPage dir q) (n + k) = some since) :
    ∃ since', dlAsked (dlExportPage dir q) n = some since' ∧
      (dlExportPage dir q since').cursor.epoch ≤ (dlExportPage dir q since).cursor.epoch := by
  induction k generalizing since with
  | zero => exact ⟨since, h, Int.le_refl _⟩
  | succ k ih =>
    obtain ⟨before, hbefore, h⟩ := bind_eq_some_iff.1 h
    rw [ite_none_right_eq_some] at h
    obtain ⟨hmore, h⟩ := h
    obtain rfl := some.inj h
    obtain ⟨since', hasked, hle⟩ := ih hbefore
    refine ⟨since', hasked, Int.le_trans hle ?_⟩
    rw [dlExportPage_eq] at hmore
    obtain ⟨f, hf, hepoch, hoff⟩ := dlExportFiles_more hmore
    rw [← dlExportPage_eq] at hepoch hoff
    obtain ⟨later, off, hplace, -⟩ :=
      DlPlace.of_cursor hnodup (mem_of_mem_drop hf) hepoch (Nat.le_of_lt hoff)
    rw [hepoch]
    exact hplace.le_cursor hnodup

theorem dlAsked_last {page : DlSince → DlExportPage} {m : ℕ} {since' : DlSince}
    (h : dlAsked page n = some since) (hmore : (page since).more = false)
    (h' : dlAsked page m = some since') : m ≤ n := by
  have hnone : ∀ k, dlAsked page (n + 1 + k) = none := by
    intro k
    induction k with
    | zero => rw [dlAsked, h, bind_some, hmore, if_neg Bool.false_ne_true]
    | succ k ih => rw [← Nat.add_assoc, dlAsked, ih, bind_none]
  by_contra hlt
  have hm := hnone (m - (n + 1))
  rw [Nat.add_sub_cancel' (by omega), h'] at hm
  cases hm

/-! ## A folder that is passed -/

theorem forward_of_passable (hnodup : (dir.map DlFile.epoch).Nodup) (hlimit : 1 ≤ q.limit)
    (h : DlPassable q dir) (c : DlCursor) (hmore : (dlExportPage dir q (.exact c)).more = true) :
    c.Before (dlExportPage dir q (.exact c)).cursor := by
  have hb := dlExportBudget_spent hlimit
  rw [dlExportPage_eq] at hmore ⊢
  by_cases hpos : 0 < c.epoch
  · by_cases hat : ∃ f ∈ dlExportListEpochs dir, (f.epoch : ℤ) = c.epoch
    · -- the cursor is in a file: the page reads something of it, or goes on behind it
      obtain ⟨f, hf, hepoch⟩ := hat
      obtain ⟨front, later, hfiles⟩ := append_of_mem hf
      obtain ⟨epoch, off⟩ := c
      obtain rfl : (f.epoch : ℤ) = epoch := hepoch
      have hsorted := dlExportListEpochs_sorted hnodup
      rw [hfiles] at hsorted
      have hlater := (pairwise_cons.1 (pairwise_append.1 hsorted).2.1).1
      rw [dlPageFiles_exact hnodup hfiles (Int.ofNat_lt.1 hpos)] at hmore ⊢
      rcases dlExportFiles_more_cons hb hmore with ⟨hinside, hcursor⟩ | ⟨g, hg, hcursor, -⟩
      · rw [hcursor]
        exact .inr ⟨rfl, off_lt_of_ended hlimit (h.ended f hf)
          (Nat.lt_of_le_of_lt (le_dlReading f off _) hinside)⟩
      · refine .inl ?_
        rw [hcursor]
        exact Int.ofNat_lt.2 (hlater g hg)
    · -- all files that are left are later ones
      obtain ⟨f, hf, hcursor, -⟩ := dlExportFiles_more hmore
      refine .inl ?_
      rw [hcursor]
      have hepochs := pairwise_map.2 (dlExportListEpochs_sorted hnodup)
      rcases dlExportStart_cases hepochs hpos with ⟨front, e, later, hsplit, he, -⟩ | ⟨i, hi, hlt⟩
      · have hmem : e ∈ (dlExportListEpochs dir).map DlFile.epoch := by
          rw [hsplit]
          exact mem_append_right front mem_cons_self
        obtain ⟨g, hg, rfl⟩ := mem_map.1 hmem
        exact absurd ⟨g, hg, he⟩ hat
      · refine hlt f.epoch ?_
        rw [dlPageFiles, hi] at hf
        rw [← map_drop]
        exact mem_map_of_mem hf
  · -- the page starts at the first file: one of epoch 0 is finished
    have hstart : (DlSince.exact c).epoch ≤ 0 := Int.not_lt.1 hpos
    rw [dlPageFiles_zero hstart] at hmore ⊢
    refine .inl ?_
    cases hfiles : dlExportListEpochs dir with
    | nil =>
      rw [hfiles] at hmore
      cases hmore
    | cons f later =>
      have hsorted := dlExportListEpochs_sorted hnodup
      rw [hfiles] at hmore hsorted
      rcases dlExportFiles_more_cons hb hmore with ⟨hinside, hcursor⟩ | ⟨g, hg, hcursor, -⟩
      · have hzero : f.epoch ≠ 0 := by
          intro hzero
          refine h.zero f ?_ hzero hinside
          rw [hfiles]
          exact mem_cons_self
        rw [hcursor]
        change c.epoch < (f.epoch : ℤ)
        omega
      · have hlt := (pairwise_cons.1 hsorted).1 g hg
        rw [hcursor]
        omega

/-- The bytes of the files that are left, and one for each. -/
def dlLeft (files : List DlFile) (off : ℕ) : ℕ :=
  (files.map fun f => f.text.length + 1).sum - off

theorem dlLeft_later {back : List DlFile} (hlater : later = front ++ g :: back)
    (hoff : off ≤ file.text.length) (k : ℕ) :
    dlLeft (g :: back) k < dlLeft (file :: later) off := by
  rw [dlLeft, dlLeft, hlater]
  simp only [map_cons, map_append, sum_cons, sum_append]
  omega

theorem dlLeft_inside {k : ℕ} (hoff : off < k) (hk : k < file.text.length) :
    dlLeft (file :: later) k < dlLeft (file :: later) off := by
  rw [dlLeft, dlLeft, map_cons, sum_cons]
  omega

theorem last_newest (hnodup : (dir.map DlFile.epoch).Nodup) {last : DlFile}
    (hnewest : newest ∈ dlExportListEpochs dir) (hmax : ∀ g ∈ dir, g.epoch ≤ newest.epoch)
    (hfiles : dlExportListEpochs dir = front ++ [last]) : last.epoch = newest.epoch := by
  have hsorted := dlExportListEpochs_sorted hnodup
  have hlast : last ∈ dlExportListEpochs dir := by
    rw [hfiles]
    exact mem_append_right front mem_cons_self
  have hle := hmax last (dlExportListEpochs_subset hlast)
  rw [hfiles] at hsorted hnewest
  rcases mem_append.1 hnewest with hfront | hnewest
  · have hlt := (pairwise_append.1 hsorted).2.2 newest hfront last mem_cons_self
    omega
  · rw [mem_singleton.1 hnewest]

theorem newest_of_passable (hnodup : (dir.map DlFile.epoch).Nodup) (hlimit : 1 ≤ q.limit)
    (h : DlPassable q dir) (hnewest : newest ∈ dlExportListEpochs dir)
    (hmax : ∀ g ∈ dir, g.epoch ≤ newest.epoch) {off : ℕ}
    (hasked : dlAsked (dlExportPage dir q) n = some since)
    (hplace : DlPlace dir since f later off) :
    ∃ n since, dlAsked (dlExportPage dir q) n = some since ∧
      (dlExportPage dir q since).cursor.epoch = newest.epoch := by
  -- by induction on what is left to read
  generalize hleft : dlLeft (f :: later) off = left
  induction left using Nat.strong_induction_on generalizing n since f later off with
  | _ left ih =>
    subst hleft
    have hb := dlExportBudget_spent hlimit
    obtain ⟨front, hfiles⟩ := hplace.split
    cases hmore : (dlExportPage dir q since).more with
    | false =>
      have hspends := h.spends n since hasked
      rw [hplace.files] at hspends
      refine ⟨n, since, hasked, ?_⟩
      rw [hplace.page] at hmore ⊢
      obtain ⟨front', last, hlast, hcursor⟩ := dlExportFiles_done hb hmore hspends
      have hsplit : dlExportListEpochs dir = (front ++ front') ++ [last] := by
        rw [hfiles, hlast, append_assoc]
      rw [hcursor, last_newest hnodup hnewest hmax hsplit]
    | true =>
      have hnext : dlAsked (dlExportPage dir q) (n + 1) =
          some (.exact (dlExportPage dir q since).cursor) := by
        rw [dlAsked, hasked, bind_some, if_pos hmore]
      rw [hplace.page] at hmore hnext
      rcases dlExportFiles_more_cons hb hmore with ⟨hinside, hcursor⟩ | ⟨g, hg, hcursor, hoff⟩
      · have hf : f ∈ dlExportListEpochs dir := by
          rw [hfiles]
          exact mem_append_right front mem_cons_self
        have hpos : 0 < f.epoch := by
          rcases hplace.zero with hpos | rfl
          · exact hpos
          · exact Nat.pos_of_ne_zero fun hzero => h.zero f hf hzero hinside
        have hlt := off_lt_of_ended hlimit (h.ended f hf)
          (Nat.lt_of_le_of_lt (le_dlReading f off _) hinside)
        rw [hcursor] at hnext
        exact ih _ (dlLeft_inside hlt hinside) hnext
          ⟨dlPageFiles_exact hnodup hfiles hpos _, hplace.split, Nat.le_of_lt hinside, .inl hpos⟩
          rfl
      · have hlt := hplace.lt_of_later hnodup g hg
        obtain ⟨between, back, rfl⟩ := append_of_mem hg
        have hsplit : dlExportListEpochs dir = (front ++ f :: between) ++ g :: back := by
          rw [hfiles, append_assoc, cons_append]
        have hpos : 0 < g.epoch := by omega
        generalize (dlExportFiles q f.epoch (f :: (between ++ g :: back)) off
          (dlExportBudget q.limit)).cursor = c at hnext hcursor hoff
        obtain ⟨epoch, off'⟩ := c
        obtain rfl : epoch = g.epoch := hcursor
        exact ih _ (dlLeft_later rfl hplace.off_le off') hnext
          ⟨dlPageFiles_exact hnodup hsplit hpos off', ⟨_, hsplit⟩, Nat.le_of_lt hoff, .inl hpos⟩
          rfl

theorem getsPast_of_passable (hnodup : (dir.map DlFile.epoch).Nodup) (hlimit : 1 ≤ q.limit)
    (h : DlPassable q dir) : DlGetsPast (dlExportPage dir q) dir where
  forward := forward_of_passable hnodup hlimit h
  newest := by
    intro newest hmem hmax
    have hnewest := h.listed newest hmem hmax
    obtain ⟨f, later, off, hplace⟩ := DlPlace.of_asked (q := q) hnodup
      (ne_nil_of_mem hnewest) (n := 0) rfl
    exact newest_of_passable hnodup hlimit h hnewest hmax (n := 0) rfl hplace

/-! ## What a folder that is passed has to be -/

theorem ended_of_getsPast (hnodup : (dir.map DlFile.epoch).Nodup) (hlimit : 1 ≤ q.limit)
    (h : DlGetsPast (dlExportPage dir q) dir) : ∀ f ∈ dlExportListEpochs dir, DlEnded f.text := by
  intro f hf
  by_contra htorn
  have hpos : 0 < f.text.length := by
    refine length_pos_iff.2 fun hnil => htorn (.inl hnil)
  -- the page that starts at the last byte stays in the file, and does not get behind it
  obtain ⟨later, off, hplace, hoff⟩ := DlPlace.of_cursor hnodup hf
    (c := ⟨f.epoch, f.text.length - 1⟩) rfl (Nat.sub_le _ _)
  have hlt : off < f.text.length := Nat.lt_of_le_of_lt hoff (Nat.sub_lt hpos Nat.one_pos)
  have hinside := off_lt_of_torn (q := q) htorn hlt (dlExportBudget q.limit)
  have hpage := hplace.inside hlimit hinside
  have hforward := h.forward _ hpage.1
  rw [hpage.2] at hforward
  rcases hforward with hlt | ⟨-, hlt⟩
  · exact Int.lt_irrefl _ hlt
  · change f.text.length - 1 < (dlReading q f off (dlExportBudget q.limit)).off at hlt
    omega

theorem zero_of_getsPast (hnodup : (dir.map DlFile.epoch).Nodup) (hlimit : 1 ≤ q.limit)
    (h : DlGetsPast (dlExportPage dir q) dir) :
    ∀ f ∈ dlExportListEpochs dir, f.epoch = 0 →
      ¬(dlReading q f 0 (dlExportBudget q.limit)).off < f.text.length := by
  intro f hf hzero hinside
  -- a cursor of epoch 0 starts at the first byte again
  obtain ⟨later, off, hplace, -⟩ := DlPlace.of_cursor hnodup hf
    (c := ⟨f.epoch, f.text.length⟩) rfl (Nat.le_refl _)
  obtain rfl : off = 0 := hplace.zero.resolve_left (by omega)
  have hpage := hplace.inside hlimit hinside
  have hforward := h.forward _ hpage.1
  rw [hpage.2] at hforward
  rcases hforward with hlt | ⟨-, hlt⟩
  · exact Int.lt_irrefl _ hlt
  · exact Nat.lt_asymm hlt hinside

theorem eq_of_dir (hnodup : (dir.map DlFile.epoch).Nodup) (hf : f ∈ dir) (hg : g ∈ dir)
    (hepoch : f.epoch = g.epoch) : f = g :=
  inj_on_of_nodup_map hnodup hf hg hepoch

theorem listed_of_getsPast (hnodup : (dir.map DlFile.epoch).Nodup)
    (h : DlGetsPast (dlExportPage dir q) dir) :
    ∀ f ∈ dir, (∀ g ∈ dir, g.epoch ≤ f.epoch) → f ∈ dlExportListEpochs dir := by
  intro f hf hmax
  have hsome : dlExportListEpochs dir ≠ [] := by
    intro hnil
    have hlength := congrArg List.length hnil
    rw [dlExportListEpochs, length_insertionSort, length_take, length_nil] at hlength
    have hpos := length_pos_of_mem hf
    have hsize : dlExportMaxFiles = 64 := rfl
    omega
  obtain ⟨n, since, hasked, hcursor⟩ := h.newest f hf hmax
  obtain ⟨first, later, off, hplace⟩ := DlPlace.of_asked hnodup hsome hasked
  obtain ⟨g, hg, hepoch⟩ := hplace.listed (q := q)
  rw [hcursor] at hepoch
  rw [eq_of_dir hnodup hf (dlExportListEpochs_subset hg) (Int.ofNat.inj hepoch)]
  exact hg

theorem exists_newest (hf : f ∈ dir) : ∃ g ∈ dir, ∀ f ∈ dir, f.epoch ≤ g.epoch := by
  obtain ⟨g, hg⟩ := ne_none_iff_exists'.1
    (mt argmax_eq_none.1 (ne_nil_of_mem hf) : dir.argmax DlFile.epoch ≠ none)
  exact ⟨g, argmax_mem hg, fun f hf => le_of_mem_argmax hf hg⟩

theorem spends_of_getsPast (hnodup : (dir.map DlFile.epoch).Nodup) (hlimit : 1 ≤ q.limit)
    (h : DlGetsPast (dlExportPage dir q) dir)
    (hasked : dlAsked (dlExportPage dir q) n = some since) :
    ¬DlSpends q (dlPageFiles dir since).1 (dlPageFiles dir since).2
      (dlExportBudget q.limit) := by
  intro hspends
  have hsome : dlExportListEpochs dir ≠ [] := by
    intro hnil
    rw [dlPageFiles, hnil] at hspends
    rw [drop_nil] at hspends
    exact hspends
  obtain ⟨f, later, off, hplace⟩ := DlPlace.of_asked hnodup hsome hasked
  rw [hplace.files] at hspends
  obtain ⟨hmore, front', g, back, hfiles, hback, hcursor⟩ := hplace.spends hlimit hspends
  -- a file comes after the one the client stops at
  obtain ⟨next, back, rfl⟩ := exists_cons_of_ne_nil hback
  obtain ⟨front, hlist⟩ := hplace.split
  have hsorted := dlExportListEpochs_sorted hnodup
  have hnext : next ∈ dlExportListEpochs dir := by
    rw [hlist, hfiles]
    exact mem_append_right _ (mem_append_right _ (mem_cons_of_mem g mem_cons_self))
  rw [hlist, hfiles] at hsorted
  have hlt : g.epoch < next.epoch :=
    (pairwise_cons.1 (pairwise_append.1 (pairwise_append.1 hsorted).2.1).2.1).1
      next mem_cons_self
  obtain ⟨newest, hnewest, hmax⟩ := exists_newest (dlExportListEpochs_subset hnext)
  have hle := hmax next (dlExportListEpochs_subset hnext)
  -- but the client was at the newest file before, and cursors do not go back
  obtain ⟨m, since', hasked', hepoch⟩ := h.newest newest hnewest hmax
  obtain ⟨k, rfl⟩ := Nat.exists_eq_add_of_le (dlAsked_last hasked hmore hasked')
  obtain ⟨since'', hasked'', hmono⟩ := dlAsked_mono hnodup k hasked
  obtain rfl : since'' = since' := some.inj (hasked''.symm.trans hasked')
  omega

theorem passable_of_getsPast (hnodup : (dir.map DlFile.epoch).Nodup) (hlimit : 1 ≤ q.limit)
    (h : DlGetsPast (dlExportPage dir q) dir) : DlPassable q dir where
  ended := ended_of_getsPast hnodup hlimit h
  listed := listed_of_getsPast hnodup h
  zero := zero_of_getsPast hnodup hlimit h
  spends := fun _ _ hasked => spends_of_getsPast hnodup hlimit h hasked

/-- **The export gets past damaged files** if and only if no file that is listed is
torn, the newest file is listed, a file of epoch 0 fits into a page, and no page spends
its budget as it finishes a file that another one follows. -/
theorem export_getsPast (hnodup : (dir.map DlFile.epoch).Nodup) (csv : Bool) (r : DlExportRequest)
    (hstream : r.stream.all (· = "params") = true) :
    (∀ since, r.get csv dir since = .ok (dlExportPage dir (r.query csv) since)) ∧
      (DlGetsPast (dlExportPage dir (r.query csv)) dir ↔ DlPassable (r.query csv) dir) := by
  have hlimit : 1 ≤ (r.query csv).limit := dlExportLimit_pos r.limit
  exact ⟨get_ok csv dir hstream, passable_of_getsPast hnodup hlimit,
    getsPast_of_passable hnodup hlimit⟩

/-- A request for whole pages. -/
def wholePages : DlExportRequest := { stream := none, since := .start, limit := none, name := [] }

/-- A file of three rows and one of one row come in one page. -/
theorem export_getsPast_two :
    DlGetsPast (dlExportPage [csvThree.file, (csvFile 2).file] (wholePages.query true))
      [csvThree.file, (csvFile 2).file] := by
  have hmore : (dlExportPage [csvThree.file, (csvFile 2).file] (wholePages.query true)
      .start).more = false := by
    decide +kernel
  refine ((export_getsPast (by decide) true wholePages rfl).2).2 ⟨?_, ?_, ?_, ?_⟩
  · decide
  · intro f hf _
    exact hf
  · decide
  · intro n since hasked
    obtain rfl : n = 0 := Nat.le_zero.1 (dlAsked_last (n := 0) rfl hmore hasked)
    obtain rfl := some.inj hasked
    have hiff := @dlSpends_iff_spent (wholePages.query true) [csvFile 2] csvThree _ suffix_rfl
      (dlExportBudget (wholePages.query true).limit)
    intro hspends
    obtain ⟨f, hf⟩ := hiff.1 hspends
    cases hf

/-- A file whose last row was cut by a power cut, and the one opened after it. -/
def tornFolder : List DlFile :=
  [{ epoch := 1, text := csvRow ++ asciiBytes "2,a" }, (csvFile 2).file]

/-- A client asks for the tail of the first file for ever. -/
theorem export_stays :
    (∀ n, dlAsked (dlExportPage tornFolder (wholePages.query true)) (n + 1) =
      some (.exact ⟨1, 8⟩)) ∧
    ¬DlGetsPast (dlExportPage tornFolder (wholePages.query true)) tornFolder := by
  have hfirst : (dlExportPage tornFolder (wholePages.query true) .start).more = true ∧
      (dlExportPage tornFolder (wholePages.query true) .start).cursor = ⟨1, 8⟩ := by
    decide +kernel
  have hagain : (dlExportPage tornFolder (wholePages.query true) (.exact ⟨1, 8⟩)).more = true ∧
      (dlExportPage tornFolder (wholePages.query true) (.exact ⟨1, 8⟩)).cursor = ⟨1, 8⟩ := by
    decide +kernel
  constructor
  · intro n
    induction n with
    | zero => rw [dlAsked, dlAsked, bind_some, if_pos hfirst.1, hfirst.2]
    | succ n ih => rw [dlAsked, ih, bind_some, if_pos hagain.1, hagain.2]
  · intro h
    have hforward := h.forward ⟨1, 8⟩ hagain.1
    rw [hagain.2] at hforward
    rcases hforward with hlt | ⟨-, hlt⟩
    · exact Int.lt_irrefl _ hlt
    · exact Nat.lt_irrefl _ hlt

end Meatpi
