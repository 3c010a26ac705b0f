import Meatpi.DataLogger.Export

/-!
# A page, line by line

A page of the export is made of windows, which cut a file anywhere. What it does to
a file of complete lines can be said without them: `takeLines` goes from line to
line, and each line costs its length and, when it goes out, one of the lines.
-/

namespace Meatpi

open List

variable {b : DlBudget} {lines : List (List UInt8)} {line : List UInt8}

/-! ## Lines -/

/-- A line with its end, short enough for one window. -/
def DlIsLine (line : List UInt8) : Prop :=
  (∃ body, line = body ++ [10] ∧ 10 ∉ body) ∧ line.length ≤ dlExportWindowSize

/-- A closed log file, as its lines. -/
structure DlLogged where
  epoch : ℕ
  lines : List (List UInt8)
  isLine : ∀ line ∈ lines, DlIsLine line

/-- The file on the card. -/
def DlLogged.file (f : DlLogged) : DlFile := { epoch := f.epoch, text := f.lines.flatten }

theorem DlIsLine.length_pos (h : DlIsLine line) : 0 < line.length := by
  obtain ⟨⟨body, rfl, _⟩, _⟩ := h
  rw [List.length_append]
  exact Nat.succ_pos _

/-- What a page takes of the lines of a file. -/
structure DlTaken where
  sent : List (List UInt8)
  left : List (List UInt8)
  budget : DlBudget

/-- Lines that went out before. -/
def DlTaken.after (sent : List (List UInt8)) (r : DlTaken) : DlTaken :=
  { r with sent := sent ++ r.sent }

/-- A page takes the lines of a file one by one, until a budget is spent, the next
line is too long for what may be read, or it has to open the next page. -/
def takeLines (q : DlExportQuery) : List (List UInt8) → DlBudget → DlTaken
  | [], b => { sent := [], left := [], budget := b }
  | line :: lines, b =>
    if b.spent ∨ b.scan < line.length then
      { sent := [], left := line :: lines, budget := b }
    else if q.sends line then
      if b.bytes < line.length ∧ b.lines < q.limit then
        { sent := [], left := line :: lines, budget := b }
      else
        (takeLines q lines
          { lines := b.lines - 1, bytes := b.bytes - line.length, scan := b.scan - line.length }
          ).after [line]
    else
      takeLines q lines { b with scan := b.scan - line.length }

variable {q : DlExportQuery}

@[simp] theorem DlTaken.after_sent (sent : List (List UInt8)) (r : DlTaken) :
    (r.after sent).sent = sent ++ r.sent := rfl

@[simp] theorem DlTaken.after_left (sent : List (List UInt8)) (r : DlTaken) :
    (r.after sent).left = r.left := rfl

@[simp] theorem DlTaken.after_nil (r : DlTaken) : r.after [] = r := rfl

@[simp] theorem DlTaken.after_after (sent sent' : List (List UInt8)) (r : DlTaken) :
    (r.after sent').after sent = r.after (sent ++ sent') := by
  rw [after, after, after, append_assoc]

theorem spent_eq_false : b.spent = false ↔ 0 < b.lines ∧ 0 < b.bytes ∧ 0 < b.scan := by
  simp [DlBudget.spent, and_assoc]

theorem takeLines_spent (h : b.spent = true) (lines : List (List UInt8)) :
    takeLines q lines b = { sent := [], left := lines, budget := b } := by
  cases lines with
  | nil => rfl
  | cons line lines => rw [takeLines, if_pos (Or.inl h)]

theorem takeLines_splits (lines : List (List UInt8)) (b : DlBudget) :
    ∃ taken, lines = taken ++ (takeLines q lines b).left ∧
      (takeLines q lines b).sent = taken.filter q.sends := by
  induction lines generalizing b with
  | nil => exact ⟨[], rfl, rfl⟩
  | cons line lines ih =>
    rw [takeLines]
    split
    · exact ⟨[], rfl, rfl⟩
    · split
      · rename_i hsends
        split
        · exact ⟨[], rfl, rfl⟩
        · obtain ⟨taken, hlines, hsent⟩ := ih { lines := b.lines - 1, bytes := _, scan := _ }
          refine ⟨line :: taken, congrArg (line :: ·) hlines, ?_⟩
          rw [DlTaken.after_sent, hsent, filter_cons_of_pos hsends]
          rfl
      · rename_i hsends
        obtain ⟨taken, hlines, hsent⟩ := ih { b with scan := _ }
        refine ⟨line :: taken, congrArg (line :: ·) hlines, ?_⟩
        rw [hsent, filter_cons_of_neg hsends]

theorem takeLines_first (hline : DlIsLine line) (hb : b.spent = false) (hfresh : b.lines = q.limit)
    (hscan : (dlExportWindowSize : ℤ) ≤ b.scan) :
    (takeLines q (line :: lines) b).left.length ≤ lines.length := by
  have hfits : ¬(b.spent = true ∨ b.scan < line.length) := by
    rw [hb]
    have := hline.2
    simp only [Bool.false_eq_true, false_or]
    omega
  rw [takeLines, if_neg hfits]
  have hleft : ∀ b', (takeLines q lines b').left.length ≤ lines.length := by
    intro b'
    obtain ⟨taken, hlines, _⟩ := takeLines_splits (q := q) lines b'
    have hlen := congrArg List.length hlines
    rw [List.length_append] at hlen
    omega
  split
  · rw [if_neg (fun h => by omega)]
    exact hleft _
  · exact hleft _

/-! ## The walk -/

theorem dlExportWalk_line {body : List UInt8} (hbody : 10 ∉ body) (buf : List UInt8) (w : DlWalk)
    (line : List UInt8) :
    dlExportWalk q line (body ++ 10 :: buf) w =
      if (dlExportLine q (line ++ body ++ [10]) w).stop then
        dlExportLine q (line ++ body ++ [10]) w
      else
        dlExportWalk q [] buf (dlExportLine q (line ++ body ++ [10]) w) := by
  induction body generalizing line with
  | nil => rw [List.append_nil, nil_append, dlExportWalk, if_pos rfl]
  | cons c body ih =>
    obtain ⟨hc, hbody⟩ := ne_and_not_mem_of_not_mem_cons hbody
    rw [cons_append, dlExportWalk, if_neg (Ne.symm hc), ih hbody, append_assoc line,
      singleton_append]

theorem dlExportWalk_begun {buf : List UInt8} (hbuf : 10 ∉ buf) (w : DlWalk) (line : List UInt8) :
    dlExportWalk q line buf w = w := by
  induction buf generalizing line with
  | nil => rfl
  | cons c buf ih =>
    obtain ⟨hc, hbuf⟩ := ne_and_not_mem_of_not_mem_cons hbuf
    rw [dlExportWalk, if_neg (Ne.symm hc), ih hbuf]

theorem takes_of_fits {n : ℕ} {scan : ℤ} (hlines : 0 < b.lines) (hbytes : 0 < b.bytes)
    (hpos : 0 < line.length) (hfits : line.length ≤ n) (hscan : n ≤ scan) :
    ¬(DlBudget.spent { b with scan := scan } = true ∨ scan < line.length) := by
  intro h
  rcases h with h | h
  · rw [← Bool.not_eq_false, spent_eq_false] at h
    exact h ⟨hlines, hbytes, by dsimp only; omega⟩
  · omega

theorem dlExportLine_goes {w : DlWalk} (hlines : 0 < w.budget.lines) (hbytes : 0 < w.budget.bytes)
    (hgoes : (dlExportLine q line w).stop = false) :
    0 < (dlExportLine q line w).budget.lines ∧ 0 < (dlExportLine q line w).budget.bytes := by
  rw [dlExportLine] at hgoes ⊢
  split at hgoes
  · rename_i hsends
    rw [if_pos hsends]
    split at hgoes
    · cases hgoes
    · rename_i hroom
      rw [if_neg hroom]
      simp only [Bool.or_eq_false_iff, decide_eq_false_iff_not] at hgoes
      dsimp only
      omega
  · rename_i hsends
    rw [if_neg hsends]
    exact ⟨hlines, hbytes⟩

/-- The lines of a window are walked through: some are `taken`, others are `left`. -/
structure Walked (q : DlExportQuery) (n : ℕ) (lines : List (List UInt8)) (w w' : DlWalk)
    (taken left : List (List UInt8)) : Prop where
  split : lines = taken ++ left
  consumed : w'.consumed = w.consumed + taken.flatten.length
  sent : w'.sent = w.sent ++ taken.filter q.sends
  scan : w'.budget.scan = w.budget.scan
  /-- a page that may read the whole window takes these lines -/
  takes : ∀ scan : ℤ, n ≤ scan →
    takeLines q lines { w.budget with scan := scan } =
      (if w'.stop then
          { sent := []
            left := left
            budget := { w'.budget with scan := scan - taken.flatten.length } }
        else
          takeLines q left { w'.budget with scan := scan - taken.flatten.length }).after
        (taken.filter q.sends)
  /-- without a stop, what is left does not fit the window -/
  next : w'.stop = false → left = [] ∨ ∃ line later, left = line :: later ∧
    n < taken.flatten.length + line.length

theorem Walked.cons {n : ℕ} {line : List UInt8} {lines taken left : List (List UInt8)}
    {w w' : DlWalk} (hwalk : Walked q (n - line.length) lines (dlExportLine q line w) w' taken left)
    (hfits : line.length ≤ n) (hpos : 0 < line.length) (hlines : 0 < w.budget.lines)
    (hbytes : 0 < w.budget.bytes) (hgoes : (dlExportLine q line w).stop = false) :
    Walked q n (line :: lines) w w' (line :: taken) left := by
  have hlength : ((line :: taken).flatten).length = line.length + taken.flatten.length := by
    rw [flatten_cons, List.length_append]
  have hspent := fun (scan : ℤ) (hscan : n ≤ scan) =>
    takes_of_fits hlines hbytes hpos hfits hscan
  obtain ⟨hsplit, hconsumed, hsent, hscan', htakes, hnext⟩ := hwalk
  have hscans : ∀ scan : ℤ, scan - ((line :: taken).flatten.length : ℤ) =
      scan - line.length - taken.flatten.length := by
    intro scan
    omega
  have hthen : ∀ h : w'.stop = false, left = [] ∨ ∃ line' later, left = line' :: later ∧
      n < (line :: taken).flatten.length + line'.length := by
    intro h
    rcases hnext h with hnil | ⟨line', later, hleft, hlong⟩
    · exact Or.inl hnil
    · exact Or.inr ⟨line', later, hleft, by omega⟩
  rw [dlExportLine] at hgoes hconsumed hsent hscan' htakes
  cases hsends : q.sends line with
  | true =>
    rw [hsends, if_pos rfl] at hgoes hconsumed hsent hscan' htakes
    split at hgoes
    · cases hgoes
    · rename_i hroom
      rw [if_neg hroom] at hconsumed hsent hscan' htakes
      refine ⟨congrArg (line :: ·) hsplit, ?_, ?_, hscan', ?_, hthen⟩
      · rw [hconsumed, hlength, Nat.add_assoc]
      · rw [hsent, filter_cons_of_pos hsends, append_assoc, singleton_append]
      · intro scan hscan
        rw [takeLines, if_neg (hspent scan hscan), if_pos hsends, if_neg hroom,
          htakes (scan - line.length) (by omega), DlTaken.after_after, hscans,
          filter_cons_of_pos hsends, singleton_append]
  | false =>
    rw [hsends, if_neg Bool.false_ne_true] at hgoes hconsumed hsent hscan' htakes
    have hskip := Bool.eq_false_iff.mp hsends
    refine ⟨congrArg (line :: ·) hsplit, ?_, ?_, hscan', ?_, hthen⟩
    · rw [hconsumed, hlength, Nat.add_assoc]
    · rw [hsent, filter_cons_of_neg hskip]
    · intro scan hscan
      rw [takeLines, if_neg (hspent scan hscan), if_neg hskip,
        htakes (scan - line.length) (by omega), hscans, filter_cons_of_neg hskip]

theorem Walked.last {n : ℕ} {line : List UInt8} {w : DlWalk} (hfits : line.length ≤ n)
    (hpos : 0 < line.length) (hlines : 0 < w.budget.lines) (hbytes : 0 < w.budget.bytes)
    (hstop : (dlExportLine q line w).stop = true) (lines : List (List UInt8)) :
    ∃ taken left, Walked q n (line :: lines) w (dlExportLine q line w) taken left := by
  have hspent := fun (scan : ℤ) (hscan : n ≤ scan) =>
    takes_of_fits hlines hbytes hpos hfits hscan
  rw [dlExportLine] at hstop ⊢
  cases hsends : q.sends line with
  | true =>
    rw [hsends, if_pos rfl] at hstop
    rw [if_pos rfl]
    split at hstop
    · rename_i hroom
      -- the line opens the next page
      rw [if_pos hroom]
      refine ⟨[], line :: lines, rfl, rfl, (List.append_nil _).symm, rfl, ?_, fun h => by cases h⟩
      intro scan hscan
      rw [takeLines, if_pos hsends, if_pos hroom]
      simp
    · rename_i hroom
      rw [if_neg hroom]
      refine ⟨[line], lines, rfl, ?_, ?_, rfl, ?_, fun h => by rw [hstop] at h; cases h⟩
      · simp
      · rw [filter_cons_of_pos hsends, filter_nil]
      · intro scan hscan
        rw [takeLines, if_neg (hspent scan hscan), if_pos hsends, if_neg hroom, if_pos hstop,
          filter_cons_of_pos hsends, takeLines_spent]
        · simp
        · rw [← Bool.not_eq_false, spent_eq_false]
          simp only [Bool.or_eq_true, decide_eq_true_eq] at hstop
          dsimp only
          omega
  | false =>
    rw [hsends, if_neg Bool.false_ne_true] at hstop
    simp only [Bool.or_eq_true, decide_eq_true_eq] at hstop
    omega

/-- **The walk, line by line.** -/
theorem dlExportWalk_walked (hlines : ∀ line ∈ lines, DlIsLine line) (n : ℕ) (w : DlWalk)
    (hgoes : w.stop = false) (hleft : 0 < w.budget.lines) (hbytes : 0 < w.budget.bytes) :
    ∃ taken left, Walked q n lines w (dlExportWalk q [] (lines.flatten.take n) w) taken left := by
  induction lines generalizing n w with
  | nil =>
    refine ⟨[], [], rfl, ?_, ?_, ?_, ?_, fun _ => Or.inl rfl⟩
    all_goals rw [flatten_nil, take_nil, dlExportWalk]
    · rfl
    · exact (List.append_nil _).symm
    · intro scan _
      rw [hgoes]
      simp
  | cons line lines ih =>
    obtain ⟨hline, hrest⟩ := forall_mem_cons.mp hlines
    have hpos := hline.length_pos
    obtain ⟨⟨body, rfl, hbody⟩, _⟩ := hline
    by_cases hfits : (body ++ [10]).length ≤ n
    · have hwindow : (((body ++ [10]) :: lines).flatten).take n =
          body ++ 10 :: lines.flatten.take (n - (body ++ [10]).length) := by
        rw [flatten_cons, take_append, take_of_length_le hfits, append_assoc, singleton_append]
      rw [hwindow, dlExportWalk_line hbody, nil_append]
      cases hstop : (dlExportLine q (body ++ [10]) w).stop with
      | true =>
        exact Walked.last hfits hpos hleft hbytes hstop lines
      | false =>
        have hstays := dlExportLine_goes hleft hbytes hstop
        obtain ⟨taken, left, hwalk⟩ := ih hrest (n - (body ++ [10]).length) _ hstop hstays.1
          hstays.2
        exact ⟨_, left, hwalk.cons hfits hpos hleft hbytes hstop⟩
    · have hwindow : 10 ∉ (((body ++ [10]) :: lines).flatten).take n := by
        rw [List.length_append, length_singleton] at hfits
        rw [flatten_cons, append_assoc, take_append_of_le_length (by omega)]
        intro h
        exact hbody (mem_of_mem_take h)
      rw [dlExportWalk_begun hwindow]
      refine ⟨[], _, rfl, rfl, (List.append_nil _).symm, rfl, ?_, ?_⟩
      · intro scan _
        rw [hgoes]
        simp
      · intro _
        refine Or.inr ⟨_, _, rfl, ?_⟩
        rw [flatten_nil, length_nil, Nat.zero_add]
        exact Nat.lt_of_not_le hfits

/-! ## The windows of a file -/

theorem flatten_eq_nil (hlines : ∀ line ∈ lines, DlIsLine line) (h : lines.flatten = []) :
    lines = [] := by
  cases lines with
  | nil => rfl
  | cons line lines =>
    have hpos := (hlines line mem_cons_self).length_pos
    rw [flatten_cons, append_eq_nil_iff] at h
    rw [h.1] at hpos
    cases hpos

theorem dlExportWindow_takes (hlines : ∀ line ∈ lines, DlIsLine line) (hb : b.spent = false)
    (hsome : lines ≠ []) :
    ∃ taken left, lines = taken ++ left ∧
      (dlExportWindow q lines.flatten b).consumed = taken.flatten.length ∧
      (dlExportWindow q lines.flatten b).sent = (taken.filter q.sends).map .row ∧
      ((dlExportWindow q lines.flatten b).leave = false → taken ≠ []) ∧
      takeLines q lines b =
        (if (dlExportWindow q lines.flatten b).leave then
            { sent := []
              left := left
              budget := (dlExportWindow q lines.flatten b).budget }
          else
            takeLines q left (dlExportWindow q lines.flatten b).budget).after
          (taken.filter q.sends) := by
  obtain ⟨hl, hby, hsc⟩ := spent_eq_false.mp hb
  rw [dlExportWindow]
  set n := min (min dlExportWindowSize lines.flatten.length) b.scan.toNat with hn
  obtain ⟨taken, left, hwalk⟩ := dlExportWalk_walked (q := q) hlines n
    { consumed := 0, stop := false, budget := b, sent := [] } rfl hl hby
  generalize dlExportWalk q [] (lines.flatten.take n)
    { consumed := 0, stop := false, budget := b, sent := [] } = w' at hwalk
  obtain ⟨hsplit, hconsumed, hsent, hscan, htakes, hnext⟩ := hwalk
  have hreads : (n : ℤ) ≤ b.scan := by omega
  have htakes := htakes b.scan hreads
  rw [Nat.zero_add] at hconsumed
  split
  · rename_i hnothing
    obtain ⟨hzero, hgoes⟩ := hnothing
    rw [Bool.not_eq_true] at hgoes
    rw [hzero] at hconsumed
    have htaken : taken = [] := by
      refine flatten_eq_nil (fun line h => hlines line ?_) (length_eq_zero_iff.mp hconsumed.symm)
      rw [hsplit]
      exact List.mem_append_left _ h
    subst htaken
    subst hsplit
    obtain ⟨line, later, hleft, hlong⟩ := (hnext hgoes).resolve_left hsome
    have hline := hlines line (hleft ▸ mem_cons_self)
    have htotal : line.length ≤ lines.flatten.length := by
      rw [hleft, flatten_cons, List.length_append]
      exact Nat.le_add_right _ _
    -- the line fits every window that the budget allows
    have hscan' : b.scan < line.length := by
      have := hline.2
      omega
    rw [if_neg (fun h => by have := hline.2; omega)]
    have hbudget : { w'.budget with scan := b.scan - (([] : List UInt8).length : ℤ) } =
        w'.budget := by
      rw [length_nil, Int.natCast_zero, Int.sub_zero, ← hscan]
    refine ⟨[], lines, rfl, rfl, rfl, fun h => Bool.noConfusion h, ?_⟩
    rw [htakes, hgoes, if_neg Bool.false_ne_true, if_pos rfl, flatten_nil, hbudget]
    rw [hleft, takeLines, if_pos (Or.inr (hscan ▸ hscan'))]
  · rename_i hsomething
    have hbudget : { w'.budget with scan := b.scan - (taken.flatten.length : ℤ) } =
        { w'.budget with scan := w'.budget.scan - (w'.consumed : ℤ) } := by
      rw [hconsumed, hscan]
    refine ⟨taken, left, hsplit, hconsumed, congrArg (List.map _) hsent, ?_, ?_⟩
    · rintro hgoes rfl
      exact hsomething ⟨hconsumed, Bool.eq_false_iff.mp hgoes⟩
    · rw [htakes, hbudget]

/-- **The windows of a file, line by line.** -/
theorem dlExportWindows_takes (fuel : ℕ) (hlines : ∀ line ∈ lines, DlIsLine line)
    (hfuel : lines.flatten.length < fuel) (off : ℕ) (b : DlBudget) :
    (dlExportWindows q fuel lines.flatten off b).budget = (takeLines q lines b).budget ∧
      (dlExportWindows q fuel lines.flatten off b).sent = (takeLines q lines b).sent.map .row ∧
      (dlExportWindows q fuel lines.flatten off b).off +
        (takeLines q lines b).left.flatten.length = off + lines.flatten.length := by
  induction fuel generalizing lines off b with
  | zero => cases hfuel
  | succ fuel ih =>
    rw [dlExportWindows]
    split
    · rename_i hends
      have hstays : takeLines q lines b = { sent := [], left := lines, budget := b } := by
        rcases hends with hspent | hnil
        · exact takeLines_spent hspent lines
        · rw [flatten_eq_nil hlines hnil]
          rfl
      rw [hstays]
      exact ⟨rfl, rfl, rfl⟩
    · rename_i hgoes
      rw [not_or, Bool.not_eq_true] at hgoes
      obtain ⟨hb, hsome⟩ := hgoes
      obtain ⟨taken, left, rfl, hconsumed, hsent, hleave, htakes⟩ :=
        dlExportWindow_takes (q := q) hlines hb (fun h => hsome (h ▸ rfl))
      have hlength : (taken ++ left).flatten.length =
          taken.flatten.length + left.flatten.length := by
        rw [List.flatten_append, List.length_append]
      have hrest : (taken ++ left).flatten.drop taken.flatten.length = left.flatten := by
        rw [List.flatten_append, List.drop_left]
      dsimp only
      rw [htakes, hconsumed, hsent, hrest]
      split
      · refine ⟨rfl, ?_, ?_⟩
        · rw [DlTaken.after_sent, List.append_nil]
        · rw [DlTaken.after_left, hlength, Nat.add_assoc]
      · rename_i hstop
        have htaken : 0 < taken.flatten.length := by
          refine List.length_pos_iff.mpr fun h => hleave (Bool.eq_false_iff.mpr hstop) ?_
          exact flatten_eq_nil (fun line hmem => hlines line (List.mem_append_left _ hmem)) h
        obtain ⟨hbudget, hrows, hoff⟩ := ih
          (fun line hmem => hlines line (List.mem_append_right _ hmem)) (by omega)
          (off + taken.flatten.length) (dlExportWindow q (taken ++ left).flatten b).budget
        refine ⟨hbudget, ?_, ?_⟩
        · rw [hrows, DlTaken.after_sent, List.map_append]
        · rw [DlTaken.after_left, hoff, hlength, Nat.add_assoc]

end Meatpi
