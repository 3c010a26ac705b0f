import Meatpi.DataLogger.Pages

/-!
# Paging through the log

A client takes pages until `more` is false, each from the cursor of the one before.
Whether it gets every row once is a matter of where the pages end: the cursor names
a place inside a file well, but when a budget is spent with the last line of a file
the page says that nothing more comes, with a cursor at the start of that file.
-/

namespace Meatpi

open List

variable {r : DlReading} {left : List (List UInt8)}

/-! ## Where a page stands and ends -/

/-- A place in the log: a file, its lines that are still to be read, and the files
after it. -/
structure DlPos where
  file : DlLogged
  left : List (List UInt8)
  later : List DlLogged

/-- How a page ends. -/
inductive DlPageEnd where
  /-- with lines of a file left -/
  | inside (pos : DlPos)
  /-- with a file, its last line having spent a budget; other files follow -/
  | spent (file : DlLogged)
  /-- with the newest file -/
  | done (file : DlLogged)

/-- The budget after the line ahead of a file. -/
def DlBudget.named (q : DlExportQuery) (f : DlLogged) (b : DlBudget) : DlBudget :=
  { b with bytes := b.bytes - (dlExportFileLine q.csv f.epoch).length }

/-- A page from a place on, file by file: the lines that go out, and how it ends. -/
def takeFiles (q : DlExportQuery) :
    DlLogged → List (List UInt8) → List DlLogged → DlBudget → List (List UInt8) × DlPageEnd
  | file, left, [], b =>
    let r := takeLines q left (b.named q file)
    (r.sent, if r.left = [] then .done file else .inside ⟨file, r.left, []⟩)
  | file, left, next :: later, b =>
    let r := takeLines q left (b.named q file)
    if r.left = [] then
      if r.budget.spent then
        (r.sent, .spent file)
      else
        let page := takeFiles q next next.lines later r.budget
        (r.sent ++ page.1, page.2)
    else
      (r.sent, .inside ⟨file, r.left, next :: later⟩)

/-- The page of a client at a place. -/
def DlPos.page (q : DlExportQuery) (pos : DlPos) : List (List UInt8) × DlPageEnd :=
  takeFiles q pos.file pos.left pos.later (dlExportBudget q.limit)

/-- The offset of a place in its file. -/
def DlPos.off (pos : DlPos) : ℕ := pos.file.lines.flatten.length - pos.left.flatten.length

/-- The rows that are still to come at a place. -/
def DlPos.rows (q : DlExportQuery) (pos : DlPos) : List (List UInt8) :=
  (pos.left ++ pos.later.flatMap DlLogged.lines).filter q.sends

/-- What is left to read at a place. -/
def DlPos.size (pos : DlPos) : ℕ :=
  pos.left.length + (pos.later.map fun f => f.lines.length + 1).sum

/-- The end of a file. -/
def DlLogged.last (f : DlLogged) : DlCursor := ⟨f.epoch, f.lines.flatten.length⟩

/-- The cursor of a page. -/
def DlPageEnd.cursor : DlPageEnd → DlCursor
  | .inside pos => ⟨pos.file.epoch, pos.off⟩
  | .spent file => ⟨file.epoch, 0⟩
  | .done file => file.last

/-- The `more` of a page. -/
def DlPageEnd.more : DlPageEnd → Bool
  | .inside _ => true
  | _ => false

/-- The row in a chunk. -/
def DlExportChunk.row? : DlExportChunk → Option (List UInt8)
  | .file _ => none
  | .row line => some line
  | .raw window => some window

/-- The rows of a page, as the client gets them. -/
def DlExportPage.rows (page : DlExportPage) : List (List UInt8) := page.sent.filterMap (·.row?)

variable {q : DlExportQuery}

theorem filterMap_row (lines : List (List UInt8)) :
    (lines.map DlExportChunk.row).filterMap (·.row?) = lines := by
  rw [filterMap_map]
  exact filterMap_some

theorem rows_file_append (head : List UInt8) (sent sent' : List DlExportChunk) (cursor : DlCursor)
    (more : Bool) :
    DlExportPage.rows { sent := .file head :: sent ++ sent', cursor := cursor, more := more } =
      sent.filterMap (·.row?) ++ sent'.filterMap (·.row?) := by
  rw [DlExportPage.rows, cons_append, filterMap_cons_none rfl, filterMap_append]

variable {file : DlLogged}

theorem reading_takes (hleft : left <:+ file.lines)
    (b : DlBudget)
    (hr : dlExportWindows q (file.file.text.length + 1)
      (file.file.text.drop (file.lines.flatten.length - left.flatten.length))
      (file.lines.flatten.length - left.flatten.length) b = r) :
    r.budget = (takeLines q left b).budget ∧
      r.sent.filterMap (·.row?) = (takeLines q left b).sent ∧
      r.off = file.lines.flatten.length - (takeLines q left b).left.flatten.length ∧
      (r.off < file.file.text.length ↔ (takeLines q left b).left ≠ []) := by
  obtain ⟨front, hfront⟩ := hleft
  have hlines : ∀ line ∈ left, DlIsLine line := by
    intro line hmem
    exact file.isLine line (hfront ▸ mem_append_right _ hmem)
  have hlength : file.lines.flatten.length = front.flatten.length + left.flatten.length := by
    rw [← hfront, flatten_append, length_append]
  have hdrop : file.file.text.drop (file.lines.flatten.length - left.flatten.length) =
      left.flatten := by
    rw [hlength, Nat.add_sub_cancel, DlLogged.file, ← hfront, flatten_append, drop_left]
  rw [hdrop] at hr
  obtain ⟨hbudget, hsent, hoff⟩ := dlExportWindows_takes (q := q) (file.file.text.length + 1) hlines
    (by
      change left.flatten.length < file.lines.flatten.length + 1
      omega)
    (file.lines.flatten.length - left.flatten.length) b
  rw [hr] at hbudget hsent hoff
  obtain ⟨taken, hsplit, _⟩ := takeLines_splits (q := q) left b
  have hfew : left.flatten.length =
      taken.flatten.length + (takeLines q left b).left.flatten.length := by
    rw [← length_append, ← flatten_append, ← hsplit]
  refine ⟨hbudget, ?_, by omega, ?_⟩
  · rw [hsent, filterMap_row]
  · have htext : file.file.text.length = file.lines.flatten.length := rfl
    constructor
    · intro hlt hnil
      rw [hnil] at hoff hfew
      rw [flatten_nil, length_nil] at hoff hfew
      omega
    · intro hsome
      have hpos : 0 < (takeLines q left b).left.flatten.length := by
        refine length_pos_iff.mpr fun h => hsome (flatten_eq_nil (fun line hmem => ?_) h)
        refine hlines line ?_
        rw [hsplit]
        exact mem_append_right _ hmem
      omega

variable {b : DlBudget}

theorem dlExportFiles_cons (epoch : ℤ) (file : DlLogged) (later : List DlFile) {off : ℕ}
    (hb : b.spent = false)
    (hr : dlExportWindows q (file.file.text.length + 1) (file.file.text.drop off) off
      (b.named q file) = r) :
    dlExportFiles q epoch (file.file :: later) off b =
      if r.off < file.file.text.length then
        { sent := .file (dlExportFileLine q.csv file.epoch) :: r.sent
          cursor := ⟨file.epoch, r.off⟩
          more := true }
      else if later.isEmpty then
        { sent := .file (dlExportFileLine q.csv file.epoch) :: r.sent
          cursor := ⟨file.epoch, r.off⟩
          more := false }
      else
        { dlExportFiles q file.epoch later 0 r.budget with
          sent := .file (dlExportFileLine q.csv file.epoch) :: r.sent ++
            (dlExportFiles q file.epoch later 0 r.budget).sent } := by
  rw [dlExportFiles, hb, ← hr]
  rfl

/-- **A page, file by file.** The rows, the cursor and `more` of a page are those of
the lines taken. -/
theorem dlExportFiles_takes (epoch : ℤ) (later : List DlLogged) (file : DlLogged)
    (left : List (List UInt8)) (hleft : left <:+ file.lines) (hb : b.spent = false)
    {page : DlExportPage}
    (hpage : dlExportFiles q epoch (file.file :: later.map DlLogged.file)
      (file.lines.flatten.length - left.flatten.length) b = page) :
    page.rows = (takeFiles q file left later b).1 ∧
      page.cursor = (takeFiles q file left later b).2.cursor ∧
      page.more = (takeFiles q file left later b).2.more := by
  induction later generalizing epoch file left b page with
  | nil =>
    obtain ⟨_, hsent, hoff, hends⟩ := reading_takes hleft (b.named q file) rfl
    rw [dlExportFiles_cons epoch file _ hb rfl] at hpage
    subst hpage
    rw [takeFiles]
    by_cases hnil : (takeLines q left (b.named q file)).left = []
    · rw [if_neg (fun h => hends.mp h hnil), if_pos hnil]
      refine ⟨hsent, ?_, rfl⟩
      rw [hoff, hnil]
      rfl
    · rw [if_pos (hends.mpr hnil), if_neg hnil]
      exact ⟨hsent, congrArg (DlCursor.mk _) hoff, rfl⟩
  | cons next later ih =>
    obtain ⟨hbudget, hsent, hoff, hends⟩ := reading_takes hleft (b.named q file) rfl
    rw [dlExportFiles_cons epoch file _ hb rfl] at hpage
    subst hpage
    rw [takeFiles]
    by_cases hnil : (takeLines q left (b.named q file)).left = []
    · rw [if_neg (fun h => hends.mp h hnil), if_neg (fun h => by cases h), if_pos hnil, hbudget]
      cases hspent : (takeLines q left (b.named q file)).budget.spent with
      | true =>
        rw [if_pos rfl, map_cons, dlExportFiles, hspent, if_pos rfl]
        refine ⟨?_, rfl, rfl⟩
        rw [rows_file_append, hsent, filterMap_nil, append_nil]
      | false =>
        have hstart : dlExportFiles q file.epoch (List.map DlLogged.file (next :: later)) 0
            (takeLines q left (b.named q file)).budget =
            dlExportFiles q file.epoch (next.file :: later.map DlLogged.file)
              (next.lines.flatten.length - next.lines.flatten.length)
              (takeLines q left (b.named q file)).budget := by
          rw [Nat.sub_self, map_cons]
        rw [hstart]
        obtain ⟨hrows, hcursor, hmore⟩ := ih file.epoch next next.lines suffix_rfl hspent rfl
        refine ⟨?_, hcursor, hmore⟩
        rw [rows_file_append, hsent]
        exact congrArg _ hrows
    · rw [if_pos (hends.mpr hnil), if_neg hnil]
      exact ⟨hsent, congrArg (DlCursor.mk _) hoff, rfl⟩

/-! ## How a page ends -/

/-- A place in the files of another. -/
structure DlPos.Within (pos' pos : DlPos) : Prop where
  files : ∃ front, pos.file :: pos.later = front ++ pos'.file :: pos'.later
  left : pos'.left <:+ pos'.file.lines

/-- The rows of a page and those still to come are all the rows. -/
def DlPageEnd.Ends (q : DlExportQuery) (pos : DlPos) (sent : List (List UInt8)) :
    DlPageEnd → Prop
  | .inside pos' => pos'.Within pos ∧ sent ++ pos'.rows q = pos.rows q ∧ pos'.size ≤ pos.size
  | .spent f => ∃ front back, pos.file :: pos.later = front ++ f :: back ∧ back ≠ []
  | .done f => sent = pos.rows q ∧ ∃ front, pos.file :: pos.later = front ++ [f]

theorem rows_cons (file next : DlLogged) (left : List (List UInt8)) (later : List DlLogged) :
    DlPos.rows q ⟨file, left, next :: later⟩ =
      left.filter q.sends ++ DlPos.rows q ⟨next, next.lines, later⟩ := by
  rw [DlPos.rows, DlPos.rows, flatMap_cons, filter_append]

theorem size_cons (file next : DlLogged) (left : List (List UInt8)) (later : List DlLogged) :
    DlPos.size ⟨file, left, next :: later⟩ =
      left.length + 1 + DlPos.size ⟨next, next.lines, later⟩ := by
  simp only [DlPos.size, map_cons, sum_cons]
  omega

theorem ends_inside (hleft : left <:+ file.lines) (later : List DlLogged) (b : DlBudget) :
    DlPageEnd.Ends q ⟨file, left, later⟩ (takeLines q left b).sent
      (.inside ⟨file, (takeLines q left b).left, later⟩) := by
  obtain ⟨taken, hsplit, hsent⟩ := takeLines_splits (q := q) left b
  refine ⟨⟨⟨[], rfl⟩, ?_⟩, ?_, ?_⟩
  · exact (List.IsSuffix.trans ⟨taken, hsplit.symm⟩ hleft)
  · rw [DlPos.rows, DlPos.rows, hsent, ← filter_append, ← append_assoc, ← hsplit]
  · have hlen := congrArg List.length hsplit
    rw [length_append] at hlen
    rw [DlPos.size, DlPos.size]
    dsimp only
    omega

variable {later : List DlLogged}

theorem DlPageEnd.Ends.next {next : DlLogged} {sent : List (List UInt8)} {e : DlPageEnd}
    (h : e.Ends q ⟨next, next.lines, later⟩ sent) :
    e.Ends q ⟨file, left, next :: later⟩ (left.filter q.sends ++ sent) := by
  cases e with
  | inside pos' =>
    obtain ⟨⟨⟨front, hfiles⟩, hsuffix⟩, hrows, hsize⟩ := h
    refine ⟨⟨⟨file :: front, congrArg (file :: ·) hfiles⟩, hsuffix⟩, ?_, ?_⟩
    · rw [rows_cons, append_assoc, hrows]
    · rw [size_cons]
      omega
  | spent f =>
    obtain ⟨front, back, hfiles, hback⟩ := h
    exact ⟨file :: front, back, congrArg (file :: ·) hfiles, hback⟩
  | done f =>
    obtain ⟨hsent, front, hfiles⟩ := h
    refine ⟨?_, file :: front, congrArg (file :: ·) hfiles⟩
    rw [rows_cons, hsent]

theorem takeLines_all (hnil : (takeLines q left b).left = []) :
    (takeLines q left b).sent = left.filter q.sends := by
  obtain ⟨taken, hsplit, hsent⟩ := takeLines_splits (q := q) left b
  rw [hnil, append_nil] at hsplit
  rw [hsent, ← hsplit]

/-- **How a page ends.** -/
theorem takeFiles_ends (later : List DlLogged) (file : DlLogged) (left : List (List UInt8))
    (hleft : left <:+ file.lines) (b : DlBudget) :
    (takeFiles q file left later b).2.Ends q ⟨file, left, later⟩
      (takeFiles q file left later b).1 := by
  induction later generalizing file left b with
  | nil =>
    rw [takeFiles]
    split
    · rename_i hnil
      refine ⟨?_, [], rfl⟩
      rw [takeLines_all hnil, DlPos.rows, flatMap_nil, append_nil]
    · exact ends_inside hleft [] _
  | cons next later ih =>
    rw [takeFiles]
    split
    · rename_i hnil
      rw [takeLines_all hnil]
      split
      · exact ⟨[], next :: later, rfl, cons_ne_nil _ _⟩
      · exact (ih next next.lines suffix_rfl _).next
    · exact ends_inside hleft _ _

theorem takeFiles_progress (hleft : left <:+ file.lines) (hb : (b.named q file).spent = false)
    (hfresh : b.lines = q.limit) (hscan : (dlExportWindowSize : ℤ) ≤ b.scan) {pos' : DlPos}
    (hends : (takeFiles q file left later b).2 = .inside pos') :
    pos'.size < DlPos.size ⟨file, left, later⟩ := by
  have hfew : left ≠ [] → (takeLines q left (b.named q file)).left.length < left.length := by
    intro hsome
    cases left with
    | nil => exact absurd rfl hsome
    | cons line lines =>
      have hline := file.isLine line (hleft.subset mem_cons_self)
      exact Nat.lt_succ_of_le (takeLines_first hline hb hfresh hscan)
  have hinside : (takeLines q left (b.named q file)).left ≠ [] →
      DlPos.size ⟨file, (takeLines q left (b.named q file)).left, later⟩ <
        DlPos.size ⟨file, left, later⟩ := by
    intro hsome
    have hstrict := hfew fun h => hsome (by rw [h]; rfl)
    rw [DlPos.size, DlPos.size]
    dsimp only
    omega
  cases later with
  | nil =>
    rw [takeFiles] at hends
    split at hends
    · cases hends
    · rename_i hsome
      injection hends with hpos
      subst hpos
      exact hinside hsome
  | cons next later =>
    rw [takeFiles] at hends
    split at hends
    · split at hends
      · cases hends
      · have hlater := takeFiles_ends (q := q) later next next.lines suffix_rfl
          (takeLines q left (b.named q file)).budget
        rw [hends] at hlater
        have hsize := hlater.2.2
        rw [size_cons]
        omega
    · rename_i hsome
      injection hends with hpos
      subst hpos
      exact hinside hsome

end Meatpi
