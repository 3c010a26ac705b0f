import Meatpi.DataLogger.Paging

/-!
# Catching up with the log

A client asks from the start and follows the cursors while `more` is true. It gets
every row of every file once, in order, exactly when no page spends a budget with
the last line of a file that is not the newest. (A file of the epoch 0 is the one
that a cursor cannot name: 0 is the start of the log.)
-/

namespace Meatpi

open Except List

variable {front later : List DlLogged}

variable {cursor : DlCursor} {f : DlLogged} {pos : DlPos} {rows : List (List UInt8)}

/-! ## The client -/

/-- A client follows the cursors from a `since` on: the rows it gets, and its last
cursor. -/
inductive DlFollows (get : DlSince → Except String DlExportPage) :
    DlSince → List (List UInt8) → DlCursor → Prop
  | last {since : DlSince} {page : DlExportPage} :
      get since = .ok page → page.more = false → DlFollows get since page.rows page.cursor
  | next {since : DlSince} {page : DlExportPage} {rows : List (List UInt8)} {cursor : DlCursor} :
      get since = .ok page → page.more = true → DlFollows get (.exact page.cursor) rows cursor →
      DlFollows get since (page.rows ++ rows) cursor

/-- The end of the newest file. -/
def newestEnd (files : List DlLogged) : DlCursor := files.getLast?.elim ⟨0, 0⟩ DlLogged.last

/-- The client gets every row that goes out once, in the order of the files, ends at
the end of the newest file, and gets nothing when it asks from there. -/
def DlDelivered (get : DlSince → Except String DlExportPage) (files : List DlLogged)
    (sends : List UInt8 → Bool) : Prop :=
  ∃ cursor page, DlFollows get .start ((files.flatMap DlLogged.lines).filter sends) cursor ∧
    cursor = newestEnd files ∧
    get (.exact cursor) = .ok page ∧ page.rows = [] ∧ page.more = false

/-- The places where a client's pages start. -/
inductive DlPageStarts (q : DlExportQuery) (files : List DlLogged) : DlPos → Prop
  | first {file : DlLogged} {later : List DlLogged} :
      files = file :: later → DlPageStarts q files ⟨file, file.lines, later⟩
  | next {pos pos' : DlPos} :
      DlPageStarts q files pos → (pos.page q).2 = .inside pos' → DlPageStarts q files pos'

/-- A page that ends where its cursor says. -/
def DlPageEnd.Fair (q : DlExportQuery) : DlPageEnd → Prop
  | .inside pos => 0 < pos.file.epoch
  | .spent _ => False
  | .done file => 0 < file.epoch ∨ ∀ line ∈ file.lines, q.sends line = false

/-- The query of a request. -/
def DlExportRequest.query (csv : Bool) (r : DlExportRequest) : DlExportQuery :=
  { csv := csv, name := r.name, limit := dlExportLimit r.limit }

/-- The name of a line-oriented engine. -/
def dlFormat (csv : Bool) : String := if csv then "csv" else "jsonl"

/-- The answers to a client, which asks the same from each place. -/
def DlExportRequest.get (csv : Bool) (dir : List DlFile) (r : DlExportRequest) (since : DlSince) :
    Except String DlExportPage :=
  dlExportGetHandler (some (dlFormat csv)) dir { r with since := since }

theorem get_ok (csv : Bool) (dir : List DlFile) {r : DlExportRequest}
    (hstream : r.stream.all (· = "params") = true) (since : DlSince) :
    r.get csv dir since = .ok (dlExportPage dir (r.query csv) since) := by
  cases csv <;>
    rw [DlExportRequest.get, dlExportGetHandler, if_pos hstream] <;> rfl

/-! ## The files of the folder -/

instance : Std.Total fun f g : DlFile => f.epoch ≤ g.epoch :=
  ⟨fun f g => Nat.le_total f.epoch g.epoch⟩

instance : IsTrans DlFile fun f g => f.epoch ≤ g.epoch :=
  ⟨fun _ _ _ h h' => Nat.le_trans h h'⟩

variable {since : DlSince}

section

variable {files : List DlLogged} {dir : List DlFile} {q : DlExportQuery}

theorem eq_of_epoch (hsorted : files.Pairwise fun f g => f.epoch < g.epoch) {g : DlLogged}
    (hf : f ∈ files) (hg : g ∈ files) (h : f.epoch = g.epoch) : f = g := by
  induction hsorted with
  | nil => cases hf
  | cons hlt _ ih =>
    rcases mem_cons.mp hf with rfl | hf'
    · rcases mem_cons.mp hg with rfl | hg'
      · rfl
      · exact absurd h (Nat.ne_of_lt (hlt g hg'))
    · rcases mem_cons.mp hg with rfl | hg'
      · exact absurd h.symm (Nat.ne_of_lt (hlt f hf'))
      · exact ih hf' hg'

theorem dlExportListEpochs_eq (hsorted : files.Pairwise fun f g => f.epoch < g.epoch)
    (hfew : files.length ≤ dlExportMaxFiles) (hdir : dir.Perm (files.map DlLogged.file)) :
    dlExportListEpochs dir = files.map DlLogged.file := by
  have hlen : dir.length ≤ dlExportMaxFiles := by
    rw [hdir.length_eq, length_map]
    exact hfew
  rw [dlExportListEpochs, take_of_length_le hlen]
  refine @List.Perm.eq_of_pairwise DlFile (fun f g => f.epoch ≤ g.epoch) _ _ ?_
    (pairwise_insertionSort _ _) ?_ ((perm_insertionSort _ _).trans hdir)
  · intro f g hf hg hle hge
    rw [mem_insertionSort, hdir.mem_iff] at hf
    obtain ⟨f', hf', rfl⟩ := mem_map.mp hf
    obtain ⟨g', hg', rfl⟩ := mem_map.mp hg
    rw [eq_of_epoch hsorted hf' hg' (Nat.le_antisymm hle hge)]
  · rw [pairwise_map]
    exact hsorted.imp fun h => Nat.le_of_lt h

theorem dlExportStart_zero (epochs : List ℕ) (h : since.epoch ≤ 0) :
    dlExportStart epochs since = (0, 0) := by
  unfold dlExportStart
  rw [if_pos (Or.inl h)]

theorem dlExportStart_found {front later : List ℕ} {epoch : ℕ}
    (hsorted : (front ++ epoch :: later).Pairwise (· < ·)) (hpos : 0 < epoch) (off : ℕ) :
    dlExportStart (front ++ epoch :: later) (.exact ⟨epoch, off⟩) = (front.length, off) := by
  have hidx : (front ++ epoch :: later).findIdx
      (fun (e : ℕ) => decide ((epoch : ℤ) ≤ e)) = front.length := by
    have hbefore : ∀ e ∈ front, decide ((epoch : ℤ) ≤ (e : ℕ)) = false := by
      intro e he
      have hlt := (pairwise_append.mp hsorted).2.2 e he epoch mem_cons_self
      rw [decide_eq_false_iff_not]
      omega
    rw [findIdx_append, findIdx_eq_length_of_false hbefore, findIdx_cons]
    simp
  rw [dlExportStart, if_neg (not_or.mpr ⟨?_, ?_⟩)]
  · rw [hidx]
    simp
  · change ¬(epoch : ℤ) ≤ 0
    omega
  · simp

theorem dlExportStart_exact (hsorted : (front ++ f :: later).Pairwise fun f g => f.epoch < g.epoch)
    (hpos : 0 < f.epoch) (off : ℕ) :
    dlExportStart ((front ++ f :: later).map DlLogged.epoch) (.exact ⟨f.epoch, off⟩) =
      (front.length, off) := by
  have hepochs := pairwise_map.2 hsorted
  rw [map_append, map_cons] at hepochs ⊢
  rw [dlExportStart_found hepochs hpos, length_map]

/-! ## From a `since` to a page -/

/-- The place that a `since` names. -/
inductive DlSince.Names (files : List DlLogged) : DlSince → DlPos → Prop
  | start {since : DlSince} {file : DlLogged} {later : List DlLogged} :
      since.epoch ≤ 0 → files = file :: later → Names files since ⟨file, file.lines, later⟩
  | exact {front : List DlLogged} {pos : DlPos} :
      files = front ++ pos.file :: pos.later → pos.left <:+ pos.file.lines → 0 < pos.file.epoch →
      Names files (.exact ⟨pos.file.epoch, pos.off⟩) pos

theorem dlExportFileLine_length (csv : Bool) (epoch : ℕ) :
    (dlExportFileLine csv epoch).length ≤ 32 := by
  cases csv <;> simp [dlExportFileLine, dlFilesMake, asciiBytes]

theorem named_spent (hlimit : 1 ≤ q.limit) (f : DlLogged) :
    ((dlExportBudget q.limit).named q f).spent = false := by
  have hline := dlExportFileLine_length q.csv f.epoch
  refine spent_eq_false.mpr ⟨?_, ?_, ?_⟩
  · exact hlimit
  · change 0 < (65536 : ℤ) - _
    omega
  · change (0 : ℤ) < 512 * 1024
    omega

theorem dlExportBudget_spent (hlimit : 1 ≤ q.limit) : (dlExportBudget q.limit).spent = false := by
  refine spent_eq_false.mpr ⟨hlimit, ?_, ?_⟩
  · change (0 : ℤ) < 65536
    omega
  · change (0 : ℤ) < 512 * 1024
    omega

/-- **The page of a request.** It is the page at the place that its `since` names. -/
theorem dlExportPage_takes (hsorted : files.Pairwise fun f g => f.epoch < g.epoch)
    (hfew : files.length ≤ dlExportMaxFiles) (hdir : dir.Perm (files.map DlLogged.file))
    (hlimit : 1 ≤ q.limit) (hnames : since.Names files pos) {page : DlExportPage}
    (hpage : dlExportPage dir q since = page) :
    page.rows = (pos.page q).1 ∧ page.cursor = (pos.page q).2.cursor ∧
      page.more = (pos.page q).2.more := by
  have hepochs : (files.map DlLogged.file).map DlFile.epoch = files.map DlLogged.epoch := by
    rw [map_map]
    rfl
  rw [dlExportPage, dlExportListEpochs_eq hsorted hfew hdir, hepochs] at hpage
  cases hnames with
  | start hzero hfiles =>
    rename_i file later
    rw [dlExportStart_zero _ hzero, hfiles] at hpage
    refine dlExportFiles_takes file.epoch later file file.lines suffix_rfl
      (dlExportBudget_spent hlimit) ?_
    rw [Nat.sub_self]
    exact hpage
  | exact hfiles hleft hpos =>
    rename_i front
    subst hfiles
    rw [dlExportStart_exact hsorted hpos] at hpage
    refine dlExportFiles_takes pos.file.epoch pos.later pos.file pos.left hleft
      (dlExportBudget_spent hlimit) ?_
    rw [← hpage]
    rw [map_append, drop_left' (length_map _)]
    rfl

theorem DlPageStarts.within (h : DlPageStarts q files pos) :
    (∃ front, files = front ++ pos.file :: pos.later) ∧ pos.left <:+ pos.file.lines := by
  induction h with
  | first hfiles => exact ⟨⟨[], hfiles⟩, suffix_rfl⟩
  | next _ hends ih =>
    rename_i pos pos' _
    obtain ⟨⟨front, hfiles⟩, hleft⟩ := ih
    have h := takeFiles_ends (q := q) pos.later pos.file pos.left hleft (dlExportBudget q.limit)
    rw [DlPos.page] at hends
    rw [hends] at h
    obtain ⟨⟨⟨front', hlater⟩, hleft'⟩, _⟩ := h
    refine ⟨⟨front ++ front', ?_⟩, hleft'⟩
    rw [hfiles, hlater, append_assoc]

theorem DlPageStarts.ends {pos : DlPos} (h : DlPageStarts q files pos) :
    (pos.page q).2.Ends q pos (pos.page q).1 :=
  takeFiles_ends pos.later pos.file pos.left h.within.2 _

theorem front_nil {back : List DlLogged}
    (hsorted : (front ++ f :: back).Pairwise fun f g => f.epoch < g.epoch) (hzero : ¬0 < f.epoch) :
    front = [] := by
  cases front with
  | nil => rfl
  | cons g front =>
    have hlt := (pairwise_append.mp hsorted).2.2 g mem_cons_self f mem_cons_self
    omega

theorem newestEnd_snoc (front : List DlLogged) (f : DlLogged) :
    newestEnd (front ++ [f]) = f.last := by
  rw [newestEnd, List.getLast?_concat]
  rfl

/-! ## Fair pages deliver -/

section

variable (hsorted : files.Pairwise fun f g => f.epoch < g.epoch)
  (hfew : files.length ≤ dlExportMaxFiles) (hdir : dir.Perm (files.map DlLogged.file))
  (hlimit : 1 ≤ q.limit) {get : DlSince → Except String DlExportPage}
  (hget : ∀ since, get since = .ok (dlExportPage dir q since))

include hsorted hfew hdir hlimit hget

theorem follows_of_fair (hfair : ∀ pos, DlPageStarts q files pos → (pos.page q).2.Fair q) (n : ℕ)
    (hsize : pos.size = n) (hnames : since.Names files pos) (hstarts : DlPageStarts q files pos) :
    DlFollows get since (pos.rows q) (newestEnd files) := by
  induction n using Nat.strong_induction_on generalizing pos since with
  | _ n ih =>
    obtain ⟨hrows, hcursor, hmore⟩ := dlExportPage_takes hsorted hfew hdir hlimit hnames rfl
    have hends := hstarts.ends
    have hfair' := hfair pos hstarts
    obtain ⟨⟨front, hfiles⟩, hleft⟩ := hstarts.within
    cases hend : (pos.page q).2 with
    | inside pos' =>
      rw [hend] at hends hfair' hcursor hmore
      obtain ⟨⟨⟨front', hlater⟩, hleft'⟩, hall, _⟩ := hends
      have hless : pos'.size < n := by
        rw [← hsize]
        exact takeFiles_progress hleft (named_spent hlimit pos.file) rfl
          (by
            change (dlExportWindowSize : ℤ) ≤ 512 * 1024
            rw [dlExportWindowSize]
            omega) hend
      rw [← hall, ← hrows]
      refine DlFollows.next (hget since) hmore ?_
      rw [hcursor]
      refine ih pos'.size hless rfl
        (@DlSince.Names.exact files (front ++ front') pos' ?_ hleft' hfair')
        (hstarts.next hend)
      rw [hfiles, hlater, append_assoc]
    | spent f =>
      rw [hend] at hfair'
      exact hfair'.elim
    | done f =>
      rw [hend] at hends hcursor hmore
      obtain ⟨hall, front', hlater⟩ := hends
      rw [hfiles, hlater, ← append_assoc, newestEnd_snoc, ← hall, ← hrows]
      have hlast := DlFollows.last (hget since) hmore
      rw [hcursor] at hlast
      exact hlast

omit hget in
theorem nothing_new (hfair : ∀ pos, DlPageStarts q files pos → (pos.page q).2.Fair q) :
    (dlExportPage dir q (.exact (newestEnd files))).rows = [] ∧
      (dlExportPage dir q (.exact (newestEnd files))).more = false := by
  rcases eq_nil_or_concat files with hnil | ⟨front, f, hfiles⟩
  · subst hnil
    rw [dlExportPage, dlExportListEpochs_eq hsorted hfew hdir]
    exact ⟨rfl, rfl⟩
  · rw [concat_eq_append] at hfiles
    rw [hfiles, newestEnd_snoc]
    by_cases hpos : 0 < f.epoch
    · have hnames : DlSince.Names files (.exact ⟨f.epoch, DlPos.off ⟨f, [], []⟩⟩) ⟨f, [], []⟩ :=
        @DlSince.Names.exact files front ⟨f, [], []⟩ hfiles nil_suffix hpos
      obtain ⟨hrows, _, hmore⟩ := dlExportPage_takes hsorted hfew hdir hlimit hnames rfl
      exact ⟨hrows, hmore⟩
    · rw [hfiles] at hsorted
      have hfront := front_nil hsorted hpos
      subst hfront
      have hstarts : DlPageStarts q files ⟨f, f.lines, []⟩ := .first hfiles
      have hnames : DlSince.Names files (.exact f.last) ⟨f, f.lines, []⟩ := by
        refine .start ?_ hfiles
        change (f.epoch : ℤ) ≤ 0
        omega
      obtain ⟨hrows, _, hmore⟩ := dlExportPage_takes (hfiles ▸ hsorted) hfew hdir hlimit hnames rfl
      have hends := hstarts.ends
      have hfair' := hfair _ hstarts
      cases hend : (DlPos.page q ⟨f, f.lines, []⟩).2 with
      | inside pos' =>
        rw [hend] at hends hfair'
        obtain ⟨⟨⟨front', hlater⟩, _⟩, _⟩ := hends
        have hmem : pos'.file ∈ [f] := hlater ▸ mem_append_right _ mem_cons_self
        rw [DlPageEnd.Fair, mem_singleton.mp hmem] at hfair'
        exact absurd hfair' hpos
      | spent f' =>
        rw [hend] at hfair'
        exact hfair'.elim
      | done f' =>
        rw [hend] at hends hfair' hmore
        obtain ⟨hall, front', hlater⟩ := hends
        have hmem : f' ∈ [f] := hlater ▸ mem_append_right _ mem_cons_self
        rw [mem_singleton.mp hmem] at hfair'
        refine ⟨?_, hmore⟩
        rw [hrows, hall, DlPos.rows, flatMap_nil, append_nil]
        exact filter_eq_nil_iff.mpr fun line hline =>
          Bool.eq_false_iff.mp (hfair'.resolve_left hpos line hline)

/-! ## Only fair pages deliver -/

theorem follows_restart {file : DlLogged} (hfiles : files = file :: later) {pos' : DlPos}
    (hend : (DlPos.page q ⟨file, file.lines, later⟩).2 = .inside pos')
    (hzero : ¬0 < pos'.file.epoch) (h : DlFollows get since rows cursor) : ¬since.epoch ≤ 0 := by
  induction h with
  | last hpage hmore =>
    rename_i since page
    intro hsince
    obtain ⟨_, _, hmore'⟩ := dlExportPage_takes hsorted hfew hdir hlimit (.start hsince hfiles) rfl
    rw [hget since] at hpage
    rw [ok.inj hpage, hmore, hend] at hmore'
    cases hmore'
  | next hpage hmore _ ih =>
    rename_i since page _ _ _
    intro hsince
    obtain ⟨_, hcursor, _⟩ := dlExportPage_takes hsorted hfew hdir hlimit (.start hsince hfiles) rfl
    rw [hget since] at hpage
    rw [ok.inj hpage, hend] at hcursor
    refine ih ?_
    rw [hcursor]
    change (pos'.file.epoch : ℤ) ≤ 0
    omega

theorem fair_of_follows (hstarts : DlPageStarts q files pos) (hnames : since.Names files pos)
    (hfollows : DlFollows get since rows cursor) (hnewest : cursor = newestEnd files)
    (hnothing : (dlExportPage dir q (.exact (newestEnd files))).rows = []) :
    (pos.page q).2.Fair q := by
  obtain ⟨hrows, hcursor, hmore⟩ := dlExportPage_takes hsorted hfew hdir hlimit hnames rfl
  have hends := hstarts.ends
  obtain ⟨⟨front, hfiles⟩, hleft⟩ := hstarts.within
  cases hend : (pos.page q).2 with
  | inside pos' =>
    rw [hend] at hends
    obtain ⟨⟨⟨front', hlater⟩, hleft'⟩, _⟩ := hends
    by_contra hzero
    rw [DlPageEnd.Fair] at hzero
    have hwhole : files = (front ++ front') ++ pos'.file :: pos'.later := by
      rw [hfiles, hlater, append_assoc]
    have hfront := front_nil (hwhole ▸ hsorted) hzero
    obtain ⟨rfl, rfl⟩ := append_eq_nil_iff.mp hfront
    obtain ⟨hsame, _⟩ := cons.inj hlater
    cases hnames with
    | start hsince hfiles' =>
      exact follows_restart hsorted hfew hdir hlimit hget hfiles' hend hzero hfollows hsince
    | exact _ _ hpos => exact hzero (hsame ▸ hpos)
  | spent f =>
    rw [hend] at hends hcursor hmore
    obtain ⟨front', back, hlater, hback⟩ := hends
    have hlast : cursor = ⟨f.epoch, 0⟩ := by
      cases hfollows with
      | last hpage _ =>
        rw [hget since] at hpage
        rw [← ok.inj hpage, hcursor]
        rfl
      | next hpage hmore' _ =>
        rw [hget since] at hpage
        rw [← ok.inj hpage, hmore] at hmore'
        cases hmore'
    -- the newest file is one of those that follow
    obtain ⟨back', g, hback'⟩ := eq_nil_or_concat back |>.resolve_left hback
    rw [concat_eq_append] at hback'
    have hwhole : files = (front ++ front' ++ f :: back') ++ [g] := by
      rw [hfiles, hlater, hback']
      simp only [append_assoc, cons_append]
    rw [hwhole, newestEnd_snoc, hlast] at hnewest
    have hlt : f.epoch < g.epoch := by
      rw [hwhole] at hsorted
      refine (pairwise_append.mp hsorted).2.2 f ?_ g mem_cons_self
      exact mem_append_right _ mem_cons_self
    have hepoch := congrArg DlCursor.epoch hnewest
    change (f.epoch : ℤ) = g.epoch at hepoch
    omega
  | done f =>
    rw [hend] at hends
    obtain ⟨hall, front', hlater⟩ := hends
    by_cases hpos : 0 < f.epoch
    · exact Or.inl hpos
    · refine Or.inr ?_
      have hwhole : files = (front ++ front') ++ [f] := by
        rw [hfiles, hlater, append_assoc]
      have hfront := front_nil (hwhole ▸ hsorted) hpos
      obtain ⟨rfl, rfl⟩ := append_eq_nil_iff.mp hfront
      obtain ⟨hsame, hlater'⟩ := cons.inj hlater
      have hagain : DlSince.Names files (.exact (newestEnd files)) ⟨f, f.lines, []⟩ := by
        refine .start ?_ hwhole
        rw [hwhole]
        change (f.epoch : ℤ) ≤ 0
        omega
      obtain ⟨hrows', _, _⟩ := dlExportPage_takes hsorted hfew hdir hlimit hagain rfl
      have hplace : pos = ⟨f, f.lines, []⟩ := by
        cases hnames with
        | start _ hfiles' =>
          obtain ⟨rfl, rfl⟩ := cons.inj (hfiles'.symm.trans hwhole)
          rfl
        | exact _ _ hpos' => exact absurd (hsame ▸ hpos') hpos
      rw [hnothing, ← hplace, hall, hplace, DlPos.rows, flatMap_nil, append_nil] at hrows'
      intro line hline
      exact Bool.eq_false_iff.mpr (filter_eq_nil_iff.mp hrows'.symm line hline)

theorem fair_of_delivered (hfollows : DlFollows get .start rows cursor)
    (hnewest : cursor = newestEnd files)
    (hnothing : (dlExportPage dir q (.exact (newestEnd files))).rows = [])
    (hstarts : DlPageStarts q files pos) :
    (pos.page q).2.Fair q ∧
      ∃ since rows, DlSince.Names files since pos ∧ DlFollows get since rows cursor := by
  induction hstarts with
  | first hfiles =>
    have hnames : DlSince.Names files .start ⟨_, _, _⟩ := .start (Int.le_refl 0) hfiles
    exact ⟨fair_of_follows hsorted hfew hdir hlimit hget (.first hfiles) hnames hfollows hnewest
      hnothing, _, _, hnames, hfollows⟩
  | next hstarts hend ih =>
    rename_i pos pos'
    obtain ⟨hfair, since, rows, hnames, hgoes⟩ := ih
    obtain ⟨_, hcursor, hmore⟩ := dlExportPage_takes hsorted hfew hdir hlimit hnames rfl
    obtain ⟨⟨front, hfiles⟩, hleft⟩ := (hstarts.next hend).within
    rw [hend] at hfair hcursor hmore
    have hnames' : DlSince.Names files (.exact ⟨pos'.file.epoch, pos'.off⟩) pos' :=
      .exact hfiles hleft hfair
    have hgoes' : ∃ rows', DlFollows get (.exact ⟨pos'.file.epoch, pos'.off⟩) rows' cursor := by
      cases hgoes with
      | last hpage hmore' =>
        rw [hget since] at hpage
        rw [← ok.inj hpage, hmore] at hmore'
        cases hmore'
      | next hpage _ hgoes =>
        rw [hget since] at hpage
        rw [← ok.inj hpage, hcursor] at hgoes
        exact ⟨_, hgoes⟩
    obtain ⟨rows', hgoes'⟩ := hgoes'
    exact ⟨fair_of_follows hsorted hfew hdir hlimit hget (hstarts.next hend) hnames' hgoes' hnewest
      hnothing, _, rows', hnames', hgoes'⟩

end

end

/-! ## Delivery -/

theorem dlExportLimit_pos (limit : Option ℤ) : 1 ≤ dlExportLimit limit := by
  cases limit with
  | none => exact Int.le.intro 499 rfl
  | some limit =>
    rw [dlExportLimit]
    split <;> omega

/-- **The export delivers.** A client gets every row once and ends at the end of the
log if and only if no page on its way spends a budget with the last line of a file
that others follow, or ends in a file that a cursor cannot name. -/
theorem export_delivers {files : List DlLogged} {dir : List DlFile}
    (hsorted : files.Pairwise fun f g => f.epoch < g.epoch) (hfew : files.length ≤ dlExportMaxFiles)
    (hdir : dir.Perm (files.map DlLogged.file)) (csv : Bool) (r : DlExportRequest)
    (hstream : r.stream.all (· = "params") = true) :
    DlDelivered (r.get csv dir) files (r.query csv).sends ↔
      ∀ pos, DlPageStarts (r.query csv) files pos → (pos.page (r.query csv)).2.Fair (r.query csv) := by
  have hget := get_ok csv dir hstream
  have hlimit : 1 ≤ (r.query csv).limit := dlExportLimit_pos r.limit
  constructor
  · rintro ⟨cursor, page, hfollows, hnewest, hagain, hnothing, _⟩ pos hstarts
    rw [hget, hnewest] at hagain
    rw [← ok.inj hagain] at hnothing
    exact (fair_of_delivered hsorted hfew hdir hlimit hget hfollows hnewest hnothing hstarts).1
  · intro hfair
    obtain ⟨hnothing, hmore⟩ := nothing_new hsorted hfew hdir hlimit hfair
    refine ⟨newestEnd files, _, ?_, rfl, hget _, hnothing, hmore⟩
    cases files with
    | nil =>
      have hpage : dlExportPage dir (r.query csv) .start =
          { sent := [], cursor := ⟨0, 0⟩, more := false } := by
        rw [dlExportPage, dlExportListEpochs_eq hsorted hfew hdir]
        rfl
      have hlast := DlFollows.last (hget .start) (congrArg DlExportPage.more hpage)
      rw [hpage] at hlast
      exact hlast
    | cons file later =>
      refine follows_of_fair hsorted hfew hdir hlimit hget hfair _ rfl (.start ?_ rfl) (.first rfl)
      exact Int.le_refl 0

/-- A row of a parameter, in the form of csv. -/
def csvRow : List UInt8 := asciiBytes "1,a.x,1\n"

theorem csvRow_isLine : DlIsLine csvRow := ⟨⟨asciiBytes "1,a.x,1", by decide, by decide⟩, by decide⟩

/-- A file with one row. -/
def csvFile (epoch : ℕ) : DlLogged where
  epoch := epoch
  lines := [csvRow]
  isLine := List.forall_mem_singleton.mpr csvRow_isLine

/-- A file with three rows. -/
def csvThree : DlLogged where
  epoch := 1
  lines := [csvRow, csvRow, csvRow]
  isLine := by simp [csvRow_isLine]

/-- A request for two rows a page. -/
def twoByTwo : DlExportRequest := { stream := none, since := .start, limit := some 2, name := [] }

/-- Four rows in two files come in two pages, the first ending inside a file; the folder
names the newer file first. -/
theorem export_delivers_two :
    DlDelivered (twoByTwo.get true [(csvFile 2).file, csvThree.file]) [csvThree, csvFile 2]
      (twoByTwo.query true).sends := by
  refine (export_delivers (pairwise_pair.mpr Nat.one_lt_two) (by decide) (.swap _ _ _) true
    twoByTwo rfl).mpr ?_
  have hinside : (DlPos.page (twoByTwo.query true) ⟨csvThree, csvThree.lines, [csvFile 2]⟩).2 =
      .inside ⟨csvThree, [csvRow], [csvFile 2]⟩ := rfl
  have hdone : (DlPos.page (twoByTwo.query true) ⟨csvThree, [csvRow], [csvFile 2]⟩).2 =
      .done (csvFile 2) := rfl
  have hpos : ∀ pos, DlPageStarts (twoByTwo.query true) [csvThree, csvFile 2] pos →
      pos = ⟨csvThree, csvThree.lines, [csvFile 2]⟩ ∨
        pos = ⟨csvThree, [csvRow], [csvFile 2]⟩ := by
    intro pos hstarts
    induction hstarts with
    | first hfiles =>
      obtain ⟨rfl, rfl⟩ := cons.inj hfiles
      exact .inl rfl
    | next _ hend ih =>
      rcases ih with rfl | rfl
      · rw [hinside] at hend
        exact .inr (DlPageEnd.inside.inj hend).symm
      · rw [hdone] at hend
        cases hend
  intro pos hstarts
  rcases hpos pos hstarts with rfl | rfl
  · rw [hinside]
    exact Nat.one_pos
  · rw [hdone]
    exact .inl Nat.two_pos

/-- A request for one row after the other. -/
def oneByOne : DlExportRequest := { stream := none, since := .start, limit := some 1, name := [] }

/-- Two files of one row, asked for row by row: the first page ends the log. -/
theorem export_stops_early :
    ¬DlDelivered (oneByOne.get true [(csvFile 1).file, (csvFile 2).file]) [csvFile 1, csvFile 2]
      (oneByOne.query true).sends := by
  rintro ⟨cursor, _, hfollows, hnewest, _⟩
  have hfirst : oneByOne.get true [(csvFile 1).file, (csvFile 2).file] .start =
      .ok { sent := [.file (dlExportFileLine true 1), .row csvRow], cursor := ⟨1, 0⟩,
            more := false } := by
    decide +kernel
  generalize hrows : ([csvFile 1, csvFile 2].flatMap DlLogged.lines).filter
    (oneByOne.query true).sends = rows at hfollows
  cases hfollows with
  | last hpage _ =>
    rw [hfirst] at hpage
    rw [← ok.inj hpage] at hnewest
    cases hnewest
  | next hpage hmore _ =>
    rw [hfirst] at hpage
    rw [← ok.inj hpage] at hmore
    cases hmore

end Meatpi
