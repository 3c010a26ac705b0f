import Mathlib.Data.List.Basic

/-!
# The multipart parser (`multipart_parser.c`)

A byte machine that calls back for what it meets. Runs of bytes (a header's field and
value, the data of a part) are handed over in pieces that end where the buffer ends,
so that the pieces depend on how a body is cut. Put together they do not: a body that
the parser takes makes the same callbacks however it is cut (`mpEvents_recut`), when
every header line of it has its colon.
-/

namespace Meatpi

open Bool List

variable {xs : List UInt8}

/-- `enum state`, without `s_uninitialized` -/
inductive MpState where
  | start | startBoundary | headerFieldStart | headerField | headersAlmostDone
  | headerValueStart | headerValue | headerValueAlmostDone | partDataStart | partData
  | partDataAlmostBoundary | partDataBoundary | partDataAlmostEnd | partDataEnd
  | partDataFinalHyphen | finished
  deriving DecidableEq

/-- `multipart_parser` -/
structure MpParser where
  boundary : List UInt8
  index : ℕ
  state : MpState
  lookbehind : List UInt8

/-- `multipart_parser_init`; the boundary is a string. -/
def MpParser.init (boundary : List UInt8) : MpParser :=
  ⟨boundary.takeWhile (· ≠ 0), 0, .start, []⟩

/-- The callbacks of `multipart_parser_settings`. -/
inductive MpEvent where
  | headerField (run : List UInt8)
  | headerValue (run : List UInt8)
  | headersComplete
  | partDataBegin
  | partData (run : List UInt8)
  | partDataEnd
  | bodyEnd
  deriving DecidableEq

/-- What a byte does: the parser and the run from `mark` on, the callbacks, and
whether the parser goes on. -/
structure MpStep where
  parser : MpParser
  run : List UInt8
  events : List MpEvent
  taken : Bool

/-- `return i` -/
def MpParser.refuse (p : MpParser) : MpStep := ⟨p, [], [], false⟩

/-- On to a state in which no run is open. -/
def MpParser.goto (p : MpParser) (state : MpState) (events : List MpEvent) : MpStep :=
  ⟨{ p with state := state }, [], events, true⟩

/-- `multipart_boundary[index]`: the string's end and `lookbehind` stand behind it. -/
def MpParser.expected (p : MpParser) : UInt8 := (p.boundary ++ 0 :: p.lookbehind).getD p.index 0

/-- `s_start_boundary` -/
def startBoundaryByte (p : MpParser) (c : UInt8) : MpStep :=
  if p.index = p.boundary.length then
    if c ≠ 13 then p.refuse else ⟨{ p with index := p.index + 1 }, [], [], true⟩
  else if p.index = p.boundary.length + 1 then
    if c ≠ 10 then p.refuse else { p with index := 0 }.goto .headerFieldStart [.partDataBegin]
  else if c ≠ p.expected then p.refuse
  else ⟨{ p with index := p.index + 1 }, [], [], true⟩

/-- `tolower(c)` between `'a'` and `'z'` -/
def isLetter (c : UInt8) : Bool := (65 ≤ c && c ≤ 90) || (97 ≤ c && c ≤ 122)

/-- `s_header_field` -/
def headerFieldByte (p : MpParser) (run : List UInt8) (c : UInt8) : MpStep :=
  if c = 13 then p.goto .headersAlmostDone []
  else if c = 58 then p.goto .headerValueStart [.headerField run] -- ':'
  else if c ≠ 45 ∧ isLetter c = false then p.refuse
  else ⟨p, run ++ [c], [], true⟩

/-- `s_header_value` -/
def headerValueByte (p : MpParser) (run : List UInt8) (c : UInt8) : MpStep :=
  if c = 13 then p.goto .headerValueAlmostDone [.headerValue run]
  else ⟨p, run ++ [c], [], true⟩

/-- `s_part_data` -/
def partDataByte (p : MpParser) (run : List UInt8) (c : UInt8) : MpStep :=
  if c = 13 then { p with lookbehind := [13] }.goto .partDataAlmostBoundary [.partData run]
  else ⟨p, run ++ [c], [], true⟩

/-- A callback in front of a byte. -/
def MpStep.after (event : MpEvent) (s : MpStep) : MpStep := { s with events := event :: s.events }

/-- One byte, without what `is_last` adds; the states that fall through and the bytes
read again (`mark = i --`) are in one step. -/
def mpByte (p : MpParser) (run : List UInt8) (c : UInt8) : MpStep :=
  match p.state with
  | .start => startBoundaryByte { p with index := 0, state := .startBoundary } c
  | .startBoundary => startBoundaryByte p c
  | .headerFieldStart => headerFieldByte { p with state := .headerField } [] c
  | .headerField => headerFieldByte p run c
  | .headersAlmostDone => if c ≠ 10 then p.refuse else p.goto .partDataStart []
  | .headerValueStart =>
    if c = 32 then p.goto .headerValueStart []
    else headerValueByte { p with state := .headerValue } [] c
  | .headerValue => headerValueByte p run c
  | .headerValueAlmostDone => if c ≠ 10 then p.refuse else p.goto .headerFieldStart []
  | .partDataStart => (partDataByte { p with state := .partData } [] c).after .headersComplete
  | .partData => partDataByte p run c
  | .partDataAlmostBoundary =>
    if c = 10 then
      { p with lookbehind := p.lookbehind.take 1 ++ [10], index := 0 }.goto .partDataBoundary []
    else
      (partDataByte { p with state := .partData } [] c).after (.partData (p.lookbehind.take 1))
  | .partDataBoundary =>
    if p.expected ≠ c then
      (partDataByte { p with state := .partData } [] c).after
        (.partData (p.lookbehind.take (2 + p.index)))
    else
      let p' := { p with
        lookbehind := p.lookbehind.take (2 + p.index) ++ [c], index := p.index + 1 }
      if p.index + 1 = p.boundary.length then p'.goto .partDataAlmostEnd [.partDataEnd]
      else p'.goto .partDataBoundary []
  | .partDataAlmostEnd =>
    if c = 45 then p.goto .partDataFinalHyphen []
    else if c = 13 then p.goto .partDataEnd []
    else p.refuse
  | .partDataFinalHyphen => if c = 45 then p.goto .finished [.bodyEnd] else p.refuse
  | .partDataEnd => if c = 10 then p.goto .headerFieldStart [.partDataBegin] else p.refuse
  | .finished => p.goto .finished []

/-- The bytes of a buffer, up to one that is refused. -/
def mpScan : MpParser → List UInt8 → List UInt8 → MpStep
  | p, run, [] => ⟨p, run, [], true⟩
  | p, run, c :: rest =>
    let s := mpByte p run c
    if s.taken then
      let r := mpScan s.parser s.run rest
      ⟨r.parser, r.run, s.events ++ r.events, r.taken⟩
    else s

/-- `is_last`: a run that is open where the buffer ends is handed over. -/
def mpFlush (p : MpParser) (run : List UInt8) : List MpEvent :=
  if run = [] then []
  else
    match p.state with
    | .headerField => [.headerField run]
    | .headerValue => [.headerValue run]
    | .partData => [.partData run]
    | _ => []

/-- `multipart_parser_execute`: the callbacks of a buffer, in order. -/
def mpEvents (p : MpParser) (buf : List UInt8) : List MpEvent :=
  let s := mpScan p [] buf
  if s.taken then s.events ++ mpFlush s.parser s.run else s.events

/-! ## The run does not steer -/

theorem mpByte_run (p : MpParser) (run : List UInt8) (c : UInt8) :
    (mpByte p run c).parser = (mpByte p [] c).parser ∧
      (mpByte p run c).taken = (mpByte p [] c).taken ∧
      (.bodyEnd ∈ (mpByte p run c).events ↔ .bodyEnd ∈ (mpByte p [] c).events) := by
  obtain ⟨boundary, index, state, lookbehind⟩ := p
  cases state
  case headerField =>
    simp only [mpByte, headerFieldByte]
    split_ifs <;> simp [MpParser.goto, MpParser.refuse]
  case headerValue =>
    simp only [mpByte, headerValueByte]
    split_ifs <;> simp [MpParser.goto]
  case partData =>
    simp only [mpByte, partDataByte]
    split_ifs <;> simp [MpParser.goto]
  all_goals exact ⟨rfl, rfl, Iff.rfl⟩

theorem mpScan_run : ∀ {bytes : List UInt8} (p : MpParser) (run : List UInt8),
    (mpScan p run bytes).parser = (mpScan p [] bytes).parser ∧
      (mpScan p run bytes).taken = (mpScan p [] bytes).taken ∧
      (.bodyEnd ∈ (mpScan p run bytes).events ↔ .bodyEnd ∈ (mpScan p [] bytes).events) := by
  intro bytes
  induction bytes with
  | nil => intro p run; exact ⟨rfl, rfl, Iff.rfl⟩
  | cons c rest ih =>
    intro p run
    obtain ⟨hparser, htaken, hend⟩ := mpByte_run p run c
    cases hgo : (mpByte p [] c).taken with
    | false =>
      rw [hgo] at htaken
      have hleft : mpScan p run (c :: rest) = mpByte p run c := by
        exact if_neg (by rw [htaken]; exact Bool.false_ne_true)
      have hright : mpScan p [] (c :: rest) = mpByte p [] c := by
        exact if_neg (by rw [hgo]; exact Bool.false_ne_true)
      rw [hleft, hright, hgo]
      exact ⟨hparser, htaken, hend⟩
    | true =>
      obtain ⟨h1, h2, h3⟩ := ih (mpByte p [] c).parser (mpByte p run c).run
      obtain ⟨h1', h2', h3'⟩ := ih (mpByte p [] c).parser (mpByte p [] c).run
      simp only [mpScan, htaken, hgo, if_true, hparser, mem_append]
      exact ⟨h1.trans h1'.symm, h2.trans h2'.symm, or_congr hend (h3.trans h3'.symm)⟩

theorem mpScan_append (ys : List UInt8) (p : MpParser) (run : List UInt8)
    (h : (mpScan p run xs).taken = true) :
    mpScan p run (xs ++ ys) =
      { mpScan (mpScan p run xs).parser (mpScan p run xs).run ys with
        events := (mpScan p run xs).events ++
          (mpScan (mpScan p run xs).parser (mpScan p run xs).run ys).events } := by
  induction xs generalizing ys p run with
  | nil => rfl
  | cons c xs ih =>
    cases hgo : (mpByte p run c).taken with
    | false => simp [mpScan, hgo] at h
    | true =>
      simp only [mpScan, hgo, if_true] at h
      simp only [cons_append, mpScan, hgo, if_true, ih ys _ _ h, append_assoc]

theorem mpScan_append_refused (ys : List UInt8) (p : MpParser) (run : List UInt8)
    (h : (mpScan p run xs).taken = false) : mpScan p run (xs ++ ys) = mpScan p run xs := by
  induction xs generalizing ys p run with
  | nil => cases h
  | cons c xs ih =>
    cases hgo : (mpByte p run c).taken with
    | false => simp [mpScan, hgo]
    | true =>
      simp only [mpScan, hgo, if_true] at h
      simp only [cons_append, mpScan, hgo, if_true, ih ys _ _ h]

/-! ## Runs put together -/

/-- The same callbacks, but for where the runs are cut. -/
inductive Recut : List MpEvent → List MpEvent → Prop
  | refl (es : List MpEvent) : Recut es es
  | symm {es es' : List MpEvent} : Recut es es' → Recut es' es
  | trans {es es' es'' : List MpEvent} : Recut es es' → Recut es' es'' → Recut es es''
  | append {es es' fs fs' : List MpEvent} : Recut es es' → Recut fs fs' →
      Recut (es ++ fs) (es' ++ fs')
  | field (a b : List UInt8) : Recut [.headerField a, .headerField b] [.headerField (a ++ b)]
  | value (a b : List UInt8) : Recut [.headerValue a, .headerValue b] [.headerValue (a ++ b)]
  | data (a b : List UInt8) : Recut [.partData a, .partData b] [.partData (a ++ b)]

/-- Does every header line have its colon? -/
def mpNamed (p : MpParser) : List UInt8 → Bool
  | [] => true
  | c :: rest =>
    !(decide (p.state = .headerField) && decide (c = 13)) && mpNamed (mpByte p [] c).parser rest

theorem mpNamed_append {ys : List UInt8} {p : MpParser} (h : mpNamed p (xs ++ ys) = true)
    (htaken : (mpScan p [] xs).taken = true) :
    mpNamed p xs = true ∧ mpNamed (mpScan p [] xs).parser ys = true := by
  induction xs generalizing ys p with
  | nil => exact ⟨rfl, h⟩
  | cons c xs ih =>
    rw [cons_append, mpNamed, and_eq_true] at h
    cases hgo : (mpByte p [] c).taken with
    | false => simp [mpScan, hgo] at htaken
    | true =>
      simp only [mpScan, hgo, if_true] at htaken ⊢
      obtain ⟨hparser, htaken', -⟩ := @mpScan_run xs (mpByte p [] c).parser (mpByte p [] c).run
      rw [htaken'] at htaken
      obtain ⟨hxs, hys⟩ := ih h.2 htaken
      rw [hparser, mpNamed, and_eq_true]
      exact ⟨⟨h.1, hxs⟩, hys⟩

/-- The callbacks for a buffer, with a run that is open before it. -/
def mpEventsFrom (p : MpParser) (run buf : List UInt8) : List MpEvent :=
  let s := mpScan p run buf
  s.events ++ mpFlush s.parser s.run

theorem mpEventsFrom_cons {p : MpParser} {run rest : List UInt8} {c : UInt8}
    (h : (mpByte p run c).taken = true) :
    mpEventsFrom p run (c :: rest) = (mpByte p run c).events ++
      mpEventsFrom (mpByte p run c).parser (mpByte p run c).run rest := by
  simp only [mpEventsFrom, mpScan, h, if_true, append_assoc]

theorem mpEventsFrom_flush : ∀ {buf : List UInt8} {p : MpParser} {run : List UInt8},
    (mpScan p [] buf).taken = true → mpNamed p buf = true →
    Recut (mpEventsFrom p run buf) (mpFlush p run ++ mpEventsFrom p [] buf) := by
  intro buf
  induction buf with
  | nil =>
    intro p run _ _
    show Recut (mpFlush p run) (mpFlush p run ++ [])
    rw [append_nil]
    exact .refl _
  | cons c rest ih =>
    intro p run htaken hnamed
    by_cases hrun : run = []
    · rw [hrun]
      exact .refl _
    obtain ⟨hparser, hgo', -⟩ := mpByte_run p run c
    have hgo : (mpByte p [] c).taken = true := by
      by_contra hno
      simp [mpScan, hno] at htaken
    rw [hgo] at hgo'
    have hrest : (mpScan (mpByte p [] c).parser [] rest).taken = true := by
      simp only [mpScan, hgo, if_true] at htaken
      rwa [(mpScan_run _ _).2.1] at htaken
    rw [mpNamed, and_eq_true] at hnamed
    obtain ⟨hcolon, hnamed⟩ := hnamed
    rw [mpEventsFrom_cons hgo', mpEventsFrom_cons hgo, hparser]
    -- either the byte closes the run, or it becomes longer
    have hclose : ∀ (e : List UInt8 → MpEvent),
        (∀ a b, Recut [e a, e b] [e (a ++ b)]) → mpFlush p run = [e run] →
        (mpByte p run c).events = [e run] → (mpByte p run c).run = [] →
        (mpByte p [] c).events = [e []] → (mpByte p [] c).run = [] →
        Recut ((mpByte p run c).events ++ mpEventsFrom (mpByte p [] c).parser (mpByte p run c).run rest)
          (mpFlush p run ++ ((mpByte p [] c).events ++
            mpEventsFrom (mpByte p [] c).parser (mpByte p [] c).run rest)) := by
      intro e hjoin hflush h1 h2 h3 h4
      rw [hflush, h1, h2, h3, h4, ← append_assoc]
      have h := (hjoin run []).symm
      rw [append_nil] at h
      exact .append h (.refl _)
    have hlonger : ∀ (e : List UInt8 → MpEvent), (∀ a b, Recut [e a, e b] [e (a ++ b)]) →
        (∀ r, r ≠ [] → mpFlush p r = [e r]) → (mpByte p [] c).parser = p →
        (mpByte p run c).events = [] → (mpByte p run c).run = run ++ [c] →
        (mpByte p [] c).events = [] → (mpByte p [] c).run = [c] →
        Recut ((mpByte p run c).events ++ mpEventsFrom (mpByte p [] c).parser (mpByte p run c).run rest)
          (mpFlush p run ++ ((mpByte p [] c).events ++
            mpEventsFrom (mpByte p [] c).parser (mpByte p [] c).run rest)) := by
      intro e hjoin hflush hsame h1 h2 h3 h4
      rw [hsame] at hrest hnamed ⊢
      rw [h1, h2, h3, h4, hflush run hrun]
      have hleft := @ih p (run ++ [c]) hrest hnamed
      have hright := @ih p [c] hrest hnamed
      rw [hflush _ (by simp)] at hleft
      rw [hflush _ (by simp)] at hright
      have hone : Recut ([e (run ++ [c])] ++ mpEventsFrom p [] rest)
          ([e run] ++ ([e [c]] ++ mpEventsFrom p [] rest)) := by
        rw [← append_assoc]
        exact .append (hjoin run [c]).symm (.refl _)
      exact hleft.trans (hone.trans (.append (.refl _) hright.symm))
    cases hstate : p.state
    case headerField =>
      have h13 : c ≠ 13 := by simpa [hstate] using hcolon
      by_cases h58 : c = 58
      · refine hclose .headerField .field ?_ ?_ ?_ ?_ ?_ <;>
          simp [mpFlush, mpByte, headerFieldByte, hstate, hrun, h58, MpParser.goto]
      · have hletter : ¬ (c ≠ 45 ∧ isLetter c = false) := by
          intro hno
          simp [mpByte, headerFieldByte, hstate, h13, h58, hno, MpParser.refuse] at hgo
        refine hlonger .headerField .field (fun r hr => ?_) ?_ ?_ ?_ ?_ ?_ <;>
          simp [mpFlush, mpByte, headerFieldByte, *]
    case headerValue =>
      by_cases h13 : c = 13
      · refine hclose .headerValue .value ?_ ?_ ?_ ?_ ?_ <;>
          simp [mpFlush, mpByte, headerValueByte, hstate, hrun, h13, MpParser.goto]
      · refine hlonger .headerValue .value (fun r hr => ?_) ?_ ?_ ?_ ?_ ?_ <;>
          simp [mpFlush, mpByte, headerValueByte, *]
    case partData =>
      by_cases h13 : c = 13
      · refine hclose .partData .data ?_ ?_ ?_ ?_ ?_ <;>
          simp [mpFlush, mpByte, partDataByte, hstate, hrun, h13, MpParser.goto]
      · refine hlonger .partData .data (fun r hr => ?_) ?_ ?_ ?_ ?_ ?_ <;>
          simp [mpFlush, mpByte, partDataByte, *]
    all_goals
      -- in the other states no run is open
      have hsame : mpByte p run c = mpByte p [] c := by simp only [mpByte, hstate]
      have hnone : mpFlush p run = [] := by simp [mpFlush, hstate]
      rw [hsame, hnone]
      exact .refl _

/-- The callbacks for a body that comes in pieces. -/
def mpEventsOf (p : MpParser) : List (List UInt8) → List MpEvent
  | [] => []
  | piece :: pieces => mpEvents p piece ++ mpEventsOf (mpScan p [] piece).parser pieces

theorem mpEvents_taken {p : MpParser} {buf : List UInt8} (h : (mpScan p [] buf).taken = true) :
    mpEvents p buf = mpEventsFrom p [] buf := by
  exact if_pos h

/-- **However a body is cut**, its callbacks are the same, but for where the runs are
cut. -/
theorem mpEvents_recut {pieces : List (List UInt8)} {p : MpParser}
    (htaken : (mpScan p [] pieces.flatten).taken = true)
    (hnamed : mpNamed p pieces.flatten = true) :
    Recut (mpEvents p pieces.flatten) (mpEventsOf p pieces) := by
  induction pieces generalizing p with
  | nil => exact .refl _
  | cons piece pieces ih =>
    rw [flatten_cons] at htaken hnamed ⊢
    have hpiece : (mpScan p [] piece).taken = true := by
      by_contra hno
      rw [not_eq_true] at hno
      rw [mpScan_append_refused _ _ _ hno, hno] at htaken
      cases htaken
    have hsplit := mpScan_append pieces.flatten p [] hpiece
    rw [hsplit] at htaken
    rw [(mpScan_run _ _).2.1] at htaken
    obtain ⟨-, hnamed⟩ := mpNamed_append hnamed hpiece
    have hwhole : mpEvents p (piece ++ pieces.flatten) = (mpScan p [] piece).events ++
        mpEventsFrom (mpScan p [] piece).parser (mpScan p [] piece).run pieces.flatten := by
      rw [mpEvents, mpEventsFrom, hsplit, ← append_assoc]
      exact if_pos (by rw [(mpScan_run _ _).2.1]; exact htaken)
    have hflush := @mpEventsFrom_flush pieces.flatten (mpScan p [] piece).parser
      (mpScan p [] piece).run htaken hnamed
    have hrest := ih htaken hnamed
    rw [mpEvents_taken htaken] at hrest
    have hfirst : mpEventsFrom p [] piece = (mpScan p [] piece).events ++
        mpFlush (mpScan p [] piece).parser (mpScan p [] piece).run := rfl
    rw [hwhole, mpEventsOf, mpEvents_taken hpiece, hfirst, append_assoc]
    exact .append (.refl _) (hflush.trans (.append (.refl _) hrest))

end Meatpi
