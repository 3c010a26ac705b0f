import Mathlib.Data.List.Flatten
import Meatpi.MultipartUpload.Parser

/-!
# The upload's callbacks (`multipart_upload.c`)

The parser's callbacks put a part's headers together and pass what they find to the
caller's handlers. Handlers that accept see the same parts, bytes and ends however
the parser's runs are cut (`runCallbacks_recut`). What a feed of pieces comes to is
decided by the body alone as long as no handler fails (`mpFeed_spec`).
-/

namespace Meatpi

open List

/-- A text in its bytes. -/
def ascii (s : String) : List UInt8 := s.toList.map fun c => c.toNat.toUInt8

/-- The string in an array: up to the NUL. -/
def cString (bytes : List UInt8) : List UInt8 := bytes.takeWhile (· ≠ 0)

def lowerByte (c : UInt8) : UInt8 := if 65 ≤ c ∧ c ≤ 90 then c + 32 else c

/-- `strncasecmp(text, word, strlen(word)) == 0` -/
def startsWithCi (word text : List UInt8) : Bool :=
  decide ((text.take word.length).map lowerByte = word.map lowerByte)

/-- `ci_strstr`: the text from the first occurrence on. -/
def ciStrstr (needle : List UInt8) : List UInt8 → Option (List UInt8)
  | [] => none
  | c :: rest => if startsWithCi needle (c :: rest) then some (c :: rest) else ciStrstr needle rest

/-- `multipart_part_info_t` -/
structure MpPartInfo where
  name : List UInt8
  filename : List UInt8
  contentType : List UInt8
  deriving DecidableEq

/-- The calls an upload makes. -/
inductive MpCall where
  | partBegin (info : MpPartInfo)
  | partData (data : List UInt8)
  | partEnd
  | finished
  deriving DecidableEq

/-- `multipart_upload_handlers_t`: what the handlers answer, after the calls so far.
One that is NULL answers `false` to a part, and `ESP_OK` to its data. -/
structure MpHandlers where
  onPartBegin : List MpCall → MpPartInfo → Bool
  /-- `ESP_OK` -/
  onPartData : List MpCall → List UInt8 → Bool

/-- `header_feed_state_t` -/
inductive HeaderFeed where
  | none | field | value
  deriving DecidableEq

/-- `mp_internal_ctx_t`, with the calls made. -/
structure MpCtx where
  feedState : HeaderFeed
  curField : List UInt8
  curValue : List UInt8
  partInfo : MpPartInfo
  acceptCurrentPart : Bool
  hadError : Bool
  calls : List MpCall

def MpCtx.init : MpCtx := ⟨.none, [], [], ⟨[], [], []⟩, false, false, []⟩

/-- What stands behind `name=`, in quotes or not. -/
def paramValue (cap : ℕ) (text : List UInt8) : List UInt8 :=
  let text := if text.head? = some 34 then text.tail else text
  (text.takeWhile fun c => c ≠ 59 && c ≠ 34).take cap

def mpCommitHeader (x : MpCtx) : MpCtx :=
  if x.curField = [] then x
  else
    let v := cString x.curValue
    let info := x.partInfo
    let info' :=
      if startsWithCi (ascii "Content-Disposition") x.curField then
        { info with
          name := ((ciStrstr (ascii "name=") v).map fun n => paramValue 63 (n.drop 5)).getD info.name
          filename := ((ciStrstr (ascii "filename=") v).map fun f =>
            paramValue 127 (f.drop 9)).getD info.filename }
      else if startsWithCi (ascii "Content-Type") x.curField then
        { info with contentType := v.take 63 }
      else info
    { x with partInfo := info', curField := [], curValue := [], feedState := .none }

/-- A run put behind what is there, as far as it fits. -/
def appendCapped (cap : ℕ) (cur run : List UInt8) : List UInt8 := cur ++ run.take (cap - cur.length)

/-- The callbacks `cb_on_*`; the flag is a return of 0. -/
def mpCallback (h : MpHandlers) (x : MpCtx) : MpEvent → MpCtx × Bool
  | .headerField run =>
    let x := if x.feedState = .value then mpCommitHeader x else x
    ({ x with feedState := .field, curField := appendCapped 63 x.curField run }, true)
  | .headerValue run =>
    ({ x with feedState := .value, curValue := appendCapped 255 x.curValue run }, true)
  | .headersComplete =>
    let x := mpCommitHeader x
    ({ x with
       acceptCurrentPart := h.onPartBegin x.calls x.partInfo
       calls := x.calls ++ [.partBegin x.partInfo] }, true)
  | .partDataBegin => (x, true)
  | .partData run =>
    if x.acceptCurrentPart then
      if h.onPartData x.calls run then ({ x with calls := x.calls ++ [.partData run] }, true)
      else ({ x with calls := x.calls ++ [.partData run], hadError := true }, false)
    else (x, true)
  | .partDataEnd =>
    ({ x with
       calls := if x.acceptCurrentPart then x.calls ++ [.partEnd] else x.calls
       partInfo := ⟨[], [], []⟩, acceptCurrentPart := false
       curField := [], curValue := [], feedState := .none }, true)
  | .bodyEnd => ({ x with calls := x.calls ++ [.finished] }, true)

/-- The callbacks of a buffer, up to one that stops the parser. -/
def runCallbacks (h : MpHandlers) : MpCtx → List MpEvent → MpCtx × Bool
  | x, [] => (x, true)
  | x, e :: es =>
    if (mpCallback h x e).2 then runCallbacks h (mpCallback h x e).1 es else mpCallback h x e

/-- The parser and what its callbacks carry. -/
structure MpRun where
  parser : MpParser
  ctx : MpCtx

/-- `multipart_parser_execute`; the flag is `parsed == len`. -/
def mpExecute (h : MpHandlers) (m : MpRun) (buf : List UInt8) : MpRun × Bool :=
  let r := runCallbacks h m.ctx (mpEvents m.parser buf)
  (⟨(mpScan m.parser [] buf).parser, r.1⟩, (mpScan m.parser [] buf).taken && r.2)

/-- One buffer after the other, up to one that is not taken whole. -/
def mpFeed (h : MpHandlers) : MpRun → List (List UInt8) → MpRun × Bool
  | m, [] => (m, true)
  | m, piece :: pieces =>
    if (mpExecute h m piece).2 then mpFeed h (mpExecute h m piece).1 pieces else mpExecute h m piece

/-! ## Handlers that accept -/

/-- What the caller sees of the calls: the data byte by byte. -/
inductive MpSeen where
  | partBegin (info : MpPartInfo)
  | byte (b : UInt8)
  | partEnd
  | finished

def MpCall.seen : MpCall → List MpSeen
  | .partBegin info => [.partBegin info]
  | .partData data => data.map .byte
  | .partEnd => [.partEnd]
  | .finished => [.finished]

def seenCalls (calls : List MpCall) : List MpSeen := calls.flatMap MpCall.seen

/-- Every part is taken, and no handler fails. -/
def MpHandlers.Accept (h : MpHandlers) : Prop :=
  (∀ calls info, h.onPartBegin calls info = true) ∧ ∀ calls data, h.onPartData calls data = true

/-- The same but for where the data is cut. -/
def Alike (x x' : MpCtx) : Prop :=
  { x with calls := [] } = { x' with calls := [] } ∧ seenCalls x.calls = seenCalls x'.calls

theorem Alike.refl (x : MpCtx) : Alike x x := ⟨rfl, rfl⟩

theorem Alike.symm {x x' : MpCtx} (h : Alike x x') : Alike x' x := ⟨h.1.symm, h.2.symm⟩

theorem Alike.trans {x x' x'' : MpCtx} (h : Alike x x') (h' : Alike x' x'') : Alike x x'' :=
  ⟨h.1.trans h'.1, h.2.trans h'.2⟩

theorem seenCalls_append (calls calls' : List MpCall) :
    seenCalls (calls ++ calls') = seenCalls calls ++ seenCalls calls' := flatMap_append

theorem mpCommitHeader_calls (x : MpCtx) (calls : List MpCall) :
    mpCommitHeader { x with calls := calls } = { mpCommitHeader x with calls := calls } := by
  unfold mpCommitHeader
  split_ifs <;> rfl

theorem mpCommitHeader_keeps (x : MpCtx) : (mpCommitHeader x).calls = x.calls := by
  unfold mpCommitHeader
  split_ifs <;> rfl

theorem Alike.commit {x x' : MpCtx} (h : Alike x x') :
    Alike (mpCommitHeader x) (mpCommitHeader x') := by
  refine ⟨?_, ?_⟩
  · rw [← mpCommitHeader_calls, ← mpCommitHeader_calls, h.1]
  · rw [mpCommitHeader_keeps, mpCommitHeader_keeps]
    exact h.2

section Accepting

variable {h : MpHandlers}

theorem mpCallback_accept (haccept : h.Accept) (x : MpCtx) (e : MpEvent) :
    (mpCallback h x e).2 = true := by
  cases e
  case partData run =>
    rw [mpCallback, haccept.2, if_pos rfl]
    split_ifs <;> rfl
  all_goals rfl

theorem Alike.callback (haccept : h.Accept) {x x' : MpCtx} (hx : Alike x x') (e : MpEvent) :
    Alike (mpCallback h x e).1 (mpCallback h x' e).1 := by
  obtain ⟨feed, field, value, info, accept, error, calls⟩ := x
  obtain ⟨feed', field', value', info', accept', error', calls'⟩ := x'
  obtain ⟨heq, hseen⟩ := hx
  obtain ⟨rfl, rfl, rfl, rfl, rfl, rfl⟩ := heq
  have hcalls : ∀ e, seenCalls (calls ++ [e]) = seenCalls (calls' ++ [e]) := by
    intro e
    rw [seenCalls_append, seenCalls_append]
    exact congrArg (· ++ _) hseen
  cases e with
  | headerField run =>
    have hcommit := @Alike.commit ⟨feed, field, value, info, accept, error, calls⟩
      ⟨feed, field, value, info, accept, error, calls'⟩ ⟨rfl, hseen⟩
    rw [mpCallback, mpCallback]
    split_ifs
    · obtain ⟨hrest, hcalls⟩ := hcommit
      simp only [MpCtx.mk.injEq, and_true] at hrest
      exact ⟨by simp [hrest], hcalls⟩
    · exact ⟨rfl, hseen⟩
  | headerValue run => exact ⟨rfl, hseen⟩
  | headersComplete =>
    have hcommit := @Alike.commit ⟨feed, field, value, info, accept, error, calls⟩
      ⟨feed, field, value, info, accept, error, calls'⟩ ⟨rfl, hseen⟩
    obtain ⟨hrest, -⟩ := hcommit
    simp only [MpCtx.mk.injEq, and_true] at hrest
    rw [mpCallback, mpCallback]
    refine ⟨?_, ?_⟩
    · simp [haccept.1, hrest]
    · rw [mpCommitHeader_keeps, mpCommitHeader_keeps, hrest.2.2.2.1]
      exact hcalls _
  | partDataBegin => exact ⟨rfl, hseen⟩
  | partData run =>
    rw [mpCallback, mpCallback, haccept.2, haccept.2, if_pos rfl, if_pos rfl]
    split_ifs
    · exact ⟨rfl, hcalls _⟩
    · exact ⟨rfl, hseen⟩
  | partDataEnd =>
    refine ⟨rfl, ?_⟩
    show seenCalls (if accept then _ else _) = seenCalls (if accept then _ else _)
    split_ifs
    · exact hcalls _
    · exact hseen
  | bodyEnd => exact ⟨rfl, hcalls _⟩

theorem runCallbacks_accept (haccept : h.Accept) (es : List MpEvent) (x : MpCtx) :
    (runCallbacks h x es).2 = true := by
  induction es generalizing x with
  | nil => rfl
  | cons e es ih =>
    rw [runCallbacks, mpCallback_accept haccept]
    exact ih _

theorem runCallbacks_single (haccept : h.Accept) (x : MpCtx) (e : MpEvent) :
    runCallbacks h x [e] = mpCallback h x e := by
  have hgo := mpCallback_accept haccept x e
  rw [runCallbacks, if_pos hgo, runCallbacks, ← hgo]

theorem runCallbacks_append (haccept : h.Accept) (es fs : List MpEvent) (x : MpCtx) :
    runCallbacks h x (es ++ fs) = runCallbacks h (runCallbacks h x es).1 fs := by
  induction es generalizing fs x with
  | nil => rfl
  | cons e es ih =>
    rw [cons_append, runCallbacks, runCallbacks, mpCallback_accept haccept, if_pos rfl, if_pos rfl]
    exact ih fs _

theorem appendCapped_append (cap : ℕ) (cur a b : List UInt8) :
    appendCapped cap (appendCapped cap cur a) b = appendCapped cap cur (a ++ b) := by
  rw [appendCapped, appendCapped, appendCapped, take_append, append_assoc]
  congr 3
  rw [length_append, length_take]
  omega

/-- **Handlers that accept** see the same, however the runs are cut. -/
theorem runCallbacks_recut (haccept : h.Accept) {es es' : List MpEvent} (hrecut : Recut es es') :
    ∀ {x x' : MpCtx}, Alike x x' → Alike (runCallbacks h x es).1 (runCallbacks h x' es').1 := by
  induction hrecut with
  | refl es =>
    induction es with
    | nil => intro x x' hx; exact hx
    | cons e es ih =>
      intro x x' hx
      rw [runCallbacks, runCallbacks, mpCallback_accept haccept, mpCallback_accept haccept]
      exact ih (hx.callback haccept e)
  | symm _ ih => intro x x' hx; exact (ih hx.symm).symm
  | trans _ _ ih ih' => intro x x' hx; exact (ih hx).trans (ih' (.refl x'))
  | append _ _ ih ih' =>
    intro x x' hx
    rw [runCallbacks_append haccept, runCallbacks_append haccept]
    exact ih' (ih hx)
  | field a b =>
    intro x x' hx
    refine Alike.trans ?_ (hx.callback haccept (.headerField (a ++ b)))
    have hjoin : (runCallbacks h x [.headerField a, .headerField b]).1 =
        (mpCallback h x (.headerField (a ++ b))).1 := by
      simp only [runCallbacks, mpCallback, if_true, reduceCtorEq, if_false, appendCapped_append]
    rw [hjoin]
    exact .refl _
  | value a b =>
    intro x x' hx
    refine Alike.trans ?_ (hx.callback haccept (.headerValue (a ++ b)))
    have hjoin : (runCallbacks h x [.headerValue a, .headerValue b]).1 =
        (mpCallback h x (.headerValue (a ++ b))).1 := by
      simp only [runCallbacks, mpCallback, if_true, appendCapped_append]
    rw [hjoin]
    exact .refl _
  | data a b =>
    intro x x' hx
    rw [runCallbacks_single haccept x']
    refine Alike.trans ?_ (hx.callback haccept (.partData (a ++ b)))
    cases haccepts : x.acceptCurrentPart with
    | false =>
      simp only [runCallbacks, mpCallback, haccepts, Bool.false_eq_true, if_false, if_true]
      exact .refl _
    | true =>
      simp only [runCallbacks, mpCallback, haccepts, haccept.2, if_true]
      refine ⟨rfl, ?_⟩
      simp [seenCalls, MpCall.seen]

end Accepting

theorem mpFeed_accept {h : MpHandlers} (haccept : h.Accept) {pieces : List (List UInt8)}
    {m : MpRun} (htaken : (mpScan m.parser [] pieces.flatten).taken = true) :
    (mpFeed h m pieces).1.ctx = (runCallbacks h m.ctx (mpEventsOf m.parser pieces)).1 := by
  induction pieces generalizing m with
  | nil => rfl
  | cons piece pieces ih =>
    rw [List.flatten_cons] at htaken
    have hpiece : (mpScan m.parser [] piece).taken = true := by
      by_contra hno
      rw [Bool.not_eq_true] at hno
      rw [mpScan_append_refused _ _ _ hno, hno] at htaken
      cases htaken
    rw [mpScan_append _ _ _ hpiece] at htaken
    have hrest : (mpScan (mpScan m.parser [] piece).parser [] pieces.flatten).taken = true := by
      rw [← (mpScan_run _ (mpScan m.parser [] piece).run).2.1]
      exact htaken
    have hok : (mpExecute h m piece).2 = true := by
      show ((mpScan m.parser [] piece).taken && (runCallbacks h m.ctx _).2) = true
      rw [hpiece, runCallbacks_accept haccept]
      rfl
    rw [mpFeed, if_pos hok, ih hrest, mpEventsOf, runCallbacks_append haccept]
    rfl

/-! ## Any handlers -/

section Any

variable (h : MpHandlers)

theorem mpCommitHeader_hadError (x : MpCtx) : (mpCommitHeader x).hadError = x.hadError := by
  unfold mpCommitHeader
  split_ifs <;> rfl

theorem mpCallback_spec {x : MpCtx} (hx : x.hadError = false) (e : MpEvent) :
    ((mpCallback h x e).2 = false ↔ (mpCallback h x e).1.hadError = true) ∧
      (.finished ∈ (mpCallback h x e).1.calls ↔ .finished ∈ x.calls ∨ e = .bodyEnd) := by
  cases e with
  | headerField run =>
    rw [mpCallback]
    split_ifs
    · simp [mpCommitHeader_hadError, mpCommitHeader_keeps, hx]
    · simp [hx]
  | headerValue run => simp [mpCallback, hx]
  | headersComplete =>
    simp [mpCallback, mpCommitHeader_hadError, mpCommitHeader_keeps, hx]
  | partDataBegin => simp [mpCallback, hx]
  | partData run =>
    rw [mpCallback]
    split_ifs <;> simp [hx]
  | partDataEnd =>
    rw [mpCallback]
    split_ifs <;> simp [hx]
  | bodyEnd => simp [mpCallback, hx]

theorem runCallbacks_spec (es : List MpEvent) {x : MpCtx} (hx : x.hadError = false) :
    ((runCallbacks h x es).2 = false ↔ (runCallbacks h x es).1.hadError = true) ∧
      ((runCallbacks h x es).2 = true →
        (.finished ∈ (runCallbacks h x es).1.calls ↔ .finished ∈ x.calls ∨ .bodyEnd ∈ es)) := by
  induction es generalizing x with
  | nil =>
    simp [runCallbacks, hx]
  | cons e es ih =>
    obtain ⟨hstop, hend⟩ := mpCallback_spec h hx e
    rw [runCallbacks]
    by_cases hgo : (mpCallback h x e).2 = true
    · have hnext : (mpCallback h x e).1.hadError = false := by
        rw [← Bool.not_eq_true, ← hstop, hgo]
        simp
      obtain ⟨hstop', hend'⟩ := ih hnext
      rw [if_pos hgo]
      refine ⟨hstop', fun hall => ?_⟩
      rw [hend' hall, hend, List.mem_cons, or_assoc]
      exact or_congr Iff.rfl (or_congr ⟨Eq.symm, Eq.symm⟩ Iff.rfl)
    · rw [if_neg hgo]
      exact ⟨hstop, fun hall => absurd hall hgo⟩

theorem bodyEnd_mem_mpEvents (p : MpParser) (buf : List UInt8) :
    .bodyEnd ∈ mpEvents p buf ↔ .bodyEnd ∈ (mpScan p [] buf).events := by
  have hflush : ∀ (p : MpParser) (run : List UInt8), .bodyEnd ∉ mpFlush p run := by
    intro p run
    rw [mpFlush]
    split_ifs
    · simp
    · split <;> simp
  rw [mpEvents]
  split_ifs
  · rw [List.mem_append, or_iff_left (hflush _ _)]
  · exact Iff.rfl

/-- **A feed in pieces**: where no handler fails the body alone decides whether it is
taken, and whether the closing boundary is reached. -/
theorem mpFeed_spec : ∀ {pieces : List (List UInt8)} {m : MpRun}, m.ctx.hadError = false →
    ((mpFeed h m pieces).1.ctx.hadError = true → (mpFeed h m pieces).2 = false) ∧
      ((mpFeed h m pieces).1.ctx.hadError = false →
        (mpFeed h m pieces).2 = (mpScan m.parser [] pieces.flatten).taken ∧
          (.finished ∈ (mpFeed h m pieces).1.ctx.calls ↔ .finished ∈ m.ctx.calls ∨
              .bodyEnd ∈ (mpScan m.parser [] pieces.flatten).events)) := by
  intro pieces
  induction pieces with
  | nil =>
    intro m hm
    simp [mpFeed, mpScan, hm]
  | cons piece pieces ih =>
    intro m hm
    obtain ⟨hstop, hend⟩ := runCallbacks_spec h (mpEvents m.parser piece) hm
    rw [bodyEnd_mem_mpEvents] at hend
    rw [mpFeed, List.flatten_cons]
    have hok : (mpExecute h m piece).2 =
      ((mpScan m.parser [] piece).taken && (runCallbacks h m.ctx (mpEvents m.parser piece)).2) := rfl
    have hctx : (mpExecute h m piece).1.ctx =
      (runCallbacks h m.ctx (mpEvents m.parser piece)).1 := rfl
    cases hback : (runCallbacks h m.ctx (mpEvents m.parser piece)).2 with
    | false =>
      -- a handler failed
      rw [hback, Bool.and_false] at hok
      have herror := hstop.mp hback
      rw [if_neg (by rw [hok]; exact Bool.false_ne_true), hctx, herror]
      exact ⟨fun _ => hok, fun hno => by cases hno⟩
    | true =>
      have hnone : (runCallbacks h m.ctx (mpEvents m.parser piece)).1.hadError = false := by
        rw [← Bool.not_eq_true, ← hstop, hback]
        simp
      have hend := hend hback
      rw [hback, Bool.and_true] at hok
      cases htaken : (mpScan m.parser [] piece).taken with
      | false =>
        rw [htaken] at hok
        rw [if_neg (by rw [hok]; exact Bool.false_ne_true), hctx, hnone,
          mpScan_append_refused _ _ _ htaken, htaken]
        exact ⟨fun hno => (by cases hno), fun _ => ⟨hok, hend⟩⟩
      | true =>
        rw [htaken] at hok
        have hnext : (mpExecute h m piece).1.ctx.hadError = false := by rw [hctx, hnone]
        obtain ⟨hfail, hgood⟩ := @ih (mpExecute h m piece).1 hnext
        rw [if_pos hok]
        refine ⟨hfail, fun hno => ?_⟩
        obtain ⟨hall, hfinished⟩ := hgood hno
        obtain ⟨-, hsteer, hsteerEnd⟩ := @mpScan_run pieces.flatten (mpScan m.parser [] piece).parser
          (mpScan m.parser [] piece).run
        rw [mpScan_append _ _ _ htaken, hall, hfinished, hctx, hend, List.mem_append]
        refine ⟨hsteer.symm, ?_⟩
        rw [or_assoc]
        exact or_congr Iff.rfl (or_congr Iff.rfl hsteerEnd.symm)

end Any

end Meatpi
