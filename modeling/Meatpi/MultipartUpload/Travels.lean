import Meatpi.MultipartUpload.Reads

/-!
# How an upload travels

A delivery is a body on its way: where its boundary is named, how it is sent, and the
reads it arrives in. It travels well (`Travels`) when accepting handlers see the parts as
of the whole body at once, and `ESP_OK` says that the closing boundary arrived and no
handler failed. The code goes by the end of the transport instead, and after reading
ahead awaits all of `Content-Length` again; `travels_iff` says when the two agree.
-/

namespace Meatpi

open List

variable {pieces qs : List (List UInt8)} {y : MpCtx} {x : MpCtx}

/-- The body begins with the line `boundary`, as far as it has arrived. -/
def IsFirstLine (boundary body : List UInt8) : Prop :=
  (13 : UInt8) ∉ boundary ∧ (10 : UInt8) ∉ boundary ∧
    (body <+: boundary ∨ boundary ++ [13] <+: body)

/-- A body on its way. -/
structure MpDelivery where
  boundary : List UInt8
  /-- what arrives of the body -/
  body : List UInt8
  req : MpRequest
  rxBufSize : ℕ
  arrive : Arrive (rxSizeOf rxBufSize) (readPieces req.reads)
  /-- the header names the boundary, or the first line is it -/
  named : headerBoundary req = some boundary ∨
    (headerBoundary req = none ∧ IsFirstLine boundary body)
  /-- the reads bring the body: in chunked coding, or as it is and no longer than the
  length that was sent -/
  carried : if requestIsChunked req then
      (∃ whole raw, Coded True whole raw ∧ (readPieces req.reads).flatten <+: raw) ∧
        (dcFeed .init (readPieces req.reads).flatten).2 = body
    else (readPieces req.reads).flatten = body ∧
      (0 < contentRemaining req.contentLen →
        (body.length : ℤ) ≤ contentRemaining req.contentLen)

/-! ## What is asked -/

/-- A handler failed: it answered one of its calls with an error. -/
def HandlerFailed (h : MpHandlers) (calls : List MpCall) : Prop :=
  ∃ before data after, calls = before ++ .partData data :: after ∧
    h.onPartData before data = false

/-- The parser takes the body, and every header line has its colon. -/
def IsMultipart (boundary body : List UInt8) : Prop :=
  (mpScan (.init boundary) [] body).taken = true ∧ mpNamed (.init boundary) body = true

/-- The calls for a body that comes at once. -/
def wholeCalls (h : MpHandlers) (boundary body : List UInt8) : List MpCall :=
  (runCallbacks h .init (mpEvents (.init boundary) body)).1.calls

/-- **What an upload is to do**, whatever the handlers are. -/
def Travels (d : MpDelivery) : Prop :=
  ∀ h : MpHandlers,
    (h.Accept → IsMultipart d.boundary d.body →
      seenCalls (multipartUploadHandle h d.req d.rxBufSize).2 =
        seenCalls (wholeCalls h d.boundary d.body)) ∧
    ((multipartUploadHandle h d.req d.rxBufSize).1 = true ↔
      .finished ∈ (multipartUploadHandle h d.req d.rxBufSize).2 ∧
        ¬ HandlerFailed h (multipartUploadHandle h d.req d.rxBufSize).2)

/-! ## What the code goes by -/

namespace MpDelivery

variable (d : MpDelivery)

/-- The first line has arrived. -/
def LineArrived : Prop := d.boundary ++ [13] <+: d.body

/-- The loops come to their end: the last chunk has arrived, or the length that was sent,
or the connection is closed where no length was. Behind a first line that was read ahead
a length is awaited once more. -/
def ReadsEnd : Prop :=
  if requestIsChunked d.req then
    (dcFeed .init (readPieces d.req.reads).flatten).1.state = .done ∧
      (headerBoundary d.req = none → d.LineArrived)
  else if headerBoundary d.req = none then contentRemaining d.req.contentLen ≤ 0 ∧ d.LineArrived
  else contentRemaining d.req.contentLen ≤ d.body.length

/-- The parser takes what arrives of the body. -/
def Taken : Prop := (mpScan (.init d.boundary) [] d.body).taken = true

/-- The closing boundary arrives. -/
def Closes : Prop := .bodyEnd ∈ (mpScan (.init d.boundary) [] d.body).events

/-- A first line that is read ahead arrives in the first read, or in pieces that fit the
buffer up to the read that ends it. -/
def LineWhole : Prop :=
  headerBoundary d.req = none →
    (d.body <+: d.boundary ∧ d.body.length ≤ rxSizeOf d.rxBufSize) ∨
    (d.boundary.length < 256 ∧
      if requestIsChunked d.req then
        ∃ ps x qs, readPieces d.req.reads = ps ++ x :: qs ∧
          (dcFeed .init ps.flatten).2.length ≤ d.boundary.length ∧
          d.boundary.length < (dcFeed .init (ps ++ [x]).flatten).2.length ∧
          (dcFeed .init (ps ++ [x]).flatten).2.length ≤ rxSizeOf d.rxBufSize
      else ∃ x qs, readPieces d.req.reads = x :: qs ∧ d.boundary.length < x.length)

end MpDelivery

/-! ## A handler that fails is noted -/

theorem handlerFailed_snoc (h : MpHandlers) (calls : List MpCall) (c : MpCall) :
    HandlerFailed h (calls ++ [c]) ↔
      HandlerFailed h calls ∨ ∃ data, c = .partData data ∧ h.onPartData calls data = false := by
  constructor
  · rintro ⟨before, data, after, heq, hfail⟩
    rcases eq_nil_or_concat after with rfl | ⟨after', c', rfl⟩
    · obtain ⟨rfl, hc⟩ := append_inj' heq rfl
      exact .inr ⟨data, by simpa using hc, hfail⟩
    · have heq' : calls ++ [c] = (before ++ .partData data :: after') ++ [c'] := by
        rw [heq, concat_eq_append, append_assoc, cons_append]
      exact .inl ⟨before, data, after', (append_inj' heq' rfl).1, hfail⟩
  · rintro (⟨before, data, after, rfl, hfail⟩ | ⟨data, rfl, hfail⟩)
    · exact ⟨before, data, after ++ [c], by simp, hfail⟩
    · exact ⟨calls, data, [], rfl, hfail⟩

/-- `had_error` says that a handler failed. -/
def ErrorNoted (h : MpHandlers) (x : MpCtx) : Prop := x.hadError = true ↔ HandlerFailed h x.calls

theorem ErrorNoted.iff {h : MpHandlers} (hx : ErrorNoted h x) :
    x.hadError = true ↔ HandlerFailed h x.calls := hx

theorem errorNoted_init (h : MpHandlers) : ErrorNoted h .init := by
  refine ⟨fun hno => (by cases hno), ?_⟩
  rintro ⟨before, data, after, heq, -⟩
  simp [MpCtx.init] at heq

section Noted

variable {h : MpHandlers}

theorem ErrorNoted.of_snoc {c : MpCall} (hx : ErrorNoted h x) (hcalls : y.calls = x.calls ++ [c])
    (herror : y.hadError = x.hadError) (hc : ∀ data, c ≠ .partData data) : ErrorNoted h y := by
  rw [ErrorNoted, herror, hcalls, handlerFailed_snoc, hx.iff]
  refine ⟨.inl, ?_⟩
  rintro (hfail | ⟨data, hdata, -⟩)
  · exact hfail
  · exact absurd hdata (hc data)

theorem ErrorNoted.of_same (hx : ErrorNoted h x) (hcalls : y.calls = x.calls)
    (herror : y.hadError = x.hadError) : ErrorNoted h y := by
  rw [ErrorNoted, herror, hcalls]
  exact hx

theorem ErrorNoted.callback (hx : ErrorNoted h x) (hgo : x.hadError = false) (e : MpEvent) :
    ErrorNoted h (mpCallback h x e).1 := by
  cases e with
  | headerField run =>
    refine hx.of_same ?_ ?_
    · rw [mpCallback]
      split_ifs
      · exact mpCommitHeader_keeps x
      · rfl
    · rw [mpCallback]
      split_ifs
      · exact mpCommitHeader_hadError x
      · rfl
  | headerValue run => exact hx
  | headersComplete =>
    refine hx.of_snoc (c := .partBegin (mpCommitHeader x).partInfo) ?_ (mpCommitHeader_hadError x)
      fun data hno => by cases hno
    show (mpCommitHeader x).calls ++ _ = _
    rw [mpCommitHeader_keeps]
  | partDataBegin => exact hx
  | partData run =>
    have hfail : ¬ HandlerFailed h x.calls := fun hno => by
      rw [hx.mpr hno] at hgo
      cases hgo
    rw [mpCallback]
    split_ifs with haccept hok
    · rw [ErrorNoted, handlerFailed_snoc]
      refine ⟨fun hno => absurd (hx.mp hno) hfail, ?_⟩
      rintro (hno | ⟨data, hdata, hno⟩)
      · exact absurd hno hfail
      · cases hdata
        rw [hok] at hno
        cases hno
    · rw [ErrorNoted, handlerFailed_snoc]
      exact ⟨fun _ => .inr ⟨run, rfl, by simpa using hok⟩, fun _ => rfl⟩
    · exact hx
  | partDataEnd =>
    rw [mpCallback]
    split_ifs
    · exact hx.of_snoc (c := .partEnd) rfl rfl fun data hno => by cases hno
    · exact hx.of_same rfl rfl
  | bodyEnd => exact hx.of_snoc (c := .finished) rfl rfl fun data hno => by cases hno

theorem ErrorNoted.callbacks {es : List MpEvent} {x : MpCtx} (hx : ErrorNoted h x)
    (hgo : x.hadError = false) : ErrorNoted h (runCallbacks h x es).1 := by
  induction es generalizing x with
  | nil => exact hx
  | cons e es ih =>
    rw [runCallbacks]
    split_ifs with hok
    · refine ih (hx.callback hgo e) ?_
      rw [← Bool.not_eq_true, ← (mpCallback_spec h hgo e).1, hok]
      simp
    · exact hx.callback hgo e

theorem ErrorNoted.feed {m : MpRun} (hm : ErrorNoted h m.ctx) (hgo : m.ctx.hadError = false) :
    ErrorNoted h (mpFeed h m pieces).1.ctx := by
  induction pieces generalizing m with
  | nil => exact hm
  | cons piece pieces ih =>
    have hpiece : ErrorNoted h (mpExecute h m piece).1.ctx := hm.callbacks hgo
    rw [mpFeed]
    split_ifs with hok
    · refine ih hpiece ?_
      have hback : (runCallbacks h m.ctx (mpEvents m.parser piece)).2 = true := by
        rw [mpExecute, Bool.and_eq_true] at hok
        exact hok.2
      rw [← Bool.not_eq_true]
      show ¬ (runCallbacks h m.ctx (mpEvents m.parser piece)).1.hadError = true
      rw [← (runCallbacks_spec h _ hgo).1, hback]
      simp
    · exact hpiece

end Noted

/-! ## The function feeds the body -/

theorem mpScan_line {bytes : List UInt8} {p : MpParser}
    (hstate : p.state = .start ∨ p.state = .startBoundary) (h10 : (10 : UInt8) ∉ bytes) :
    (mpScan p [] bytes).events = [] ∧ (mpScan p [] bytes).run = [] := by
  induction bytes generalizing p with
  | nil => exact ⟨rfl, rfl⟩
  | cons c rest ih =>
    rw [List.mem_cons, not_or] at h10
    have hbyte : ∀ q : MpParser, q.state = .startBoundary →
        (startBoundaryByte q c).events = [] ∧ (startBoundaryByte q c).run = [] ∧
          ((startBoundaryByte q c).taken = true →
            (startBoundaryByte q c).parser.state = .startBoundary) := by
      intro q hq
      rw [startBoundaryByte]
      split_ifs with h1 h2 h3 h4 h5
      · exact ⟨rfl, rfl, fun hno => by cases hno⟩
      · exact ⟨rfl, rfl, fun _ => hq⟩
      · exact ⟨rfl, rfl, fun hno => by cases hno⟩
      · exact absurd (not_not.1 h4) (Ne.symm h10.1)
      · exact ⟨rfl, rfl, fun hno => by cases hno⟩
      · exact ⟨rfl, rfl, fun _ => hq⟩
    obtain ⟨hevents, hrun, hnext⟩ : (mpByte p [] c).events = [] ∧ (mpByte p [] c).run = [] ∧
        ((mpByte p [] c).taken = true → (mpByte p [] c).parser.state = .startBoundary) := by
      rcases hstate with h | h
      · rw [mpByte, h]
        exact hbyte { p with index := 0, state := .startBoundary } rfl
      · rw [mpByte, h]
        exact hbyte p h
    rw [mpScan]
    split_ifs with hgo
    · rw [hevents, hrun]
      exact ih (.inr (hnext hgo)) h10.2
    · exact ⟨hevents, hrun⟩

theorem isFirstLine_none {boundary body : List UInt8} (h : IsFirstLine boundary body)
    (hbody : body <+: boundary) : (13 : UInt8) ∉ body ∧ (10 : UInt8) ∉ body :=
  ⟨fun hno => h.1 (hbody.subset hno), fun hno => h.2.1 (hbody.subset hno)⟩

/-- The function feeds `pieces` to a parser for the boundary, and returns by the end of
the transport. -/
def FeedsAs (d : MpDelivery) (pieces : List (List UInt8)) : Prop :=
  ∀ h : MpHandlers,
    (multipartUploadHandle h d.req d.rxBufSize).2 =
        (mpFeed h ⟨.init d.boundary, .init⟩ pieces).1.ctx.calls ∧
    ((multipartUploadHandle h d.req d.rxBufSize).1 = true ↔
      (mpFeed h ⟨.init d.boundary, .init⟩ pieces).2 = true ∧ d.ReadsEnd ∧
        (mpFeed h ⟨.init d.boundary, .init⟩ pieces).1.ctx.hadError = false)

section Feeds

variable {d : MpDelivery}

theorem FeedsAs.of_uploadFrom {a : MpAhead} (ended : Bool)
    (ha : aheadOf d.req (rxSizeOf d.rxBufSize) = some a) (hended : ended = true ↔ d.ReadsEnd)
    (hfrom : ∀ h, uploadFrom h (rxSizeOf d.rxBufSize) (requestIsChunked d.req) d.req.contentLen a =
      ((mpFeed h ⟨.init d.boundary, .init⟩ pieces).1,
        (mpFeed h ⟨.init d.boundary, .init⟩ pieces).2 && ended)) : FeedsAs d pieces := by
  intro h
  rw [multipartUploadHandle, ha, Option.elim_some, hfrom]
  refine ⟨rfl, ?_⟩
  simp only [Bool.and_eq_true, Bool.not_eq_true', hended, and_assoc]

/-- **The boundary is named by the header.** -/
theorem feedsAs_of_header (hnamed : headerBoundary d.req = some d.boundary) :
    ∃ pieces : List (List UInt8), pieces.flatten = d.body ∧ FeedsAs d pieces := by
  have harrive := d.arrive
  have hcarried := d.carried
  have hahead : aheadOf d.req (rxSizeOf d.rxBufSize) =
      some ⟨d.boundary, [], .init, d.req.reads⟩ := by
    rw [aheadOf, hnamed, Option.elim_some]
  have hread : ¬ headerBoundary d.req = none := by simp [hnamed]
  cases hchunked : requestIsChunked d.req with
  | true =>
    rw [if_pos hchunked] at hcarried
    obtain ⟨⟨whole, raw, hcoded, hpart⟩, hbody⟩ := hcarried
    obtain ⟨hok, -, -⟩ := dcFeed_part hcoded hpart
    refine ⟨decodedPieces .init (readPieces d.req.reads), by rw [decodedPieces_flatten, hbody],
      .of_uploadFrom (decide ((dcFeed .init (readPieces d.req.reads).flatten).1.state = .done))
        hahead ?_ fun h => ?_⟩
    · rw [MpDelivery.ReadsEnd, if_pos hchunked, decide_eq_true_iff]
      exact ⟨fun hdone => ⟨hdone, fun hno => absurd hno hread⟩, And.left⟩
    · rw [hchunked]
      exact readChunked_eq harrive hok
  | false =>
    rw [if_neg (by simp [hchunked])] at hcarried
    obtain ⟨hbody, hlen⟩ := hcarried
    refine ⟨readPieces d.req.reads, hbody, ?_⟩
    by_cases hknown : 0 < contentRemaining d.req.contentLen
    · refine .of_uploadFrom (decide (contentRemaining d.req.contentLen ≤
        ((readPieces d.req.reads).flatten.length : ℤ))) hahead ?_ fun h => ?_
      · rw [MpDelivery.ReadsEnd, if_neg (by simp [hchunked]), if_neg hread, decide_eq_true_iff,
          hbody]
      · have hle := hlen hknown
        rw [← hbody] at hle
        rw [hchunked, uploadFrom_nil rfl, readOn, if_pos hknown]
        exact readKnown_eq harrive hle
    · refine .of_uploadFrom true hahead ?_ fun h => ?_
      · rw [MpDelivery.ReadsEnd, if_neg (by simp [hchunked]), if_neg hread]
        exact ⟨fun _ => by omega, fun _ => rfl⟩
      · rw [hchunked, uploadFrom_nil rfl, readOn, if_neg hknown, Bool.and_true]
        exact readToEnd_eq harrive

theorem aheadOf_none (hnone : headerBoundary d.req = none) :
    aheadOf d.req (rxSizeOf d.rxBufSize) =
      if requestIsChunked d.req then readAheadChunked (rxSizeOf d.rxBufSize) .init [] d.req.reads
      else readAhead (rxSizeOf d.rxBufSize) d.req.reads := by
  rw [aheadOf, hnone, Option.elim_none]

/-- **The first line has not ended**: there is no boundary, and there are no calls. -/
theorem feedsAs_of_short (hnone : headerBoundary d.req = none)
    (hfirst : IsFirstLine d.boundary d.body) (hshort : d.body <+: d.boundary)
    (hfits : d.body.length ≤ rxSizeOf d.rxBufSize) : FeedsAs d [d.body] := by
  have harrive := d.arrive
  have hcarried := d.carried
  obtain ⟨h13, h10⟩ := isFirstLine_none hfirst hshort
  have hno : aheadOf d.req (rxSizeOf d.rxBufSize) = none := by
    rw [aheadOf_none hnone]
    cases hchunked : requestIsChunked d.req with
    | true =>
      rw [if_pos hchunked] at hcarried
      obtain ⟨⟨whole, raw, hcoded, hpart⟩, hbody⟩ := hcarried
      obtain ⟨hok, -, -⟩ := dcFeed_part hcoded hpart
      have hpos : 0 < rxSizeOf d.rxBufSize := by
        rw [rxSizeOf]
        split_ifs <;> omega
      refine readAheadChunked_none harrive hpos ?_ ?_ ?_ hok
      all_goals
        rw [hbody]
        assumption
    | false =>
      rw [if_neg (by simp [hchunked])] at hcarried
      refine readAhead_none harrive ?_ ?_
      all_goals
        rw [hcarried.1]
        assumption
  intro h
  have hctx : (mpFeed h ⟨.init d.boundary, .init⟩ [d.body]).1.ctx = .init := by
    obtain ⟨hevents, hrun⟩ := mpScan_line (p := .init d.boundary) (.inl rfl) h10
    have hquiet : mpEvents (.init d.boundary) d.body = [] := by
      rw [mpEvents, hevents, hrun]
      exact ite_self []
    have hone : (mpExecute h ⟨.init d.boundary, .init⟩ d.body).1.ctx = .init := by
      rw [mpExecute, hquiet]
      rfl
    rw [mpFeed]
    split_ifs
    · exact hone
    · exact hone
  have hnotArrived : ¬ d.LineArrived := by
    rintro ⟨rest, hrest⟩
    rw [← hrest] at h13
    simp at h13
  rw [multipartUploadHandle, hno, hctx]
  refine ⟨rfl, fun hno => (by cases hno), ?_⟩
  rintro ⟨-, hend, -⟩
  rw [MpDelivery.ReadsEnd] at hend
  exfalso
  split_ifs at hend
  · exact hnotArrived (hend.2 hnone)
  · exact hnotArrived hend.2

theorem line_of_longer (hfirst : IsFirstLine d.boundary d.body) {x : List UInt8} (hx : x <+: d.body)
    (hlong : d.boundary.length < x.length) : d.boundary ++ [13] <+: x ∧ d.LineArrived := by
  rcases hfirst.2.2 with hshort | harrived
  · have := hshort.length_le
    have := hx.length_le
    omega
  · refine ⟨prefix_of_prefix_length_le harrived hx ?_, harrived⟩
    rw [length_append]
    exact hlong

/-- **A chunked body is read ahead**, up to the read that ends the line. -/
theorem feedsAs_of_aheadChunked (hnone : headerBoundary d.req = none)
    (hfirst : IsFirstLine d.boundary d.body) (hchunked : requestIsChunked d.req = true)
    (hlen256 : d.boundary.length < 256) {ps : List (List UInt8)} {x : List UInt8}
    (hsplit : readPieces d.req.reads = ps ++ x :: qs)
    (hbefore : (dcFeed .init ps.flatten).2.length ≤ d.boundary.length)
    (hafter : d.boundary.length < (dcFeed .init (ps ++ [x]).flatten).2.length)
    (hroom : (dcFeed .init (ps ++ [x]).flatten).2.length ≤ rxSizeOf d.rxBufSize) :
    ∃ pieces : List (List UInt8), pieces.flatten = d.body ∧ FeedsAs d pieces := by
  have harrive := d.arrive
  have hcarried := d.carried
  rw [if_pos hchunked] at hcarried
  obtain ⟨⟨whole, raw, hcoded, hpart⟩, hbody⟩ := hcarried
  obtain ⟨hok, -, -⟩ := dcFeed_part hcoded hpart
  have hflat : (readPieces d.req.reads).flatten = (ps ++ [x]).flatten ++ qs.flatten := by
    rw [hsplit]
    simp
  rw [hflat] at hok hbody
  have hokAhead := dcFeed_error hok
  rw [dcFeed_append] at hok hbody
  dsimp only at hok hbody
  obtain ⟨hline, harrived⟩ := line_of_longer hfirst ⟨_, hbody⟩ hafter
  -- before the read that ends the line there is no line end
  have hps : (dcFeed .init ps.flatten).2 <+: d.boundary := by
    have hpre : (dcFeed .init ps.flatten).2 <+: (dcFeed .init (ps ++ [x]).flatten).2 := by
      rw [flatten_append, dcFeed_append]
      exact prefix_append _ _
    exact prefix_of_prefix_length_le hpre ((prefix_append _ _).trans hline) hbefore
  obtain ⟨reads', hreads', hqs⟩ := @readAheadChunked_line _ _ hfirst.1 hlen256 x qs _ .init [] ps
    hsplit harrive (fun hno => hfirst.1 (hps.subset hno)) (fun hno => hfirst.2.1 (hps.subset hno))
    hline hroom hokAhead
  have hahead := aheadOf_none hnone
  rw [if_pos hchunked, hreads'] at hahead
  have harriveRest : Arrive (rxSizeOf d.rxBufSize) (readPieces reads') := by
    rw [hqs]
    intro y hy
    refine harrive y ?_
    rw [hsplit]
    simp [hy]
  refine ⟨(dcFeed .init (ps ++ [x]).flatten).2 ::
    decodedPieces (dcFeed .init (ps ++ [x]).flatten).1 qs, ?_, .of_uploadFrom
      (decide ((dcFeed (dcFeed .init (ps ++ [x]).flatten).1 qs.flatten).1.state = .done))
      hahead ?_ fun h => ?_⟩
  · rw [flatten_cons, decodedPieces_flatten, hbody]
  · rw [MpDelivery.ReadsEnd, if_pos hchunked, decide_eq_true_iff, hflat, dcFeed_append]
    exact ⟨fun hdone => ⟨hdone, fun _ => harrived⟩, And.left⟩
  · rw [hchunked]
    refine uploadFrom_ahead ?_ ((prefix_append _ _).trans hline) fun m => ?_
    · intro hnil
      have hempty : (dcFeed .init (ps ++ [x]).flatten).2 = [] := hnil
      rw [hempty] at hafter
      cases hafter
    · rw [← hqs]
      exact readChunked_eq harriveRest (by rw [hqs]; exact hok)

/-- **The first read has the line**; a length that was sent is then awaited again. -/
theorem feedsAs_of_ahead (hnone : headerBoundary d.req = none)
    (hfirst : IsFirstLine d.boundary d.body) (hchunked : requestIsChunked d.req = false)
    (hlen256 : d.boundary.length < 256) {x : List UInt8} (hsplit : readPieces d.req.reads = x :: qs)
    (hlong : d.boundary.length < x.length) : FeedsAs d (x :: qs) := by
  have harrive := d.arrive
  have hcarried := d.carried
  rw [if_neg (by simp [hchunked])] at hcarried
  obtain ⟨hbody, hlen⟩ := hcarried
  rw [hsplit, flatten_cons] at hbody
  obtain ⟨hline, harrived⟩ := line_of_longer hfirst ⟨_, hbody⟩ hlong
  have hne : x ≠ [] := by
    rintro rfl
    cases hlong
  obtain ⟨reads', hreads', hqs⟩ := readAhead_line hfirst.1 hlen256 hline hsplit harrive
  have hahead := aheadOf_none hnone
  rw [hchunked, hreads'] at hahead
  have harriveRest : Arrive (rxSizeOf d.rxBufSize) (readPieces reads') := by
    rw [hqs]
    rw [hsplit] at harrive
    exact harrive.tail
  by_cases hknown : 0 < contentRemaining d.req.contentLen
  · have htotal := congrArg List.length hbody
    rw [length_append] at htotal
    refine .of_uploadFrom false hahead ?_ fun h => ?_
    · rw [MpDelivery.ReadsEnd, if_neg (by simp [hchunked]), if_pos hnone]
      exact ⟨fun hno => (by cases hno), fun hend => by omega⟩
    · rw [hchunked]
      refine uploadFrom_ahead hne ((prefix_append _ _).trans hline) fun m => ?_
      have hloop := @readKnown_eq h _ reads' m _ harriveRest
        (show ((readPieces reads').flatten.length : ℤ) ≤ contentRemaining d.req.contentLen by
          rw [hqs]
          omega)
      rw [readOn, if_neg Bool.false_ne_true, if_pos hknown, hloop, hqs, decide_eq_false (by omega)]
  · refine .of_uploadFrom true hahead ?_ fun h => ?_
    · rw [MpDelivery.ReadsEnd, if_neg (by simp [hchunked]), if_pos hnone]
      exact ⟨fun _ => ⟨by omega, harrived⟩, fun _ => rfl⟩
    · rw [hchunked]
      refine uploadFrom_ahead hne ((prefix_append _ _).trans hline) fun m => ?_
      rw [readOn, if_neg hknown, Bool.and_true, ← hqs]
      exact readToEnd_eq harriveRest

/-- **Every byte that arrives is fed once, in order**, and the result goes by the end of
the transport. -/
theorem multipartUploadHandle_feeds (hline : d.LineWhole) :
    ∃ pieces : List (List UInt8), pieces.flatten = d.body ∧ FeedsAs d pieces := by
  rcases d.named with hnamed | ⟨hnone, hfirst⟩
  · exact feedsAs_of_header hnamed
  rcases hline hnone with ⟨hshort, hfits⟩ | ⟨hlen256, hpieces⟩
  · exact ⟨[d.body], by simp, feedsAs_of_short hnone hfirst hshort hfits⟩
  cases hchunked : requestIsChunked d.req with
  | true =>
    rw [if_pos hchunked] at hpieces
    obtain ⟨ps, x, qs, hsplit, hbefore, hafter, hroom⟩ := hpieces
    exact feedsAs_of_aheadChunked hnone hfirst hchunked hlen256 hsplit hbefore hafter hroom
  | false =>
    rw [if_neg (by simp [hchunked])] at hpieces
    obtain ⟨x, qs, hsplit, hlong⟩ := hpieces
    have hcarried := d.carried
    rw [if_neg (by simp [hchunked]), hsplit] at hcarried
    exact ⟨x :: qs, hcarried.1, feedsAs_of_ahead hnone hfirst hchunked hlen256 hsplit hlong⟩

end Feeds

/-! ## When an upload travels well -/

/-- The end of the transport and the closing boundary come to the same. -/
def MpDelivery.EndsAgree (d : MpDelivery) : Prop := d.ReadsEnd ∧ d.Taken ↔ d.Closes

/-- Handlers that take everything. -/
def MpHandlers.all : MpHandlers := ⟨fun _ _ => true, fun _ _ => true⟩

/-- **Which uploads travel well**: those whose boundary, if it is read ahead, arrives whole,
and whose transport ends exactly when the closing boundary has arrived in a body that
the parser takes. With the boundary whole, no others do. -/
theorem travels_iff (d : MpDelivery) :
    (d.LineWhole ∧ d.EndsAgree → Travels d) ∧ (d.LineWhole → Travels d → d.EndsAgree) := by
  -- where no handler fails, what is returned and what is called for
  have hfeed : ∀ (h : MpHandlers) {pieces : List (List UInt8)}, pieces.flatten = d.body →
      (mpFeed h ⟨.init d.boundary, .init⟩ pieces).1.ctx.hadError = false →
      ((mpFeed h ⟨.init d.boundary, .init⟩ pieces).2 = true ↔ d.Taken) ∧
        (.finished ∈ (mpFeed h ⟨.init d.boundary, .init⟩ pieces).1.ctx.calls ↔ d.Closes) := by
    intro h pieces hbody hgood
    have hspec := (@mpFeed_spec h pieces ⟨.init d.boundary, .init⟩ rfl).2 hgood
    rw [hbody] at hspec
    obtain ⟨htaken, hfinished⟩ := hspec
    refine ⟨by rw [htaken]; exact Iff.rfl, ?_⟩
    rw [hfinished]
    exact or_iff_right (by simp [MpCtx.init])
  constructor
  · rintro ⟨hline, hagree⟩ h
    obtain ⟨pieces, hbody, hhandle⟩ := multipartUploadHandle_feeds hline
    obtain ⟨hcalls, hok⟩ := hhandle h
    have hnoted : ErrorNoted h (mpFeed h ⟨.init d.boundary, .init⟩ pieces).1.ctx :=
      ErrorNoted.feed (errorNoted_init h) rfl
    refine ⟨fun haccept hmultipart => ?_, ?_⟩
    · -- the pieces of the body are its callbacks cut otherwise
      obtain ⟨htaken, hnamed⟩ := hmultipart
      rw [← hbody] at htaken hnamed
      have hrecut := mpEvents_recut htaken hnamed
      have hctx := mpFeed_accept haccept (m := ⟨.init d.boundary, .init⟩) htaken
      have halike := runCallbacks_recut haccept hrecut (.refl .init)
      rw [hcalls, hctx, ← hbody]
      exact halike.2.symm
    · rw [hok, hcalls, ← hnoted.iff]
      cases herror : (mpFeed h ⟨.init d.boundary, .init⟩ pieces).1.ctx.hadError with
      | true => simp
      | false =>
        obtain ⟨htaken, hfinished⟩ := hfeed h hbody herror
        have hiff : d.ReadsEnd ∧ d.Taken ↔ d.Closes := hagree
        rw [htaken, hfinished, ← hiff]
        simp [and_comm]
  · intro hline htravels
    obtain ⟨pieces, hbody, hhandle⟩ := multipartUploadHandle_feeds hline
    obtain ⟨hcalls, hok⟩ := hhandle .all
    obtain ⟨-, hresult⟩ := htravels .all
    have hnoted : ErrorNoted .all (mpFeed .all ⟨.init d.boundary, .init⟩ pieces).1.ctx :=
      ErrorNoted.feed (errorNoted_init .all) rfl
    have hnone : ∀ calls, ¬ HandlerFailed .all calls := by
      rintro calls ⟨before, data, after, -, hfail⟩
      cases hfail
    have hgood : (mpFeed .all ⟨.init d.boundary, .init⟩ pieces).1.ctx.hadError = false := by
      rw [← Bool.not_eq_true]
      exact fun herror => hnone _ (hnoted.mp herror)
    obtain ⟨htaken, hfinished⟩ := hfeed .all hbody hgood
    rw [hok, hcalls, htaken, hfinished] at hresult
    constructor
    · rintro ⟨hend, htaken⟩
      exact (hresult.mp ⟨htaken, hend, hgood⟩).1
    · intro hcloses
      obtain ⟨htaken, hend, -⟩ := hresult.mpr ⟨hcloses, hnone _⟩
      exact ⟨hend, htaken⟩

/-- A file of one byte. -/
def smallBody : List UInt8 := ascii "--b\x0d\n\x0d\nx\x0d\n--b--"

/-- It is sent with its length, the boundary in the header, in two reads. -/
def smallUpload : MpDelivery where
  boundary := ascii "--b"
  body := smallBody
  req := ⟨some (ascii "boundary=b"), none, 15, [.data (smallBody.take 4), .data (smallBody.drop 4)]⟩
  rxBufSize := 0
  arrive := by
    intro x hx
    revert x
    decide
  named := .inl (by decide +kernel)
  carried := by
    rw [if_neg (by decide)]
    exact ⟨by decide +kernel, fun _ => by decide +kernel⟩

theorem travels_smallUpload : Travels smallUpload := by
  refine (travels_iff smallUpload).1 ⟨fun hno => ?_, ?_⟩
  · exact absurd hno (by decide +kernel)
  · rw [MpDelivery.EndsAgree, MpDelivery.ReadsEnd, if_neg (by decide), if_neg (by decide +kernel),
      MpDelivery.Taken, MpDelivery.Closes]
    decide +kernel

/-- The same without the header: the first line names the boundary. -/
def headerlessUpload : MpDelivery where
  boundary := ascii "--b"
  body := smallBody
  req := ⟨none, none, 15, [.data smallBody]⟩
  rxBufSize := 0
  arrive := by
    intro x hx
    revert x
    decide
  named := .inr ⟨by decide, by decide, by decide, .inr (by decide)⟩
  carried := by
    rw [if_neg (by decide)]
    exact ⟨by decide, fun _ => by decide⟩

/-- All of it was read ahead, and every call made; the function awaits it once more and
returns `ESP_FAIL`. -/
theorem not_travels_headerlessUpload : ¬ Travels headerlessUpload := by
  intro htravels
  have hresult := (htravels .all).2
  have hfalse : (multipartUploadHandle .all headerlessUpload.req headerlessUpload.rxBufSize).1 =
      false := by
    decide +kernel
  have hfinished : .finished ∈
      (multipartUploadHandle .all headerlessUpload.req headerlessUpload.rxBufSize).2 := by
    decide +kernel
  rw [hfalse] at hresult
  refine Bool.false_ne_true (hresult.mpr ⟨hfinished, ?_⟩)
  rintro ⟨before, data, after, -, hfail⟩
  cases hfail

end Meatpi
