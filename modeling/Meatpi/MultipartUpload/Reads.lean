import Meatpi.MultipartUpload.Handle

/-!
# The reading loops

Each loop of `multipart_upload_handle` feeds the parser the bytes that arrive, in
order and nothing else (`readToEnd_eq`, `readKnown_eq`, `readChunked_eq`). What is read
ahead is fed first, when the first line arrives in one piece (`readAhead_line`), or
when the pieces up to its end fit the buffer (`readAheadChunked_line`).
-/

namespace Meatpi

open List Option

variable {chunked : Bool} {data rx : List UInt8} {a : MpAhead} {contentLen : ℕ}

variable {dc : Dechunker} {reads : List MpRecv} {m : MpRun}

variable {pieces : List (List UInt8)} {x : List UInt8}

/-- The bytes of the reads. -/
def readPieces : List MpRecv → List (List UInt8)
  | [] => []
  | .timeout :: reads => readPieces reads
  | .data bytes :: reads => bytes :: readPieces reads

/-- Every read brings bytes, and no more than the buffer holds. -/
def Arrive (rxSize : ℕ) (pieces : List (List UInt8)) : Prop :=
  ∀ x ∈ pieces, x ≠ [] ∧ x.length ≤ rxSize

theorem Arrive.tail {rxSize : ℕ} (h : Arrive rxSize (x :: pieces)) : Arrive rxSize pieces :=
  fun y hy => h y (mem_cons_of_mem _ hy)

theorem Arrive.take {rxSize : ℕ} (h : Arrive rxSize (x :: pieces)) :
    x.take rxSize = x ∧ x ≠ [] := by
  obtain ⟨hne, hlen⟩ := h x mem_cons_self
  exact ⟨take_of_length_le hlen, hne⟩

section Loops

variable {h : MpHandlers} {rxSize : ℕ}

/-- **A body up to the end of the connection.** -/
theorem readToEnd_eq (harrive : Arrive rxSize (readPieces reads)) :
    readToEnd h rxSize m reads = mpFeed h m (readPieces reads) := by
  induction reads generalizing m with
  | nil => rfl
  | cons r reads ih =>
    cases r with
    | timeout => exact ih harrive
    | data bytes =>
      obtain ⟨htake, hne⟩ := harrive.take
      rw [readToEnd, readPieces, mpFeed, htake]
      dsimp only
      rw [if_neg hne, ih harrive.tail]

/-- **A body of known length**: the end is seen when as many bytes have come. -/
theorem readKnown_eq : ∀ {reads : List MpRecv} {m : MpRun} {remaining : ℤ},
    Arrive rxSize (readPieces reads) → ((readPieces reads).flatten.length : ℤ) ≤ remaining →
    readKnown h rxSize remaining m reads = ((mpFeed h m (readPieces reads)).1,
      (mpFeed h m (readPieces reads)).2 &&
        decide (remaining ≤ (readPieces reads).flatten.length)) := by
  intro reads
  induction reads with
  | nil => intro m remaining _ _; simp [readKnown, readPieces, mpFeed]
  | cons r reads ih =>
    intro m remaining harrive hle
    cases r with
    | timeout =>
      rw [readKnown]
      split_ifs with hdone
      · -- nothing is left to come
        have hnil : readPieces reads = [] := by
          cases hp : readPieces reads with
          | nil => rfl
          | cons x pieces =>
            rw [readPieces, hp, List.flatten_cons, length_append] at hle
            have hne := (harrive x (by rw [readPieces, hp]; exact mem_cons_self)).1
            have := List.length_pos_iff.2 hne
            omega
        simp [readPieces, hnil, mpFeed, hdone]
      · exact ih harrive hle
    | data bytes =>
      rw [readPieces, List.flatten_cons, length_append] at hle
      obtain ⟨htake, hne⟩ := harrive.take
      have hlen := (harrive bytes mem_cons_self).2
      have hpos := List.length_pos_iff.2 hne
      have hgot : bytes.take (min remaining.toNat rxSize) = bytes := take_of_length_le (by omega)
      rw [readKnown, if_neg (by omega), hgot]
      dsimp only
      rw [if_neg hne, readPieces, mpFeed, List.flatten_cons, length_append]
      split_ifs with hok
      · rw [ih harrive.tail (by omega)]
        have hiff : remaining - (bytes.length : ℤ) ≤ ((readPieces reads).flatten.length : ℤ) ↔
            remaining ≤ ((bytes.length + (readPieces reads).flatten.length : ℕ) : ℤ) := by
          omega
        rw [decide_eq_decide.2 hiff]
      · rw [Bool.not_eq_true] at hok
        refine Prod.ext rfl ?_
        rw [hok]
        rfl

/-! ## Chunked coding -/

/-- What the reads of a chunked body decode to, read by read. -/
def decodedPieces (dc : Dechunker) : List (List UInt8) → List (List UInt8)
  | [] => []
  | x :: pieces =>
    if (dcFeed dc x).2 = [] then decodedPieces (dcFeed dc x).1 pieces
    else (dcFeed dc x).2 :: decodedPieces (dcFeed dc x).1 pieces

theorem decodedPieces_flatten {pieces : List (List UInt8)} :
    (decodedPieces dc pieces).flatten = (dcFeed dc pieces.flatten).2 := by
  induction pieces generalizing dc with
  | nil => rfl
  | cons x pieces ih =>
    rw [decodedPieces, List.flatten_cons, dcFeed_append]
    split_ifs with hnil
    · rw [ih, hnil]
      rfl
    · rw [List.flatten_cons, ih]

theorem dcFeed_error {xs ys : List UInt8} (h : (dcFeed dc (xs ++ ys)).1.state ≠ .error) :
    (dcFeed dc xs).1.state ≠ .error := by
  intro herror
  rw [dcFeed_append, dcFeed_stopped (.inr (.inl herror))] at h
  exact h herror

theorem chunkRounds_eq {raw : List UInt8} (hne : raw ≠ []) (hlen : raw.length ≤ rxSize)
    (hok : (dcFeed dc raw).1.state ≠ .error) :
    chunkRounds h rxSize raw.length dc m raw = ((dcFeed dc raw).1,
      if (dcFeed dc raw).2 = [] then (m, true) else mpExecute h m (dcFeed dc raw).2) := by
  have hpos := List.length_pos_iff.2 hne
  have hroom : (dcFeed dc raw).2.length ≤ rxSize := (length_dcFeed_le raw dc).trans hlen
  obtain ⟨hstate, hout, hused⟩ := dcLoop_of_room hroom
  have hconsume : ∀ dc' raw', dechunkerConsume dc' raw' rxSize = dcLoop dc' rxSize raw' :=
    fun _ _ => if_neg (by omega)
  -- a second round finds nothing, or a dechunker that has stopped
  have hsecond : ∀ (fuel : ℕ) (m' : MpRun), chunkRounds h rxSize fuel (dcFeed dc raw).1 m'
      (raw.drop (dcLoop dc rxSize raw).2.1) = ((dcFeed dc raw).1, m', true) := by
    intro fuel m'
    cases fuel with
    | zero => rfl
    | succ fuel =>
      rw [chunkRounds]
      split_ifs with hnil
      · rfl
      rcases hused with hused | hstop
      · exact absurd (by rw [hused, List.drop_length]) hnil
      · rw [hconsume, dcLoop_stopped hstop]
        rw [if_neg hok]
        rfl
  obtain ⟨fuel, hfuel⟩ : ∃ fuel, raw.length = fuel + 1 := ⟨raw.length - 1, by omega⟩
  rw [hfuel, chunkRounds, if_neg hne, hconsume]
  dsimp only
  rw [hstate, hout, if_neg hok]
  obtain ⟨r, hr⟩ : ∃ r, (if (dcFeed dc raw).2 = [] then (m, true)
    else mpExecute h m (dcFeed dc raw).2) = r := ⟨_, rfl⟩
  rw [hr]
  split_ifs with hfail hused0
  · rw [← hfail]
  · rw [Bool.not_eq_false] at hfail
    rw [← hfail]
  · rw [Bool.not_eq_false] at hfail
    rw [hsecond, ← hfail]

/-- **A chunked body**: the end is seen when the dechunker is done. -/
theorem readChunked_eq (harrive : Arrive rxSize (readPieces reads))
    (hok : (dcFeed dc (readPieces reads).flatten).1.state ≠ .error) :
    readChunked h rxSize dc m reads =
      ((mpFeed h m (decodedPieces dc (readPieces reads))).1,
        (mpFeed h m (decodedPieces dc (readPieces reads))).2 &&
          decide ((dcFeed dc (readPieces reads).flatten).1.state = .done)) := by
  induction reads generalizing dc m with
  | nil => simp [readChunked, readPieces, decodedPieces, mpFeed, dcFeed]
  | cons r reads ih =>
    by_cases hdone : dc.state = .done
    · -- what comes behind the end is not read
      have hstop : ∀ bytes : List UInt8, dcFeed dc bytes = (dc, []) := dcFeed_stopped (.inl hdone)
      have hnil : ∀ pieces : List (List UInt8), decodedPieces dc pieces = [] := by
        intro pieces
        induction pieces with
        | nil => rfl
        | cons x pieces ihp =>
          rw [decodedPieces, hstop]
          exact ihp
      cases r <;> simp [readChunked, hdone, hnil, mpFeed, hstop]
    cases r with
    | timeout =>
      rw [readChunked, if_neg hdone]
      exact ih harrive hok
    | data bytes =>
      rw [readPieces] at harrive hok
      rw [List.flatten_cons] at hok
      obtain ⟨htake, hne⟩ := harrive.take
      have hlen := (harrive bytes mem_cons_self).2
      have hokFirst := dcFeed_error hok
      rw [dcFeed_append] at hok
      rw [readChunked, if_neg hdone, htake]
      dsimp only
      rw [if_neg hne, chunkRounds_eq hne hlen hokFirst, readPieces, decodedPieces,
        List.flatten_cons, dcFeed_append]
      by_cases hout : (dcFeed dc bytes).2 = []
      · rw [if_pos hout, if_pos hout]
        exact ih harrive.tail hok
      · rw [if_neg hout, if_neg hout, mpFeed]
        cases hgo : (mpExecute h m (dcFeed dc bytes).2).2 with
        | false =>
          rw [if_neg Bool.false_ne_true, if_neg Bool.false_ne_true]
          exact Prod.ext rfl (by rw [hgo]; rfl)
        | true =>
          exact ih harrive.tail hok

end Loops

/-! ## The first line -/

theorem extractBoundary_line {boundary : List UInt8} (h13 : (13 : UInt8) ∉ boundary)
    (hlen : boundary.length < 256) (hline : boundary ++ [13] <+: data) :
    extractBoundaryFromFirstLine data 256 = some boundary := by
  obtain ⟨rest, rfl⟩ := hline
  have hmem : (13 : UInt8) ∈ boundary ++ [13] ++ rest := by simp
  have htake : (boundary ++ [13] ++ rest).takeWhile (· ≠ 13) = boundary := by
    rw [append_assoc, takeWhile_append_of_pos]
    · simp
    · intro c hc
      simpa using fun heq : c = 13 => h13 (heq ▸ hc)
  rw [extractBoundaryFromFirstLine, if_pos hmem, htake]
  rw [if_neg fun hno => hno.1 hmem, if_neg (by omega)]

theorem extractBoundary_none (h13 : (13 : UInt8) ∉ data) (h10 : (10 : UInt8) ∉ data) :
    extractBoundaryFromFirstLine data 256 = none := by
  exact if_pos ⟨h13, h10⟩

theorem feedAhead_eq {h : MpHandlers} {boundary : List UInt8} (hne : rx ≠ [])
    (hbegins : boundary <+: rx) : feedAhead h m boundary rx = mpExecute h m rx := by
  have hfind : (findBytes (cString boundary) rx).getD 0 = 0 := by
    have hcut : cString boundary <+: boundary := takeWhile_prefix _
    have hpat := hcut.trans hbegins
    cases rx with
    | nil => rfl
    | cons c rest =>
      rw [findBytes]
      split_ifs with hnil hno
      · rfl
      · rfl
      · have hstart := List.isPrefixOf_iff_prefix.mpr hpat
        exact absurd hstart hno
  rw [feedAhead, if_neg hne]
  dsimp only
  rw [hfind]
  split_ifs with hok hpos
  · rfl
  · exact absurd hpos (Nat.lt_irrefl 0)
  · rfl

theorem uploadFrom_nil {h : MpHandlers} {rxSize : ℕ} (hrx : a.rx = []) :
    uploadFrom h rxSize chunked contentLen a =
      readOn h rxSize chunked contentLen a.dc ⟨.init a.boundary, .init⟩ a.reads := by
  have hahead : feedAhead h ⟨.init a.boundary, .init⟩ a.boundary a.rx =
      (⟨.init a.boundary, .init⟩, true) := if_pos hrx
  rw [uploadFrom, hahead]
  exact if_pos rfl

theorem uploadFrom_ahead {h : MpHandlers} {rxSize : ℕ} {ended : Bool} (hne : a.rx ≠ [])
    (hbegins : a.boundary <+: a.rx)
    (hread : ∀ m,
      readOn h rxSize chunked contentLen a.dc m a.reads =
        ((mpFeed h m pieces).1, (mpFeed h m pieces).2 && ended)) :
    uploadFrom h rxSize chunked contentLen a =
      ((mpFeed h ⟨.init a.boundary, .init⟩ (a.rx :: pieces)).1,
        (mpFeed h ⟨.init a.boundary, .init⟩ (a.rx :: pieces)).2 && ended) := by
  rw [uploadFrom, feedAhead_eq hne hbegins, mpFeed]
  split_ifs with hok
  · exact hread _
  · rw [Bool.not_eq_true] at hok
    exact Prod.ext rfl (by rw [hok]; rfl)

section Ahead

variable {rxSize : ℕ} {boundary : List UInt8}

/-- **The first line in one piece.** -/
theorem readAhead_line (h13 : (13 : UInt8) ∉ boundary) (hlen : boundary.length < 256)
    (hline : boundary ++ [13] <+: x) (hpieces : readPieces reads = x :: pieces)
    (harrive : Arrive rxSize (readPieces reads)) :
    ∃ reads', readAhead rxSize reads = some ⟨boundary, x, .init, reads'⟩ ∧
      readPieces reads' = pieces := by
  induction reads with
  | nil => cases hpieces
  | cons r reads ih =>
    cases r with
    | timeout => exact ih hpieces harrive
    | data bytes =>
      obtain ⟨htake, hne⟩ := harrive.take
      rw [readPieces, cons.injEq] at hpieces
      obtain ⟨rfl, hpieces⟩ := hpieces
      refine ⟨reads, ?_, hpieces⟩
      rw [readAhead, htake]
      rw [if_neg hne, extractBoundary_line h13 hlen hline]
      rfl

theorem readAhead_none (harrive : Arrive rxSize (readPieces reads))
    (h13 : (13 : UInt8) ∉ (readPieces reads).flatten)
    (h10 : (10 : UInt8) ∉ (readPieces reads).flatten) : readAhead rxSize reads = none := by
  induction reads with
  | nil => rfl
  | cons r reads ih =>
    cases r with
    | timeout => exact ih harrive h13 h10
    | data bytes =>
      rw [readPieces] at harrive h13 h10
      rw [List.flatten_cons, List.mem_append, not_or] at h13 h10
      obtain ⟨htake, hne⟩ := harrive.take
      rw [readAhead, htake]
      rw [if_neg hne, extractBoundary_none h13.1 h10.1, ih harrive.tail h13.2 h10.2]
      exact ite_self none

theorem aheadRounds_eq {dc : Dechunker} {raw : List UInt8} {room : ℕ} (hne : raw ≠ [])
    (hpos : 0 < room) (hroom : (dcFeed dc raw).2.length ≤ room)
    (hok : (dcFeed dc raw).1.state ≠ .error) :
    aheadRounds raw.length dc raw room = some (dcFeed dc raw) := by
  obtain ⟨hstate, hout, hused⟩ := dcLoop_of_room hroom
  have hconsume : ∀ dc' raw', dechunkerConsume dc' raw' room = dcLoop dc' room raw' :=
    fun _ _ => if_neg (by omega)
  obtain ⟨fuel, hfuel⟩ : ∃ fuel, raw.length = fuel + 1 :=
    ⟨raw.length - 1, by have := List.length_pos_iff.2 hne; omega⟩
  have hsecond : ∀ fuel, (dcFeed dc raw).2 = [] →
      aheadRounds fuel (dcFeed dc raw).1 (raw.drop (dcLoop dc room raw).2.1) room =
        some (dcFeed dc raw) := by
    intro fuel hnil
    have hpair : some ((dcFeed dc raw).1, ([] : List UInt8)) = some (dcFeed dc raw) := by
      rw [← hnil]
    cases fuel with
    | zero => exact hpair
    | succ fuel =>
      rw [aheadRounds]
      split_ifs with hdone
      · exact hpair
      rcases hused with hused | hstop
      · exact absurd (.inl (by rw [hused, List.drop_length])) hdone
      · rw [hconsume, dcLoop_stopped hstop]
        rw [if_neg hok]
        exact hpair
  rw [hfuel, aheadRounds, if_neg (by rintro (h | h) <;> [exact hne h; omega]), hconsume]
  dsimp only
  rw [hstate, hout, if_neg hok]
  split_ifs with hsome hused0
  · rfl
  · rw [not_not] at hsome
    rw [← hsome]
  · exact hsecond fuel (not_not.1 hsome)

/-- **The first line in pieces that fit the buffer.** -/
theorem readAheadChunked_line (h13 : (13 : UInt8) ∉ boundary) (hlen : boundary.length < 256)
    {x : List UInt8} {qs : List (List UInt8)} : ∀ {reads : List MpRecv} {dc : Dechunker}
    {rx : List UInt8} {ps : List (List UInt8)}, readPieces reads = ps ++ x :: qs →
    Arrive rxSize (readPieces reads) →
    (13 : UInt8) ∉ rx ++ (dcFeed dc ps.flatten).2 → (10 : UInt8) ∉ rx ++ (dcFeed dc ps.flatten).2 →
    boundary ++ [13] <+: rx ++ (dcFeed dc (ps ++ [x]).flatten).2 →
    (rx ++ (dcFeed dc (ps ++ [x]).flatten).2).length ≤ rxSize →
    (dcFeed dc (ps ++ [x]).flatten).1.state ≠ .error →
    ∃ reads', readAheadChunked rxSize dc rx reads =
        some ⟨boundary, rx ++ (dcFeed dc (ps ++ [x]).flatten).2,
          (dcFeed dc (ps ++ [x]).flatten).1, reads'⟩ ∧ readPieces reads' = qs := by
  intro reads
  induction reads with
  | nil => intro dc rx ps hpieces; simp [readPieces] at hpieces
  | cons r reads ih =>
    intro dc rx ps hpieces harrive hno13 hno10 hline hfits hok
    cases r with
    | timeout => exact ih hpieces harrive hno13 hno10 hline hfits hok
    | data bytes =>
      obtain ⟨htake, hne⟩ := harrive.take
      -- the line goes on behind what is there
      have hmore : rx.length < rxSize := by
        obtain ⟨rest, hrest⟩ := hline
        rw [length_append] at hfits
        by_contra hfull
        have hnil : (dcFeed dc (ps ++ [x]).flatten).2 = [] := length_eq_zero_iff.1 (by omega)
        rw [hnil, append_nil] at hrest
        refine hno13 (mem_append_left _ ?_)
        rw [← hrest]
        simp
      cases ps with
      | nil =>
        rw [readPieces, nil_append, cons.injEq] at hpieces
        obtain ⟨rfl, hpieces⟩ := hpieces
        rw [nil_append, flatten_singleton] at hline hfits hok ⊢
        refine ⟨reads, ?_, hpieces⟩
        rw [length_append] at hfits
        have hround := @aheadRounds_eq dc bytes (rxSize - rx.length) hne (by omega) (by omega) hok
        have hsome : rx ++ (dcFeed dc bytes).2 ≠ [] := by
          intro hnil
          rw [hnil] at hline
          simp at hline
        rw [readAheadChunked, htake]
        dsimp only
        rw [if_neg hne, hround, bind_some, if_neg hsome, extractBoundary_line h13 hlen hline]
        rfl
      | cons y ps =>
        rw [readPieces, cons_append, cons.injEq] at hpieces
        obtain ⟨rfl, hpieces⟩ := hpieces
        rw [cons_append, List.flatten_cons, dcFeed_append, ← append_assoc] at hline hfits
        rw [cons_append, List.flatten_cons] at hok
        rw [List.flatten_cons, dcFeed_append, ← append_assoc] at hno13 hno10
        have hokFirst := dcFeed_error hok
        rw [dcFeed_append] at hok
        have hroom : (dcFeed dc bytes).2.length ≤ rxSize - rx.length := by
          rw [length_append, length_append] at hfits
          omega
        have hround := aheadRounds_eq hne (by omega) hroom hokFirst
        have hnone : (if rx ++ (dcFeed dc bytes).2 = [] then none
            else extractBoundaryFromFirstLine (rx ++ (dcFeed dc bytes).2) 256) = none := by
          rw [extractBoundary_none (fun h => hno13 (mem_append_left _ h))
            (fun h => hno10 (mem_append_left _ h))]
          exact ite_self none
        obtain ⟨reads', hreads', hqs⟩ := ih hpieces harrive.tail hno13 hno10 hline hfits hok
        have hgo : ¬ rxSize ≤ (rx ++ (dcFeed dc bytes).2).length := by
          intro hfull
          obtain ⟨rest, hrest⟩ := hline
          have hnil : (dcFeed (dcFeed dc bytes).1 (ps ++ [x]).flatten).2 = [] := by
            rw [length_append] at hfits
            exact length_eq_zero_iff.1 (by omega)
          rw [hnil, append_nil] at hrest
          refine hno13 (mem_append_left _ ?_)
          rw [← hrest]
          simp
        refine ⟨reads', ?_, hqs⟩
        rw [readAheadChunked, htake]
        dsimp only
        rw [if_neg hne, hround, bind_some, hnone, elim_none, if_neg hgo, hreads',
          cons_append, List.flatten_cons, dcFeed_append, ← append_assoc]

theorem readAheadChunked_none (harrive : Arrive rxSize (readPieces reads))
    (hmore : rx.length < rxSize)
    (h13 : (13 : UInt8) ∉ rx ++ (dcFeed dc (readPieces reads).flatten).2)
    (h10 : (10 : UInt8) ∉ rx ++ (dcFeed dc (readPieces reads).flatten).2)
    (hfits : (rx ++ (dcFeed dc (readPieces reads).flatten).2).length ≤ rxSize)
    (hok : (dcFeed dc (readPieces reads).flatten).1.state ≠ .error) :
    readAheadChunked rxSize dc rx reads = none := by
  induction reads generalizing dc rx with
  | nil => rfl
  | cons r reads ih =>
    cases r with
    | timeout => exact ih harrive hmore h13 h10 hfits hok
    | data bytes =>
      obtain ⟨htake, hne⟩ := harrive.take
      rw [readPieces, List.flatten_cons, dcFeed_append, ← append_assoc] at h13 h10 hfits
      rw [readPieces, List.flatten_cons] at hok
      have hokFirst := dcFeed_error hok
      rw [dcFeed_append] at hok
      have hroom : (dcFeed dc bytes).2.length ≤ rxSize - rx.length := by
        rw [length_append, length_append] at hfits
        omega
      have hround := aheadRounds_eq hne (by omega) hroom hokFirst
      have hnone : (if rx ++ (dcFeed dc bytes).2 = [] then none
          else extractBoundaryFromFirstLine (rx ++ (dcFeed dc bytes).2) 256) = none := by
        rw [extractBoundary_none (fun h => h13 (mem_append_left _ h))
          (fun h => h10 (mem_append_left _ h))]
        exact ite_self none
      rw [readAheadChunked, htake]
      dsimp only
      rw [if_neg hne, hround, bind_some, hnone]
      split_ifs with hfull
      · rfl
      · exact ih harrive.tail (by omega) h13 h10 hfits hok

end Ahead

end Meatpi
