import Meatpi.MultipartUpload.Dechunk

/-!
# The dechunker in portions (`multipart_upload.c`)

The bytes of a coding come in any portions, and there is room for as many decoded
bytes at a time as the caller likes: what a call leaves is given to the next one.
-/

namespace Meatpi

open List

variable {raw : List UInt8}

/-- A run of calls: the dechunker, the bytes that are not consumed, and what came out. -/
structure DcCalls where
  dc : Dechunker
  rest : List UInt8
  out : List UInt8

/-- A call with the first `window` bytes of the rest and `outCap` bytes of room. -/
def DcCalls.call (s : DcCalls) (window outCap : ℕ) : DcCalls :=
  let r := dechunkerConsume s.dc (s.rest.take window) outCap
  ⟨r.1, s.rest.drop r.2.1, s.out ++ r.2.2⟩

/-- The calls of a list, each a window and a capacity. -/
def DcCalls.run (raw : List UInt8) (calls : List (ℕ × ℕ)) : DcCalls :=
  calls.foldl (fun s c => s.call c.1 c.2) ⟨.init, raw, []⟩

/-! ## A call -/

/-- What a call does to `bytes`, the bytes do one by one: those of a front, each of them
taken before the dechunker stops. They are what the call used, if it met no error. -/
structure DcTakes (dc : Dechunker) (r : Dechunker × ℕ × List UInt8) (bytes front : List UInt8) :
    Prop where
  pre : front <+: bytes
  feed : dcFeed dc front = (r.1, r.2.2)
  used : r.1.state ≠ .error → r.2.1 = front.length
  live : ∀ p, p <+: front → p ≠ front → ¬ (dcFeed dc p).1.Stopped

variable {dc : Dechunker} {bytes : List UInt8}

theorem DcTakes.nothing : DcTakes dc (dc, 0, []) bytes [] where
  pre := nil_prefix
  feed := rfl
  used _ := rfl
  live _ hp hne := absurd (prefix_nil.1 hp) hne

theorem DcTakes.cons {dc' : Dechunker} {c : UInt8} {out front : List UInt8}
    {r : Dechunker × ℕ × List UInt8} (hstop : ¬ dc.Stopped) (hbyte : dcByte dc c = (dc', out))
    (h : DcTakes dc' r bytes front) :
    DcTakes dc (r.1, r.2.1 + 1, out ++ r.2.2) (c :: bytes) (c :: front) := by
  refine ⟨cons_prefix_cons.2 ⟨rfl, h.pre⟩, ?_, fun he => ?_, fun p hp hne => ?_⟩
  · rw [dcFeed, hbyte, h.feed]
  · rw [length_cons, ← h.used he]
  · rcases prefix_cons_iff.1 hp with rfl | ⟨q, rfl, hq⟩
    · exact hstop
    · rw [dcFeed, hbyte]
      exact h.live q hq fun heq => hne (by rw [heq])

theorem DcTakes.error {dc' : Dechunker} {c : UInt8} (hstop : ¬ dc.Stopped)
    (hbyte : dcByte dc c = (dc', [])) (he : dc'.state = .error) :
    DcTakes dc (dc', 0, []) (c :: bytes) [c] := by
  refine ⟨by simp, by rw [dcFeed, hbyte]; rfl, fun h => absurd he h, fun p hp hne => ?_⟩
  rcases prefix_cons_iff.1 hp with rfl | ⟨q, rfl, hq⟩
  · exact hstop
  · rw [prefix_nil.1 hq] at hne
    exact absurd rfl hne

/-- **A call takes a front of its input**, and a byte of it at least, if there is one and
room and the dechunker has not stopped. -/
theorem dcLoop_takes : ∀ {bytes : List UInt8} {dc : Dechunker} {space : ℕ},
    ∃ front, DcTakes dc (dcLoop dc space bytes) bytes front ∧
      (bytes ≠ [] → ¬ dc.Stopped → space ≠ 0 → front ≠ []) := by
  intro bytes
  induction bytes with
  | nil => exact fun {dc _} => ⟨[], .nothing, fun h => absurd rfl h⟩
  | cons c rest ih =>
    intro dc space
    by_cases hstop : dc.Stopped
    · rw [dcLoop_stopped hstop]
      exact ⟨[], .nothing, fun _ h => absurd hstop h⟩
    have htaken : ∀ {dc' : Dechunker} {out : List UInt8} (space' : ℕ), dcByte dc c = (dc', out) →
        ∃ front, DcTakes dc ((dcLoop dc' space' rest).1, (dcLoop dc' space' rest).2.1 + 1,
            out ++ (dcLoop dc' space' rest).2.2) (c :: rest) front ∧
          (c :: rest ≠ [] → ¬ dc.Stopped → space ≠ 0 → front ≠ []) := by
      intro dc' out space' hbyte
      obtain ⟨front, hfront, -⟩ := @ih dc' space'
      exact ⟨_, hfront.cons hstop hbyte, fun _ _ _ => cons_ne_nil _ _⟩
    have herror : ∀ {dc' : Dechunker}, dcByte dc c = (dc', []) → dc'.state = .error →
        ∃ front, DcTakes dc (dc', 0, []) (c :: rest) front ∧
          (c :: rest ≠ [] → ¬ dc.Stopped → space ≠ 0 → front ≠ []) :=
      fun hbyte he => ⟨_, .error hstop hbyte he, fun _ _ _ => cons_ne_nil _ _⟩
    cases hstate : dc.state with
    | done => exact absurd (.inl hstate) hstop
    | error => exact absurd (.inr (.inl hstate)) hstop
    | readData =>
      have h0 : dc.chunkRemaining ≠ 0 := fun h0 => hstop (.inr (.inr ⟨hstate, h0⟩))
      simp only [dcLoop, hstate, h0, false_or]
      split_ifs with hspace
      · exact ⟨[], .nothing, fun _ _ h => absurd hspace h⟩
      · exact @htaken (dcData dc) [c] _ (by rw [dcByte, hstate]; exact if_neg h0)
    | readSize =>
      simp only [dcLoop, hstate]
      split_ifs with he
      · exact herror (by rw [dcByte, hstate]) he
      · exact @htaken (dcSize dc c) [] _ (by rw [dcByte, hstate])
    | readDataCrlf =>
      simp only [dcLoop, hstate]
      split_ifs with he
      · exact herror (by rw [dcByte, hstate]) he
      · exact @htaken (dcDataCrlf dc c) [] _ (by rw [dcByte, hstate])
    | readTrailers =>
      simp only [dcLoop, hstate]
      exact @htaken (dcTrailers dc c) [] _ (dcByte_readTrailers hstate c)

/-! ## The calls over a coding -/

theorem dcFeed_live {body p : List UInt8} (h : Coded False body raw) (hp : p <+: raw)
    (hne : p ≠ raw) : ¬ (dcFeed .init p).1.Stopped := by
  intro hstop
  obtain ⟨front, dc', rfl, hfront, hend⟩ := dcFeed_coded_front h .init
  obtain ⟨hstate, -⟩ := hend.resolve_right And.left
  rcases prefix_concat_iff.1 hp with heq | ⟨more, rfl⟩
  · exact hne heq
  · have hinit : inSize .init [] false = Dechunker.init := rfl
    rw [hinit, dcFeed_append, dcFeed_stopped hstop] at hfront
    have hdone := (dcFeed_part h hp).2.1 hstop
    rw [Prod.mk.injEq] at hfront
    rw [hfront.1, hstate] at hdone
    cases hdone

/-- Where the calls are in a coding with other bytes behind it. -/
structure DcPlace (raw after done left : List UInt8) (s : DcCalls) : Prop where
  split : raw = done ++ left
  rest : s.rest = left ++ after
  feed : dcFeed .init done = (s.dc, s.out)

/-- **A call moves on in the coding**, and never past its end. -/
theorem DcPlace.call {body after done left : List UInt8} {s : DcCalls} (hc : Coded False body raw)
    (h : DcPlace raw after done left s) (window outCap : ℕ) (hcap : outCap ≠ 0) :
    ∃ part left', left = part ++ left' ∧
      DcPlace raw after (done ++ part) left' (s.call window outCap) ∧
      (window ≠ 0 → left ≠ [] → part ≠ []) := by
  obtain ⟨front, hfront, hsome⟩ := @dcLoop_takes (s.rest.take window) s.dc outCap
  have hdone : s.dc = (dcFeed .init done).1 := by rw [h.feed]
  -- what is taken is of the coding: behind it the dechunker has stopped
  have hpart : front <+: left := by
    have hpre : front <+: left ++ after := by
      rw [← h.rest]
      exact hfront.pre.trans <| take_prefix _ _
    rcases prefix_or_prefix_of_prefix hpre (prefix_append left after) with hpre | ⟨more, rfl⟩
    · exact hpre
    · rcases eq_or_ne more [] with rfl | hmore
      · exact (append_nil left).symm ▸ prefix_rfl
      · have hall := (dcFeed_coded hc .init).1
        have hlive := hfront.live left (prefix_append _ _) (by simpa using hmore)
        rw [hdone] at hlive
        refine absurd (.inl ?_) hlive
        rw [h.split] at hall
        have hinit : inSize .init [] false = Dechunker.init := rfl
        rw [hinit, dcFeed_append] at hall
        exact hall
  obtain ⟨left', rfl⟩ := hpart
  have hfeed : dcFeed .init (done ++ front) =
      ((dcLoop s.dc outCap (s.rest.take window)).1,
        s.out ++ (dcLoop s.dc outCap (s.rest.take window)).2.2) := by
    rw [dcFeed_append, h.feed, hfront.feed]
  have hpre : done ++ front <+: raw := ⟨left', by rw [h.split, append_assoc]⟩
  have hused := hfront.used (by
    have herror := (dcFeed_part hc hpre).1
    rw [hfeed] at herror
    exact herror)
  refine ⟨front, left', rfl, ⟨by rw [h.split, append_assoc], ?_, ?_⟩, fun hw hl => ?_⟩
  · rw [DcCalls.call, dechunkerConsume, if_neg hcap]
    dsimp only
    rw [hused, h.rest, append_assoc, drop_left]
  · rw [hfeed, DcCalls.call, dechunkerConsume, if_neg hcap]
  · refine hsome ?_ ?_ hcap
    · rw [h.rest, Ne, take_eq_nil_iff, not_or]
      exact ⟨hw, fun h0 => hl (append_eq_nil_iff.1 h0).1⟩
    · rw [hdone]
      refine dcFeed_live hc ⟨_, h.split.symm⟩ fun heq => hl ?_
      rw [h.split] at heq
      exact append_right_eq_self.1 heq.symm

/-- **Chunked coding is undone in any portions**: of a body in chunks shorter than 4 GiB, and with
no trailer line whose length is a multiple of 4 GiB, the calls, each with any window on the
bytes and any room, give the body in order. They are
done exactly when the last byte of the coding is consumed, there is never an error, no byte
behind it is consumed, and until then each call with a byte to see consumes one. -/
theorem dechunkerConsume_portions {body raw : List UInt8} (hc : Coded False body raw)
    (after : List UInt8) (calls : List (ℕ × ℕ)) (hcaps : ∀ c ∈ calls, 1 ≤ c.2) :
    ∃ left, DcCalls.run (raw ++ after) calls =
        ⟨(DcCalls.run (raw ++ after) calls).dc, left ++ after,
          (DcCalls.run (raw ++ after) calls).out⟩ ∧
      (DcCalls.run (raw ++ after) calls).out <+: body ∧
      (DcCalls.run (raw ++ after) calls).dc.state ≠ .error ∧
      ((DcCalls.run (raw ++ after) calls).dc.state = .done ↔ left = []) ∧
      (left = [] → (DcCalls.run (raw ++ after) calls).out = body) ∧
      ∀ window outCap, 1 ≤ window → 1 ≤ outCap → left ≠ [] →
        ((DcCalls.run (raw ++ after) calls).call window outCap).rest.length <
          (DcCalls.run (raw ++ after) calls).rest.length := by
  have hplace : ∃ done left, DcPlace raw after done left (DcCalls.run (raw ++ after) calls) := by
    induction calls using reverseRecOn with
    | nil => exact ⟨[], raw, rfl, rfl, rfl⟩
    | append_singleton calls c ih =>
      obtain ⟨done, left, h⟩ := ih fun c' hc' => hcaps c' (by simp [hc'])
      have hcap := hcaps c (by simp)
      obtain ⟨part, left', -, hcall, -⟩ := h.call hc c.1 c.2 (by omega)
      rw [DcCalls.run, foldl_append]
      exact ⟨_, _, hcall⟩
  obtain ⟨done, left, h⟩ := hplace
  have hpre : done <+: raw := ⟨left, h.split.symm⟩
  obtain ⟨herror, -, hbody⟩ := dcFeed_part hc hpre
  have hall := dcFeed_coded hc .init
  have hinit : inSize .init [] false = Dechunker.init := rfl
  rw [hinit] at hall
  rw [h.feed] at herror hbody
  have hend : left = [] → raw = done := fun hl => by rw [h.split, hl, append_nil]
  refine ⟨left, by rw [← h.rest], hbody, herror, ⟨fun hstate => ?_, fun hl => ?_⟩, fun hl => ?_,
    fun window outCap hw ho hl => ?_⟩
  · by_contra hl
    refine dcFeed_live hc hpre (fun heq => hl ?_) (.inl ?_)
    · rw [h.split] at heq
      exact append_right_eq_self.1 heq.symm
    · rw [h.feed]
      exact hstate
  · rw [hend hl, h.feed] at hall
    exact hall.1
  · rw [hend hl, h.feed] at hall
    exact hall.2
  · obtain ⟨part, left', rfl, hcall, hsome⟩ := h.call hc window outCap (by omega)
    have hpart := length_pos_iff.2 (hsome (by omega) hl)
    rw [hcall.rest, h.rest]
    simp only [length_append]
    omega

/-- A chunk of one byte, and one trailer line. -/
def codedA : List UInt8 := [49, 13, 10, 97, 13, 10, 48, 13, 10, 88, 58, 10, 13, 10]

theorem coded_a : Coded False [97] codedA := by
  have hchunk : IsSizeLine [(97 : UInt8)].length [49, 13, 10] [49] [] [13, 10] :=
    ⟨rfl, by decide, by decide, all_eq_true.1 rfl, by decide, .inl rfl, .inl rfl⟩
  have hlast : IsSizeLine 0 [48, 13, 10] [48] [] [13, 10] :=
    ⟨rfl, by decide, by decide, all_eq_true.1 rfl, by decide, .inl rfl, .inl rfl⟩
  have htrailer : IsTrailer False [88, 58, 10] [88, 58] [10] :=
    ⟨rfl, by decide, by decide, by decide, by decide, .inr rfl⟩
  have htrailers : ∀ t ∈ [[88, 58, 10]], ∃ text eol, IsTrailer False t text eol :=
    forall_mem_singleton.2 ⟨_, _, htrailer⟩
  have hend := Coded.last hlast htrailers (.inl rfl)
  exact .chunk hchunk (by decide) (by decide) (.inl rfl) hend

theorem dechunkerConsume_portions_a :
    (DcCalls.run (codedA ++ [80]) [(3, 1), (9, 2), (9, 1)]).dc.state = .done ∧
      (DcCalls.run (codedA ++ [80]) [(3, 1), (9, 2), (9, 1)]).out = [97] := by
  obtain ⟨left, hrun, -, -, hdone, hbody, -⟩ :=
    dechunkerConsume_portions coded_a [80] [(3, 1), (9, 2), (9, 1)] (by decide)
  have hrest : left ++ [80] = [80] := by
    rw [DcCalls.mk.injEq] at hrun
    rw [← hrun.2.1]
    decide
  have hleft : left = [] := append_left_eq_self.1 hrest
  exact ⟨hdone.2 hleft, hbody hleft⟩

/-! ## A chunk of 4 GiB -/

/-- `100000000` in hex, and a line end. -/
def giantLine : List UInt8 := [49, 48, 48, 48, 48, 48, 48, 48, 48, 13, 10]

theorem isSizeLine_giant :
    IsSizeLine (4294967295 + 1) giantLine [49, 48, 48, 48, 48, 48, 48, 48, 48] [] [13, 10] :=
  ⟨rfl, by decide, by decide, all_eq_true.1 rfl, by decide, .inl rfl, .inl rfl⟩

theorem dcFeed_overlong {n : ℕ} (hn : n ≠ 0) (tail : List UInt8) :
    (dcFeed ⟨.readData, n, false, [], 0⟩ (replicate (n + 1) 97 ++ tail)).1.state = .error := by
  have hdata := @dcFeed_data (replicate n 97) ⟨.readData, n, false, [], 0⟩ rfl
    (by simpa using hn) length_replicate.symm
  have herror : dcByte ⟨.readDataCrlf, 0, false, [], 0⟩ 97 = (⟨.error, 0, false, [], 0⟩, []) := rfl
  have hstop : Dechunker.Stopped ⟨.error, 0, false, [], 0⟩ := .inr (.inl rfl)
  rw [replicate_succ', append_assoc, dcFeed_append, hdata, singleton_append, dcFeed, herror,
    dcFeed_stopped hstop]

theorem DcCalls.run_whole (hne : raw ≠ []) :
    (DcCalls.run raw [(raw.length, raw.length)]).dc = (dcFeed .init raw).1 := by
  have hcap : raw.length ≠ 0 := fun h => hne (length_eq_zero_iff.1 h)
  rw [DcCalls.run, foldl_cons, foldl_nil, DcCalls.call, dechunkerConsume, if_neg hcap, take_length]
  exact (dcLoop_of_room (length_dcFeed_le raw .init)).1

/-- A body of `n + 1` bytes, coded as if it were one of 4 GiB. -/
def giantRaw (n : ℕ) : List UInt8 :=
  giantLine ++ (replicate (n + 1) 97 ++ [13, 10, 48, 13, 10, 13, 10])

theorem run_giantRaw {n : ℕ} (hn : n ≠ 0)
    (hline : dcFeed .init giantLine = (⟨.readData, n, false, [], 0⟩, [])) :
    (DcCalls.run (giantRaw n) [((giantRaw n).length, (giantRaw n).length)]).dc.state = .error := by
  have hne : giantRaw n ≠ [] := append_ne_nil_of_left_ne_nil (cons_ne_nil _ _) _
  rw [DcCalls.run_whole hne, giantRaw, dcFeed_append, hline, dcFeed_overlong hn]

/-- **A chunk of 4 GiB is not undone**, `unsigned long` having 32 bits: its size is cut to
the greatest number, and its last byte is an error. -/
theorem not_dechunkerConsume_portions :
    IsSizeLine (replicate (4294967295 + 1) (97 : UInt8)).length giantLine
        [49, 48, 48, 48, 48, 48, 48, 48, 48] [] [13, 10] ∧
      (DcCalls.run (giantRaw 4294967295)
        [((giantRaw 4294967295).length, (giantRaw 4294967295).length)]).dc.state = .error := by
  constructor
  · rw [length_replicate]
    exact isSizeLine_giant
  · exact run_giantRaw (by decide) (by decide)

end Meatpi
