import Meatpi.Autopid.RespPayload
import Meatpi.Library.BoundedInsert

/-!
# One payload per responder

`ap_resp_to_payloads` over the reply lines of several responders. However the
responders' lines are interleaved, the result is one entry for each of the
lowest ids that answered, ascending, with the payload its lines alone assemble
to.
-/

namespace Meatpi

open List Option

variable {l : List Char} {low : ℕ} {resp : List Char} {id : ℕ} {r : ℕ × List (List Char)}

/-! ## The kept ids -/

theorem insertHeader_eq (h : ℕ) (s : List ℕ) (m : ℕ) (hs : s.Pairwise (· < ·))
    (hlen : s.length ≤ m) : insertHeader m s h = (insertAsc h s).take m := by
  induction s generalizing m with
  | nil =>
    cases m <;> simp [insertHeader, insertAsc]
  | cons x s ih =>
    obtain ⟨m, rfl⟩ : ∃ k, m = k + 1 := ⟨m - 1, by rw [length_cons] at hlen; omega⟩
    rw [length_cons, Nat.add_le_add_iff_right] at hlen
    obtain ⟨-, hs'⟩ := pairwise_cons.mp hs
    rcases lt_trichotomy x h with hlt | rfl | hgt
    · -- the place is behind `x`
      have ih' := ih m hs' hlen
      rw [insertAsc, if_pos hlt, take_succ_cons, ← ih']
      simp only [insertHeader, takeWhile_cons, decide_eq_true hlt, if_true,
        length_cons, List.getElem?_cons_succ, take_succ_cons, drop_succ_cons,
        cons_append, Nat.add_lt_add_iff_right, Nat.add_le_add_iff_right]
      split_ifs <;> rfl
    · simp [insertHeader, insertAsc, hlen]
    · -- the place is in front: the last one falls out of a full table
      have hnlt : ¬ x < h := not_lt.mpr hgt.le
      rw [insertAsc, if_neg hnlt, if_neg hgt.ne', take_succ_cons]
      simp only [insertHeader, takeWhile_cons, decide_eq_false hnlt, Bool.false_eq_true,
        if_false, length_nil, List.getElem?_cons_zero, some.injEq, hgt.ne',
        take_zero, drop_zero, nil_append]
      split_ifs with hroom hfull
      · rw [take_of_length_le (Nat.le_of_lt_succ hroom)]
      · exact absurd hfull (Nat.not_succ_le_zero m)
      · have hm : (x :: s).length = m + 1 := by
          rw [length_cons] at hroom ⊢
          omega
        rw [dropLast_eq_take, hm, Nat.add_sub_cancel]

/-- **The kept ids** are the lowest of the distinct ids. -/
theorem respHeaders_eq (m : ℕ) (lines : List ApLine) :
    respHeaders m lines =
      (((lines.filter (·.hasHeader)).map (·.header)).foldl (fun s h => insertAsc h s) []).take m := by
  have hstep : ∀ (lines : List ApLine) (s : List ℕ), s.Pairwise (· < ·) →
      lines.foldl (fun hdrs line => if line.hasHeader then insertHeader m hdrs line.header else hdrs)
        (s.take m) =
      (((lines.filter (·.hasHeader)).map (·.header)).foldl (fun s h => insertAsc h s) s).take m := by
    intro lines
    induction lines with
    | nil => intro s _; rfl
    | cons line lines ih =>
      intro s hs
      rw [foldl_cons]
      by_cases hh : line.hasHeader = true
      · rw [if_pos hh, filter_cons_of_pos hh, map_cons, foldl_cons,
          insertHeader_eq _ _ m (hs.sublist (take_sublist _ _)) (length_take_le _ _),
          take_insertAsc, ih _ (pairwise_insertAsc hs)]
      · rw [if_neg hh, filter_cons_of_neg hh, ih _ hs]
  have := hstep lines [] List.Pairwise.nil
  rwa [take_nil] at this

/-! ## One responder's lines among others -/

theorem assembleHeaderFrames_filter (lines : List ApLine) (header payloadMax : ℕ) :
    assembleHeaderFrames (lines.filter (·.header == header)) header payloadMax =
      assembleHeaderFrames lines header payloadMax := by
  have hfold : (lines.filter (·.header == header)).foldl (assembleHeaderLine header payloadMax)
      ([], -1) = lines.foldl (assembleHeaderLine header payloadMax) ([], -1) := by
    rw [foldl_filter]
    apply foldl_ext
    intro acc line _
    by_cases hh : line.header = header
    · simp [hh]
    · simp [hh, assembleHeaderLine]
  rw [assembleHeaderFrames, assembleHeaderFrames, hfold]

/-- The data lines of a text's lines: what reads, without the pending answers. -/
def dataLines (hint : Id29Hint) (ls : List (List Char)) : List ApLine :=
  (ls.filterMap (readLine hint)).filter (!lineIsPending ·)

theorem dataLines_cons (hint : Id29Hint) (l : List Char) (ls : List (List Char)) :
    dataLines hint (l :: ls) = dataLines hint [l] ++ dataLines hint ls := by
  rw [dataLines, dataLines, dataLines, ← filter_append, ← filterMap_append, singleton_append]

/-- A reply line of the responder `id`: a header line with data. -/
structure ReplyLine (hint : Id29Hint) (id : ℕ) (l : List Char) : Prop where
  not_eol : ∀ c ∈ l, isEol c = false
  read : ∃ line, readLine hint l = some line ∧ line.isBare = false ∧ line.hasHeader = true ∧
    line.header = id

/-- The test of a reply line. -/
def readsAsReply (hint : Id29Hint) (id : ℕ) (l : List Char) : Bool :=
  l.all (!isEol ·) &&
    (readLine hint l).any fun line => !line.isBare && line.hasHeader && line.header == id

theorem replyLine_of_read {hint : Id29Hint} (h : readsAsReply hint id l = true) :
    ReplyLine hint id l := by
  simp only [readsAsReply, Bool.and_eq_true, List.all_eq_true, Bool.not_eq_true',
    Option.any_eq_true, beq_iff_eq] at h
  obtain ⟨heol, line, hline, ⟨hbare, hh⟩, hid⟩ := h
  exact ⟨heol, line, hline, hbare, hh, hid⟩

/-- Responders and the lines each replies with. -/
structure Responders (hint : Id29Hint) (R : List (ℕ × List (List Char))) : Prop where
  nodup : (R.map Prod.fst).Nodup
  /-- ids are `uint32_t` -/
  id_le : ∀ r ∈ R, r.1 ≤ uint32Max
  lines : ∀ r ∈ R, ∀ l ∈ r.2, ReplyLine hint r.1 l

/-- `L` interleaves the responders' lines: every line is tagged with a
responder, and each responder's lines stand in its own order. -/
structure Interleaving (R : List (ℕ × List (List Char))) (L : List (ℕ × List Char)) : Prop where
  order : ∀ r ∈ R, (L.filter (·.1 == r.1)).map Prod.snd = r.2
  tags : ∀ x ∈ L, x.1 ∈ R.map Prod.fst

theorem printFrame_replyLine (hint : Id29Hint) (r : Responder) {f : List UInt8}
    (hf : IsoTp.Frame f) : ReplyLine hint r.header (printFrame r f) where
  not_eol := (readsAs_printFrame hint r hf).not_eol
  read := ⟨frameLine r f, (readsAs_printFrame hint r hf).read, rfl, rfl, rfl⟩

theorem Interleaving.replyLine {hint : Id29Hint} {R : List (ℕ × List (List Char))}
    {L : List (ℕ × List Char)} (hL : Interleaving R L) (hR : Responders hint R) :
    ∀ x ∈ L, ReplyLine hint x.1 x.2 := by
  intro x hx
  obtain ⟨r, hr, hrx⟩ := List.mem_map.mp (hL.tags x hx)
  rw [← hrx]
  apply hR.lines r hr
  rw [← hL.order r hr]
  exact mem_map_of_mem (List.mem_filter.mpr ⟨hx, by simp [hrx]⟩)

theorem ReplyLine.dataLines_singleton {hint : Id29Hint} (h : ReplyLine hint id l) :
    ∀ line ∈ dataLines hint [l], line.hasHeader = true ∧ line.header = id := by
  obtain ⟨line, hread, -, hh, hid⟩ := h.read
  intro line' hl
  have hmem := (List.mem_filter.mp hl).1
  simp only [filterMap_cons, hread, filterMap_nil, mem_singleton] at hmem
  subst hmem
  exact ⟨hh, hid⟩

theorem dataLines_filter_header {hint : Id29Hint} (id : ℕ) {L : List (ℕ × List Char)}
    (hL : (∀ x ∈ L, ReplyLine hint x.1 x.2)) :
    (dataLines hint (L.map Prod.snd)).filter (·.header == id) =
      dataLines hint ((L.filter (·.1 == id)).map Prod.snd) := by
  induction L with
  | nil => rfl
  | cons x L ih =>
    have hx := (hL x mem_cons_self).dataLines_singleton
    rw [map_cons, dataLines_cons, filter_append, ih fun y hy => hL y (mem_cons_of_mem _ hy)]
    by_cases hid : x.1 = id
    · have hall : (dataLines hint [x.2]).filter (·.header == id) = dataLines hint [x.2] := by
        rw [filter_eq_self]
        intro line hl
        rw [(hx line hl).2, hid]
        exact beq_self_eq_true id
      rw [hall, filter_cons_of_pos (by simp [hid]), map_cons, ← dataLines_cons]
    · have hnone : (dataLines hint [x.2]).filter (·.header == id) = [] := by
        rw [filter_eq_nil_iff]
        intro line hl
        rw [(hx line hl).2]
        simpa using hid
      rw [hnone, nil_append, filter_cons_of_neg (by simp [hid])]

theorem dataLines_tagged {hint : Id29Hint} : ∀ {L : List (ℕ × List Char)},
    (∀ x ∈ L, ReplyLine hint x.1 x.2) → ∀ line ∈ dataLines hint (L.map Prod.snd),
      line.hasHeader = true ∧ ∃ x ∈ L, x.1 = line.header ∧ line ∈ dataLines hint [x.2] := by
  intro L
  induction L with
  | nil => intro _ line hl; cases hl
  | cons x L ih =>
    intro hL line hl
    rw [map_cons, dataLines_cons] at hl
    rcases mem_append.mp hl with hl | hl
    · obtain ⟨hh, hid⟩ := (hL x mem_cons_self).dataLines_singleton line hl
      exact ⟨hh, x, mem_cons_self, hid.symm, hl⟩
    · obtain ⟨hh, y, hy, hid, hmem⟩ := ih (fun y hy => hL y (mem_cons_of_mem _ hy)) line hl
      exact ⟨hh, y, mem_cons_of_mem _ hy, hid, hmem⟩

theorem ReplyText.collect_replyLines {hint : Id29Hint} {L : List (ℕ × List Char)}
    (h : ReplyText (L.map Prod.snd) resp) (hL : ∀ x ∈ L, ReplyLine hint x.1 x.2) :
    apRespCollectLines hint resp apMaxLines =
      ⟨(dataLines hint (L.map Prod.snd)).take apMaxLines, false, -1⟩ := by
  have hreads : ∀ {L : List (ℕ × List Char)}, (∀ x ∈ L, ReplyLine hint x.1 x.2) →
      List.Forall₂ (ReadsAs hint) (L.map Prod.snd) ((L.map Prod.snd).filterMap (readLine hint)) ∧
      ∀ line ∈ (L.map Prod.snd).filterMap (readLine hint), line.isBare = false := by
    intro L
    induction L with
    | nil => intro _; simp
    | cons x L ih =>
      intro hL
      obtain ⟨hall, hbare⟩ := ih fun y hy => hL y (mem_cons_of_mem _ hy)
      obtain ⟨line, hread, hb, -, -⟩ := (hL x mem_cons_self).read
      rw [map_cons, filterMap_cons, hread]
      exact ⟨.cons ⟨(hL x mem_cons_self).not_eol, hread⟩ hall, forall_mem_cons.mpr ⟨hb, hbare⟩⟩
  rw [h.collect (hreads hL).1 (hreads hL).2, ← dataLines]

theorem ReplyText.collect_replyLines_all {hint : Id29Hint} {L : List (ℕ × List Char)}
    (h : ReplyText (L.map Prod.snd) resp) (hL : ∀ x ∈ L, ReplyLine hint x.1 x.2)
    (hlen : L.length ≤ apMaxLines) :
    apRespCollectLines hint resp apMaxLines = ⟨dataLines hint (L.map Prod.snd), false, -1⟩ := by
  have hcut : (dataLines hint (L.map Prod.snd)).length ≤ apMaxLines := (length_filter_le _ _).trans
      ((List.length_filterMap_le _ _).trans (by rwa [length_map]))
  rw [h.collect_replyLines hL, take_of_length_le hcut]

/-! ## The result -/

/-- The responders that answered with data. -/
def answering (hint : Id29Hint) (R : List (ℕ × List (List Char))) : List ℕ :=
  (R.filter fun r => !(dataLines hint r.2).isEmpty).map Prod.fst

/-- What a responder's lines alone assemble to. -/
def alonePayload (hint : Id29Hint) (R : List (ℕ × List (List Char))) (id : ℕ) : List UInt8 :=
  assembleHeaderFrames (dataLines hint ((R.lookup id).getD [])) id apPayloadMax

/-- The entries of `ap_resp_to_payloads`, from the responders alone. -/
def respondersPayloads (hint : Id29Hint) (R : List (ℕ × List (List Char))) (maxEcus : ℕ) :
    List ApRespEcu :=
  ((((answering hint R).insertionSort (· ≤ ·)).take (min maxEcus apRespEcusMax)).map fun id =>
    (⟨id, alonePayload hint R id⟩ : ApRespEcu)).filter fun ecu => !ecu.payload.isEmpty

section Interleaved

variable {hint : Id29Hint} {R : List (ℕ × List (List Char))} {L : List (ℕ × List Char)}

theorem Responders.lookup_eq (hR : Responders hint R) (hr : r ∈ R) : R.lookup r.1 = some r.2 := by
  have hnodup := hR.nodup
  clear hR
  induction R with
  | nil => cases hr
  | cons q R ih =>
    rw [map_cons, nodup_cons] at hnodup
    rcases mem_cons.mp hr with rfl | hr
    · exact lookup_cons_self
    · have hne : (r.1 == q.1) = false := by
        rw [beq_eq_false_iff_ne]
        intro heq
        exact hnodup.1 (heq ▸ mem_map_of_mem hr)
      rw [lookup_cons, hne]
      exact ih hr hnodup.2

theorem Responders.alonePayload_eq (hR : Responders hint R) (hr : r ∈ R) :
    alonePayload hint R r.1 = assembleHeaderFrames (dataLines hint r.2) r.1 apPayloadMax := by
  rw [alonePayload, hR.lookup_eq hr, getD_some]

theorem Interleaving.filter_header (hL : Interleaving R L) (hR : Responders hint R) (hr : r ∈ R) :
    (dataLines hint (L.map Prod.snd)).filter (·.header == r.1) = dataLines hint r.2 := by
  rw [dataLines_filter_header r.1 (hL.replyLine hR), hL.order r hr]

theorem mem_answering : id ∈ answering hint R ↔ ∃ r ∈ R, dataLines hint r.2 ≠ [] ∧ r.1 = id := by
  simp only [answering, List.mem_map, List.mem_filter, Bool.not_eq_true',
    List.isEmpty_eq_false_iff, and_assoc]

/-- **No mixing**: what an id assembles to among all lines is what its own
lines assemble to. -/
theorem Interleaving.assemble_eq (hL : Interleaving R L) (hR : Responders hint R)
    (hid : id ∈ answering hint R) :
    assembleHeaderFrames (dataLines hint (L.map Prod.snd)) id apPayloadMax =
      alonePayload hint R id := by
  obtain ⟨r, hr, -, rfl⟩ := mem_answering.mp hid
  rw [← assembleHeaderFrames_filter, hL.filter_header hR hr, hR.alonePayload_eq hr]

theorem Interleaving.header_mem (hL : Interleaving R L) (hR : Responders hint R) {line : ApLine}
    (hl : line ∈ dataLines hint (L.map Prod.snd)) :
    line.hasHeader = true ∧ line.header ∈ answering hint R := by
  obtain ⟨hh, x, hx, hid, -⟩ := dataLines_tagged (hL.replyLine hR) line hl
  obtain ⟨r, hr, hrx⟩ := List.mem_map.mp (hL.tags x hx)
  have hmem : line ∈ (dataLines hint (L.map Prod.snd)).filter (·.header == r.1) :=
    List.mem_filter.mpr ⟨hl, by simp [hrx, hid]⟩
  rw [hL.filter_header hR hr] at hmem
  exact ⟨hh, mem_answering.mpr ⟨r, hr, ne_nil_of_mem hmem, hrx.trans hid⟩⟩

theorem Interleaving.exists_line (hL : Interleaving R L) (hR : Responders hint R)
    (hid : id ∈ answering hint R) : ∃ line ∈ dataLines hint (L.map Prod.snd), line.header = id := by
  obtain ⟨r, hr, hne, rfl⟩ := mem_answering.mp hid
  rw [← hL.filter_header hR hr] at hne
  obtain ⟨line, hl⟩ := exists_mem_of_ne_nil _ hne
  rw [List.mem_filter] at hl
  exact ⟨line, hl.1, by simpa using hl.2⟩

theorem Responders.sorted_answering (hR : Responders hint R) :
    ((answering hint R).insertionSort (· ≤ ·)).Pairwise (· < ·) := by
  apply pairwise_insertionSort_of_nodup
  exact hR.nodup.sublist (filter_sublist.map Prod.fst)

theorem Interleaving.respHeaders_eq (hL : Interleaving R L) (hR : Responders hint R) (m : ℕ) :
    respHeaders m (dataLines hint (L.map Prod.snd)) =
      ((answering hint R).insertionSort (· ≤ ·)).take m := by
  rw [Meatpi.respHeaders_eq, foldl_insertAsc hR.sorted_answering]
  intro id
  rw [List.mem_insertionSort, List.mem_map]
  constructor
  · rintro ⟨line, hl, rfl⟩
    exact (hL.header_mem hR (List.mem_filter.mp hl).1).2
  · intro hid
    obtain ⟨line, hl, hid⟩ := hL.exists_line hR hid
    exact ⟨line, List.mem_filter.mpr ⟨hl, (hL.header_mem hR hl).1⟩, hid⟩

theorem Interleaving.headersOn_eq (hL : Interleaving R L) (hR : Responders hint R)
    (hne : dataLines hint (L.map Prod.snd) ≠ []) :
    headersOn (dataLines hint (L.map Prod.snd)) = true := by
  obtain ⟨line, lines, heq⟩ := exists_cons_of_ne_nil hne
  have hmem : line ∈ dataLines hint (L.map Prod.snd) := by
    rw [heq]
    exact mem_cons_self
  have hh := (hL.header_mem hR hmem).1
  rw [heq]
  exact hh

theorem answering_eq_nil (hL : Interleaving R L) (hR : Responders hint R) :
    dataLines hint (L.map Prod.snd) = [] → answering hint R = [] := by
  intro hnil
  rw [eq_nil_iff_forall_not_mem]
  intro id hid
  obtain ⟨line, hl, -⟩ := hL.exists_line hR hid
  rw [hnil] at hl
  cases hl

theorem Interleaving.payloads_of_collect (hL : Interleaving R L) (hR : Responders hint R)
    (hcollect : apRespCollectLines hint resp apMaxLines =
      ⟨dataLines hint (L.map Prod.snd), false, -1⟩) (maxEcus : ℕ) :
    apRespToPayloads hint resp maxEcus = .ok (respondersPayloads hint R maxEcus) := by
  rcases Nat.eq_zero_or_pos maxEcus with rfl | hpos
  · simp [apRespToPayloads, respondersPayloads]
  rw [apRespToPayloads, if_neg hpos.ne', respLines, hcollect]
  by_cases hnil : dataLines hint (L.map Prod.snd) = []
  · simp [hnil, respondersPayloads, answering_eq_nil hL hR hnil]
  · have hmap : ∀ id ∈ ((answering hint R).insertionSort (· ≤ ·)).take (min maxEcus apRespEcusMax),
        (⟨id, assembleHeaderFrames (dataLines hint (L.map Prod.snd)) id apPayloadMax⟩ : ApRespEcu) =
          ⟨id, alonePayload hint R id⟩ := by
      intro id hid
      rw [hL.assemble_eq hR ((List.mem_insertionSort _).mp (mem_of_mem_take hid))]
    simp only [Bool.false_eq_true, hnil, if_false, hL.headersOn_eq hR hnil, if_true,
      hL.respHeaders_eq hR, map_congr_left hmap, respondersPayloads]

theorem Interleaving.payloads_eq (hL : Interleaving R L) (hR : Responders hint R)
    (hlen : L.length ≤ apMaxLines) (htext : ReplyText (L.map Prod.snd) resp) (maxEcus : ℕ) :
    apRespToPayloads hint resp maxEcus = .ok (respondersPayloads hint R maxEcus) :=
  hL.payloads_of_collect hR (htext.collect_replyLines_all (hL.replyLine hR) hlen) maxEcus

theorem Interleaving.lowestHeader_eq (hL : Interleaving R L) (hR : Responders hint R)
    (hlow : low ∈ answering hint R) (hle : ∀ id ∈ answering hint R, low ≤ id) :
    lowestHeader (dataLines hint (L.map Prod.snd)) = low := by
  obtain ⟨line, hl, hid⟩ := hL.exists_line hR hlow
  have hup := lowestHeader_le hl (hL.header_mem hR hl).1
  rw [hid] at hup
  apply le_antisymm hup
  rcases lowestHeader_mem (dataLines hint (L.map Prod.snd)) with hmax | ⟨line', hl', -, heq⟩
  · obtain ⟨r, hr, -, rfl⟩ := mem_answering.mp hlow
    rw [hmax]
    exact hR.id_le r hr
  · rw [← heq]
    exact hle _ (hL.header_mem hR hl').2

theorem Interleaving.payload_eq (hL : Interleaving R L) (hR : Responders hint R)
    (hlen : L.length ≤ apMaxLines) (htext : ReplyText (L.map Prod.snd) resp)
    (hlow : low ∈ answering hint R) (hle : ∀ id ∈ answering hint R, low ≤ id) :
    apRespToPayload hint resp apPayloadMax = nonEmptyBytes (alonePayload hint R low) := by
  have hcollect := htext.collect_replyLines_all (hL.replyLine hR) hlen
  have hne : dataLines hint (L.map Prod.snd) ≠ [] := by
    obtain ⟨line, hl, -⟩ := hL.exists_line hR hlow
    exact ne_nil_of_mem hl
  simp only [apRespToPayload, respLines, hcollect, Bool.false_eq_true, hne, if_false, bind,
    Except.bind, hL.headersOn_eq hR hne, if_true, hL.lowestHeader_eq hR hlow hle,
    hL.assemble_eq hR hlow]

end Interleaved

theorem interleaving_alone (r : ℕ × List (List Char)) :
    Interleaving [r] (r.2.map fun l => (r.1, l)) where
  order := by
    intro q hq
    rw [mem_singleton.mp hq, filter_eq_self.mpr (by simp)]
    simp
  tags := by simp

theorem Responders.alone {hint : Id29Hint} {R : List (ℕ × List (List Char))}
    (hR : Responders hint R) (hr : r ∈ R) : Responders hint [r] where
  nodup := by simp
  id_le := by simpa using hR.id_le r hr
  lines := by
    intro q hq
    rw [mem_singleton.mp hq]
    exact hR.lines r hr

theorem Interleaving.apRespToPayload_alone {hint : Id29Hint} {R : List (ℕ × List (List Char))}
    {L : List (ℕ × List Char)} (hL : Interleaving R L) (hR : Responders hint R)
    (hlen : L.length ≤ apMaxLines) (hid : id ∈ answering hint R) :
    ∃ ls, (id, ls) ∈ R ∧ ∀ alone, ReplyText ls alone →
      apRespToPayload hint alone apPayloadMax = nonEmptyBytes (alonePayload hint R id) := by
  obtain ⟨r, hr, hne, rfl⟩ := mem_answering.mp hid
  refine ⟨r.2, hr, fun alone halone => ?_⟩
  have hcount : r.2.length ≤ L.length := by
    rw [← hL.order r hr, length_map]
    exact length_filter_le _ _
  have hfew : (r.2.map fun l => (r.1, l)).length ≤ apMaxLines := by
    rw [length_map]
    omega
  have halone' : ReplyText ((r.2.map fun l => (r.1, l)).map Prod.snd) alone := by
    simpa using halone
  have hself : r.1 ∈ answering hint [r] := mem_answering.mpr ⟨r, List.mem_singleton_self r, hne, rfl⟩
  have hlow : ∀ id ∈ answering hint [r], r.1 ≤ id := by
    intro id hid
    obtain ⟨q, hq, -, rfl⟩ := mem_answering.mp hid
    rw [mem_singleton.mp hq]
  rw [(interleaving_alone r).payload_eq (hR.alone hr) hfew halone' hself hlow,
    (hR.alone hr).alonePayload_eq (List.mem_singleton_self r), hR.alonePayload_eq hr]

/-- **Responders do not mix.** However the responders' lines are interleaved,
`ap_resp_to_payloads` returns one list that depends on the responders only: of
the ids that answered with data, ascending, the lowest `max_ecus` (and no more
than `AP_RESP_ECUS_MAX`), each with what its lines alone give, those without a
payload left out. The first entry is what `ap_resp_to_payload` returns. -/
theorem apRespToPayloads_interleaved (hint : Id29Hint) (maxEcus : ℕ)
    {R : List (ℕ × List (List Char))} {L : List (ℕ × List Char)} {resp : List Char}
    (hR : Responders hint R) (hL : Interleaving R L) (hlen : L.length ≤ apMaxLines)
    (htext : ReplyText (L.map Prod.snd) resp) :
    apRespToPayloads hint resp maxEcus = .ok (respondersPayloads hint R maxEcus) ∧
    ((respondersPayloads hint R maxEcus).map (·.header)).Pairwise (· < ·) ∧
    (∀ ecu ∈ respondersPayloads hint R maxEcus, ∃ ls, (ecu.header, ls) ∈ R ∧
      ∀ alone, ReplyText ls alone → apRespToPayload hint alone apPayloadMax = .ok ecu.payload) ∧
    (∀ low ∈ ((answering hint R).insertionSort (· ≤ ·)).head?,
      0 < maxEcus → alonePayload hint R low ≠ [] →
      ∃ first ∈ (respondersPayloads hint R maxEcus).head?, first.header = low ∧
        apRespToPayload hint resp apPayloadMax = .ok first.payload) := by
  refine ⟨hL.payloads_eq hR hlen htext maxEcus, ?_, ?_, ?_⟩
  · have hkept := hR.sorted_answering.sublist (take_sublist (min maxEcus apRespEcusMax) _)
    have hall : (((((answering hint R).insertionSort (· ≤ ·)).take
        (min maxEcus apRespEcusMax)).map fun id =>
          (⟨id, alonePayload hint R id⟩ : ApRespEcu)).map (·.header)).Pairwise (· < ·) :=
      pairwise_map.mpr (pairwise_map.mpr hkept)
    exact hall.sublist (filter_sublist.map _)
  · intro ecu hecu
    obtain ⟨hmem, hne⟩ := List.mem_filter.mp hecu
    obtain ⟨id, hid, rfl⟩ := List.mem_map.mp hmem
    have hans := (List.mem_insertionSort _).mp (mem_of_mem_take hid)
    obtain ⟨ls, hls, halone⟩ := hL.apRespToPayload_alone hR hlen hans
    refine ⟨ls, hls, fun alone htext => ?_⟩
    rw [halone alone htext, nonEmptyBytes]
    simpa using hne
  · intro low hlow hpos hne
    obtain ⟨rest, hsort⟩ : ∃ rest, (answering hint R).insertionSort (· ≤ ·) = low :: rest := by
      rw [mem_def, List.head?_eq_some_iff] at hlow
      exact hlow
    have hans : low ∈ answering hint R :=
      (List.mem_insertionSort (· ≤ ·)).mp (by rw [hsort]; exact mem_cons_self)
    have hle : ∀ id ∈ answering hint R, low ≤ id := by
      intro id hid
      have hasc := hR.sorted_answering
      rw [hsort, pairwise_cons] at hasc
      rw [← List.mem_insertionSort (· ≤ ·), hsort] at hid
      rcases mem_cons.mp hid with rfl | hid
      · exact le_refl _
      · exact (hasc.1 id hid).le
    obtain ⟨m, hm⟩ : ∃ m, min maxEcus apRespEcusMax = m + 1 :=
      ⟨min maxEcus apRespEcusMax - 1, by simp only [apRespEcusMax]; omega⟩
    refine ⟨⟨low, alonePayload hint R low⟩, ?_, rfl, ?_⟩
    · rw [respondersPayloads, hsort, hm, take_succ_cons, map_cons,
        filter_cons_of_pos (by simpa using hne)]
      rfl
    · rw [hL.payload_eq hR hlen htext hans hle, nonEmptyBytes, if_neg hne]

/-- Two responders, the second one's pending answer between the first one's
frames. -/
def twoResponders : List (ℕ × List (List Char)) :=
  [(0x7E9, ["7E9 03 7F 03 78".toList, "7E9 02 43 00".toList]),
    (0x7E8, ["7E8 10 08 43 03 01 01 71 03".toList, "7E8 21 00 01 43".toList])]

theorem apRespToPayloads_interleaved_two :
    respondersPayloads ⟨0, false⟩ twoResponders 8 =
      [⟨0x7E8, [0x43, 0x03, 0x01, 0x01, 0x71, 0x03, 0x00, 0x01]⟩, ⟨0x7E9, [0x43, 0x00]⟩] ∧
      ∃ resp, apRespToPayloads ⟨0, false⟩ resp 8 =
        .ok (respondersPayloads ⟨0, false⟩ twoResponders 8) := by
  have hR : Responders ⟨0, false⟩ twoResponders :=
    { nodup := by decide
      id_le := by decide
      lines := fun r hr l hl => replyLine_of_read
        ((by decide : ∀ r ∈ twoResponders, ∀ l ∈ r.2, readsAsReply ⟨0, false⟩ r.1 l) r hr l hl) }
  have hL : Interleaving twoResponders
      [(0x7E8, "7E8 10 08 43 03 01 01 71 03".toList), (0x7E9, "7E9 03 7F 03 78".toList),
        (0x7E8, "7E8 21 00 01 43".toList), (0x7E9, "7E9 02 43 00".toList)] :=
    { order := by decide
      tags := by decide }
  exact ⟨by decide, _, (apRespToPayloads_interleaved ⟨0, false⟩ 8 hR hL (by decide)
    (replyText_lines (by decide))).1⟩

/-- Nine responders, one line each. -/
def nineResponders : List (ℕ × List (List Char)) :=
  [(0x7E0, ["7E0 01 41".toList]), (0x7E1, ["7E1 01 41".toList]), (0x7E2, ["7E2 01 41".toList]),
    (0x7E3, ["7E3 01 41".toList]), (0x7E4, ["7E4 01 41".toList]), (0x7E5, ["7E5 01 41".toList]),
    (0x7E6, ["7E6 01 41".toList]), (0x7E7, ["7E7 01 41".toList]), (0x7E8, ["7E8 01 41".toList])]

/-- A caller that asks for nine ids is given eight. -/
theorem apRespToPayloads_nine_ids :
    Responders ⟨0, false⟩ nineResponders ∧
    (∀ id ∈ answering ⟨0, false⟩ nineResponders, alonePayload ⟨0, false⟩ nineResponders id ≠ []) ∧
    ∃ L resp, Interleaving nineResponders L ∧ L.length ≤ apMaxLines ∧
      ReplyText (L.map Prod.snd) resp ∧
      (apRespToPayloads ⟨0, false⟩ resp 9).toOption.map (List.map ApRespEcu.header) ≠
        some (((answering ⟨0, false⟩ nineResponders).insertionSort (· ≤ ·)).take 9) := by
  refine ⟨⟨by decide, by decide, fun r hr l hl => replyLine_of_read
    ((by decide : ∀ r ∈ nineResponders, ∀ l ∈ r.2, readsAsReply ⟨0, false⟩ r.1 l) r hr l hl)⟩,
    by decide, nineResponders.flatMap (fun r => r.2.map fun l => (r.1, l)), _,
    ⟨by decide, by decide⟩, by decide, replyText_lines (by decide), by decide⟩

end Meatpi
