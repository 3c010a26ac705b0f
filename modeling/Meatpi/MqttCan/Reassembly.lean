import Mathlib.Algebra.Group.Nat.Defs
import Meatpi.Library.JsonGrammar

/-!
# Messages cut into chunks (`mqtt_can.c`, `mqtt_can_codec.c`)

An MQTT message reaches the CAN side as bridge chunks through a queue, and the
object in it is put together again by counting braces outside strings. When the
queue is full the rest of a message is dropped, and nothing tells the counter. So
where a message is cut decides everything: outside its object the cut does not
show; inside, the count stays where it was for every message to come.
-/

namespace Meatpi

open JsonGrammar List

variable {t : List UInt8} {b : UInt8} {d : ℤ} {s : List UInt8}

def mcTxbufMax : ℕ := 1024

/-- `BRIDGE_MANAGER_CHUNK_SIZE` -/
def bridgeChunkSize : ℕ := 128

/-! ## The reassembler -/

/-- A value kept in an `int16_t`. -/
def wrap16 (n : ℤ) : ℤ := Int.bmod n 65536

/-- Where the reassembler stands in the text. -/
structure McPos where
  depth : ℤ
  inStr : Bool
  esc : Bool
  deriving DecidableEq

/-- `mc_txasm_t`; the `len` bytes of `buf` are a list. -/
structure McTxasm extends McPos where
  buf : List UInt8
  overflow : Bool
  oversize : ℕ
  deriving DecidableEq

def McTxasm.init : McTxasm := ⟨⟨0, false, false⟩, [], false, 0⟩

/-- The store into `buf`, or the note that it is full. -/
def McTxasm.keep (a : McTxasm) (ch : UInt8) : McTxasm :=
  if a.buf.length < mcTxbufMax then { a with buf := a.buf ++ [ch] } else { a with overflow := true }

/-- One turn of the loop of `mc_txasm_feed`: the state, and the object handed to
the callback. -/
def McTxasm.byte (a : McTxasm) (ch : UInt8) : McTxasm × Option (List UInt8) :=
  if a.depth = 0 ∧ ch ≠ 0x7B then
    -- between objects: ignore everything until an opener
    (a, none)
  else
    let a := if a.depth = 0 then { a with buf := [], overflow := false } else a
    let a := a.keep ch
    if a.inStr then
      if a.esc then ({ a with esc := false }, none)
      else if ch = 0x5C then ({ a with esc := true }, none)
      else if ch = 0x22 then ({ a with inStr := false }, none)
      else (a, none)
    else if ch = 0x22 then ({ a with inStr := true }, none)
    else if ch = 0x7B then ({ a with depth := wrap16 (a.depth + 1) }, none)
    else if ch = 0x7D then
      let depth := wrap16 (a.depth - 1)
      if depth ≤ 0 then
        let object := if a.overflow then none else some a.buf
        let oversize := if a.overflow then (a.oversize + 1) % 2 ^ 32 else a.oversize
        ({ a with depth := 0, buf := [], overflow := false, oversize := oversize }, object)
      else ({ a with depth := depth }, none)
    else (a, none)

/-- `mc_txasm_feed`: the objects handed to the callback, in order. -/
def mcTxasmFeed : McTxasm → List UInt8 → McTxasm × List (List UInt8)
  | a, [] => (a, [])
  | a, ch :: bytes =>
    let one := a.byte ch
    let rest := mcTxasmFeed one.1 bytes
    (rest.1, one.2.toList ++ rest.2)

/-! ## The chunks of a message -/

/-- The loop of `sub_handler`: chunks go to the queue until it refuses one.
`sent i` is what `xQueueSend` answers to the `i`-th; `fuel` bounds the chunks. -/
def subHandlerFrom (sent : ℕ → Bool) : ℕ → ℕ → List UInt8 → List (List UInt8)
  | 0, _, _ => []
  | fuel + 1, i, data =>
    if data = [] then []
    else if sent i then
      data.take bridgeChunkSize :: subHandlerFrom sent fuel (i + 1) (data.drop bridgeChunkSize)
    else [] -- partial object: reassembler resyncs

/-- `sub_handler`: the chunks of a message that got through. -/
def subHandler (sent : ℕ → Bool) (data : List UInt8) : List (List UInt8) :=
  subHandlerFrom sent data.length 0 data

/-- `tr_encode` over the chunks that got through. -/
def mcFeedChunks : McTxasm → List (List UInt8) → McTxasm × List (List UInt8)
  | a, [] => (a, [])
  | a, chunk :: chunks =>
    let one := mcTxasmFeed a chunk
    let rest := mcFeedChunks one.1 chunks
    (rest.1, one.2 ++ rest.2)

/-- An MQTT message: one JSON object, with any white space around it, that fits
the reassembly buffer. -/
structure TxMessage where
  lead : List UInt8
  object : List UInt8
  trail : List UInt8
  lead_ws : IsWs lead
  isObject : IsObject object
  trail_ws : IsWs trail
  fits : (lead ++ object ++ trail).length ≤ mcTxbufMax

def TxMessage.data (m : TxMessage) : List UInt8 := m.lead ++ m.object ++ m.trail

/-- A message and the queue's answers to its chunks. -/
structure TxSend where
  message : TxMessage
  sent : ℕ → Bool

/-- The bytes of a message that got through. -/
def TxSend.passed (p : TxSend) : List UInt8 := (subHandler p.sent p.message.data).flatten

/-- All its chunks got through. -/
def TxSend.Whole (p : TxSend) : Prop := p.passed = p.message.data

/-- The messages one after the other: what each of them made the reassembler
deliver. -/
def mcRun : McTxasm → List TxSend → McTxasm × List (List (List UInt8))
  | a, [] => (a, [])
  | a, p :: sends =>
    let one := mcFeedChunks a (subHandler p.sent p.message.data)
    let rest := mcRun one.1 sends
    (rest.1, one.2 :: rest.2)

/-- Every message that got through whole, with no cut one right before it, is
delivered as its object and nothing else. -/
def Delivers (sends : List TxSend) : Prop :=
  ∀ i p, sends[i]? = some p → p.Whole → (∀ q, i ≠ 0 → sends[i - 1]? = some q → q.Whole) →
    (mcRun .init sends).2[i]? = some [p.message.object]

/-- The cut of a message does not go through its object: nothing of the object got
through, or all of it. -/
def TxSend.CutOutside (p : TxSend) : Prop :=
  p.passed.length ≤ p.message.lead.length ∨
    p.message.lead.length + p.message.object.length ≤ p.passed.length

/-! ## Inside an object -/

/-- How the place in the text moves on a byte inside an object. -/
def McPos.next (p : McPos) (ch : UInt8) : McPos :=
  if p.inStr then
    if p.esc then { p with esc := false }
    else if ch = 0x5C then { p with esc := true }
    else if ch = 0x22 then { p with inStr := false }
    else p
  else if ch = 0x22 then { p with inStr := true }
  else if ch = 0x7B then { p with depth := wrap16 (p.depth + 1) }
  else if ch = 0x7D then { p with depth := wrap16 (p.depth - 1) }
  else p

def McPos.run (p : McPos) (s : List UInt8) : McPos := s.foldl McPos.next p

theorem McPos.run_append (p : McPos) (s t : List UInt8) : p.run (s ++ t) = (p.run s).run t :=
  foldl_append

theorem wrap16_of_small {n : ℤ} (h : -32768 ≤ n) (h' : n ≤ 32767) : wrap16 n = n :=
  Int.bmod_eq_of_le (by omega) (by omega)

/-- The same buffer at another place in the text. -/
def McTxasm.moved (a : McTxasm) (p : McPos) : McTxasm := { a with toMcPos := p }

theorem McTxasm.keep_moved (a : McTxasm) (p : McPos) (ch : UInt8) :
    (a.moved p).keep ch = (a.keep ch).moved p := by
  rw [keep, keep]
  show (if a.buf.length < mcTxbufMax then _ else _) = _
  split_ifs <;> rfl

theorem McTxasm.foldl_keep_moved (s : List UInt8) : ∀ (a : McTxasm) (p : McPos),
    s.foldl McTxasm.keep (a.moved p) = (s.foldl McTxasm.keep a).moved p := by
  induction s with
  | nil => intro a p; rfl
  | cons ch s ih =>
    intro a p
    rw [foldl_cons, foldl_cons, keep_moved, ih]

theorem McTxasm.byte_inside {a : McTxasm} {ch : UInt8} (h : a.depth ≠ 0)
    (hnext : 0 < (a.toMcPos.next ch).depth) :
    a.byte ch = ((a.keep ch).moved (a.toMcPos.next ch), none) := by
  have hopen : ¬ (a.depth = 0 ∧ ch ≠ 0x7B) := fun h' => h h'.1
  have hpos : (a.keep ch).toMcPos = a.toMcPos := by
    rw [keep]
    split_ifs <;> rfl
  obtain ⟨b, hb⟩ : ∃ b, b = a.keep ch := ⟨_, rfl⟩
  rw [← hb] at hpos ⊢
  rw [← hpos] at hnext ⊢
  rw [byte, if_neg hopen]
  simp only [if_neg h, ← hb]
  simp only [McPos.next] at hnext ⊢
  split_ifs at hnext ⊢
  all_goals
    first
    | rfl
    | dsimp only at hnext
      omega

/-- **A stretch inside an object**: nothing is delivered while the count stays
positive. -/
theorem mcTxasmFeed_inside {s : List UInt8} {a : McTxasm} (hopen : 0 < a.depth)
    (hpos : (∀ p, p <+: s → 0 < (a.toMcPos.run p).depth)) :
    mcTxasmFeed a s = ((s.foldl McTxasm.keep a).moved (a.toMcPos.run s), []) := by
  induction s generalizing a with
  | nil => rfl
  | cons ch s ih =>
    have hnext : 0 < (a.toMcPos.next ch).depth := hpos [ch] ⟨s, rfl⟩
    have hopen' : 0 < ((a.keep ch).moved (a.toMcPos.next ch)).depth := hnext
    have hrest := ih hopen' fun p hp => hpos (ch :: p) (cons_prefix_cons.mpr ⟨rfl, hp⟩)
    rw [McTxasm.foldl_keep_moved] at hrest
    rw [mcTxasmFeed, McTxasm.byte_inside (by omega) hnext]
    simp only [hrest]
    rfl

theorem foldl_keep {s : List UInt8} {a : McTxasm} (h : a.buf.length + s.length ≤ mcTxbufMax) :
    s.foldl McTxasm.keep a = { a with buf := a.buf ++ s } := by
  induction s generalizing a with
  | nil => simp
  | cons ch s ih =>
    rw [length_cons] at h
    have hroom : a.buf.length < mcTxbufMax := by omega
    have hkeep : a.keep ch = { a with buf := a.buf ++ [ch] } := if_pos hroom
    rw [foldl_cons, hkeep, ih (by simp; omega)]
    simp

/-! ## Texts that nest -/

/-- From any depth that has room, a text comes back to where it was and does not
go below on the way. -/
def Nested (s : List UInt8) : Prop :=
  ∀ d : ℤ, 1 ≤ d → d + s.length ≤ 32767 →
    (⟨d, false, false⟩ : McPos).run s = ⟨d, false, false⟩ ∧
      ∀ p, p <+: s → d ≤ ((⟨d, false, false⟩ : McPos).run p).depth

theorem nested_nil : Nested [] := by
  intro d _ _
  refine ⟨rfl, fun p hp => ?_⟩
  rw [prefix_nil.mp hp]
  exact Int.le_refl d

theorem prefix_append_cases' {p : List UInt8} (h : p <+: s ++ t) :
    p <+: s ∨ ∃ q, q <+: t ∧ p = s ++ q := by
  rcases prefix_or_prefix_of_prefix h (prefix_append s t) with h' | ⟨q, rfl⟩
  · exact .inl h'
  · exact .inr ⟨q, (prefix_append_right_inj s).mp h, rfl⟩

theorem Nested.append (hs : Nested s) (ht : Nested t) : Nested (s ++ t) := by
  intro d hd hroom
  rw [length_append] at hroom
  obtain ⟨hrun, hlow⟩ := hs d hd (by omega)
  obtain ⟨hrun', hlow'⟩ := ht d hd (by omega)
  refine ⟨by rw [McPos.run_append, hrun, hrun'], fun p hp => ?_⟩
  rcases prefix_append_cases' hp with hp | ⟨q, hq, rfl⟩
  · exact hlow p hp
  · rw [McPos.run_append, hrun]
    exact hlow' q hq

theorem nested_plain (h : IsPlain b) : Nested [b] := by
  intro d _ _
  have hnext : (⟨d, false, false⟩ : McPos).next b = ⟨d, false, false⟩ := by
    simp [McPos.next, h.1, h.2.1, h.2.2]
  refine ⟨hnext, fun p hp => ?_⟩
  rcases prefix_cons_iff.mp hp with rfl | ⟨t, rfl, ht⟩
  · exact Int.le_refl d
  · obtain rfl := prefix_nil.mp ht
    show d ≤ ((⟨d, false, false⟩ : McPos).next b).depth
    exact Int.le_of_eq (by rw [hnext])

theorem next_inStr (hquote : b ≠ 0x22) (hslash : b ≠ 0x5C) (d : ℤ) :
    (⟨d, true, false⟩ : McPos).next b = ⟨d, true, false⟩ := by
  simp [McPos.next, hslash, hquote]

theorem run_isHex (h : ∀ b ∈ s, isHex b = true) (d : ℤ) :
    (⟨d, true, false⟩ : McPos).run s = ⟨d, true, false⟩ := by
  induction s with
  | nil => rfl
  | cons b s ih =>
    have hb := h b mem_cons_self
    have hquote : b ≠ 0x22 := by rintro rfl; revert hb; decide
    have hslash : b ≠ 0x5C := by rintro rfl; revert hb; decide
    show ((⟨d, true, false⟩ : McPos).next b).run s = _
    rw [next_inStr hquote hslash]
    exact ih fun c hc => h c (mem_cons_of_mem _ hc)

theorem run_isChars (h : IsChars s) (d : ℤ) :
    (⟨d, true, false⟩ : McPos).run s = ⟨d, true, false⟩ ∧
      ∀ p, p <+: s → ((⟨d, true, false⟩ : McPos).run p).depth = d := by
  induction h with
  | nil =>
    refine ⟨rfl, fun p hp => ?_⟩
    rw [prefix_nil.mp hp]
    rfl
  | @plain b s _ hquote hslash _ ih =>
    have hnext := next_inStr hquote hslash d
    refine ⟨?_, fun p hp => ?_⟩
    · show ((⟨d, true, false⟩ : McPos).next b).run s = _
      rw [hnext, ih.1]
    · rcases prefix_cons_iff.mp hp with rfl | ⟨t, rfl, ht⟩
      · rfl
      · show (((⟨d, true, false⟩ : McPos).next b).run t).depth = d
        rw [hnext, ih.2 t ht]
  | @escape b s _ _ ih =>
    refine ⟨ih.1, fun p hp => ?_⟩
    rcases prefix_cons_iff.mp hp with rfl | ⟨t, rfl, ht⟩
    · rfl
    · rcases prefix_cons_iff.mp ht with rfl | ⟨t', rfl, ht'⟩
      · rfl
      · exact ih.2 t' ht'
  | @unicode t s _ hhex _ ih =>
    refine ⟨?_, fun p hp => ?_⟩
    · show (⟨d, true, false⟩ : McPos).run (t ++ s) = _
      rw [McPos.run_append, run_isHex hhex, ih.1]
    · rcases prefix_cons_iff.mp hp with rfl | ⟨q, rfl, hq⟩
      · rfl
      · rcases prefix_cons_iff.mp hq with rfl | ⟨q', rfl, hq'⟩
        · rfl
        · show ((⟨d, true, false⟩ : McPos).run q').depth = d
          rcases prefix_append_cases' hq' with hq' | ⟨r, hr, rfl⟩
          · rw [run_isHex (fun b hb => hhex b (hq'.subset hb))]
          · rw [McPos.run_append, run_isHex hhex]
            exact ih.2 r hr

theorem nested_string (h : IsString s) : Nested s := by
  obtain ⟨body, hbody, rfl⟩ := h
  intro d _ _
  obtain ⟨hrun, hlow⟩ := run_isChars hbody d
  refine ⟨?_, fun p hp => ?_⟩
  · show (⟨d, true, false⟩ : McPos).run (body ++ [0x22]) = _
    rw [McPos.run_append, hrun]
    rfl
  · rcases prefix_cons_iff.mp hp with rfl | ⟨q, rfl, hq⟩
    · exact Int.le_refl d
    · show d ≤ ((⟨d, true, false⟩ : McPos).run q).depth
      rcases prefix_append_cases' hq with hq | ⟨r, hr, rfl⟩
      · exact Int.le_of_eq (by rw [hlow q hq])
      · rw [McPos.run_append, hrun]
        rcases prefix_cons_iff.mp hr with rfl | ⟨r', rfl, hr'⟩
        · exact Int.le_refl d
        · rw [prefix_nil.mp hr']
          exact Int.le_refl d

theorem next_open (h : 1 ≤ d) (h' : d + 1 ≤ 32767) :
    (⟨d, false, false⟩ : McPos).next 0x7B = ⟨d + 1, false, false⟩ := by
  show (⟨wrap16 (d + 1), false, false⟩ : McPos) = _
  rw [wrap16_of_small (by omega) h']

theorem next_close (h : 1 ≤ d) (h' : d ≤ 32767) :
    (⟨d, false, false⟩ : McPos).next 0x7D = ⟨d - 1, false, false⟩ := by
  show (⟨wrap16 (d - 1), false, false⟩ : McPos) = _
  rw [wrap16_of_small (by omega) (by omega)]

theorem Nested.braces (hs : Nested s) : Nested (0x7B :: s ++ [0x7D]) := by
  intro d hd hroom
  simp only [cons_append, length_cons, length_append, length_nil] at hroom
  have hopen := next_open hd (by omega)
  have hclose : (⟨d + 1, false, false⟩ : McPos).next 0x7D = ⟨d + 1 - 1, false, false⟩ :=
    next_close (by omega) (by omega)
  obtain ⟨hrun, hlow⟩ := hs (d + 1) (by omega) (by omega)
  refine ⟨?_, fun p hp => ?_⟩
  · show ((⟨d, false, false⟩ : McPos).next 0x7B).run (s ++ [0x7D]) = _
    rw [hopen, McPos.run_append, hrun]
    show (⟨d + 1, false, false⟩ : McPos).next 0x7D = _
    rw [hclose]
    simp
  · rcases prefix_cons_iff.mp hp with rfl | ⟨q, rfl, hq⟩
    · exact Int.le_refl d
    · show d ≤ (((⟨d, false, false⟩ : McPos).next 0x7B).run q).depth
      rw [hopen]
      rcases prefix_append_cases' hq with hq | ⟨r, hr, rfl⟩
      · have := hlow q hq
        omega
      · rw [McPos.run_append, hrun]
        rcases prefix_cons_iff.mp hr with rfl | ⟨r', rfl, hr'⟩
        · show d ≤ d + 1
          omega
        · obtain rfl := prefix_nil.mp hr'
          show d ≤ ((⟨d + 1, false, false⟩ : McPos).next 0x7D).depth
          rw [hclose]
          show d ≤ d + 1 - 1
          omega

/-- **An object** is a text that nests, in braces. -/
theorem nested_of_isObject (h : IsObject s) : ∃ inner, Nested inner ∧ s = 0x7B :: inner ++ [0x7D] :=
  h.rule nested_nil (fun _ _ => Nested.append) (fun _ => nested_plain) (fun _ => nested_string)
    fun _ => Nested.braces

/-! ## Chunks are a stream -/

theorem mcTxasmFeed_append (s t : List UInt8) : ∀ a : McTxasm, mcTxasmFeed a (s ++ t) =
      ((mcTxasmFeed (mcTxasmFeed a s).1 t).1,
        (mcTxasmFeed a s).2 ++ (mcTxasmFeed (mcTxasmFeed a s).1 t).2) := by
  induction s with
  | nil => intro a; rfl
  | cons ch s ih =>
    intro a
    rw [cons_append, mcTxasmFeed, mcTxasmFeed, ih]
    simp only [append_assoc]

theorem mcFeedChunks_eq (chunks : List (List UInt8)) (a : McTxasm) :
    mcFeedChunks a chunks = mcTxasmFeed a chunks.flatten := by
  induction chunks generalizing a with
  | nil => rfl
  | cons chunk chunks ih =>
    rw [mcFeedChunks, flatten_cons, mcTxasmFeed_append, ih]

theorem flatten_subHandlerFrom (sent : ℕ → Bool) (fuel i : ℕ) (data : List UInt8) :
    (subHandlerFrom sent fuel i data).flatten <+: data := by
  induction fuel generalizing i data with
  | zero => exact nil_prefix
  | succ fuel ih =>
    rw [subHandlerFrom]
    split_ifs
    · exact nil_prefix
    · have hcut := (prefix_append_right_inj (data.take bridgeChunkSize)).mpr
        (ih (i + 1) (data.drop bridgeChunkSize))
      rw [take_append_drop] at hcut
      exact hcut
    · exact nil_prefix

theorem TxSend.passed_prefix (p : TxSend) : p.passed <+: p.message.data :=
  flatten_subHandlerFrom p.sent _ 0 _

/-! ## Between objects -/

/-- No object is open. -/
def McTxasm.Clean (a : McTxasm) : Prop := a.toMcPos = ⟨0, false, false⟩

theorem mcTxasmFeed_ws {a : McTxasm} (h : a.Clean) {s : List UInt8} (hs : IsWs s) :
    mcTxasmFeed a s = (a, []) := by
  induction s with
  | nil => rfl
  | cons b s ih =>
    have hdepth : a.depth = 0 := by rw [h]
    have hb : b ≠ 0x7B := (isInert_of_isWs hs b mem_cons_self).1.2.1
    have hbyte : a.byte b = (a, none) := by rw [McTxasm.byte, if_pos ⟨hdepth, hb⟩]
    rw [mcTxasmFeed, hbyte]
    simp only [ih fun c hc => hs c (mem_cons_of_mem _ hc)]
    rfl

theorem byte_opener {a : McTxasm} (h : a.Clean) :
    a.byte 0x7B = ({ a with
      toMcPos := ⟨1, false, false⟩, buf := [0x7B], overflow := false }, none) := by
  obtain ⟨⟨depth, inStr, esc⟩, buf, overflow, oversize⟩ := a
  cases h
  rfl

theorem mcTxasmFeed_begun {a : McTxasm} (h : a.Clean) {inner p : List UInt8} (hs : Nested inner)
    (hroom : inner.length ≤ mcTxbufMax) (hp : p <+: inner) :
    ∃ b : McTxasm, mcTxasmFeed a (0x7B :: p) = (b, []) ∧ 1 ≤ b.depth ∧
      b.toMcPos = (⟨1, false, false⟩ : McPos).run p := by
  obtain ⟨-, hlow⟩ := hs 1 (Int.le_refl 1) (by simp only [mcTxbufMax] at hroom; omega)
  have hpos : ∀ q, q <+: p → 0 < ((⟨1, false, false⟩ : McPos).run q).depth := fun q hq => by
    have := hlow q (hq.trans hp)
    omega
  have hopen : (0 : ℤ) < 1 := by decide
  obtain ⟨c, hc⟩ : ∃ c : McTxasm,
      c = { a with toMcPos := ⟨1, false, false⟩, buf := [0x7B], overflow := false } := ⟨_, rfl⟩
  have hcpos : c.toMcPos = ⟨1, false, false⟩ := by rw [hc]
  rw [← hcpos] at hpos
  have hinside := mcTxasmFeed_inside (by rw [hcpos]; exact hopen) hpos
  refine ⟨(p.foldl McTxasm.keep c).moved (c.toMcPos.run p), ?_, ?_, ?_⟩
  · rw [mcTxasmFeed, byte_opener h, ← hc, hinside]
    rfl
  · rw [hcpos]
    exact hlow p hp
  · show c.toMcPos.run p = _
    rw [hcpos]

/-- **A whole object** is delivered, and leaves nothing behind. -/
theorem mcTxasmFeed_object {a : McTxasm} (h : a.Clean) (hs : IsObject s)
    (hfits : s.length ≤ mcTxbufMax) : ∃ b : McTxasm, b.Clean ∧ mcTxasmFeed a s = (b, [s]) := by
  obtain ⟨inner, hnested, rfl⟩ := nested_of_isObject hs
  simp only [cons_append, length_cons, length_append, length_nil] at hfits
  obtain ⟨hrun, hlow⟩ := hnested 1 (Int.le_refl 1) (by simp only [mcTxbufMax] at hfits; omega)
  have hopen : (0 : ℤ) < 1 := by decide
  have hpos : ∀ q, q <+: inner → 0 < ((⟨1, false, false⟩ : McPos).run q).depth := fun q hq => by
    have := hlow q hq
    omega
  have hroom : ([0x7B] : List UInt8).length + inner.length ≤ mcTxbufMax := by
    rw [length_singleton]
    omega
  have hlast : (0x7B :: inner).length < mcTxbufMax := by rw [length_cons]; omega
  refine ⟨{ a with toMcPos := ⟨0, false, false⟩, buf := [], overflow := false }, rfl, ?_⟩
  have hinner : mcTxasmFeed { a with
        toMcPos := ⟨1, false, false⟩, buf := [0x7B], overflow := false } inner =
      ({ a with toMcPos := ⟨1, false, false⟩, buf := 0x7B :: inner, overflow := false }, []) := by
    rw [mcTxasmFeed_inside hopen hpos, foldl_keep hroom, hrun]
    rfl
  have hclose : McTxasm.byte { a with
        toMcPos := ⟨1, false, false⟩, buf := 0x7B :: inner, overflow := false } 0x7D =
      ({ a with toMcPos := ⟨0, false, false⟩, buf := [], overflow := false },
        some (0x7B :: inner ++ [0x7D])) := by
    have hkeep : McTxasm.keep { a with
          toMcPos := ⟨1, false, false⟩, buf := 0x7B :: inner, overflow := false } 0x7D =
        { a with toMcPos := ⟨1, false, false⟩, buf := 0x7B :: inner ++ [0x7D], overflow := false } :=
      if_pos hlast
    have hone : ¬ (1 : ℤ) = 0 := by decide
    rw [McTxasm.byte]
    simp only [hone, if_false, hkeep]
    rfl
  rw [cons_append, mcTxasmFeed, byte_opener h]
  rw [mcTxasmFeed_append, hinner]
  simp only [mcTxasmFeed, hclose]
  rfl

/-! ## Message by message -/

/-- Did all of the object get through? -/
def TxSend.objectPassed (p : TxSend) : Bool :=
  decide (p.message.lead.length + p.message.object.length ≤ p.passed.length)

theorem prefix_of_le {p q : List UInt8} (hp : p <+: s) (hq : q <+: s) (h : p.length ≤ q.length) :
    p <+: q := prefix_of_prefix_length_le hp hq h

/-- **A message whose cut is outside its object**: delivered or not, it leaves
nothing behind. -/
theorem mcFeedChunks_cutOutside {a : McTxasm} (h : a.Clean) {p : TxSend} (hcut : p.CutOutside) :
    ∃ b : McTxasm, b.Clean ∧ mcFeedChunks a (subHandler p.sent p.message.data) =
      (b, if p.objectPassed then [p.message.object] else []) := by
  have hpre := p.passed_prefix
  have hfits := p.message.fits
  rw [mcFeedChunks_eq, show (subHandler p.sent p.message.data).flatten = p.passed from rfl]
  simp only [length_append] at hfits
  by_cases hall : p.message.lead.length + p.message.object.length ≤ p.passed.length
  · obtain ⟨rest, hrest⟩ := prefix_of_le (p := p.message.lead ++ p.message.object)
      ⟨p.message.trail, rfl⟩ hpre (by rw [length_append]; exact hall)
    have htrail : IsWs rest := by
      obtain ⟨tail, htail⟩ := hpre
      rw [← hrest, TxMessage.data, append_assoc, append_cancel_left_eq] at htail
      intro b hb
      exact p.message.trail_ws b (by rw [← htail]; exact mem_append_left _ hb)
    obtain ⟨b, hb, hfeed⟩ := mcTxasmFeed_object h p.message.isObject (by omega)
    refine ⟨b, hb, ?_⟩
    rw [← hrest, mcTxasmFeed_append, mcTxasmFeed_append, mcTxasmFeed_ws h p.message.lead_ws]
    simp only [hfeed, mcTxasmFeed_ws hb htrail, nil_append, append_nil]
    rw [TxSend.objectPassed, if_pos (by simpa using hall)]
  · have hlead : p.passed <+: p.message.lead := prefix_of_le hpre
      ⟨p.message.object ++ p.message.trail, by rw [TxMessage.data, append_assoc]⟩
      (hcut.resolve_right hall)
    refine ⟨a, h, ?_⟩
    rw [mcTxasmFeed_ws h fun b hb => p.message.lead_ws b (hlead.subset hb), TxSend.objectPassed,
      if_neg (by simpa using hall)]

theorem TxSend.Whole.objectPassed {p : TxSend} (h : p.Whole) : p.objectPassed = true := by
  rw [TxSend.objectPassed, h, TxMessage.data]
  simp only [length_append, decide_eq_true_eq]
  omega

theorem TxSend.Whole.cutOutside {p : TxSend} (h : p.Whole) : p.CutOutside :=
  .inr (of_decide_eq_true h.objectPassed)

/-- **A run** with every cut outside an object. -/
theorem mcRun_cutOutside {sends : List TxSend} {a : McTxasm} (h : a.Clean)
    (hcut : (∀ p ∈ sends, p.CutOutside)) :
    ∃ b : McTxasm, b.Clean ∧
      mcRun a sends =
        (b, sends.map fun p => if p.objectPassed then [p.message.object] else []) := by
  induction sends generalizing a with
  | nil => exact ⟨a, h, rfl⟩
  | cons p sends ih =>
    obtain ⟨b, hb, hone⟩ := mcFeedChunks_cutOutside h (hcut p mem_cons_self)
    obtain ⟨c, hc, hrest⟩ := ih hb fun q hq => hcut q (mem_cons_of_mem _ hq)
    refine ⟨c, hc, ?_⟩
    rw [mcRun, hone]
    simp only [hrest, map_cons]

theorem clean_init : McTxasm.init.Clean := rfl

/-! ## After a cut inside an object -/

/-- An object is open, and the text is not near the end of an `int16_t`. -/
def McTxasm.Open (a : McTxasm) : Prop := 1 ≤ a.depth ∧ a.depth ≤ mcTxbufMax + 1

theorem depth_run_le (s : List UInt8) {p : McPos} (hpos : 0 ≤ p.depth)
    (hroom : p.depth + s.length ≤ 32767) (hlow : (∀ q, q <+: s → 0 ≤ (p.run q).depth)) :
    (p.run s).depth ≤ p.depth + s.length := by
  induction s generalizing p with
  | nil => simp [McPos.run]
  | cons ch s ih =>
    rw [length_cons] at hroom
    have hnext : (p.next ch).depth ≤ p.depth + 1 := by
      have hup : wrap16 (p.depth + 1) = p.depth + 1 := wrap16_of_small (by omega) (by omega)
      have hdown : wrap16 (p.depth - 1) = p.depth - 1 := wrap16_of_small (by omega) (by omega)
      simp only [McPos.next, hup, hdown]
      split_ifs <;> first | omega | (dsimp only; omega)
    have hnonneg : 0 ≤ (p.next ch).depth := hlow [ch] ⟨s, rfl⟩
    have hrest := ih hnonneg (by omega) fun q hq =>
      hlow (ch :: q) (cons_prefix_cons.mpr ⟨rfl, hq⟩)
    rw [length_cons]
    show ((p.next ch).run s).depth ≤ _
    omega

/-- **A cut inside an object** leaves it open. -/
theorem mcFeedChunks_cutInside {a : McTxasm} (h : a.Clean) {p : TxSend} (hcut : ¬ p.CutOutside) :
    (mcFeedChunks a (subHandler p.sent p.message.data)).1.Open := by
  have hfits := p.message.fits
  simp only [length_append] at hfits
  rw [TxSend.CutOutside, not_or, Nat.not_le] at hcut
  obtain ⟨hlead, hshort⟩ := hcut
  obtain ⟨inner, hnested, hobject⟩ := nested_of_isObject p.message.isObject
  have hlen : p.message.object.length = inner.length + 2 := by
    rw [hobject]
    simp
  -- what got through is the white space, the opener and a beginning of the rest
  obtain ⟨q, hq⟩ := prefix_of_le (p := p.message.lead)
    ⟨p.message.object ++ p.message.trail, by rw [TxMessage.data, append_assoc]⟩
    p.passed_prefix (Nat.le_of_lt hlead)
  have hqlen : q.length = p.passed.length - p.message.lead.length := by
    rw [← hq, length_append]
    omega
  have hqpre : q <+: p.message.object := by
    have hpre := p.passed_prefix
    rw [← hq, TxMessage.data, append_assoc, prefix_append_right_inj] at hpre
    exact prefix_of_le hpre ⟨p.message.trail, rfl⟩ (by omega)
  obtain ⟨r, hr, rfl⟩ : ∃ r, r <+: inner ∧ q = 0x7B :: r := by
    rw [hobject] at hqpre
    rcases prefix_cons_iff.mp hqpre with rfl | ⟨r, rfl, hr⟩
    · simp only [length_nil] at hqlen
      omega
    · rw [length_cons] at hqlen
      exact ⟨r, prefix_of_le hr ⟨[0x7D], rfl⟩ (by omega), rfl⟩
  obtain ⟨b, hfeed, hopen, hpos⟩ := mcTxasmFeed_begun h hnested (by omega) hr
  have hrlen := hr.length_le
  rw [mcFeedChunks_eq, show (subHandler p.sent p.message.data).flatten = p.passed from rfl, ← hq,
    mcTxasmFeed_append, mcTxasmFeed_ws h p.message.lead_ws]
  simp only [hfeed]
  refine ⟨hopen, ?_⟩
  obtain ⟨-, hlow⟩ := hnested 1 (Int.le_refl 1) (by simp only [mcTxbufMax] at hfits; omega)
  have hdepth := depth_run_le r (p := ⟨1, false, false⟩) (by decide)
    (by simp only [mcTxbufMax] at hfits; dsimp only; omega) fun q hq => by
      have := hlow q (hq.trans hr)
      omega
  rw [hpos]
  dsimp only at hdepth
  omega

/-- `\x7b\x7d` -/
def emptyObject : TxMessage where
  lead := []
  object := [0x7B, 0x7D]
  trail := []
  lead_ws := fun b hb => by cases hb
  isObject := ⟨[], .inl fun b hb => (by cases hb), rfl⟩
  trail_ws := fun b hb => by cases hb
  fits := by decide

/-- The empty object, whole. -/
def emptySend : TxSend := ⟨emptyObject, fun _ => true⟩

theorem emptySend_whole : emptySend.Whole := rfl

theorem mcFeedChunks_emptySend {a : McTxasm} (h : a.Open) :
    ∃ b : McTxasm, b.Open ∧
      mcFeedChunks a (subHandler emptySend.sent emptySend.message.data) = (b, []) := by
  obtain ⟨hlow, hhigh⟩ := h
  simp only [mcTxbufMax] at hhigh
  have hpos : 0 < a.depth := by omega
  have hup : wrap16 (a.depth + 1) = a.depth + 1 := wrap16_of_small (by omega) (by omega)
  have hdown : wrap16 a.depth = a.depth := wrap16_of_small (by omega) (by omega)
  have hstay : (a.toMcPos.run [0x7B, 0x7D]).depth = a.depth ∧ 0 < (a.toMcPos.run [0x7B]).depth := by
    obtain ⟨⟨depth, inStr, esc⟩, buf, overflow, oversize⟩ := a
    dsimp only at hup hdown hpos
    cases inStr <;> cases esc <;>
      simp [McPos.run, McPos.next, hup, hdown] <;> omega
  have hinside := mcTxasmFeed_inside (s := [0x7B, 0x7D]) hpos fun q hq => by
    rcases prefix_cons_iff.mp hq with rfl | ⟨q', rfl, hq'⟩
    · exact hpos
    · rcases prefix_cons_iff.mp hq' with rfl | ⟨q'', rfl, hq''⟩
      · exact hstay.2
      · rw [prefix_nil.mp hq'', hstay.1]
        exact hpos
  refine ⟨([0x7B, 0x7D].foldl McTxasm.keep a).moved (a.toMcPos.run [0x7B, 0x7D]), ?_, ?_⟩
  · show 1 ≤ (a.toMcPos.run [0x7B, 0x7D]).depth ∧ (a.toMcPos.run [0x7B, 0x7D]).depth ≤ mcTxbufMax + 1
    rw [hstay.1]
    exact ⟨hlow, by simp only [mcTxbufMax]; omega⟩
  · rw [mcFeedChunks_eq]
    exact hinside

theorem mcRun_append (s t : List TxSend) : ∀ a : McTxasm, mcRun a (s ++ t) =
      ((mcRun (mcRun a s).1 t).1, (mcRun a s).2 ++ (mcRun (mcRun a s).1 t).2) := by
  induction s with
  | nil => intro a; rfl
  | cons p s ih =>
    intro a
    rw [cons_append, mcRun, mcRun, ih, cons_append]

theorem length_mcRun (sends : List TxSend) : ∀ a : McTxasm,
    (mcRun a sends).2.length = sends.length := by
  induction sends with
  | nil => intro a; rfl
  | cons p sends ih =>
    intro a
    rw [mcRun, length_cons, length_cons, ih]

theorem not_delivers_of_cutInside {pre : List TxSend} {p : TxSend} (hpre : ∀ q ∈ pre, q.CutOutside)
    (hcut : ¬ p.CutOutside) : ¬ Delivers (pre ++ [p] ++ [emptySend, emptySend]) := by
  intro hdel
  obtain ⟨a, ha, hrun⟩ := mcRun_cutOutside clean_init hpre
  have hopen := mcFeedChunks_cutInside ha hcut
  obtain ⟨b, hb, hone⟩ := mcFeedChunks_emptySend hopen
  obtain ⟨c, -, htwo⟩ := mcFeedChunks_emptySend hb
  have hlen : (pre ++ [p]).length = pre.length + 1 := by simp
  have hlast : (pre ++ [p] ++ [emptySend, emptySend])[pre.length + 2]? = some emptySend := by
    simp
  have hprev : (pre ++ [p] ++ [emptySend, emptySend])[pre.length + 1]? = some emptySend := by
    simp
  have hout := hdel (pre.length + 2) emptySend hlast emptySend_whole fun q _ hq => by
    have hq' : some emptySend = some q := hprev.symm.trans hq
    cases hq'
    exact emptySend_whole
  have hstate : (mcRun .init (pre ++ [p])).1 =
      (mcFeedChunks a (subHandler p.sent p.message.data)).1 := by
    rw [mcRun_append, hrun]
    rfl
  have htail : (mcRun (mcRun .init (pre ++ [p])).1 [emptySend, emptySend]).2 = [[], []] := by
    rw [hstate, mcRun, hone]
    simp only [mcRun, htwo]
  rw [mcRun_append, htail, List.getElem?_append_right (by rw [length_mcRun]; omega),
    length_mcRun, hlen, show pre.length + 2 - (pre.length + 1) = 1 by omega] at hout
  cases hout

theorem delivers_of_cutOutside {sends : List TxSend} (h : ∀ p ∈ sends, p.CutOutside) :
    Delivers sends := by
  intro i p hp hwhole _
  obtain ⟨a, -, hrun⟩ := mcRun_cutOutside clean_init h
  rw [hrun]
  simp only [List.getElem?_map, hp, Option.map_some, hwhole.objectPassed, if_true]

/-- **When a lost chunk costs no more than the messages it touched**: at every point
of a run and with any messages that pass whole behind it, exactly when no cut so far
goes through an object. -/
theorem delivers_iff_cutOutside (sends : List TxSend) :
    (∀ pre later, pre <+: sends → (∀ p ∈ later, p.Whole) → Delivers (pre ++ later)) ↔
      ∀ p ∈ sends, p.CutOutside := by
  constructor
  · intro hdel
    by_contra hcut
    push Not at hcut
    obtain ⟨q, hq, hqcut⟩ := hcut
    -- the first cut that goes through an object
    obtain ⟨pre, p, post, hsplit, hpre, hp⟩ : ∃ pre p post, sends = pre ++ p :: post ∧
        (∀ q ∈ pre, q.CutOutside) ∧ ¬ p.CutOutside := by
      clear hdel
      induction sends with
      | nil => cases hq
      | cons r sends ih =>
        by_cases hr : r.CutOutside
        · rcases mem_cons.mp hq with rfl | hq
          · exact absurd hr hqcut
          · obtain ⟨pre, p, post, rfl, hpre, hp⟩ := ih hq
            refine ⟨r :: pre, p, post, rfl, fun t ht => ?_, hp⟩
            rcases mem_cons.mp ht with rfl | ht
            · exact hr
            · exact hpre t ht
        · exact ⟨[], r, sends, rfl, fun t ht => (by cases ht), hr⟩
    refine not_delivers_of_cutInside hpre hp (hdel (pre ++ [p]) [emptySend, emptySend] ?_ ?_)
    · exact ⟨post, by rw [hsplit, append_assoc]; rfl⟩
    · intro t ht
      simp only [mem_cons, not_mem_nil, or_false, or_self] at ht
      rw [ht]
      exact emptySend_whole
  · intro hcut pre later hpre hlater
    refine delivers_of_cutOutside fun p hp => ?_
    rcases mem_append.mp hp with hp | hp
    · exact hcut p (hpre.subset hp)
    · exact (hlater p hp).cutOutside

/-- An object of one member, a string of `n` characters. -/
def stringObject (n : ℕ) (h : n ≤ 1000) : TxMessage where
  lead := []
  object := 0x7B :: ([0x22, 0x61, 0x22, 0x3A] ++ (0x22 :: List.replicate n 0x78 ++ [0x22])) ++ [0x7D]
  trail := []
  lead_ws := fun b hb => by cases hb
  isObject := by
    have hchars : ∀ n, IsChars (List.replicate n 0x78) := by
      intro n
      induction n with
      | zero => exact .nil
      | succ n ih => exact .plain (by decide) (by decide) (by decide) ih
    have hws : IsWs [] := fun b hb => by cases hb
    have hkey : IsString [0x22, 0x61, 0x22] :=
      ⟨[0x61], .plain (by decide) (by decide) (by decide) .nil, rfl⟩
    have hvalue : Derives .value (0x22 :: List.replicate n 0x78 ++ [0x22]) :=
      .string ⟨_, hchars n, rfl⟩
    have hmember := Derives.member hws hkey hws hws hvalue hws
    exact ⟨_, .inr hmember, by simp⟩
  trail_ws := fun b hb => by cases hb
  fits := by
    simp [mcTxbufMax]
    omega

theorem subHandler_first {data : List UInt8} (h : 2 ≤ data.length) :
    subHandler (fun i => i == 0) data = [data.take bridgeChunkSize] := by
  obtain ⟨n, hn⟩ := Nat.exists_eq_add_of_le h
  have hne : data ≠ [] := by
    rintro rfl
    simp at h
  rw [subHandler, hn, Nat.add_comm, subHandlerFrom, if_neg hne, if_pos (by rfl), subHandlerFrom]
  split_ifs <;> first | rfl | contradiction

theorem stringObject_cutInside {n : ℕ} (h : n ≤ 1000) (hlong : 120 < n) :
    ¬ (⟨stringObject n h, fun i => i == 0⟩ : TxSend).CutOutside := by
  have hobject : (stringObject n h).object.length = n + 8 := by simp [stringObject]
  have hdata : (stringObject n h).data.length = n + 8 := by simp [TxMessage.data, stringObject]
  have hlead : (stringObject n h).lead.length = 0 := rfl
  have hpassed : (⟨stringObject n h, fun i => i == 0⟩ : TxSend).passed.length = 128 := by
    rw [TxSend.passed, subHandler_first (by rw [hdata]; omega), flatten_cons,
      flatten_nil, append_nil, length_take, hdata, bridgeChunkSize]
    omega
  rw [TxSend.CutOutside, hobject, hlead]
  omega

/-- A string of 200 characters, cut behind its first chunk: nothing is delivered
from then on. -/
theorem not_delivers_stringObject :
    ¬ Delivers [⟨stringObject 200 (by decide), fun i => i == 0⟩, emptySend, emptySend] := by
  have hpre : ∀ q ∈ ([] : List TxSend), q.CutOutside := fun q hq => by cases hq
  exact not_delivers_of_cutInside hpre (stringObject_cutInside _ (by decide))

end Meatpi
