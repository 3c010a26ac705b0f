import Mathlib.Data.List.Infix
import Mathlib.Data.List.TakeWhile

/-!
# Chains of chip commands (`autopid_chain.c`)

A chain is a text of commands with ';' between them. `ap_chain_sets` reads off
what a chain changes on the chip, and `ap_chain_strip_print` drops the commands
that change how answers are printed, in place, behind a write position that
never passes the read position. What it leaves is the chain of the other
commands, in order (`chainStripPrint_elements`).
-/

namespace Meatpi

open List

variable {es : List (List Char)} {buf : List Char} {p : ℕ} {c s : Char} {chain more : List Char}

/-- What both readers of a command skip. -/
def isChainSpace (c : Char) : Bool := c = ' ' || c = '\t' || c = '\r' || c = '\n'

/-! ## What a chain sets -/

def setsHeader : UInt32 := (1 : UInt32) <<< 0
def setsFilter : UInt32 := (1 : UInt32) <<< 1
def setsProtocol : UInt32 := (1 : UInt32) <<< 2
def setsPrint : UInt32 := (1 : UInt32) <<< 3
def setsExtAddr : UInt32 := (1 : UInt32) <<< 4
def setsFlowCtl : UInt32 := (1 : UInt32) <<< 5
def setsFcOff : UInt32 := (1 : UInt32) <<< 6
def setsTiming : UInt32 := (1 : UInt32) <<< 7
def setsRaw : UInt32 := (1 : UInt32) <<< 8
def setsPriority : UInt32 := (1 : UInt32) <<< 9
def setsEcho : UInt32 := (1 : UInt32) <<< 10
def setsLinefeed : UInt32 := (1 : UInt32) <<< 11
def setsQuiet : UInt32 := (1 : UInt32) <<< 12
def setsDlc : UInt32 := (1 : UInt32) <<< 13

/-- How a rule matches the text after "AT": the whole of it, or the start of a
longer one. -/
inductive ChainMatch where
  | exact
  | arg

/-- `rule_t` -/
structure ChainRule where
  name : String
  how : ChainMatch
  sets : UInt32

/-- `RULES` -/
def chainRules : List ChainRule :=
  [⟨"FCSM0", .exact, 0⟩, ⟨"FCSH", .arg, setsFlowCtl⟩, ⟨"FCSD", .arg, setsFlowCtl⟩,
    ⟨"FCSM", .arg, setsFlowCtl⟩, ⟨"CFC0", .exact, setsFcOff⟩, ⟨"CFC1", .exact, 0⟩,
    ⟨"CAF0", .exact, setsRaw⟩, ⟨"CAF1", .exact, 0⟩, ⟨"CEA", .arg, setsExtAddr⟩,
    ⟨"CER", .arg, setsExtAddr⟩, ⟨"CRA", .arg, setsFilter⟩, ⟨"CM", .arg, setsFilter⟩,
    ⟨"CF", .arg, setsFilter⟩, ⟨"CP", .arg, setsPriority⟩, ⟨"SH", .arg, setsHeader⟩,
    ⟨"SP", .arg, setsProtocol⟩, ⟨"TP", .arg, setsProtocol⟩, ⟨"ST", .arg, setsPrint⟩,
    ⟨"H0", .exact, setsPrint⟩, ⟨"H1", .exact, 0⟩, ⟨"S0", .exact, setsPrint⟩,
    ⟨"AT0", .exact, setsTiming⟩, ⟨"AT2", .exact, setsTiming⟩, ⟨"E1", .exact, setsEcho⟩,
    ⟨"L1", .exact, setsLinefeed⟩, ⟨"R0", .exact, setsQuiet⟩, ⟨"V1", .exact, setsDlc⟩,
    ⟨"D1", .exact, setsDlc⟩]

def ChainRule.hits (r : ChainRule) (body : List Char) : Bool :=
  r.name.toList.isPrefixOf body &&
    match r.how with
    | .exact => body.length = r.name.toList.length
    | .arg => body.length ≠ r.name.toList.length

/-- `command_sets`: the first rule that hits. -/
def commandSets (body : List Char) : UInt32 :=
  ((chainRules.find? (·.hits body)).map ChainRule.sets).getD 0

/-- What one command adds. One that overflowed the buffer is none of the table's. -/
def cmdSets (cmd : List Char) (overflow : Bool) : UInt32 :=
  if overflow = false ∧ 2 < cmd.length ∧ cmd.take 2 = ['A', 'T'] then commandSets (cmd.drop 2)
  else 0

/-- The loop of `ap_chain_sets`; `char cmd[CMD_MAX]` holds 31 characters. -/
def chainSetsLoop (sets : UInt32) (cmd : List Char) (overflow : Bool) : List Char → UInt32
  | [] => sets ||| cmdSets cmd overflow
  | c :: rest =>
    if c = ';' then chainSetsLoop (sets ||| cmdSets cmd overflow) [] false rest
    else if isChainSpace c then chainSetsLoop sets cmd overflow rest
    else if cmd.length < 31 then chainSetsLoop sets (cmd ++ [c.toUpper]) overflow rest
    else chainSetsLoop sets cmd true rest

/-- `ap_chain_sets` -/
def chainSets (chain : List Char) : UInt32 := chainSetsLoop 0 [] false chain

/-! ## Dropping the print commands -/

/-- `element_body`: spaces dropped, upper case, `none` when it does not fit. -/
def elementBody (cap : ℕ) (out : List Char) : List Char → Option (List Char)
  | [] => some out
  | c :: rest =>
    if isChainSpace c then elementBody cap out rest
    else if cap ≤ out.length + 1 then none
    else elementBody cap (out ++ [c.toUpper]) rest

/-- `DROP` -/
def chainDrop : List (List Char) := ["ATH0".toList, "ATS0".toList, "ATE1".toList]

/-- An element that goes: its body fits `char body[8]` and is one of `DROP`. -/
def dropsElement (elem : List Char) : Bool :=
  (elementBody 8 [] elem).any (· ∈ chainDrop)

/-- `memmove` inside one buffer, by offsets. -/
def memmove (buf : List Char) (dst src len : ℕ) : List Char :=
  buf.take dst ++ (buf.drop src).take len ++ buf.drop (dst + len)

/-- The buffer, the write and the read position, and the elements dropped. -/
structure StripState where
  buf : List Char
  w : ℕ
  p : ℕ
  dropped : ℕ

/-- Where the element at `p` ends: at a ';' or at the terminator. -/
def elementEnd (buf : List Char) (p : ℕ) : ℕ :=
  p + ((buf.drop p).takeWhile fun c => c ≠ '\x00' && c ≠ ';').length

/-- One turn of the loop. -/
def stripStep (st : StripState) : StripState :=
  let e := elementEnd st.buf st.p
  let len := e - st.p
  let hadSep := st.buf[e]? = some ';'
  let next := if hadSep then e + 1 else e
  if dropsElement ((st.buf.drop st.p).take len) then
    -- the element goes with the separator after it, the last one with the one before it
    let back := ¬ hadSep ∧ 0 < st.w ∧ st.buf[st.w - 1]? = some ';'
    { st with
      w := if back then st.w - 1 else st.w
      p := next
      dropped := st.dropped + 1 }
  else
    let moved := memmove st.buf st.w st.p len
    { st with
      buf := if hadSep then moved.set (st.w + len) ';' else moved
      w := if hadSep then st.w + len + 1 else st.w + len
      p := next }

/-- `while (*p != '\0')` -/
def stripLoop : ℕ → StripState → StripState
  | 0, st => st
  | fuel + 1, st => if st.buf.getD st.p '\x00' = '\x00' then st else stripLoop fuel (stripStep st)

/-- `ap_chain_strip_print`: the buffer afterwards, and how many elements went.
Every turn moves `p` on, so the buffer's length is fuel enough. -/
def chainStripPrint (buf : List Char) : List Char × ℕ :=
  let st := stripLoop buf.length ⟨buf, 0, 0, 0⟩
  (st.buf.set st.w '\x00', st.dropped)

/-- The text in a buffer, up to its terminator. -/
def bufText (buf : List Char) : List Char := buf.takeWhile (· ≠ '\x00')

/-- The elements of a chain. -/
def chainElements (chain : List Char) : List (List Char) := chain.splitOn ';'

/-- A command as the chip reads it. -/
def commandBody (elem : List Char) : List Char :=
  (elem.filter fun c => !isChainSpace c).map Char.toUpper

/-- The elements that are not among the print commands. -/
def keptElements (chain : List Char) : List (List Char) :=
  (chainElements chain).filter fun e => commandBody e ∉ chainDrop

/-! ## Elements -/

@[elab_as_elim]
theorem chain_induction {motive : List Char → Prop} (last : ∀ e, ';' ∉ e → motive e)
    (sep : ∀ e tail, ';' ∉ e → motive tail → motive (e ++ ';' :: tail)) (chain : List Char) :
    motive chain := by
  induction hn : chain.length using Nat.strong_induction_on generalizing chain with
  | _ n ih =>
    by_cases hmem : ';' ∈ chain
    · obtain ⟨e, tail, rfl, he⟩ := eq_append_cons_of_mem hmem
      rw [length_append, length_cons] at hn
      exact sep e tail he (ih tail.length (by omega) tail rfl)
    · exact last chain hmem

theorem chainElements_last {e : List Char} (he : ';' ∉ e) : chainElements e = [e] :=
  splitOn_eq_singleton he

theorem chainElements_sep {e : List Char} (he : ';' ∉ e) (tail : List Char) :
    chainElements (e ++ ';' :: tail) = e :: chainElements tail :=
  splitOn_append_cons_self_of_not_mem he tail

theorem not_mem_of_mem_elements {e : List Char} (he : e ∈ chainElements chain) : ';' ∉ e := by
  induction chain using chain_induction with
  | last x hx =>
    rw [chainElements_last hx, mem_singleton] at he
    rwa [he]
  | sep x tail hx ih =>
    rw [chainElements_sep hx, mem_cons] at he
    rcases he with rfl | he
    · exact hx
    · exact ih he

theorem mem_of_mem_element {e : List Char} (he : e ∈ chainElements chain) (hc : c ∈ e) :
    c ∈ chain := by
  induction chain using chain_induction with
  | last x hx =>
    rw [chainElements_last hx, mem_singleton] at he
    rwa [← he]
  | sep x tail hx ih =>
    rw [chainElements_sep hx, mem_cons] at he
    rw [mem_append, mem_cons]
    rcases he with rfl | he
    · exact Or.inl hc
    · exact Or.inr (Or.inr (ih he))

theorem keptElements_last {e : List Char} (he : ';' ∉ e) :
    keptElements e = if commandBody e ∈ chainDrop then [] else [e] := by
  rw [keptElements, chainElements_last he]
  split_ifs with h <;> simp [h]

theorem keptElements_sep {e : List Char} (he : ';' ∉ e) (tail : List Char) :
    keptElements (e ++ ';' :: tail) =
      if commandBody e ∈ chainDrop then keptElements tail else e :: keptElements tail := by
  rw [keptElements, chainElements_sep he, filter_cons]
  split_ifs with h₁ h₂ h₂
  · exact absurd h₂ (of_decide_eq_true h₁)
  · rfl
  · rfl
  · exact absurd (decide_eq_true h₂) h₁

/-! ## What a joined chain sets -/

theorem chainSetsLoop_eq_or (sets : UInt32) (cmd : List Char) (overflow : Bool)
    (chain : List Char) :
    chainSetsLoop sets cmd overflow chain = sets ||| chainSetsLoop 0 cmd overflow chain := by
  induction chain generalizing sets cmd overflow with
  | nil => rw [chainSetsLoop, chainSetsLoop, UInt32.zero_or]
  | cons c rest ih =>
    rw [chainSetsLoop, chainSetsLoop]
    split_ifs
    · rw [ih, ih (0 ||| _), UInt32.zero_or, UInt32.or_assoc]
    · exact ih ..
    · exact ih ..
    · exact ih ..

theorem chainSetsLoop_sep {e : List Char} (he : ';' ∉ e) (tail : List Char) (sets : UInt32)
    (cmd : List Char) (overflow : Bool) :
    chainSetsLoop sets cmd overflow (e ++ ';' :: tail) =
      chainSetsLoop (chainSetsLoop sets cmd overflow e) [] false tail := by
  induction e generalizing sets cmd overflow with
  | nil => rfl
  | cons c e ih =>
    rw [mem_cons, not_or] at he
    have hc : ¬ c = ';' := fun h => he.1 h.symm
    rw [cons_append, chainSetsLoop, chainSetsLoop, if_neg hc]
    split_ifs
    · exact ih he.2 ..
    · exact ih he.2 ..
    · exact ih he.2 ..

theorem chainSets_sep {e : List Char} (he : ';' ∉ e) (tail : List Char) :
    chainSets (e ++ ';' :: tail) = chainSets e ||| chainSets tail := by
  rw [chainSets, chainSetsLoop_sep he, chainSetsLoop_eq_or]
  rfl

theorem chainSets_intercalate (hes : ∀ e ∈ es, ';' ∉ e) :
    chainSets ([';'].intercalate es) = (es.map chainSets).foldr (· ||| ·) 0 := by
  induction es with
  | nil => rfl
  | cons e es ih =>
    have he := hes e (mem_cons_self ..)
    specialize ih fun x hx => hes x (mem_cons_of_mem _ hx)
    cases es with
    | nil => simp
    | cons e' es' =>
      rw [map_cons, foldr_cons, ← ih, ← chainSets_sep he]
      simp

/-! ## One element -/

theorem commandBody_space (hc : isChainSpace c = true) (rest : List Char) :
    commandBody (c :: rest) = commandBody rest := by
  simp [commandBody, hc]

theorem commandBody_cons (hc : ¬ isChainSpace c = true) (rest : List Char) :
    commandBody (c :: rest) = c.toUpper :: commandBody rest := by
  simp [commandBody, hc]

theorem elementBody_eq {cap : ℕ} {out : List Char} (hout : out.length < cap) (elem : List Char) :
    elementBody cap out elem =
      if (out ++ commandBody elem).length < cap then some (out ++ commandBody elem) else none := by
  induction elem generalizing out with
  | nil => simp [elementBody, commandBody, hout]
  | cons c rest ih =>
    rw [elementBody]
    by_cases hspace : isChainSpace c = true
    · rw [if_pos hspace, ih hout, commandBody_space hspace]
    · rw [if_neg hspace, commandBody_cons hspace]
      by_cases hcap : cap ≤ out.length + 1
      · have hlong : ¬ (out ++ c.toUpper :: commandBody rest).length < cap := by
          rw [length_append, length_cons]
          omega
        rw [if_pos hcap, if_neg hlong]
      · have hfits : (out ++ [c.toUpper]).length < cap := by
          rw [length_append, length_singleton]
          omega
        rw [if_neg hcap, ih hfits, append_assoc, singleton_append]

theorem dropsElement_iff (elem : List Char) :
    dropsElement elem = true ↔ commandBody elem ∈ chainDrop := by
  rw [dropsElement, elementBody_eq (by decide)]
  split_ifs with hfits
  · simp
  · -- what overflows `char body[8]` is longer than every command of `DROP`
    constructor
    · intro h
      cases h
    · intro h
      exfalso
      have hlen : ∀ d ∈ chainDrop, d.length < 8 := by decide
      exact hfits (hlen _ h)

/-! ## One turn in place -/

/-- The buffer in the middle of the rewrite: what was written, what it left
behind up to the read position, and what is still to be read. -/
structure StripAt (out gap tail rest : List Char) (st : StripState) : Prop where
  buf : st.buf = out ++ (gap ++ (tail ++ '\x00' :: rest))
  w : st.w = out.length
  p : st.p = out.length + gap.length

section

variable {out gap tail rest e : List Char} {st : StripState}

theorem StripAt.drop_p (h : StripAt out gap tail rest st) :
    st.buf.drop st.p = tail ++ '\x00' :: rest := by
  rw [h.buf, h.p, ← append_assoc, ← length_append, drop_left]

theorem memmove_gap (out gap e more : List Char) :
    memmove (out ++ (gap ++ (e ++ more))) out.length (out.length + gap.length) e.length =
      out ++ (e ++ ((gap ++ e).drop e.length ++ more)) := by
  have hread : (out ++ (gap ++ (e ++ more))).drop (out.length + gap.length) = e ++ more := by
    rw [← append_assoc, ← length_append, drop_left]
  have hleft : (out ++ (gap ++ (e ++ more))).drop (out.length + e.length) =
      (gap ++ e).drop e.length ++ more := by
    rw [drop_length_add_append, ← append_assoc gap,
      drop_append_of_le_length (by rw [length_append]; omega)]
  rw [memmove, hread, hleft, take_left, take_left, append_assoc]

theorem elementEnd_eq (h : buf.drop p = e ++ s :: more) (hsep : ';' ∉ e) (hnul : '\x00' ∉ e)
    (hs : s = ';' ∨ s = '\x00') : elementEnd buf p = p + e.length := by
  have hall : ∀ c ∈ e, (c ≠ '\x00' && c ≠ ';') = true := by
    intro c hc
    have h₁ : c ≠ ';' := fun h => hsep (h ▸ hc)
    have h₂ : c ≠ '\x00' := fun h => hnul (h ▸ hc)
    simp [h₁, h₂]
  have hstop : ((s :: more).takeWhile fun c => c ≠ '\x00' && c ≠ ';') = [] := by
    rcases hs with rfl | rfl <;> simp
  rw [elementEnd, h, takeWhile_append_of_pos hall, hstop, append_nil]

theorem getElem?_elementEnd (h : buf.drop p = e ++ s :: more) : buf[p + e.length]? = some s := by
  rw [← List.getElem?_drop, h, List.getElem?_append_right (le_refl _), Nat.sub_self]
  rfl

theorem stripStep_drop (h : st.buf.drop st.p = e ++ s :: more) (hsep : ';' ∉ e) (hnul : '\x00' ∉ e)
    (hs : s = ';' ∨ s = '\x00') (hdrop : commandBody e ∈ chainDrop) :
    stripStep st = { st with
        w := if ¬ s = ';' ∧ 0 < st.w ∧ st.buf[st.w - 1]? = some ';' then st.w - 1 else st.w
        p := if s = ';' then st.p + e.length + 1 else st.p + e.length
        dropped := st.dropped + 1 } := by
  simp only [stripStep, elementEnd_eq h hsep hnul hs, Nat.add_sub_cancel_left, h, take_left,
    (dropsElement_iff e).mpr hdrop, if_true, getElem?_elementEnd h, Option.some.injEq]

theorem stripStep_keep (h : st.buf.drop st.p = e ++ s :: more) (hsep : ';' ∉ e) (hnul : '\x00' ∉ e)
    (hs : s = ';' ∨ s = '\x00') (hkeep : commandBody e ∉ chainDrop) :
    stripStep st = { st with
        buf := if s = ';' then (memmove st.buf st.w st.p e.length).set (st.w + e.length) ';'
          else memmove st.buf st.w st.p e.length
        w := if s = ';' then st.w + e.length + 1 else st.w + e.length
        p := if s = ';' then st.p + e.length + 1 else st.p + e.length } := by
  have hnot : ¬ dropsElement e = true := fun hd => hkeep ((dropsElement_iff e).mp hd)
  simp only [stripStep, elementEnd_eq h hsep hnul hs, Nat.add_sub_cancel_left, h, take_left,
    hnot, Bool.false_eq_true, if_false, getElem?_elementEnd h, Option.some.injEq]

theorem StripAt.drop_sep (h : StripAt out gap (e ++ ';' :: tail) rest st) (hsep : ';' ∉ e)
    (hnul : '\x00' ∉ e) (hdrop : commandBody e ∈ chainDrop) :
    StripAt out (gap ++ (e ++ [';'])) tail rest (stripStep st) ∧
      (stripStep st).p = st.p + e.length + 1 ∧ (stripStep st).dropped = st.dropped + 1 := by
  have hread : st.buf.drop st.p = e ++ ';' :: (tail ++ '\x00' :: rest) := by
    rw [h.drop_p, append_assoc, cons_append]
  rw [stripStep_drop hread hsep hnul (Or.inl rfl) hdrop]
  refine ⟨⟨?_, ?_, ?_⟩, rfl, rfl⟩
  · rw [h.buf]
    simp
  · exact h.w
  · simp only [if_true, h.p, length_append, length_singleton]
    omega

theorem StripAt.keep_sep (h : StripAt out gap (e ++ ';' :: tail) rest st) (hsep : ';' ∉ e)
    (hnul : '\x00' ∉ e) (hkeep : commandBody e ∉ chainDrop) :
    (∃ gap', StripAt (out ++ (e ++ [';'])) gap' tail rest (stripStep st)) ∧
      (stripStep st).p = st.p + e.length + 1 ∧ (stripStep st).dropped = st.dropped := by
  have hread : st.buf.drop st.p = e ++ ';' :: (tail ++ '\x00' :: rest) := by
    rw [h.drop_p, append_assoc, cons_append]
  have hmoved : memmove st.buf st.w st.p e.length =
      (out ++ e) ++ ((gap ++ e).drop e.length ++ ';' :: (tail ++ '\x00' :: rest)) := by
    rw [h.buf, h.w, h.p, append_assoc e, memmove_gap, append_assoc, cons_append]
  have hgap : ((gap ++ e).drop e.length).length = gap.length := by
    rw [length_drop, length_append, Nat.add_sub_cancel]
  have hw : st.w + e.length = (out ++ e).length := by
    rw [h.w, length_append]
  rw [stripStep_keep hread hsep hnul (Or.inl rfl) hkeep]
  refine ⟨?_, rfl, rfl⟩
  simp only [if_true, hmoved, hw]
  generalize (gap ++ e).drop e.length = left at hgap
  -- the separator overwrites the first byte left behind, if there is one
  cases left with
  | nil =>
    refine ⟨[], ?_, ?_, ?_⟩
    · simp
    · simp [Nat.add_assoc]
    · simp [h.p, ← hgap, Nat.add_assoc]
  | cons g left =>
    refine ⟨left ++ [';'], ?_, ?_, ?_⟩
    · simp
    · simp [Nat.add_assoc]
    · simp only [length_cons] at hgap
      simp only [h.p, ← hgap, length_append, length_singleton]
      omega

theorem StripAt.drop_last (h : StripAt out gap e rest st) (hsep : ';' ∉ e) (hnul : '\x00' ∉ e)
    (hdrop : commandBody e ∈ chainDrop) :
    (∃ gap', StripAt (if out.getLast? = some ';' then out.dropLast else out) gap' [] rest
      (stripStep st)) ∧
      (stripStep st).p = st.p + e.length ∧ (stripStep st).dropped = st.dropped + 1 := by
  have hread := h.drop_p
  rw [stripStep_drop hread hsep hnul (Or.inr rfl) hdrop]
  refine ⟨?_, rfl, rfl⟩
  have hne : ¬ '\x00' = ';' := by decide
  simp only [hne, if_false, not_false_eq_true, true_and]
  rcases eq_nil_or_concat out with rfl | ⟨ys, y, rfl⟩
  · refine ⟨gap ++ e, ?_, ?_, ?_⟩
    · simp [h.buf]
    · simp [h.w]
    · simp [h.p, length_append]
  · have hlast : st.buf[st.w - 1]? = some y := by
      rw [h.buf, h.w]
      simp
    have hpos : 0 < st.w := by
      rw [h.w]
      simp
    simp only [hlast, hpos, true_and, concat_eq_append, List.getLast?_concat, dropLast_concat]
    split_ifs with hy
    · refine ⟨y :: (gap ++ e), ?_, ?_, ?_⟩
      · simp [h.buf]
      · simp [h.w]
      · simp only [h.p, concat_eq_append, length_append, length_cons, length_nil]
        omega
    · refine ⟨gap ++ e, ?_, ?_, ?_⟩
      · simp [h.buf]
      · simp [h.w]
      · simp only [h.p, concat_eq_append, length_append, length_cons, length_nil]
        omega

theorem StripAt.keep_last (h : StripAt out gap e rest st) (hsep : ';' ∉ e) (hnul : '\x00' ∉ e)
    (hkeep : commandBody e ∉ chainDrop) :
    (∃ gap', StripAt (out ++ e) gap' [] rest (stripStep st)) ∧
      (stripStep st).p = st.p + e.length ∧ (stripStep st).dropped = st.dropped := by
  have hread := h.drop_p
  have hmoved : memmove st.buf st.w st.p e.length =
      (out ++ e) ++ ((gap ++ e).drop e.length ++ '\x00' :: rest) := by
    rw [h.buf, h.w, h.p, memmove_gap, append_assoc]
  rw [stripStep_keep hread hsep hnul (Or.inr rfl) hkeep]
  refine ⟨⟨(gap ++ e).drop e.length, ?_, ?_, ?_⟩, rfl, rfl⟩
  · simp [hmoved]
  · simp [h.w]
  · simp only [h.p, length_append, length_drop, Nat.add_sub_cancel]
    rw [if_neg (by decide)]
    omega

end

/-! ## The whole rewrite -/

/-- Elements, each with the separator after it. -/
def separated (es : List (List Char)) : List Char := es.flatMap (· ++ [';'])

theorem intercalate_concat (es : List (List Char)) (e : List Char) :
    [';'].intercalate (es ++ [e]) = separated es ++ e := by
  induction es with
  | nil => simp [separated]
  | cons x es ih =>
    rw [cons_append, intercalate_cons_of_ne_nil (by simp), ih]
    simp [separated]

theorem mem_intercalate (hc : c ∈ [';'].intercalate es) : c = ';' ∨ ∃ e ∈ es, c ∈ e := by
  rcases eq_nil_or_concat es with rfl | ⟨xs, x, rfl⟩
  · cases hc
  · rw [concat_eq_append, intercalate_concat, mem_append, separated, mem_flatMap] at hc
    rw [concat_eq_append]
    rcases hc with ⟨e, he, hc⟩ | hc
    · rw [mem_append, mem_singleton] at hc
      rcases hc with hc | hc
      · exact Or.inr ⟨e, mem_append_left _ he, hc⟩
      · exact Or.inl hc
    · exact Or.inr ⟨x, mem_append_right _ (mem_singleton_self x), hc⟩

theorem separated_concat (es : List (List Char)) (e : List Char) :
    separated (es ++ [e]) = [';'].intercalate (es ++ [e]) ++ [';'] := by
  rw [intercalate_concat]
  simp [separated]

theorem dropLast_separated (es : List (List Char)) :
    (if (separated es).getLast? = some ';' then (separated es).dropLast else separated es) =
      [';'].intercalate es := by
  rcases eq_nil_or_concat es with rfl | ⟨xs, x, rfl⟩
  · rfl
  · rw [concat_eq_append, separated_concat, List.getLast?_concat, if_pos rfl, dropLast_concat]

theorem stripLoop_nil {out gap rest : List Char} {st : StripState} (h : StripAt out gap [] rest st)
    (fuel : ℕ) : stripLoop fuel st = st := by
  cases fuel with
  | zero => rfl
  | succ fuel =>
    have hread : st.buf.getD st.p '\x00' = '\x00' := by
      rw [getD_eq_getElem?_getD, ← Nat.add_zero st.p, ← List.getElem?_drop, h.drop_p]
      rfl
    rw [stripLoop, if_pos hread]

theorem stripLoop_cons {out gap tail rest : List Char} {st : StripState}
    (h : StripAt out gap (c :: tail) rest st) (hc : '\x00' ≠ c) (fuel : ℕ) :
    stripLoop (fuel + 1) st = stripLoop fuel (stripStep st) := by
  have hread : st.buf.getD st.p '\x00' = c := by
    rw [getD_eq_getElem?_getD, ← Nat.add_zero st.p, ← List.getElem?_drop, h.drop_p]
    rfl
  rw [stripLoop, if_neg (by rw [hread]; exact hc.symm)]

/-- How many elements go. -/
def droppedCount (chain : List Char) : ℕ :=
  (chainElements chain).countP fun e => commandBody e ∈ chainDrop

theorem droppedCount_last {e : List Char} (he : ';' ∉ e) :
    droppedCount e = if commandBody e ∈ chainDrop then 1 else 0 := by
  rw [droppedCount, chainElements_last he]
  simp

theorem droppedCount_sep {e : List Char} (he : ';' ∉ e) (tail : List Char) :
    droppedCount (e ++ ';' :: tail) =
      droppedCount tail + if commandBody e ∈ chainDrop then 1 else 0 := by
  rw [droppedCount, chainElements_sep he, countP_cons, droppedCount]
  simp

/-- **The loop**: behind elements that were kept with their separators, it
leaves them joined with those kept of the rest, and stops at the terminator. -/
theorem stripLoop_run {rest : List Char} (tail : List Char) (hnul : '\x00' ∉ tail)
    (kept : List (List Char)) {gap : List Char} {st : StripState}
    (h : StripAt (separated kept) gap tail rest st) {fuel : ℕ} (hfuel : tail.length < fuel) :
    (∃ gap', StripAt ([';'].intercalate (kept ++ keptElements tail)) gap' [] rest
      (stripLoop fuel st)) ∧
      (stripLoop fuel st).p = st.p + tail.length ∧
      (stripLoop fuel st).dropped = st.dropped + droppedCount tail := by
  obtain ⟨fuel, rfl⟩ : ∃ f, fuel = f + 1 := ⟨fuel - 1, by omega⟩
  induction tail using chain_induction generalizing kept gap st fuel with
  | last e hsep =>
    rw [keptElements_last hsep, droppedCount_last hsep]
    cases e with
    | nil =>
      -- nothing after a separator, or in the whole chain: an empty element that stays
      have hbody : commandBody [] ∉ chainDrop := by decide
      rw [stripLoop_nil h, if_neg hbody, intercalate_concat, append_nil]
      exact ⟨⟨gap, h⟩, rfl, rfl⟩
    | cons c t =>
      rw [stripLoop_cons h fun hc => hnul (hc ▸ mem_cons_self ..)]
      by_cases hdrop : commandBody (c :: t) ∈ chainDrop
      · obtain ⟨⟨gap', hat⟩, hp, hcount⟩ := h.drop_last hsep hnul hdrop
        rw [stripLoop_nil hat, if_pos hdrop, if_pos hdrop, append_nil, ← dropLast_separated]
        exact ⟨⟨gap', hat⟩, hp, hcount⟩
      · obtain ⟨⟨gap', hat⟩, hp, hcount⟩ := h.keep_last hsep hnul hdrop
        rw [stripLoop_nil hat, if_neg hdrop, if_neg hdrop, intercalate_concat]
        exact ⟨⟨gap', hat⟩, hp, hcount⟩
  | sep e tail hsep ih =>
    rw [mem_append, mem_cons, not_or, not_or] at hnul
    rw [length_append, length_cons] at hfuel
    obtain ⟨fuel, rfl⟩ : ∃ f, fuel = f + 1 := ⟨fuel - 1, by omega⟩
    have hstep : stripLoop (fuel + 1 + 1) st = stripLoop (fuel + 1) (stripStep st) := by
      cases e with
      | nil => exact stripLoop_cons h (by decide) _
      | cons c t => exact stripLoop_cons h (fun hc => hnul.1 (hc ▸ mem_cons_self ..)) _
    rw [hstep, keptElements_sep hsep, droppedCount_sep hsep, length_append, length_cons]
    by_cases hdrop : commandBody e ∈ chainDrop
    · obtain ⟨hat, hp, hcount⟩ := h.drop_sep hsep hnul.1 hdrop
      obtain ⟨hrun, hps, hruns⟩ := ih hnul.2.2 kept hat fuel (by omega)
      rw [if_pos hdrop, if_pos hdrop]
      exact ⟨hrun, by omega, by omega⟩
    · obtain ⟨⟨gap', hat⟩, hp, hcount⟩ := h.keep_sep hsep hnul.1 hdrop
      have hsepd : separated kept ++ (e ++ [';']) = separated (kept ++ [e]) := by
        simp [separated]
      rw [hsepd] at hat
      obtain ⟨hrun, hps, hruns⟩ := ih hnul.2.2 (kept ++ [e]) hat fuel (by omega)
      rw [append_assoc] at hrun
      rw [if_neg hdrop, if_neg hdrop]
      exact ⟨hrun, by omega, by omega⟩

theorem chainStripPrint_buf (hnul : '\x00' ∉ chain) (rest : List Char) :
    (∃ left, (chainStripPrint (chain ++ '\x00' :: rest)).1 =
        [';'].intercalate (keptElements chain) ++ '\x00' :: (left ++ rest) ∧
      ([';'].intercalate (keptElements chain)).length + left.length = chain.length) ∧
      (chainStripPrint (chain ++ '\x00' :: rest)).2 = droppedCount chain := by
  have hat : StripAt (separated []) [] chain rest ⟨chain ++ '\x00' :: rest, 0, 0, 0⟩ :=
    ⟨rfl, rfl, rfl⟩
  have hfuel : chain.length < (chain ++ '\x00' :: rest).length := by
    rw [length_append, length_cons]
    omega
  obtain ⟨⟨gap, hend⟩, hp, hcount⟩ := stripLoop_run chain hnul [] hat hfuel
  rw [nil_append] at hend
  unfold chainStripPrint
  generalize stripLoop _ _ = st at hend hp hcount
  dsimp only at hp hcount ⊢
  rw [Nat.zero_add] at hp hcount
  have hlen := hend.p.symm.trans hp
  refine ⟨?_, hcount⟩
  rw [hend.buf, hend.w]
  cases gap with
  | nil =>
    refine ⟨[], ?_, ?_⟩
    · simp
    · exact hlen
  | cons g gap =>
    refine ⟨gap ++ ['\x00'], ?_, ?_⟩
    · simp
    · rw [← hlen, length_append, length_singleton, length_cons]

theorem bufText_append {text : List Char} (hnul : '\x00' ∉ text) (rest : List Char) :
    bufText (text ++ '\x00' :: rest) = text := by
  have hall : ∀ c ∈ text, decide (c ≠ '\x00') = true :=
    fun c hc => decide_eq_true fun h => hnul (h ▸ hc)
  rw [bufText, takeWhile_append_of_pos hall, takeWhile_cons_of_neg (by decide), append_nil]

theorem not_mem_intercalate_kept (hnul : '\x00' ∉ chain) :
    '\x00' ∉ [';'].intercalate (keptElements chain) := by
  intro hmem
  rcases mem_intercalate hmem with h | ⟨e, he, hc⟩
  · cases h
  · exact hnul (mem_of_mem_element (mem_of_mem_filter he) hc)

theorem chainElements_intercalate_kept (h : keptElements chain ≠ []) :
    chainElements ([';'].intercalate (keptElements chain)) = keptElements chain :=
  splitOn_intercalate ';'
    (fun _ he => not_mem_of_mem_elements (mem_of_mem_filter he)) h

theorem keptElements_intercalate_kept (chain : List Char) :
    [';'].intercalate (keptElements ([';'].intercalate (keptElements chain))) =
      [';'].intercalate (keptElements chain) := by
  by_cases h : keptElements chain = []
  · rw [h]
    decide
  · rw [keptElements, chainElements_intercalate_kept h, keptElements, filter_filter]
    simp only [Bool.and_self]

theorem droppedCount_intercalate_kept (chain : List Char) :
    droppedCount ([';'].intercalate (keptElements chain)) = 0 := by
  by_cases h : keptElements chain = []
  · rw [h]
    decide
  · rw [droppedCount, chainElements_intercalate_kept h, countP_eq_zero]
    intro e he
    simpa using (mem_filter.mp he).2

/-- **A stripped chain**: what is left is the other elements, in order; as many
went as were print commands; doing it again changes nothing; and the chain sets
what its elements set. -/
theorem chainStripPrint_elements (chain rest : List Char) (hnul : '\x00' ∉ chain) :
    bufText (chainStripPrint (chain ++ '\x00' :: rest)).1 = [';'].intercalate (keptElements chain) ∧
      (keptElements chain ≠ [] →
        chainElements (bufText (chainStripPrint (chain ++ '\x00' :: rest)).1) =
          keptElements chain) ∧
      (chainStripPrint (chain ++ '\x00' :: rest)).2 =
        (chainElements chain).countP (fun e => commandBody e ∈ chainDrop) ∧
      chainStripPrint (chainStripPrint (chain ++ '\x00' :: rest)).1 =
        ((chainStripPrint (chain ++ '\x00' :: rest)).1, 0) ∧
      chainSets (bufText (chainStripPrint (chain ++ '\x00' :: rest)).1) =
        ((keptElements chain).map chainSets).foldr (· ||| ·) 0 := by
  obtain ⟨⟨left, hbuf, -⟩, hcount⟩ := chainStripPrint_buf hnul rest
  have hnul' := not_mem_intercalate_kept hnul
  have htext : bufText (chainStripPrint (chain ++ '\x00' :: rest)).1 =
      [';'].intercalate (keptElements chain) := by
    rw [hbuf, bufText_append hnul']
  refine ⟨htext, ?_, hcount, ?_, ?_⟩
  · intro h
    rw [htext, chainElements_intercalate_kept h]
  · obtain ⟨⟨left', hbuf', hlen'⟩, hcount'⟩ := chainStripPrint_buf hnul' (left ++ rest)
    rw [keptElements_intercalate_kept] at hbuf' hlen'
    have hleft' : left' = [] := eq_nil_of_length_eq_zero (by omega)
    rw [hleft'] at hbuf'
    rw [droppedCount_intercalate_kept] at hcount'
    rw [hbuf]
    exact Prod.ext hbuf' hcount'
  · rw [htext]
    exact chainSets_intercalate fun _ he => not_mem_of_mem_elements (mem_of_mem_filter he)

theorem chainStripPrint_elements_mixed :
    bufText (chainStripPrint ("ATSH7E0;at h0;;ATE1".toList ++ '\x00' :: [])).1 = "ATSH7E0;".toList ∧
      (chainStripPrint ("ATSH7E0;at h0;;ATE1".toList ++ '\x00' :: [])).2 = 2 := by
  have h := chainStripPrint_elements "ATSH7E0;at h0;;ATE1".toList [] (by decide)
  exact ⟨h.1.trans (by decide), h.2.2.1.trans (by decide)⟩

end Meatpi
