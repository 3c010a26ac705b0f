import Mathlib.Algebra.Order.BigOperators.Group.List
import Meatpi.Autopid.DbcTokens

/-!
# The raw value of a signal, in tokens

The pieces `ap_dbc_expr` puts together for the raw value are tokens in their one
spelling (`dbcRaw_text`): no buffer on the way is too short for them. What the text
then is depends on the tokens alone (`compiled_rawToks`).
-/

namespace Meatpi

open List Nat

variable {g : DbcSeg} {n : ℕ} {text : List Char} {cap i : ℕ}

/-! ## Where a signal lies -/

/-- The first and the last bit, counted the way the signal runs: from the least bit
on (Intel), or from the greatest (Motorola). -/
def runFirst (s : ApDbcSig) : ℕ :=
  if s.intel then s.start else s.start / 8 * 8 + (7 - s.start % 8)

def runLast (s : ApDbcSig) : ℕ := runFirst s + s.len - 1

/-- The byte that `ap_dbc_decode_ref` reads for bit `i` of the signal. -/
def sigByte (s : ApDbcSig) (i : ℕ) : ℕ := (runFirst s + i) / 8

/-- The last byte of a signal, and how many bytes it lies in. -/
def topByte (s : ApDbcSig) : ℕ := runLast s / 8
def runBytes (s : ApDbcSig) : ℕ := topByte s + 1 - runFirst s / 8

theorem runFirst_div (s : ApDbcSig) : runFirst s / 8 = s.start / 8 := by
  rw [runFirst]
  split_ifs <;> omega

theorem runFirst_le_runLast (s : ApDbcSig) : runFirst s ≤ runLast s := by
  have := s.len_pos
  rw [runLast]
  omega

theorem topByte_lt (s : ApDbcSig) : topByte s < 72 := by
  have hfirst : runFirst s ≤ 511 := by
    have := s.start_le
    rw [runFirst]
    split_ifs <;> omega
  have := s.len_le
  rw [topByte, runLast]
  omega

theorem runBytes_le (s : ApDbcSig) : runBytes s ≤ 9 := by
  have := s.len_le
  rw [runBytes, topByte, runLast]
  omega

theorem runBytes_pos (s : ApDbcSig) : 0 < runBytes s := by
  have := Nat.div_le_div_right (c := 8) (runFirst_le_runLast s)
  rw [runBytes, topByte]
  omega

/-- **The highest byte** of a signal. -/
theorem isGreatest_topByte (s : ApDbcSig) :
    IsGreatest {k | ∃ i < s.len, sigByte s i = k} (topByte s) := by
  have hlen := s.len_pos
  refine ⟨⟨s.len - 1, by omega, ?_⟩, ?_⟩
  · rw [sigByte, topByte, runLast, Nat.add_sub_assoc hlen]
  · rintro k ⟨i, hi, rfl⟩
    refine Nat.div_le_div_right ?_
    rw [runLast]
    omega

/-! ## The segments -/

/-- The segment in the `i`-th byte of the signal. -/
def segAt (s : ApDbcSig) (i : ℕ) : DbcSeg :=
  let k := runFirst s / 8 + i
  let first := cutFirst (runFirst s) k
  let last := cutLast (runLast s) k
  ⟨k, if s.intel then first - 8 * k else 7 - (last - 8 * k), last - first + 1,
    2 ^ (if s.intel then first - runFirst s else runLast s - last)⟩

/-- How many whole bytes of the value lie below the `i`-th byte, at most. -/
def bytesBelow (s : ApDbcSig) (i : ℕ) : ℕ := if s.intel then i else runBytes s - 1 - i

/-- What is known of a segment. -/
structure SegSpec (s : ApDbcSig) (i : ℕ) (g : DbcSeg) : Prop where
  byte_le : g.byte ≤ topByte s
  bits_pos : 1 ≤ g.bits
  bits_le : g.shr + g.bits ≤ 8
  /-- between the first and the last byte the segment is the whole byte -/
  whole : 0 < i → i + 1 < runBytes s → g.shr = 0 ∧ g.bits = 8
  weight_eq : ∃ e, g.weight = 2 ^ e ∧ e ≤ 8 * bytesBelow s i

theorem segAt_spec (s : ApDbcSig) (hi : i < runBytes s) : SegSpec s i (segAt s i) := by
  have hle := runFirst_le_runLast s
  have hk : runFirst s / 8 + i ∈ wordsOf (runFirst s) (runLast s) := by
    rw [wordsOf, mem_range'_1]
    rw [runBytes, topByte] at hi
    omega
  obtain ⟨h1, h2, h3, h4, h5⟩ := cut_spec hle hk
  have hfirst : cutFirst (runFirst s) (runFirst s / 8 + i) =
      max (runFirst s) (8 * (runFirst s / 8 + i)) := rfl
  have hlast : cutLast (runLast s) (runFirst s / 8 + i) =
      min (runLast s) (8 * (runFirst s / 8 + i) + 7) := rfl
  constructor
  case byte_le =>
    show runFirst s / 8 + i ≤ topByte s
    rw [topByte]
    omega
  case bits_pos => exact Nat.le_add_left 1 _
  case bits_le =>
    show (if s.intel then cutFirst (runFirst s) (runFirst s / 8 + i) - 8 * (runFirst s / 8 + i)
      else 7 - (cutLast (runLast s) (runFirst s / 8 + i) - 8 * (runFirst s / 8 + i))) +
        (cutLast (runLast s) (runFirst s / 8 + i) - cutFirst (runFirst s) (runFirst s / 8 + i) + 1)
          ≤ 8
    split_ifs <;> omega
  case whole =>
    intro hpos hnext
    rw [runBytes, topByte] at hnext
    refine ⟨?_, ?_⟩
    · show (if s.intel then _ else _) = 0
      split_ifs <;> omega
    · show cutLast (runLast s) (runFirst s / 8 + i) - cutFirst (runFirst s) _ + 1 = 8
      omega
  case weight_eq =>
    refine ⟨_, rfl, ?_⟩
    rw [bytesBelow, runBytes, topByte]
    split_ifs <;> omega

/-- **The segments**, one for each byte the signal lies in. -/
theorem segments_eq (s : ApDbcSig) : segments s 9 = (List.range (runBytes s)).map (segAt s) := by
  have hwords : wordsOf (runFirst s) (runLast s) =
      (List.range (runBytes s)).map fun i => runFirst s / 8 + i := by
    rw [wordsOf, range'_eq_map_range]
    rfl
  have htake : (wordsOf (runFirst s) (runLast s)).take 9 = wordsOf (runFirst s) (runLast s) := by
    rw [take_of_length_le]
    rw [hwords, length_map, length_range]
    exact runBytes_le s
  have hmap : ∀ f : ℕ → DbcSeg, (∀ i < runBytes s, f (runFirst s / 8 + i) = segAt s i) →
      ((wordsOf (runFirst s) (runLast s)).take 9).map f =
        (List.range (runBytes s)).map (segAt s) := by
    intro f hf
    rw [htake, hwords, map_map]
    exact map_congr_left fun i hi => hf i (mem_range.1 hi)
  -- the fields are `uint8_t`, and wide enough
  have hmod : ∀ i < runBytes s, DbcSeg.mk ((segAt s i).byte % 256) ((segAt s i).shr % 256)
      ((segAt s i).bits % 256) (segAt s i).weight = segAt s i := by
    intro i hi
    obtain ⟨hbyte, -, hbits, -⟩ := segAt_spec s hi
    have htop := topByte_lt s
    rw [mod_eq_of_lt (by omega), mod_eq_of_lt (by omega), mod_eq_of_lt (by omega)]
  rw [segments]
  cases hintel : s.intel with
  | true =>
    have hfirst : s.start = runFirst s := by rw [runFirst, hintel, if_pos rfl]
    rw [hfirst]
    refine hmap _ fun i hi => ?_
    have h := hmod i hi
    simp only [segAt, hintel, ↓reduceIte] at h ⊢
    exact h
  | false =>
    have hfirst : s.start / 8 * 8 + (7 - s.start % 8) = runFirst s := by
      rw [runFirst, hintel]
      rfl
    rw [hfirst]
    refine hmap _ fun i hi => ?_
    have h := hmod i hi
    simp only [segAt, hintel, ↓reduceIte, Bool.false_eq_true] at h ⊢
    exact h

/-! ## Pieces -/

theorem length_decText_le {k : ℕ} (hk : 0 < k) (h : n < 10 ^ k) : (decText n).length ≤ k :=
  (length_toDigits_le_iff (by decide) hk).mpr h

theorem isRun_decText (n : ℕ) : IsRun (decText n) :=
  ⟨decText_ne_nil n, fun _ hc => isNumChar_of_isDigit (isDigit_of_mem_decText hc)⟩

def numTok (n : ℕ) : EpTok := .atom (.num (decText n))
def byteTok (n : ℕ) : EpTok := .atom (.byte n)

/-- `seg_text`, in tokens. -/
def segToks (g : DbcSeg) : List EpTok :=
  let mask := 2 ^ g.bits - 1
  if g.shr = 0 ∧ g.bits = 8 then [byteTok g.byte]
  else if g.shr + g.bits = 8 then [byteTok g.byte, .op .shr, numTok g.shr]
  else if g.shr = 0 then [byteTok g.byte, .op .band, numTok mask]
  else [byteTok g.byte, .op .shr, numTok g.shr, .op .band, numTok mask]

/-- A segment as it stands in the sum, in tokens. -/
def pieceToks (n : ℕ) (g : DbcSeg) : List EpTok :=
  let ops := (segText g).2
  if 1 < g.weight then
    (if ops then .lpar :: segToks g ++ [.rpar] else segToks g) ++ [.op .mul, numTok g.weight]
  else if ops ∧ 1 < n then .lpar :: segToks g ++ [.rpar]
  else segToks g

theorem segText_eq (g : DbcSeg) : (segText g).1 = (segToks g).flatMap tokText := by
  unfold segText segToks
  split_ifs <;> simp [byteTok, numTok, tokText, EpOp.text, EpOp.char]

theorem length_segText_le (hbyte : g.byte < 72) (hbits : g.shr + g.bits ≤ 8) :
    (segText g).1.length ≤ 10 := by
  have h1 := length_decText_le (n := g.byte) (k := 2) (by decide) (by omega)
  have h2 := length_decText_le (n := g.shr) (k := 1) (by decide) (by omega)
  have h3 : (decText (2 ^ g.bits - 1)).length ≤ 3 := by
    refine length_decText_le (by decide) ?_
    have : 2 ^ g.bits ≤ 2 ^ 8 := Nat.pow_le_pow_right (by decide) (by omega)
    omega
  unfold segText
  split_ifs <;> simp only [length_cons, length_append, length_nil] <;> omega

theorem segText_whole (h : g.shr = 0 ∧ g.bits = 8) :
    segText g = ('B' :: decText g.byte, false) := by
  rw [segText, if_pos h]

theorem snprintf_eq (h : text.length < cap) : snprintf cap text = text :=
  take_of_length_le (by omega)

theorem length_weight_le {e j : ℕ} (h : e ≤ 8 * j) (hj : j ≤ 8) :
    (decText (2 ^ e)).length ≤ 24 * j / 10 + 1 := by
  refine length_decText_le (succ_pos _) ?_
  have hpow : ∀ j ≤ 8, 2 ^ (8 * j) < 10 ^ (24 * j / 10 + 1) := by decide
  exact (Nat.pow_le_pow_right (by decide) h).trans_lt (hpow j hj)

/-- The most a piece takes: the segment, and the weight behind it. -/
def pieceBound (n i j : ℕ) : ℕ :=
  (if i = 0 ∨ i + 1 = n then 12 else 3) + if j = 0 then 0 else 24 * j / 10 + 2

theorem bytesBelow_le (s : ApDbcSig) (hi : i < runBytes s) : bytesBelow s i ≤ 8 := by
  have := runBytes_le s
  rw [bytesBelow]
  split_ifs <;> omega

/-- **A piece** is its tokens, and short. -/
theorem segPiece_spec (s : ApDbcSig) (hi : i < runBytes s) :
    segPiece (runBytes s) (segAt s i) = (pieceToks (runBytes s) (segAt s i)).flatMap tokText ∧
      (segPiece (runBytes s) (segAt s i)).length ≤ pieceBound (runBytes s) i (bytesBelow s i) := by
  obtain ⟨hbyte, hpos, hbits, hwhole, e, hweight, he⟩ := segAt_spec s hi
  have htop := topByte_lt s
  have hlen := length_segText_le (g := segAt s i) (by omega) hbits
  have hj := bytesBelow_le s hi
  have hdigits := length_weight_le he hj
  have hinner : ¬ (i = 0 ∨ i + 1 = runBytes s) →
      (segText (segAt s i)).2 = false ∧ (segText (segAt s i)).1.length ≤ 3 := by
    intro hend
    rw [segText_whole (hwhole (by omega) (by omega))]
    have hbyte := length_decText_le (n := (segAt s i).byte) (k := 2) (by decide) (by omega)
    refine ⟨rfl, ?_⟩
    rw [length_cons]
    omega
  have hone : bytesBelow s i = 0 → ¬ 1 < (segAt s i).weight := by
    intro h0
    obtain rfl : e = 0 := by omega
    rw [hweight]
    decide
  have hwt : fmtInt 24 (segAt s i).weight = decText (segAt s i).weight := by
    rw [fmtInt, ← decText, snprintf_eq]
    rw [hweight]
    omega
  have hst : snprintf 32 (segText (segAt s i)).1 = (segText (segAt s i)).1 := snprintf_eq (by omega)
  constructor
  · rw [segPiece, pieceToks]
    rw [hst, hwt, segText_eq]
    split_ifs <;> simp [numTok, tokText, EpOp.text, EpOp.char]
  · have hparts : (segPiece (runBytes s) (segAt s i)).length ≤ (segText (segAt s i)).1.length +
        (if (segText (segAt s i)).2 then 2 else 0) +
        (if 1 < (segAt s i).weight then (decText (segAt s i).weight).length + 1 else 0) := by
      rw [segPiece]
      rw [hst, hwt]
      split_ifs with h1 h2 h3 h4 h4
      all_goals first
        | exact absurd h3.1 h4
        | exact Nat.le_add_right _ _
        | simp only [length_cons, length_append, length_nil]; omega
    refine hparts.trans ?_
    rw [hweight] at *
    refine Nat.add_le_add ?_ ?_
    · split_ifs with hops hend hend
      · omega
      · exact absurd (hinner hend).1 (by simp [hops])
      · omega
      · exact (hinner hend).2
    · split_ifs with hw h0
      · exact absurd hw (hone h0)
      · omega
      · exact Nat.zero_le _
      · exact Nat.zero_le _

/-! ## The raw value -/

theorem dbcAppend_fits {piece : List Char} (h : text.length + piece.length < cap) :
    dbcAppend cap ⟨text, text.length⟩ piece = (⟨text ++ piece, (text ++ piece).length⟩, true) := by
  rw [dbcAppend]
  dsimp only
  rw [if_neg (by omega), take_length, length_append]

theorem dbcSum_fits {segs : List DbcSeg}
    (h : text.length + (segs.flatMap fun g => '+' :: segPiece n g).length < cap) :
    dbcSum cap n segs false ⟨text, text.length⟩ =
      ⟨text ++ segs.flatMap fun g => '+' :: segPiece n g,
        (text ++ segs.flatMap fun g => '+' :: segPiece n g).length⟩ := by
  induction segs generalizing text with
  | nil =>
    rw [dbcSum, flatMap_nil, append_nil]
  | cons g segs ih =>
    rw [flatMap_cons, length_append, length_cons] at h
    have hplus : text.length + ['+'].length < cap := by
      rw [length_singleton]
      omega
    have hpiece : (text ++ ['+']).length + (segPiece n g).length < cap := by
      rw [length_append, length_singleton]
      omega
    have hrest : (text ++ ['+'] ++ segPiece n g).length +
        (segs.flatMap fun g => '+' :: segPiece n g).length < cap := by
      rw [length_append, length_append, length_singleton]
      omega
    rw [dbcSum, if_neg Bool.false_ne_true, dbcAppend_fits hplus, dbcAppend_fits hpiece, ih hrest]
    simp

/-- The sum of the segments, in tokens. -/
def sumToks (n : ℕ) : List DbcSeg → List EpTok
  | [] => []
  | g :: segs => pieceToks n g ++ segs.flatMap fun g => .op .add :: pieceToks n g

/-- The sign, in tokens. -/
def signToks (s : ApDbcSig) : List EpTok :=
  let byte := byteTok (msbOf s).1
  let bit := if (msbOf s).2 = 7 then [byte, .op .shr, numTok 7]
    else [byte, .op .shr, numTok (msbOf s).2, .op .band, numTok 1]
  .lpar :: bit ++ [.rpar] ++ [.op .mul, numTok (2 ^ s.len)]

/-- A span, in tokens. -/
def spanTok (s : ApDbcSig) : EpTok :=
  let f := s.start / 8
  let l := f + s.len / 8 - 1
  if s.len / 8 = 1 then .atom (if s.isSigned then .sbyte f else .byte f)
  else .atom (.range s.isSigned f l)

/-- The raw value, in tokens. -/
def rawToks (s : ApDbcSig) : List EpTok :=
  if spanOk s then [spanTok s]
  else if s.isSigned then sumToks (runBytes s) (segments s 9) ++ .op .sub :: signToks s
  else sumToks (runBytes s) (segments s 9)

theorem msbOf_le (s : ApDbcSig) : (msbOf s).1 ≤ topByte s ∧ (msbOf s).2 < 8 := by
  have hfirst := runFirst_div s
  have := Nat.div_le_div_right (c := 8) (runFirst_le_runLast s)
  rw [msbOf]
  split_ifs with hintel
  · rw [topByte, runLast, runFirst, if_pos hintel]
    omega
  · rw [topByte]
    exact ⟨by dsimp only; omega, mod_lt _ (by decide)⟩

/-- **The sign** is its tokens, and short. -/
theorem signPiece_spec (s : ApDbcSig) :
    signPiece s = (.op .sub :: signToks s : List EpTok).flatMap tokText ∧
      (signPiece s).length ≤ 32 := by
  obtain ⟨hbyte, hbit⟩ := msbOf_le s
  have htop := topByte_lt s
  have h1 := length_decText_le (n := (msbOf s).1) (k := 2) (by decide) (by omega)
  have h2 := length_decText_le (n := (msbOf s).2) (k := 1) (by decide) (by omega)
  have h3 : (decText (2 ^ s.len)).length ≤ 20 :=
    length_weight_le (e := s.len) (j := 8) s.len_le (Nat.le_refl 8)
  have hp2 : fmtInt 24 (2 ^ s.len) = decText (2 ^ s.len) := by
    rw [fmtInt, ← decText, snprintf_eq]
    omega
  have h7 : decText 7 = ['7'] := by decide
  have h1 : decText 1 = ['1'] := by decide
  rw [signPiece, signToks, hp2]
  constructor
  · split_ifs <;> simp [byteTok, numTok, tokText, EpOp.text, EpOp.char, h1, h7]
  · split_ifs
    all_goals
      simp only [length_cons, length_append, length_nil]
      omega

theorem spanPiece_spec (s : ApDbcSig) :
    spanPiece s = tokText (spanTok s) ∧ (spanPiece s).length ≤ 9 := by
  have hstart := s.start_le
  have hlen := s.len_le
  have h1 := length_decText_le (n := s.start / 8) (k := 2) (by decide) (by omega)
  have h2 := length_decText_le (n := s.start / 8 + s.len / 8 - 1) (k := 2) (by decide) (by omega)
  rw [spanPiece, spanTok]
  constructor
  · split_ifs <;> simp [tokText, *]
  · split_ifs
    all_goals
      simp only [length_cons, length_append, length_nil]
      omega

theorem pieceBound_sum : ∀ n ≤ 9,
    ((List.range n).map fun i => pieceBound n i i + 1).sum + 32 ≤ dbcCap ∧
      ((List.range n).map fun i => pieceBound n i (n - 1 - i) + 1).sum + 32 ≤ dbcCap := by
  decide

theorem sum_fits (s : ApDbcSig) :
    ((segments s 9).map fun g => (segPiece (runBytes s) g).length + 1).sum + 32 ≤ dbcCap := by
  rw [segments_eq, map_map]
  have hle : ((List.range (runBytes s)).map
      ((fun g => (segPiece (runBytes s) g).length + 1) ∘ segAt s)).sum ≤
      ((List.range (runBytes s)).map fun i =>
        pieceBound (runBytes s) i (bytesBelow s i) + 1).sum := by
    refine sum_le_sum fun i hi => ?_
    exact succ_le_succ (segPiece_spec s (mem_range.1 hi)).2
  obtain ⟨hintel, hmotorola⟩ := pieceBound_sum (runBytes s) (runBytes_le s)
  have hbelow : ((List.range (runBytes s)).map fun i =>
      pieceBound (runBytes s) i (bytesBelow s i) + 1).sum + 32 ≤ dbcCap := by
    simp only [bytesBelow]
    cases s.intel with
    | true => exact hintel
    | false => exact hmotorola
  omega

/-- **The raw value** is its tokens: none of the buffers was too short. -/
theorem dbcRaw_text (s : ApDbcSig) : (dbcRaw s).1 = (rawToks s).flatMap tokText := by
  obtain ⟨hspan, hspanLen⟩ := spanPiece_spec s
  obtain ⟨hsign, hsignLen⟩ := signPiece_spec s
  have hcap : dbcCap = 192 := rfl
  rw [dbcRaw, rawToks]
  cases spanOk s with
  | true =>
    have hfits : ([] : List Char).length + (spanPiece s).length < dbcCap := by
      rw [length_nil]
      omega
    have happ := congrArg Prod.fst (dbcAppend_fits hfits)
    rw [length_nil] at happ
    rw [happ, hspan]
    simp
  | false =>
    have hn : (segments s 9).length = runBytes s := by
      rw [segments_eq, length_map, length_range]
    have hpieces : ∀ g ∈ segments s 9,
        segPiece (runBytes s) g = (pieceToks (runBytes s) g).flatMap tokText := by
      rw [segments_eq]
      intro g hg
      obtain ⟨i, hi, rfl⟩ := mem_map.1 hg
      exact (segPiece_spec s (mem_range.1 hi)).1
    have hroom := sum_fits s
    have hpos := runBytes_pos s
    obtain ⟨n, hrun⟩ : ∃ n, runBytes s = n := ⟨_, rfl⟩
    obtain ⟨segs, hsegs⟩ : ∃ segs, segments s 9 = segs := ⟨_, rfl⟩
    rw [hrun] at hn hpieces hroom hpos
    rw [hsegs] at hn hpieces hroom
    rw [if_neg Bool.false_ne_true, if_neg Bool.false_ne_true, hrun, hsegs]
    dsimp only
    rw [hn]
    cases segs with
    | nil => rw [← hn] at hpos; cases hpos
    | cons g segs =>
      -- the sum of the first piece and the others
      have hlen : (segPiece n g).length + (segs.flatMap fun g => '+' :: segPiece n g).length + 33 ≤
          dbcCap := by
        rw [map_cons, sum_cons] at hroom
        rw [length_flatMap]
        simp only [length_cons]
        omega
      have hsum : dbcSum dbcCap n (g :: segs) true ⟨[], 0⟩ =
          ⟨segPiece n g ++ segs.flatMap fun g => '+' :: segPiece n g,
            (segPiece n g ++ segs.flatMap fun g => '+' :: segPiece n g).length⟩ := by
        have hfirst : ([] : List Char).length + (segPiece n g).length < dbcCap := by
          rw [length_nil]
          omega
        have happ := congrArg Prod.fst (dbcAppend_fits hfirst)
        rw [length_nil, nil_append] at happ
        rw [dbcSum, if_pos rfl, happ, dbcSum_fits (by omega)]
      have htoks : segPiece n g ++ (segs.flatMap fun g => '+' :: segPiece n g) =
          (sumToks n (g :: segs)).flatMap tokText := by
        rw [sumToks, flatMap_append, hpieces g mem_cons_self, flatMap_assoc]
        congr 1
        refine flatMap_congr fun g' hg' => ?_
        rw [hpieces g' (mem_cons_of_mem _ hg')]
        rfl
      rw [hsum]
      split_ifs with hsigned
      · have hfits : (segPiece n g ++ segs.flatMap fun g => '+' :: segPiece n g).length +
            (signPiece s).length < dbcCap := by
          rw [length_append]
          omega
        rw [dbcAppend_fits hfits, flatMap_append, ← htoks, hsign]
      · exact htoks

end Meatpi
