import Meatpi.Autopid.Config
import Meatpi.Expression.Texts
import Meatpi.Library.Decimal

/-!
# DBC signals as expressions (`autopid_dbc_codec.c`)

A signal of a DBC file, a run of bits with a factor and an offset, is compiled into
the text of an expression over the payload. Byte-aligned signals in Motorola order
become spans; every other one is cut at the bytes and put together by multiplying
and adding, since the shifts and the mask of the language work on 32-bit integers.
-/

namespace Meatpi

/-! ## Runs of bits, cut at the bytes -/

/-- The bytes that the positions `lo` to `hi` lie in. -/
def wordsOf (lo hi : ℕ) : List ℕ := List.range' (lo / 8) (hi / 8 + 1 - lo / 8)

/-- The first and the last position in byte `k`. -/
def cutFirst (lo k : ℕ) : ℕ := max lo (8 * k)
def cutLast (hi k : ℕ) : ℕ := min hi (8 * k + 7)

theorem cut_spec {lo hi k : ℕ} (hle : lo ≤ hi) (hk : k ∈ wordsOf lo hi) :
    lo ≤ cutFirst lo k ∧ cutFirst lo k ≤ cutLast hi k ∧ cutLast hi k ≤ hi ∧
      8 * k ≤ cutFirst lo k ∧ cutLast hi k ≤ 8 * k + 7 := by
  rw [wordsOf, List.mem_range'_1] at hk
  rw [cutFirst, cutLast]
  omega

/-! ## The signal and its segments -/

/-- What the compiler reads of an `ap_dbc_sig_t`, with the bounds `parse_sg` checks. -/
structure ApDbcSig where
  start : ℕ
  len : ℕ
  /-- `@1`: little endian -/
  intel : Bool
  isSigned : Bool
  /-- 0 plain, 1 `m<N>`, 2 `M` switch, 3 extended -/
  mux : ℕ
  /-- 0 int, 1 float, 2 double -/
  valtype : ℕ
  factor : CDouble
  offset : CDouble
  start_le : start ≤ 511
  len_pos : 1 ≤ len
  len_le : len ≤ 64

/-- `dbc_seg_t`; the weights are powers of two, exact as doubles. -/
structure DbcSeg where
  byte : ℕ
  shr : ℕ
  bits : ℕ
  weight : ℕ

/-! ## Literals -/

/-- `snprintf` into a buffer. -/
def snprintf (cap : ℕ) (text : List Char) : List Char := text.take (cap - 1)

/-- The loop of `fmt_num` over the zeros at the end: one decimal stays. -/
def trimDecimals (text : List Char) : List Char :=
  let rest := text.dropWhile (· ≠ '.')
  text.takeWhile (· ≠ '.') ++ rest.take 2 ++ (rest.drop 2).rdropWhile (· = '0')

def fmtNum (cap : ℕ) (v : CDouble) : List Char :=
  let out := snprintf cap (signedText (generalText 10) v)
  if 'e' ∈ out ∨ 'E' ∈ out then trimDecimals (snprintf cap (signedText (fixedText 15) v))
  else out

/-- `fmt_int`, of a power of two. -/
def fmtInt (cap : ℕ) (v : ℕ) : List Char := snprintf cap (Nat.toDigits 10 v)

/-! ## Segments -/

/-- `segments`, for the cuts of a run of positions at the bytes. -/
def segments (s : ApDbcSig) (cap : ℕ) : List DbcSeg :=
  if s.intel then
    let lo := s.start
    let hi := s.start + s.len - 1
    ((wordsOf lo hi).take cap).map fun k =>
      ⟨k % 256, (cutFirst lo k - 8 * k) % 256, (cutLast hi k - cutFirst lo k + 1) % 256,
        2 ^ (cutFirst lo k - lo)⟩
  else
    -- Motorola: the start is the greatest bit; positions count from it on
    let m0 := s.start / 8 * 8 + (7 - s.start % 8)
    let m1 := m0 + s.len - 1
    ((wordsOf m0 m1).take cap).map fun k =>
      ⟨k % 256, (7 - (cutLast m1 k - 8 * k)) % 256, (cutLast m1 k - cutFirst m0 k + 1) % 256,
        2 ^ (m1 - cutLast m1 k)⟩

/-- `seg_text`, with its `has_ops`. -/
def segText (g : DbcSeg) : List Char × Bool :=
  let mask := 2 ^ g.bits - 1
  if g.shr = 0 ∧ g.bits = 8 then ('B' :: decText g.byte, false)
  else if g.shr + g.bits = 8 then
    ('B' :: decText g.byte ++ ['>', '>'] ++ decText g.shr, true)
  else if g.shr = 0 then ('B' :: decText g.byte ++ ['&'] ++ decText mask, true)
  else ('B' :: decText g.byte ++ ['>', '>'] ++ decText g.shr ++ ['&'] ++ decText mask, true)

/-- A buffer that `append` writes to: the string in it, and how far it is written. -/
structure DbcBuf where
  text : List Char
  w : ℕ

/-- `append` -/
def dbcAppend (cap : ℕ) (b : DbcBuf) (text : List Char) : DbcBuf × Bool :=
  if cap - b.w ≤ text.length then
    (⟨b.text.take b.w ++ snprintf (cap - b.w) text, b.w⟩, false)
  else (⟨b.text.take b.w ++ text, b.w + text.length⟩, true)

/-- A segment as it stands in the sum of `n`. -/
def segPiece (n : ℕ) (g : DbcSeg) : List Char :=
  let st := snprintf 32 (segText g).1
  let ops := (segText g).2
  if 1 < g.weight then
    let wt := fmtInt 24 g.weight
    if ops then '(' :: st ++ [')', '*'] ++ wt else st ++ ['*'] ++ wt
  -- '+' binds tighter than '>>'
  else if ops ∧ 1 < n then '(' :: st ++ [')']
  else st

/-- The loop over the segments. -/
def dbcSum (cap n : ℕ) : List DbcSeg → Bool → DbcBuf → DbcBuf
  | [], _, b => b
  | g :: segs, first, b =>
    let b := if first then b else (dbcAppend cap b ['+']).1
    dbcSum cap n segs false (dbcAppend cap b (segPiece n g)).1

/-- The byte and the bit of the sign. -/
def msbOf (s : ApDbcSig) : ℕ × ℕ :=
  if s.intel then ((s.start + s.len - 1) / 8, (s.start + s.len - 1) % 8)
  else (s.start / 8, s.start % 8)

/-- The sign extension: the greatest bit, times minus `2 ^ len`. -/
def signPiece (s : ApDbcSig) : List Char :=
  let p2 := fmtInt 24 (2 ^ s.len)
  if (msbOf s).2 = 7 then
    ['-', '(', 'B'] ++ decText (msbOf s).1 ++ ['>', '>', '7', ')', '*'] ++ p2
  else
    ['-', '(', 'B'] ++ decText (msbOf s).1 ++ ['>', '>'] ++ decText (msbOf s).2 ++
      ['&', '1', ')', '*'] ++ p2

/-! ## The compiler -/

/-- `sizeof(raw)`, and `sizeof(expr)` -/
def dbcCap : ℕ := apExprLen * 2

/-- Whether the signal is a span of bytes. -/
def spanOk (s : ApDbcSig) : Bool :=
  (!s.intel && decide (s.start % 8 = 7) && decide (s.len % 8 = 0)) &&
    (!s.isSigned || decide (s.len / 8 = 1 ∨ s.len / 8 = 2 ∨ s.len / 8 = 4 ∨ s.len / 8 = 8))

/-- A span of bytes. -/
def spanPiece (s : ApDbcSig) : List Char :=
  let f := s.start / 8
  let l := f + s.len / 8 - 1
  let c := if s.isSigned then 'S' else 'B'
  if s.len / 8 = 1 then c :: decText f
  else '[' :: c :: decText f ++ [':', c] ++ decText l ++ [']']

/-- The text of the raw value, with `raw_ops`. -/
def dbcRaw (s : ApDbcSig) : List Char × Bool :=
  if spanOk s then ((dbcAppend dbcCap ⟨[], 0⟩ (spanPiece s)).1.text, false)
  else
    let segs := segments s 9
    let raw := dbcSum dbcCap segs.length segs true ⟨[], 0⟩
    if s.isSigned then ((dbcAppend dbcCap raw (signPiece s)).1.text, true)
    else (raw.text, raw.text.any fun c => ['>', '&', '*', '+', '-', '|'].contains c)

def reasonMuxExt : String := "extended multiplexing"
def reasonFloat : String := "float/double signal"
def reasonLong : String := "compiled expression too long"

/-- `offset >= 0` -/
def CDouble.nonneg : CDouble → Bool
  | .fin q => decide (0 ≤ q)
  | .inf neg => !neg
  | .nan => false

/-- The raw value times the factor. -/
def scalePiece (s : ApDbcSig) : List Char :=
  let raw := (dbcRaw s).1
  if s.factor ≠ .fin 1 then
    if (dbcRaw s).2 then '(' :: raw ++ [')', '*'] ++ fmtNum 32 s.factor
    else raw ++ ['*'] ++ fmtNum 32 s.factor
  else raw

/-- The offset behind it. -/
def offsetPiece (s : ApDbcSig) : List Char :=
  if s.offset.nonneg then '+' :: fmtNum 32 s.offset else '-' :: fmtNum 32 s.offset.neg

/-- `ap_dbc_expr`: the text, or the reason why not. -/
def apDbcExpr (s : ApDbcSig) (outCap : ℕ) : Except String (List Char) :=
  if s.mux = 3 then .error reasonMuxExt
  else if s.valtype ≠ 0 then .error reasonFloat
  else if spanOk s = false ∧ (segments s 9).length = 0 then .error reasonLong
  else
    let scaled := dbcAppend dbcCap ⟨[], 0⟩ (scalePiece s)
    if scaled.2 = false then .error reasonLong
    else
      let expr := if s.offset ≠ .fin 0 then dbcAppend dbcCap scaled.1 (offsetPiece s)
        else (scaled.1, true)
      if expr.2 = false then .error reasonLong
      else if outCap ≤ expr.1.w then .error reasonLong
      else .ok expr.1.text

end Meatpi
