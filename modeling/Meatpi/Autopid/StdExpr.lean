import Meatpi.Autopid.ExprMeaning
import Meatpi.Autopid.ObdTable

/-!
# The expression of a standard parameter, and its frozen value

`ap_std_expression_bounded` writes a row of the table as an expression over the frame
of mode 01, `ap_frz_decode` decodes the rows from a freeze frame of mode 02. A frozen
value is computed in `float`, rounded as IEEE 754 has it. A `double` is an exact number
here; what is printed of it is rounded as `printf` rounds.
-/

namespace Meatpi

/-- The codes `ap_std_expression_bounded` fails with. -/
inductive StdErr where
  | invalidArg
  | notSupported
  | invalidSize
  deriving DecidableEq

/-! ## The expression -/

def fmtLiteral (v : ℚ) (len : ℕ) : List Char :=
  let out := snprintf len (signedText (generalText 10) (.fin v))
  if 'e' ∈ out then trimDecimals (snprintf len (signedText (fixedText 15) (.fin v))) else out

/-- The tolerance of a bound: `AP_BOUNDS_TOL_REL` of it, at least `AP_BOUNDS_TOL_ABS`. -/
def boundsTol (max : ℚ) : ℚ := if |max| * 1e-6 < 1e-6 then 1e-6 else |max| * 1e-6

/-- Every raw bit set. -/
def rawMax (bits : ℕ) : ℕ := if 64 ≤ bits then 18446744073709551615 else 2 ^ bits - 1

/-- The numerator of the ratio form: full scale is the row's `max`, and `max - offset`
is an integer. -/
def scaleRatio (scale offset : ℚ) (bits : ℕ) (max : Option ℚ) : Option ℕ :=
  max.bind fun max =>
    let full := rawMax bits * scale + offset
    let n := max - offset
    if scale ≠ 1 ∧ |full - max| ≤ boundsTol max ∧ 0 < n ∧ n < 1e15 ∧
        |n - ⌊n + 1 / 2⌋₊| < 1e-9 then some ⌊n + 1 / 2⌋₊
    else none

def scaleLiteral (scale offset : ℚ) (bits : ℕ) (max : Option ℚ) (len : ℕ) : List Char :=
  match scaleRatio scale offset bits max with
  | some n => snprintf len (decText n ++ '/' :: decText (rawMax bits))
  | none => fmtLiteral scale len

/-- `ap_std_expression_bounded`; no `min` or `max` is `NAN`. -/
def apStdExpressionBounded (bitStart bitLength : ℕ) (scale offset : ℚ) (min max : Option ℚ)
    (shift : ℤ) (bufLen : ℕ) : Except StdErr (List Char) :=
  if bufLen = 0 ∨ shift < 0 then .error .invalidArg
  else if bitLength = 0 ∨ bitStart < 8 then .error .notSupported -- placeholder rows
  else
    let first := bitStart / 8 + shift.toNat
    let count := (bitLength + 7) / 8
    -- a range below zero with no offset is a two's complement raw
    let signed := min.any (· < 0) ∧ offset = 0
    let kind := if signed then 'S' else 'B'
    let base := snprintf 32 (if count = 1 then kind :: decText first
      else '[' :: kind :: decText first ++ ':' :: kind :: decText (first + count - 1) ++ [']'])
    let sc := scaleLiteral scale offset bitLength (if signed then none else max) 32
    let off := fmtLiteral |offset| 32
    let sign := if offset < 0 then '-' else '+'
    let out :=
      if scale = 1 ∧ offset = 0 then base
      else if offset = 0 then base ++ '*' :: sc
      else if scale = 1 then base ++ sign :: off
      else base ++ '*' :: sc ++ sign :: off
    if out.length < bufLen then .ok out else .error .invalidSize

/-- The expression of a row, as `ap_std_entry_to_json` asks for it: a row whose range is
`0, 0` has none. -/
def stdExpression (prm : StdParameter) : Except StdErr (List Char) :=
  let ranged := ¬ (prm.min = 0 ∧ prm.max = 0)
  apStdExpressionBounded prm.bitStart prm.bitLength prm.scale prm.offset
    (if ranged then some prm.min else none) (if ranged then some prm.max else none) 0 apExprLen

/-! ## The frozen value -/

structure ApFrzVal where
  name : List Char
  unit : List Char
  value : ℚ

/-- The rows that are decoded from a payload: a row that is none, and one the payload is
too short for, are skipped. -/
def frzReads (payload : List UInt8) (prm : StdParameter) : Bool :=
  let first : ℤ := prm.bitStart / 8 - 1
  let count := (prm.bitLength + 7) / 8
  decide (prm.bitLength ≠ 0 ∧ 8 ≤ prm.bitStart ∧ first + 1 + count ≤ payload.length)

/-- The raw value of a row: its bytes, the most significant first. -/
def frzRaw (payload : List UInt8) (prm : StdParameter) : ℕ :=
  let count := (prm.bitLength + 7) / 8
  ((payload.drop (prm.bitStart / 8)).take count).foldl
    (fun raw b => (raw * 2 ^ 8 + b.toNat) % 2 ^ 32) 0

/-- `(float)raw * prm->scale + prm->offset`. The product is not rounded where the compiler
has `fused` the two operations into a multiply-add, as C allows. -/
def frzValue (fused : Bool) (raw : ℕ) (prm : StdParameter) : ℚ :=
  let product := floatOf raw * prm.scale
  floatOf ((if fused then product else floatOf product) + prm.offset)

def frzVal (fused : Bool) (payload : List UInt8) (prm : StdParameter) : ApFrzVal where
  name := snprintf 40 prm.name.toList
  unit := snprintf 16 prm.unit.toList
  value := frzValue fused (frzRaw payload prm) prm

/-- The loop of `ap_frz_decode`. -/
def frzLoop (fused : Bool) (payload : List UInt8) (max : ℕ) :
    List StdParameter → List ApFrzVal → List ApFrzVal
  | [], out => out
  | prm :: params, out =>
    if max ≤ out.length then out
    else if frzReads payload prm then
      frzLoop fused payload max params (out ++ [frzVal fused payload prm])
    else frzLoop fused payload max params out

/-- `ap_frz_decode`: what is behind the values that `out` has. -/
def apFrzDecode (fused : Bool) (payload : List UInt8) (out : List ApFrzVal) (max : ℕ) :
    List ApFrzVal :=
  match payload with
  | 0x42 :: pid :: _ :: _ :: _ =>
    match getPid pid with
    | none => out
    | some params => frzLoop fused payload max params out
  | _ => out

end Meatpi
