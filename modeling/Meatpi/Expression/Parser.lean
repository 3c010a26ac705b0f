import Mathlib.Algebra.Ring.Int.Defs
import Mathlib.Algebra.Ring.Nat
import Mathlib.Data.List.Basic

/-!
# The expression evaluator (`expression_parser.c`)

One pass over the text with two bounded stacks: operands and operators. The
arithmetic of the operands is a parameter (`Arith`): nothing here rests on what
a `double` is. The first `fail` of a run is its result, so a failing step is an
`Except`; a text is its characters up to the terminating NUL.
-/

namespace Meatpi

def epStackMax : ℕ := 64

/-- `SIZE_MAX + 1` of the 32-bit target. -/
def sizeMod : ℕ := 2 ^ 32

/-- The `double` arithmetic the evaluator uses; the bitwise operators and the
shifts go through 32-bit integers. -/
structure Arith (α : Type) where
  /-- the `double` of an integer -/
  ofInt : ℤ → α
  /-- `strtod` of a run of digits and points -/
  num : List Char → α
  add : α → α → α
  sub : α → α → α
  mul : α → α → α
  div : α → α → α
  band : α → α → α
  bor : α → α → α
  bxor : α → α → α
  shl : α → α → α
  shr : α → α → α
  /-- `b == 0` -/
  isZero : α → Bool

/-- The codes of `esp_err_t` the evaluator fails with. -/
inductive EpCode where
  | invalidArg
  | invalidSize
  | fail
  deriving DecidableEq

/-- How a run ends without a value: a failure and its reason, or not at all. -/
inductive EpErr where
  | err (code : EpCode) (msg : String)
  /-- the byte loop of a range that ends at `SIZE_MAX` never ends -/
  | hang
  deriving DecidableEq

/-- `fail(ctx, ESP_ERR_INVALID_ARG, msg)` -/
def EpErr.arg (msg : String) : EpErr := .err .invalidArg msg

def EpErr.tooDeep : EpErr := .arg "expression too deep"

/-- The inputs of `ep_ctx_t` that a run does not change. -/
structure EpEnv (α : Type) where
  ar : Arith α
  data : List UInt8
  v : α
  dryRun : Bool

/-- The state of `ep_ctx_t`, the tops of the stacks first; `maxByte` is
`max_byte` once `any_byte` is set. -/
structure EpCtx (α : Type) where
  operands : List α
  operators : List Char
  expectOperand : Bool
  unaryOk : Bool
  maxByte : Option ℕ

/-- The state at the start of `evaluate`. -/
def EpCtx.init {α : Type} : EpCtx α := ⟨[], [], true, true, none⟩

variable {α : Type}

def pushOperand (ctx : EpCtx α) (value : α) : Except EpErr (EpCtx α) :=
  if epStackMax ≤ ctx.operands.length then .error .tooDeep
  else .ok { ctx with
    operands := value :: ctx.operands, expectOperand := false, unaryOk := false }

/-- `read_byte`; a dry run records the index and fakes 0. -/
def readByte (env : EpEnv α) (ctx : EpCtx α) (index : ℕ) : Except EpErr (EpCtx α × UInt8) :=
  let ctx := { ctx with maxByte := some (max index (ctx.maxByte.getD 0)) }
  if env.dryRun then .ok (ctx, 0)
  else
    match env.data[index]? with
    | some b => .ok (ctx, b)
    | none => .error (.err .invalidSize "byte reference beyond payload")

def precedence (op : Char) : ℕ :=
  if op = '|' ∨ op = '^' then 1
  else if op = '&' then 2
  else if op = '<' ∨ op = '>' then 3 -- << and >>
  else if op = '+' ∨ op = '-' then 4
  else if op = '*' ∨ op = '/' then 5
  else 0 -- '('

/-- The `switch` of `apply_top`. -/
def applyOp (env : EpEnv α) (op : Char) (a b : α) : Except EpErr α :=
  if op = '+' then .ok (env.ar.add a b)
  else if op = '-' then .ok (env.ar.sub a b)
  else if op = '*' then .ok (env.ar.mul a b)
  else if op = '/' then
    if env.ar.isZero b then
      -- dry run: values are fake, /0 proves nothing
      if env.dryRun then .ok (env.ar.div a (env.ar.ofInt 1))
      else .error (.err .fail "division by zero")
    else .ok (env.ar.div a b)
  else if op = '&' then .ok (env.ar.band a b)
  else if op = '|' then .ok (env.ar.bor a b)
  else if op = '^' then .ok (env.ar.bxor a b)
  else if op = '<' then .ok (env.ar.shl a b)
  else if op = '>' then .ok (env.ar.shr a b)
  else .error (.arg "internal operator error")

/-- `apply_top`, with the operator it pops. -/
def applyTop (env : EpEnv α) (op : Char) (operands : List α) : Except EpErr (List α) :=
  match operands with
  | b :: a :: operands => do
    let r ← applyOp env op a b
    .ok (r :: operands)
  | _ => .error (.arg "operator is missing an operand")

/-- The loops over `apply_top`: while the operator on top is one to apply. -/
def applyWhile (env : EpEnv α) (now : Char → Bool) :
    List Char → List α → Except EpErr (List Char × List α)
  | [], operands => .ok ([], operands)
  | op :: operators, operands =>
    if now op then do
      let operands ← applyTop env op operands
      applyWhile env now operators operands
    else .ok (op :: operators, operands)

def pushOperator (env : EpEnv α) (ctx : EpCtx α) (op : Char) : Except EpErr (EpCtx α) := do
  let (operators, operands) ←
    applyWhile env (fun top => decide (precedence op ≤ precedence top)) ctx.operators ctx.operands
  if epStackMax ≤ operators.length then .error .tooDeep
  else
    .ok { ctx with operands := operands, operators := op :: operators, expectOperand := true }

/-- A digit run as a `size_t`. -/
def decIndex (digits : List Char) : ℕ :=
  digits.foldl (fun value c => (value * 10 + (c.toNat - '0'.toNat)) % sizeMod) 0

/-- `parse_index`: a digit run; `none` without a digit. -/
def parseIndex (s : List Char) : Option (ℕ × List Char) :=
  match s.takeWhile Char.isDigit with
  | [] => none
  | digits => some (decIndex digits, s.dropWhile Char.isDigit)

/-- The value of `n` in a signed container of `w` bits. -/
def signedOf (w n : ℕ) : ℤ :=
  let m := n % 2 ^ w
  if m < 2 ^ (w - 1) then m else m - (2 ^ w : ℕ)

/-- The byte loop of `parse_range`: `count` reads from `j` on. -/
def readSpan (env : EpEnv α) : ℕ → ℕ → ℕ → EpCtx α → Except EpErr (EpCtx α × ℕ)
  | 0, _, value, ctx => .ok (ctx, value)
  | count + 1, j, value, ctx => do
    let (ctx, b) ← readByte env ctx j
    readSpan env count (j + 1) (value * 256 + b.toNat) ctx

/-- The span of `parse_range`, once its two indexes are read. -/
def readRange (env : EpEnv α) (ctx : EpCtx α) (kind : Char) (start stop : ℕ) :
    Except EpErr (EpCtx α × α) :=
  if stop < start then .error (.arg "inverted range")
  else if 7 < stop - start then .error (.arg "range wider than 8 bytes")
  else do
    let (ctx, value) ← readSpan env (stop - start + 1) start 0 ctx
    -- `j <= end` holds of every `size_t` when `end` is the largest
    if stop = sizeMod - 1 then .error .hang
    else if kind = 'B' then .ok (ctx, env.ar.ofInt value)
    else
      let span := stop - start + 1
      if span = 1 then .ok (ctx, env.ar.ofInt (signedOf 8 value))
      else if span = 2 then .ok (ctx, env.ar.ofInt (signedOf 16 value))
      else if span ≤ 4 then .ok (ctx, env.ar.ofInt (signedOf 32 value))
      else .ok (ctx, env.ar.ofInt (signedOf 64 value))

/-- The text behind the characters `p`. -/
def skip (p s : List Char) : Option (List Char) :=
  if p.isPrefixOf s then some (s.drop p.length) else none

/-- `parse_range`, behind the `'['`: the two indexes and the rest of the text. -/
def parseRangeSyntax (s : List Char) : Except EpErr (Char × ℕ × ℕ × List Char) :=
  match s with
  | [] => .error (.arg "range must be [B..] or [S..]")
  | kind :: s =>
    if kind ≠ 'B' ∧ kind ≠ 'S' then .error (.arg "range must be [B..] or [S..]")
    else
      let range := do
        let (start, s) ← parseIndex s
        let s ← skip [':', kind] s
        let (stop, s) ← parseIndex s
        let s ← skip [']'] s
        some (kind, start, stop, s)
      match range with
      | some range => .ok range
      | none => .error (.arg "bad range syntax")

/-- `parse_range`, behind the `'['`. -/
def parseRange (env : EpEnv α) (ctx : EpCtx α) (s : List Char) :
    Except EpErr (EpCtx α × List Char) := do
  let (kind, start, stop, s) ← parseRangeSyntax s
  let (ctx, out) ← readRange env ctx kind start stop
  let ctx ← pushOperand ctx out
  .ok (ctx, s)

/-- The bit number behind the `':'` of a byte reference. -/
def parseBit (s : List Char) : Option (ℕ × List Char) :=
  match s with
  | c :: s => if c.isDigit ∧ c ≤ '7' then some (c.toNat - '0'.toNat, s) else none
  | [] => none

/-- `parse_byte_ref`, behind the `B` or `S`. -/
def parseByteRef (env : EpEnv α) (ctx : EpCtx α) (kind : Char) (s : List Char) :
    Except EpErr (EpCtx α × List Char) :=
  match parseIndex s with
  | none => .error (.arg "byte reference needs an index")
  | some (index, s) => do
    let (ctx, value) ← readByte env ctx index
    if kind = 'S' then
      let ctx ← pushOperand ctx (env.ar.ofInt (signedOf 8 value.toNat))
      .ok (ctx, s)
    else
      match skip [':'] s with
      | none =>
        let ctx ← pushOperand ctx (env.ar.ofInt value.toNat)
        .ok (ctx, s)
      | some s =>
        match parseBit s with
        | none => .error (.arg "bit index must be 0..7")
        | some (b, s) =>
          let ctx ← pushOperand ctx (env.ar.ofInt (value.toNat / 2 ^ b % 2 : ℕ))
          .ok (ctx, s)

/-- `isspace` in the C locale. -/
def isSpaceC (c : Char) : Bool :=
  c == ' ' || c == '\t' || c == '\n' || c == '\x0b' || c == '\x0c' || c == '\r'

def isNumChar (c : Char) : Bool := c.isDigit || c == '.'

/-- The `'('` branch of `evaluate`. -/
def openParen (ctx : EpCtx α) : Except EpErr (EpCtx α) :=
  if epStackMax ≤ ctx.operators.length then .error .tooDeep
  else .ok { ctx with operators := '(' :: ctx.operators, expectOperand := true, unaryOk := true }

/-- The `')'` branch of `evaluate`; the flags stay as they are. -/
def closeParen (env : EpEnv α) (ctx : EpCtx α) : Except EpErr (EpCtx α) := do
  let (operators, operands) ← applyWhile env (fun top => top != '(') ctx.operators ctx.operands
  match operators with
  | _ :: operators => .ok { ctx with operators := operators, operands := operands }
  | [] => .error (.arg "mismatched parentheses")

/-- The unary minus of `evaluate`: `0 -` the operand to come. -/
def unaryMinus (env : EpEnv α) (ctx : EpCtx α) : Except EpErr (EpCtx α) := do
  let ctx ← pushOperand ctx (env.ar.ofInt 0)
  pushOperator env { ctx with expectOperand := true } '-'

/-- The binary operators of `evaluate`. -/
def binaryOperator (env : EpEnv α) (ctx : EpCtx α) (op : Char) : Except EpErr (EpCtx α) :=
  if ctx.expectOperand then .error (.arg "operator where a value was expected")
  else pushOperator env ctx op

/-- One turn of the loop of `evaluate` on the text `c :: s`. -/
def evaluateStep (env : EpEnv α) (ctx : EpCtx α) (c : Char) (s : List Char) :
    Except EpErr (EpCtx α × List Char) :=
  if isSpaceC c then .ok (ctx, s)
  else if isNumChar c then do
    -- over digits and points only: no exponent notation
    let ctx ← pushOperand ctx (env.ar.num ((c :: s).takeWhile isNumChar))
    .ok (ctx, (c :: s).dropWhile isNumChar)
  else if c = 'V' then do
    let ctx ← pushOperand ctx env.v
    .ok (ctx, s)
  else if c = '[' then parseRange env ctx s
  else if c = 'B' ∨ c = 'S' then parseByteRef env ctx c s
  else if c = '(' then do
    let ctx ← openParen ctx
    .ok (ctx, s)
  else if c = ')' then do
    let ctx ← closeParen env ctx
    .ok (ctx, s)
  else if c = '-' ∧ ctx.unaryOk then do
    let ctx ← unaryMinus env ctx
    .ok (ctx, s)
  else if c = '+' ∨ c = '-' ∨ c = '*' ∨ c = '/' ∨ c = '&' ∨ c = '|' ∨ c = '^' then do
    let ctx ← binaryOperator env ctx c
    .ok (ctx, s)
  else if (c = '<' ∨ c = '>') ∧ s.head? = some c then do
    -- << and >> are one operator
    let ctx ← binaryOperator env ctx c
    .ok (ctx, s.tail)
  else .error (.arg "invalid character")

/-- The loop of `evaluate`; every turn takes at least one character, `fuel`
bounds the turns. -/
def evaluateLoop (env : EpEnv α) : ℕ → EpCtx α → List Char → Except EpErr (EpCtx α)
  | 0, ctx, _ => .ok ctx
  | fuel + 1, ctx, s =>
    match s with
    | [] => .ok ctx
    | c :: s => do
      let (ctx, s) ← evaluateStep env ctx c s
      evaluateLoop env fuel ctx s

/-- The end of `evaluate`: apply what is left. -/
def evaluateEnd (env : EpEnv α) (ctx : EpCtx α) : Except EpErr (EpCtx α × α) := do
  let (operators, operands) ← applyWhile env (fun top => top != '(') ctx.operators ctx.operands
  match operators with
  | _ :: _ => .error (.arg "mismatched parentheses")
  | [] =>
    match operands with
    | [result] => .ok ({ ctx with operators := [], operands := operands }, result)
    | _ => .error (.arg "expression yields no single value")

def evaluate (env : EpEnv α) (s : List Char) : Except EpErr (EpCtx α × α) := do
  let ctx ← evaluateLoop env s.length EpCtx.init s
  evaluateEnd env ctx

def expressionParserEval (ar : Arith α) (s : List Char) (data : List UInt8) (v : α) :
    Except EpErr α := do
  let (_, result) ← evaluate ⟨ar, data, v, false⟩ s
  .ok result

/-- `expression_parser_check`: the highest byte index referenced, `none` for
`SIZE_MAX`. Every failure is an `ESP_ERR_INVALID_ARG` with its reason. -/
def expressionParserCheck (ar : Arith α) (s : List Char) : Except EpErr (Option ℕ) :=
  match evaluate ⟨ar, [], ar.ofInt 0, true⟩ s with
  | .ok (ctx, _) => .ok ctx.maxByte
  | .error (.err _ msg) => .error (.arg msg)
  | .error .hang => .error .hang

end Meatpi
