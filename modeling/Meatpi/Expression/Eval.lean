import Meatpi.Expression.Tokens

/-!
# What an expression evaluates to

The value of an expression tree, and the evaluator's two stacks over a text
that renders the tree. The stacks run ahead of the tree: what is left on them
behind a rendered subtree is the subtree's value once the operators that bind
at least as tight as its level are applied, and whoever comes next (a looser
operator, a closing parenthesis, the end) applies them first.
-/

namespace Meatpi

open List Option

variable {ts : List EpTok} {o : EpOp} {operators : List Char} {p : ℕ} {α : Type}

/-! ## The value of a tree -/

section Value

variable (ar : Arith α) (data : List UInt8) (v : α)

/-- The bits of the container a signed span is read in. -/
def containerBits (span : ℕ) : ℕ :=
  if span = 1 then 8 else if span = 2 then 16 else if span ≤ 4 then 32 else 64

/-- The integer of a span of bytes, the most significant first. -/
def spanInt (signed : Bool) (bytes : List UInt8) : ℤ :=
  let n := ofDigitsBE 256 (bytes.map UInt8.toNat)
  if signed then signedOf (containerBits bytes.length) n else n

/-- The value of an atom, when the payload has its bytes. -/
def atomValue : EpAtom → Option α
  | .num run => some (ar.num run)
  | .v => some v
  | .byte index => data[index]?.map fun b => ar.ofInt b.toNat
  | .bit index b => data[index]?.map fun x => ar.ofInt (x.toNat / 2 ^ b % 2 : ℕ)
  | .sbyte index => data[index]?.map fun b => ar.ofInt (signedOf 8 b.toNat)
  | .range signed start stop =>
    if start ≤ stop ∧ stop ≤ start + 7 ∧ stop < data.length then
      some (ar.ofInt (spanInt signed ((data.drop start).take (stop - start + 1))))
    else none

/-- The value of an operator, none for a division by zero. -/
def opValue : EpOp → α → α → Option α
  | .add, a, b => some (ar.add a b)
  | .sub, a, b => some (ar.sub a b)
  | .mul, a, b => some (ar.mul a b)
  | .div, a, b => if ar.isZero b then none else some (ar.div a b)
  | .band, a, b => some (ar.band a b)
  | .bor, a, b => some (ar.bor a b)
  | .bxor, a, b => some (ar.bxor a b)
  | .shl, a, b => some (ar.shl a b)
  | .shr, a, b => some (ar.shr a b)

abbrev EpTree := Infix.Tree EpAtom EpOp

/-- The value of a tree; a minus in front is `0 -`. -/
def treeValue : EpTree → Option α
  | .atom a => atomValue ar data v a
  | .bin o l r => do
    let a ← treeValue l
    let b ← treeValue r
    opValue ar o a b
  | .neg t => do
    let a ← treeValue t
    some (ar.sub (ar.ofInt 0) a)

end Value

/-! ## Reading the payload -/

section Eval

variable {env : EpEnv α}

theorem readByte_eq (hrun : env.dryRun = false) (ctx : EpCtx α) {index : ℕ} {b : UInt8}
    (hb : env.data[index]? = some b) :
    ∃ m, readByte env ctx index = .ok ({ ctx with maxByte := m }, b) := by
  refine ⟨some (max index (ctx.maxByte.getD 0)), ?_⟩
  simp [readByte, hrun, hb]

theorem readSpan_eq (hrun : env.dryRun = false) (count j value : ℕ) (ctx : EpCtx α)
    (hlen : j + count ≤ env.data.length) :
    ∃ m, readSpan env count j value ctx =
      .ok
        ({ ctx with maxByte := m },
          (((env.data.drop j).take count).map UInt8.toNat).foldl (fun a d => a * 256 + d)
            value) := by
  induction count generalizing j value ctx with
  | zero => exact ⟨ctx.maxByte, rfl⟩
  | succ count ih =>
    have hj : j < env.data.length := by omega
    obtain ⟨m, hread⟩ := readByte_eq hrun ctx (List.getElem?_eq_getElem hj)
    obtain ⟨m', hspan⟩ := ih (j + 1) (value * 256 + env.data[j].toNat)
      { ctx with maxByte := m } (by omega)
    refine ⟨m', ?_⟩
    rw [readSpan, hread]
    simp only [bind, Except.bind]
    rw [hspan, drop_eq_getElem_cons hj, take_succ_cons, map_cons, foldl_cons]

theorem readAtom_eq (hrun : env.dryRun = false) (hsize : env.data.length < sizeMod) (ctx : EpCtx α)
    {a : EpAtom} {x : α} (hx : atomValue env.ar env.data env.v a = some x) :
    ∃ m, readAtom env ctx a = .ok ({ ctx with maxByte := m }, x) := by
  have hindex : ∀ {index : ℕ} {b : UInt8}, env.data[index]? = some b → index % sizeMod = index := by
    intro index b hb
    apply Nat.mod_eq_of_lt
    obtain ⟨hlt, -⟩ := List.getElem?_eq_some_iff.mp hb
    omega
  cases a with
  | num run => cases hx; exact ⟨ctx.maxByte, rfl⟩
  | v => cases hx; exact ⟨ctx.maxByte, rfl⟩
  | byte index =>
    obtain ⟨b, hb, rfl⟩ := map_eq_some_iff.mp hx
    obtain ⟨m, hread⟩ := readByte_eq hrun ctx hb
    exact ⟨m, by simp [readAtom, hindex hb, hread, bind, Except.bind]⟩
  | bit index k =>
    obtain ⟨b, hb, rfl⟩ := map_eq_some_iff.mp hx
    obtain ⟨m, hread⟩ := readByte_eq hrun ctx hb
    exact ⟨m, by simp [readAtom, hindex hb, hread, bind, Except.bind]⟩
  | sbyte index =>
    obtain ⟨b, hb, rfl⟩ := map_eq_some_iff.mp hx
    obtain ⟨m, hread⟩ := readByte_eq hrun ctx hb
    exact ⟨m, by simp [readAtom, hindex hb, hread, bind, Except.bind]⟩
  | range signed start stop =>
    simp only [atomValue] at hx
    split_ifs at hx with hspan
    obtain ⟨hle, h7, hlt⟩ := hspan
    rw [some.injEq] at hx
    have hstart : start % sizeMod = start := Nat.mod_eq_of_lt (by omega)
    have hstop : stop % sizeMod = stop := Nat.mod_eq_of_lt (by omega)
    obtain ⟨m, hread⟩ := readSpan_eq hrun (stop - start + 1) start 0 ctx (by omega)
    refine ⟨m, ?_⟩
    have hend : stop ≠ sizeMod - 1 := by omega
    have hlen : ((env.data.drop start).take (stop - start + 1)).length = stop - start + 1 := by
      rw [length_take, length_drop]
      omega
    have hnat : (((env.data.drop start).take (stop - start + 1)).map UInt8.toNat).foldl
        (fun a d => a * 256 + d) 0 =
        ofDigitsBE 256 (((env.data.drop start).take (stop - start + 1)).map UInt8.toNat) := rfl
    rw [hnat] at hread
    simp only [readAtom, hstart, hstop, readRange, Nat.not_lt.mpr hle, if_false, hread, hend,
      show ¬ 7 < stop - start by omega, bind, Except.bind, ← hx, spanInt, hlen, containerBits]
    cases signed with
    | false => simp
    | true => simp; split_ifs <;> rfl

/-! ## The stacks -/

theorem applyOp_eq {a b x : α} (hx : opValue env.ar o a b = some x) :
    applyOp env o.char a b = .ok x := by
  cases o
  case div =>
    simp only [opValue] at hx
    split_ifs at hx with hz
    cases hx
    simp [applyOp, EpOp.char, hz]
  all_goals
    cases hx
    rfl

theorem applyWhile_stop (now : Char → Bool) (operands : List α)
    (h : ∀ top ∈ operators.head?, now top = false) :
    applyWhile env now operators operands = .ok (operators, operands) := by
  cases operators with
  | nil => rfl
  | cons op operators => rw [applyWhile, if_neg (by simp [h op rfl])]

theorem pushOperand_cases (ctx : EpCtx α) (x : α) :
    pushOperand ctx x = .error .tooDeep ∨ pushOperand ctx x = .ok { ctx with
        operands := x :: ctx.operands, expectOperand := false, unaryOk := false } := by
  rw [pushOperand]
  split_ifs
  · exact .inl rfl
  · exact .inr rfl

theorem pushOperator_cases {ctx : EpCtx α} {operands : List α}
    (h : applyWhile env (fun top => decide (precedence o.char ≤ precedence top)) ctx.operators
      ctx.operands = .ok (operators, operands)) :
    pushOperator env ctx o.char = .error .tooDeep ∨ pushOperator env ctx o.char = .ok { ctx with
        operands := operands, operators := o.char :: operators, expectOperand := true } := by
  simp only [pushOperator, h, bind, Except.bind]
  split_ifs
  · exact .inl rfl
  · exact .inr rfl

theorem applyWhile_looser (hp : p ≤ o.prec) (htop : ∀ top ∈ operators.head?, precedence top < p)
    (operands : List α) :
    applyWhile env (fun top => decide (precedence o.char ≤ precedence top)) operators operands =
      .ok (operators, operands) := by
  apply applyWhile_stop
  intro top ht
  have := htop top ht
  rw [EpOp.prec] at hp
  exact decide_eq_false (by omega)

theorem unaryMinus_cases {ctx : EpCtx α} (hp : p ≤ EpOp.sub.prec)
    (htop : ∀ top ∈ ctx.operators.head?, precedence top < p) :
    unaryMinus env ctx = .error .tooDeep ∨ unaryMinus env ctx = .ok { ctx with
        operands := env.ar.ofInt 0 :: ctx.operands, operators := EpOp.sub.char :: ctx.operators,
        expectOperand := true, unaryOk := false } := by
  rw [unaryMinus]
  rcases pushOperand_cases ctx (env.ar.ofInt 0) with hpush | hpush
  · exact .inl (by rw [hpush]; rfl)
  · rw [hpush]
    exact pushOperator_cases (o := .sub) (applyWhile_looser hp htop _)

/-- What is left of a value of level `p` on the stacks. -/
structure Holds (env : EpEnv α) (p : ℕ) (x : α) (ctx ctx' : EpCtx α) : Prop where
  expectOperand : ctx'.expectOperand = false
  unaryOk : ctx'.unaryOk = false
  /-- applying the operators of level `p` and tighter leaves the value -/
  apply : ∀ now : Char → Bool, (∀ o : EpOp, p ≤ o.prec → now o.char = true) →
    applyWhile env now ctx'.operators ctx'.operands =
      applyWhile env now ctx.operators (x :: ctx.operands)

/-- **The stacks over a rendered tree**: the value, unless a stack is full. -/
theorem foldlM_evalTok (hrun : env.dryRun = false) (hsize : env.data.length < sizeMod) {lead : Bool}
    {t : EpTree} (hr : Infix.Renders EpOp.prec .sub lead p t ts) :
    ∀ {x : α}, treeValue env.ar env.data env.v t = some x → ∀ ctx : EpCtx α,
      (lead = true → ctx.unaryOk = true) →
      (∀ top ∈ ctx.operators.head?, precedence top < p) →
      ts.foldlM (evalTok env) ctx = .error .tooDeep ∨
        ∃ ctx', ts.foldlM (evalTok env) ctx = .ok ctx' ∧ Holds env p x ctx ctx' := by
  induction hr with
  | atom lead p a =>
    intro x hx ctx _ _
    obtain ⟨m, hread⟩ := readAtom_eq hrun hsize ctx hx
    rw [foldlM_cons, evalTok, hread]
    simp only [bind, Except.bind]
    rcases pushOperand_cases { ctx with maxByte := m } x with hpush | hpush
    · exact .inl (by rw [hpush])
    · exact .inr ⟨_, by rw [hpush]; rfl, rfl, rfl, fun now _ => rfl⟩
  | @paren lead p t ts _ ih =>
    intro x hx ctx _ _
    rw [cons_append, foldlM_cons, evalTok, openParen]
    split_ifs with hdeep
    · exact .inl rfl
    · rcases ih hx
        { ctx with operators := '(' :: ctx.operators, expectOperand := true, unaryOk := true }
        (fun _ => rfl) (by simp [precedence]) with hfail | ⟨ctx', hrun', hholds⟩
      · exact .inl (by simp [foldlM_append, hfail, bind, Except.bind])
      · -- the closing parenthesis applies every operator down to its `'('`
        have happly := hholds.apply (fun top => top != '(') fun o _ => by cases o <;> rfl
        have hstop : applyWhile env (fun top => top != '(') ('(' :: ctx.operators)
            (x :: ctx.operands) = .ok ('(' :: ctx.operators, x :: ctx.operands) := rfl
        rw [hstop] at happly
        refine .inr ⟨{ ctx' with operators := ctx.operators, operands := x :: ctx.operands }, ?_,
          hholds.expectOperand, hholds.unaryOk, fun now _ => rfl⟩
        simp [foldlM_append, hrun', evalTok, closeParen, happly, bind, Except.bind, pure,
          Except.pure]
  | @bin lead p o l r ts ts' hp _ _ ihl ihr =>
    intro x hx ctx hlead htop
    simp only [treeValue, bind_eq_bind, bind_eq_some_iff] at hx
    obtain ⟨a, ha, b, hb, hx⟩ := hx
    rw [foldlM_append]
    rcases ihl ha ctx hlead (fun top ht => (htop top ht).trans_le hp) with hfail | ⟨ctx₁, hrun₁, h₁⟩
    · exact .inl (by rw [hfail]; rfl)
    rw [hrun₁]
    -- the operator applies what binds at least as tight in the left operand
    have hleft := h₁.apply (fun top => decide (precedence o.char ≤ precedence top))
      fun o' ho' => decide_eq_true ho'
    rw [applyWhile_looser hp htop] at hleft
    have hop : evalTok env ctx₁ (.op o) = pushOperator env ctx₁ o.char := by
      simp [evalTok, h₁.unaryOk, binaryOperator, h₁.expectOperand]
    simp only [bind, Except.bind, foldlM_cons, hop]
    rcases pushOperator_cases hleft with hpush | hpush
    · exact .inl (by rw [hpush])
    rw [hpush]
    rcases ihr hb { ctx₁ with
        operands := a :: ctx.operands, operators := o.char :: ctx.operators, expectOperand := true }
        (fun h => by cases h) (by simp [EpOp.prec]) with hfail | ⟨ctx₂, hrun₂, h₂⟩
    · exact .inl hfail
    refine .inr ⟨ctx₂, hrun₂, h₂.expectOperand, h₂.unaryOk, fun now hnow => ?_⟩
    rw [h₂.apply now fun o' ho' => hnow o' (by omega), applyWhile, if_pos (hnow o hp), applyTop,
      applyOp_eq hx]
    rfl
  | @neg p t ts hp _ ih =>
    intro x hx ctx hlead htop
    simp only [treeValue, bind_eq_bind, bind_eq_some_iff, some.injEq] at hx
    obtain ⟨a, ha, rfl⟩ := hx
    have hop : evalTok env ctx (.op .sub) = unaryMinus env ctx := by simp [evalTok, hlead rfl]
    rw [foldlM_cons, hop]
    simp only [bind, Except.bind]
    rcases unaryMinus_cases hp htop with hminus | hminus
    · exact .inl (by rw [hminus])
    rw [hminus]
    rcases ih ha { ctx with
        operands := env.ar.ofInt 0 :: ctx.operands, operators := EpOp.sub.char :: ctx.operators,
        expectOperand := true, unaryOk := false }
        (fun h => by cases h) (by simp [EpOp.prec]) with hfail | ⟨ctx₂, hrun₂, h₂⟩
    · exact .inl hfail
    refine .inr ⟨ctx₂, hrun₂, h₂.expectOperand, h₂.unaryOk, fun now hnow => ?_⟩
    rw [h₂.apply now fun o' ho' => hnow o' (by omega), applyWhile, if_pos (hnow .sub hp)]
    rfl

theorem evaluate_renders (hrun : env.dryRun = false) (hsize : env.data.length < sizeMod)
    {t : EpTree} {s : List Char} (hr : Infix.Renders EpOp.prec .sub true 1 t ts) (hs : Spells ts s)
    {x : α} (hx : treeValue env.ar env.data env.v t = some x) :
    evaluate env s = .error .tooDeep ∨ ∃ ctx, evaluate env s = .ok (ctx, x) := by
  have hsep : Infix.separated ts = true := by
    have hplaced := (Infix.isInfix_iff_placed .sub ts).mp hr.isInfix
    exact Infix.placed_separated .sub hplaced
  rw [evaluate_of_tokenize env (hs.tokenize hsep)]
  rcases foldlM_evalTok hrun hsize hr hx EpCtx.init (fun _ => rfl) (by simp [EpCtx.init]) with
    hfail | ⟨ctx, hctx, hholds⟩
  · exact .inl (by rw [hfail]; rfl)
  · have happly := hholds.apply (fun top => top != '(') fun o _ => by cases o <;> rfl
    rw [hctx]
    exact .inr ⟨_, by simp only [bind, Except.bind, evaluateEnd, happly]; rfl⟩

end Eval

/-- The text stays within the evaluator's stacks. -/
def WithinStacks (ar : Arith α) (s : List Char) (data : List UInt8) (v : α) : Prop :=
  expressionParserEval ar s data v ≠ .error .tooDeep

instance [DecidableEq α] (ar : Arith α) (s : List Char) (data : List UInt8) (v : α) :
    Decidable (WithinStacks ar s data v) :=
  inferInstanceAs (Decidable (expressionParserEval ar s data v ≠ .error .tooDeep))

/-- **An expression means what it says.** For any arithmetic, a text that
renders an expression tree with any blanks and parentheses, within the stacks,
evaluates to the value of the tree whenever that is defined: no division by
zero occurs and every byte is in the payload. -/
theorem expressionParserEval_renders (ar : Arith α) (data : List UInt8) (v : α)
    (hsize : data.length < sizeMod) {t : EpTree} {ts : List EpTok} {s : List Char}
    (hr : Infix.Renders EpOp.prec .sub true 1 t ts) (hs : Spells ts s)
    (hdeep : WithinStacks ar s data v) {x : α} (hx : treeValue ar data v t = some x) :
    expressionParserEval ar s data v = .ok x := by
  obtain ⟨env, henv⟩ : ∃ env : EpEnv α, env = ⟨ar, data, v, false⟩ := ⟨_, rfl⟩
  have heval : evaluate env s = .error .tooDeep ∨ ∃ ctx, evaluate env s = .ok (ctx, x) := by
    subst henv
    exact evaluate_renders rfl hsize hr hs hx
  subst henv
  rcases heval with hfail | ⟨ctx, hctx⟩
  · exact absurd (by rw [expressionParserEval, hfail]; rfl) hdeep
  · rw [expressionParserEval, hctx]
    rfl

/-- Integers, to run expressions on. -/
def intArith : Arith ℤ where
  ofInt n := n
  num run := decNat (run.takeWhile Char.isDigit)
  add := (· + ·)
  sub := (· - ·)
  mul := (· * ·)
  div := Int.tdiv
  band a b := (a.toNat &&& b.toNat : ℕ)
  bor a b := (a.toNat ||| b.toNat : ℕ)
  bxor a b := (a.toNat ^^^ b.toNat : ℕ)
  shl a b := a * 2 ^ b.toNat
  shr a b := a / 2 ^ b.toNat
  isZero b := b == 0

/-- A minus in front of a product, a sum in parentheses under it. -/
theorem expressionParserEval_renders_minus :
    expressionParserEval intArith "-B1 * (2+ V)<<1".toList [7, 4] 3 = .ok (-40) := by
  have h2 : Infix.Renders EpOp.prec EpOp.sub true 4 (.atom (.num ['2']) : EpTree) _ :=
    .atom true 4 _
  have hV : Infix.Renders EpOp.prec EpOp.sub false 5 (.atom .v : EpTree) _ := .atom false 5 _
  have hB1 : Infix.Renders EpOp.prec EpOp.sub false 5 (.atom (.byte 1) : EpTree) _ :=
    .atom false 5 _
  have h1 : Infix.Renders EpOp.prec EpOp.sub false 4 (.atom (.num ['1']) : EpTree) _ :=
    .atom false 4 _
  have hsum := Infix.Renders.bin (o := EpOp.add) (p := 1) (by decide) h2 hV
  have hproduct := Infix.Renders.bin (o := EpOp.mul) (p := 5) (by decide) hB1 (.paren false 6 hsum)
  have hneg := Infix.Renders.neg (p := 3) (by decide) hproduct
  have hr := Infix.Renders.bin (o := EpOp.shl) (p := 1) (by decide) hneg h1
  have hsp : ∀ c ∈ [' '], isSpaceC c = true := all_eq_true.mp rfl
  have hd1 : ∀ c ∈ ['1'], c.isDigit = true := all_eq_true.mp rfl
  have hn1 : ∀ c ∈ ['1'], isNumChar c = true := all_eq_true.mp rfl
  have hn2 : ∀ c ∈ ['2'], isNumChar c = true := all_eq_true.mp rfl
  have hs : Spells [.op .sub, .atom (.byte 1), .op .mul, .lpar, .atom (.num ['2']), .op .add,
      .atom .v, .rpar, .op .shl, .atom (.num ['1'])]
      ([] ++ ['-'] ++ ([] ++ ['B', '1'] ++ ([' '] ++ ['*'] ++ ([' '] ++ ['('] ++
      ([] ++ ['2'] ++ ([] ++ ['+'] ++ ([' '] ++ ['V'] ++ ([] ++ [')'] ++ ([] ++ ['<', '<'] ++
      ([] ++ ['1'] ++ [])))))))))) :=
    .cons (by simp) (.op .sub) (.cons (by simp) (.atom (.byte ['1'] (by simp) hd1))
      (.cons hsp (.op .mul) (.cons hsp .lpar
      (.cons (by simp) (.atom (.num ['2'] (by simp) hn2))
      (.cons (by simp) (.op .add) (.cons hsp (.atom .v) (.cons (by simp) .rpar
      (.cons (by simp) (.op .shl) (.cons (by simp) (.atom (.num ['1'] (by simp) hn1))
      (.nil (by simp)))))))))))
  exact expressionParserEval_renders intArith [7, 4] 3 (by decide) hr hs (by decide) (by decide)

end Meatpi
