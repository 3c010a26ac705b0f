import Meatpi.Autopid.DbcText
import Meatpi.Expression.Exact

/-!
# What a composed text means

A text composed of tokens, with the tree it renders. Once its values are known the
evaluator gives the value of the tree (`Means.eval`): no stack is too small for a
text of so few tokens.
-/

namespace Meatpi

variable {c c' : Counts} {o : EpOp} {data : List UInt8} {α : Type}

/-- The tokens are a composed text, and render the tree at any place for operators
that bind at least as tight as `p`. -/
structure Means (top operands operators p : ℕ) (t : EpTree) (ts : List EpTok) : Prop
    extends Compiled top operands operators ts where
  renders : ∀ lead, Infix.Renders EpOp.prec EpOp.sub lead p t ts

section Means

variable {top a b a' b' p : ℕ} {t t' : EpTree} {ts ts' : List EpTok}

theorem Means.mono_stacks (h : Means top a b p t ts) (ha : a ≤ a') (hb : b ≤ b') :
    Means top a' b' p t ts :=
  ⟨h.toCompiled.mono ha hb, h.renders⟩

theorem Means.atom {x : EpAtom} (hw : Writable (.atom x))
    (hbelow : ∀ n ∈ refIndexes (.atom x), n ≤ top) (hfits : rangeFits (.atom x) = true) :
    Means top 1 0 p (.atom x) [.atom x] :=
  ⟨.atom hw hbelow hfits, fun lead => .atom lead p x⟩

theorem Means.num {run : List Char} (h : IsRun run) :
    Means top 1 0 p (.atom (.num run)) [.atom (.num run)] :=
  .atom h (by simp [refIndexes]) rfl

theorem Means.byte {k : ℕ} (h : k ≤ top) : Means top 1 0 p (.atom (.byte k)) [.atom (.byte k)] :=
  .atom trivial (by simpa [refIndexes] using h) rfl

theorem Means.paren (h : Means top a b 1 t ts) : Means top a (b + 1) p t (.lpar :: ts ++ [.rpar]) :=
  ⟨h.toCompiled.paren, fun lead => .paren lead p (h.renders true)⟩

theorem Means.bin (h : Means top a b p t ts) (o : EpOp) (h' : Means top a' b' (o.prec + 1) t' ts')
    (hp : p = o.prec) {q : ℕ} (hq : q ≤ p) :
    Means top (a + operandsOf (.op o) + a') (b + 1 + b') q (.bin o t t') (ts ++ .op o :: ts') := by
  subst hp
  exact ⟨h.toCompiled.bin o h'.toCompiled, fun lead => .bin hq (h.renders lead) (h'.renders false)⟩

/-- **A composed text evaluates** to the value of its tree. -/
theorem Means.eval (ar : Arith α) {v x : α} (h : Means top a b 1 t ts) (ha : a ≤ epStackMax)
    (hb : b ≤ epStackMax) (hsize : data.length < sizeMod) (hx : treeValue ar data v t = some x) :
    expressionParserEval ar (ts.flatMap tokText) data v = .ok x := by
  have hplaced := (Infix.isInfix_iff_placed EpOp.sub ts).mp (h.reads true)
  have hts := tokenize_tokTexts h.writable (Infix.placed_separated EpOp.sub hplaced)
  have hdeep := withinStacks_of_few ar hts (h.operands_le.trans ha) (h.operators_le.trans hb) data v
  exact expressionParserEval_renders ar data v hsize (h.renders true) (spells_tokTexts h.writable)
    hdeep hx

end Means

theorem treeValue_bin {ar : Arith α} {v x y : α} {l r : EpTree}
    (hl : treeValue ar data v l = some x) (hr : treeValue ar data v r = some y) :
    treeValue ar data v (.bin o l r) = opValue ar o x y := by
  rw [treeValue, hl, hr]
  rfl

theorem treeValue_num (data : List UInt8) (v : ℚ) (run : List Char) :
    treeValue ratArith data v (.atom (.num run)) = some (decimalValue run) := rfl

/-! ## A minus out of place -/

theorem countTok_lead {tok : EpTok} (h : countTok c tok = some c')
    (hlead : c.lead = true → c.awaited = true) : c'.lead = true → c'.awaited = true := by
  cases tok with
  | atom a => cases h; exact fun h => by cases h
  | lpar => cases h; exact fun _ => rfl
  | rpar =>
    rw [countTok] at h
    split at h
    · split_ifs at h
      cases h
      exact hlead
    · cases h
  | op o =>
    rw [countTok] at h
    split_ifs at h <;> cases h <;> exact fun _ => rfl

theorem foldlM_countTok_lead {ts : List EpTok} (h : ts.foldlM countTok c = some c')
    (hlead : (c.lead = true → c.awaited = true)) : (c'.lead = true → c'.awaited = true) := by
  induction ts generalizing c c' with
  | nil =>
    cases h
    exact hlead
  | cons tok ts ih =>
    obtain ⟨c₁, h₁, h⟩ := Option.bind_eq_some_iff.1 h
    exact ih h (countTok_lead h₁ hlead)

/-- **A minus behind an operator** is refused: the text has no value. -/
theorem expressionParserEval_minus (ar : Arith α) {ts ts' : List EpTok} (ho : o ≠ .sub)
    (hw : ∀ tok ∈ ts ++ .op o :: .op .sub :: ts', Writable tok)
    (hsep : Infix.separated (ts ++ .op o :: .op .sub :: ts') = true) (data : List UInt8) (v x : α) :
    expressionParserEval ar ((ts ++ .op o :: .op .sub :: ts').flatMap tokText) data v ≠ .ok x := by
  intro h
  obtain ⟨m, hm, -⟩ := expressionParserCheck_of_eval h
  have hdeep : CheckWithinStacks ar ((ts ++ .op o :: .op .sub :: ts').flatMap tokText) := by
    rw [CheckWithinStacks, hm]
    rintro ⟨⟩
  obtain ⟨ts₀, hts₀, -, hcount⟩ := (expressionParserCheck_isOk_iff ar hdeep).mp ⟨m, hm⟩
  rw [tokenize_tokTexts hw hsep] at hts₀
  cases hts₀
  rw [countsOut, List.foldlM_append] at hcount
  cases hc : ts.foldlM countTok Counts.init with
  | none =>
    rw [hc] at hcount
    cases hcount
  | some c =>
    have hlead := foldlM_countTok_lead hc fun _ => rfl
    -- the operator awaits a value, and no minus may stand in front of it
    have hrefuse : (.op o :: .op .sub :: ts' : List EpTok).foldlM countTok c = none := by
      rw [List.foldlM_cons, countTok, if_neg fun h => ho h.1]
      split_ifs with hawaited
      · rfl
      · have hno : c.lead ≠ true := fun h => hawaited (hlead h)
        simp [countTok, hno]
    rw [hc, Option.bind_eq_bind, Option.bind_some, hrefuse] at hcount
    cases hcount

end Meatpi
