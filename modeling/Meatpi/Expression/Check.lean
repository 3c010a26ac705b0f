import Meatpi.Expression.Eval
import Mathlib.Data.List.TakeWhile

/-!
# What the check accepts

A dry run fakes every value, so what it accepts is a matter of counting: an
operator wants a value awaited before it, and applying one wants two operands on
the stack, wherever in the text these came from. `countTok` is that count, and
`expressionParserCheck_isOk_iff` says that the check accepts what comes out of
it. The documented grammar (`IsSentence`) is local: values and operators
alternate. The two part on texts whose values stand side by side and still come
out even.
-/

namespace Meatpi

open Infix List Option

variable {a : EpAtom} {o : EpOp} {tok : EpTok} {c : Char} {rest s : List Char} {ts : List EpTok}

/-! ## Tokens read back -/

theorem lexIndex_some {n : ℕ} (h : lexIndex s = some (n, rest)) :
    ∃ ds, ds ≠ [] ∧ (∀ c ∈ ds, c.isDigit = true) ∧ n = decNat ds ∧ s = ds ++ rest := by
  have hall : ∀ c ∈ s.takeWhile Char.isDigit, c.isDigit = true := fun c hc => mem_takeWhile_imp hc
  have hcut := takeWhile_append_dropWhile (p := Char.isDigit) (l := s)
  rw [lexIndex] at h
  cases hds : s.takeWhile Char.isDigit with
  | nil => simp [hds] at h
  | cons d ds =>
    rw [hds] at h hall hcut
    obtain ⟨rfl, rfl⟩ := h
    exact ⟨d :: ds, by simp, hall, rfl, hcut.symm⟩

theorem skip_some {p : List Char} (h : skip p s = some rest) : s = p ++ rest := by
  rw [skip] at h
  split_ifs at h with hp
  obtain ⟨rest', rfl⟩ := isPrefixOf_iff_prefix.mp hp
  rw [drop_left, some.injEq] at h
  rw [h]

theorem lexRange_some (h : lexRange s = some (a, rest)) :
    ∃ text, '[' :: s = text ++ rest ∧ SpellsAtom a text := by
  cases s with
  | nil => cases h
  | cons kind s =>
    simp only [lexRange, bind_eq_bind] at h
    split_ifs at h with hkind
    simp only [bind_eq_some_iff, Prod.exists, some.injEq, Prod.mk.injEq] at h
    obtain ⟨start, s₁, hstart, s₂, hcolon, stop, s₃, hstop, s₄, hclose, rfl, rfl⟩ := h
    obtain ⟨ds, hne, hds, rfl, rfl⟩ := lexIndex_some hstart
    obtain rfl := skip_some hcolon
    obtain ⟨ds', hne', hds', rfl, rfl⟩ := lexIndex_some hstop
    obtain rfl := skip_some hclose
    have hk : (if (kind == 'S') = true then 'S' else 'B') = kind := by
      by_cases hS : kind = 'S'
      · simp [hS]
      · rw [if_neg (by simpa using hS)]
        by_contra hB
        exact hkind ⟨fun h => hB h.symm, hS⟩
    have hspell := SpellsAtom.range (kind == 'S') ds ds' hne hds hne' hds'
    rw [hk] at hspell
    exact ⟨_, by simp, hspell⟩

theorem lexByteRef_some {kind : Char} (hkind : kind = 'B' ∨ kind = 'S')
    (h : lexByteRef kind s = some (a, rest)) :
    ∃ text, kind :: s = text ++ rest ∧ SpellsAtom a text := by
  simp only [lexByteRef, bind_eq_bind, bind_eq_some_iff, Prod.exists] at h
  obtain ⟨index, s₁, hindex, h⟩ := h
  obtain ⟨ds, hne, hds, rfl, rfl⟩ := lexIndex_some hindex
  split_ifs at h with hS
  · cases h
    subst hS
    exact ⟨_, rfl, .sbyte ds hne hds⟩
  · obtain rfl := hkind.resolve_right hS
    cases hskip : skip [':'] s₁ with
    | none =>
      rw [hskip] at h
      cases h
      exact ⟨_, rfl, .byte ds hne hds⟩
    | some s₂ =>
      rw [hskip] at h
      simp only [bind_eq_some_iff, Prod.exists, some.injEq, Prod.mk.injEq] at h
      obtain ⟨b, s₃, hbit, rfl, rfl⟩ := h
      obtain rfl := skip_some hskip
      cases s₂ with
      | nil => cases hbit
      | cons c s₂ =>
        simp only [parseBit] at hbit
        split_ifs at hbit with hc
        cases hbit
        exact ⟨_, by simp, .bit ds c hne hds hc.1 hc.2⟩

theorem lexStep_blank (h : lexStep c s = some (none, rest)) : isSpaceC c = true ∧ rest = s := by
  rw [lexStep] at h
  split_ifs at h with hspace
  · cases h
    exact ⟨hspace, rfl⟩
  all_goals try cases h
  · cases hlex : lexRange s <;> simp [hlex] at h
  · cases hlex : lexByteRef c s <;> simp [hlex] at h
  · cases hlex : lexOp c s <;> simp [hlex] at h

theorem opOfChar_text (h : opOfChar c = some o) : o.text = [c] := by
  simp only [opOfChar] at h
  split_ifs at h <;> cases h <;> subst_vars <;> rfl

theorem lexOp_some (h : lexOp c s = some (o, rest)) : c :: s = o.text ++ rest := by
  rw [lexOp] at h
  cases ho : opOfChar c with
  | some o' =>
    rw [ho] at h
    cases h
    rw [opOfChar_text ho]
    rfl
  | none =>
    simp only [ho] at h
    split_ifs at h with hl hr
    · obtain ⟨rfl, hl⟩ := hl
      obtain ⟨s', rfl⟩ := List.head?_eq_some_iff.mp hl
      cases h
      rfl
    · obtain ⟨rfl, hr⟩ := hr
      obtain ⟨s', rfl⟩ := List.head?_eq_some_iff.mp hr
      cases h
      rfl

theorem lexStep_token (h : lexStep c s = some (some tok, rest)) :
    ∃ text, c :: s = text ++ rest ∧ SpellsTok tok text := by
  rw [lexStep] at h
  split_ifs at h with hspace hnum hV hrange hbyte hopen hclose
  · cases h
  · cases h
    refine ⟨_, (takeWhile_append_dropWhile (p := isNumChar) (l := c :: s)).symm,
      .atom (.num _ ?_ fun d hd => mem_takeWhile_imp hd)⟩
    rw [takeWhile_cons_of_pos hnum]
    simp
  · cases h
    subst hV
    exact ⟨_, rfl, .atom .v⟩
  · subst hrange
    obtain ⟨⟨a, s'⟩, hlex, heq⟩ := map_eq_some_iff.mp h
    cases heq
    obtain ⟨text, htext, ha⟩ := lexRange_some hlex
    exact ⟨text, htext, .atom ha⟩
  · obtain ⟨⟨a, s'⟩, hlex, heq⟩ := map_eq_some_iff.mp h
    cases heq
    obtain ⟨text, htext, ha⟩ := lexByteRef_some hbyte hlex
    exact ⟨text, htext, .atom ha⟩
  · cases h
    subst hopen
    exact ⟨_, rfl, .lpar⟩
  · cases h
    subst hclose
    exact ⟨_, rfl, .rpar⟩
  · obtain ⟨⟨o, s'⟩, hlex, heq⟩ := map_eq_some_iff.mp h
    cases heq
    exact ⟨o.text, lexOp_some hlex, .op o⟩

theorem SpellsTok.ne_nil {text : List Char} (h : SpellsTok tok text) : text ≠ [] := by
  cases h with
  | atom ha => cases ha <;> simp_all
  | op o => cases o <;> simp [EpOp.text]
  | lpar => simp
  | rpar => simp

theorem spells_of_tokenizeLoop {fuel : ℕ} {s : List Char} {ts : List EpTok}
    (hlen : s.length ≤ fuel) (h : tokenizeLoop fuel s = some ts) : Spells ts s := by
  induction fuel generalizing s ts with
  | zero =>
    cases h
    rw [eq_nil_of_length_eq_zero (Nat.le_zero.mp hlen)]
    exact .nil (by simp)
  | succ fuel ih =>
    cases s with
    | nil => cases h; exact .nil (by simp)
    | cons c s =>
      rw [length_cons, Nat.add_le_add_iff_right] at hlen
      rw [tokenizeLoop] at h
      rcases hlex : lexStep c s with _ | ⟨_ | tok, rest⟩
      · simp [hlex] at h
      · rw [hlex] at h
        obtain ⟨hc, rfl⟩ := lexStep_blank hlex
        -- a blank joins the blanks before the next token
        cases ih hlen h with
        | nil hb =>
          refine .nil fun d hd => ?_
          rcases mem_cons.mp hd with rfl | hd
          · exact hc
          · exact hb d hd
        | @cons blanks text s tok ts hb htext hspell =>
          have hb' : ∀ d ∈ c :: blanks, isSpaceC d = true := by
            intro d hd
            rcases mem_cons.mp hd with rfl | hd
            · exact hc
            · exact hb d hd
          exact .cons hb' htext hspell
      · rw [hlex] at h
        obtain ⟨ts, hts, rfl⟩ := map_eq_some_iff.mp h
        obtain ⟨text, htext, htok⟩ := lexStep_token hlex
        have hshort : rest.length ≤ fuel := by
          have hl := congrArg List.length htext
          rw [length_cons, length_append] at hl
          have := length_pos_of_ne_nil htok.ne_nil
          omega
        have hb : ∀ d ∈ ([] : List Char), isSpaceC d = true := by simp
        rw [htext]
        exact .cons hb htok (ih hshort hts)

theorem spells_of_tokenize (h : tokenize s = some ts) : Spells ts s :=
  spells_of_tokenizeLoop (Nat.le_refl _) h

/-! ## The count -/

/-- What the check's stacks come down to: is a value awaited, may a minus stand
here, how many values there are beyond the operators', and for each open level,
the innermost first, whether it has an operator. -/
structure Counts where
  awaited : Bool
  lead : Bool
  surplus : ℕ
  levels : List Bool

def Counts.init : Counts := ⟨true, true, 0, [false]⟩

/-- The count on a token; `none` where the text is refused. -/
def countTok (c : Counts) : EpTok → Option Counts
  | .atom _ => some { c with awaited := false, lead := false, surplus := c.surplus + 1 }
  | .op o =>
    if o = .sub ∧ c.lead then
      -- a minus in front brings its own value
      some { c with awaited := true, lead := false, levels := true :: c.levels.tail }
    else if c.awaited then none
    else some { c with
      awaited := true, surplus := c.surplus - 1, levels := true :: c.levels.tail }
  | .lpar => some { c with awaited := true, lead := true, levels := false :: c.levels }
  | .rpar =>
    match c.levels with
    | own :: outer :: levels =>
      -- closing a level applies its operator, which wants a value to spare or
      -- an outer operator's left operand
      if own ∧ c.surplus = 0 ∧ ¬ (outer :: levels).any id then none
      else some { c with levels := outer :: levels }
    | _ => none

/-- All levels are closed and one value is left. -/
def Counts.done (c : Counts) : Bool := decide (c.surplus = 1) && decide (c.levels.length = 1)

/-- The text counts out to one value. -/
def countsOut (ts : List EpTok) : Bool := (ts.foldlM countTok Counts.init).any Counts.done

/-- A dry run takes the range: in order, at most eight bytes, and not up to
`SIZE_MAX`, with its indexes as `size_t`. -/
def rangeFits : EpTok → Bool
  | .atom (.range _ start stop) =>
    decide (start % sizeMod ≤ stop % sizeMod) && decide (stop % sizeMod - start % sizeMod ≤ 7) &&
      decide (stop % sizeMod ≠ sizeMod - 1)
  | _ => true

/-! ## The count is the run -/

/-- The operators on the stack, without the parentheses. -/
def opCount (operators : List Char) : ℕ := operators.countP (· != '(')

/-- For each open level, the innermost first: is an operator of it on the stack? -/
def levelsOf : List Char → List Bool
  | [] => [false]
  | op :: operators =>
    if op = '(' then false :: levelsOf operators else true :: (levelsOf operators).tail

section Dry

variable {α : Type} {env : EpEnv α}

/-- The stacks and the count. -/
structure Agrees (ctx : EpCtx α) (c : Counts) : Prop where
  awaited : ctx.expectOperand = c.awaited
  lead : ctx.unaryOk = c.lead
  levels : levelsOf ctx.operators = c.levels
  operands : ctx.operands.length = c.surplus + opCount ctx.operators
  spare : c.awaited = false → 1 ≤ c.surplus
  operators : ∀ op ∈ ctx.operators, op = '(' ∨ ∃ o : EpOp, op = o.char

theorem agrees_init : Agrees (EpCtx.init : EpCtx α) Counts.init where
  awaited := rfl
  lead := rfl
  levels := rfl
  operands := rfl
  spare := by decide
  operators := by simp [EpCtx.init]

theorem char_ne_lpar (o : EpOp) : o.char ≠ '(' := by cases o <;> decide

theorem applyOp_dry (hdry : env.dryRun = true) (o : EpOp) (a b : α) :
    ∃ r, applyOp env o.char a b = .ok r := by
  cases o
  case div =>
    by_cases hz : env.ar.isZero b = true
    · exact ⟨env.ar.div a (env.ar.ofInt 1), by simp [applyOp, EpOp.char, hz, hdry]⟩
    · exact ⟨env.ar.div a b, by simp [applyOp, EpOp.char, hz]⟩
  all_goals exact ⟨_, rfl⟩

theorem applyTop_dry (hdry : env.dryRun = true) (o : EpOp) {operands : List α}
    (h : 2 ≤ operands.length) :
    ∃ operands', applyTop env o.char operands = .ok operands' ∧
      operands'.length + 1 = operands.length := by
  rcases operands with _ | ⟨b, _ | ⟨a, operands⟩⟩
  · simp at h
  · simp at h
  · obtain ⟨r, hr⟩ := applyOp_dry hdry o a b
    exact ⟨r :: operands, by rw [applyTop, hr]; rfl, rfl⟩

theorem applyTop_short (op : Char) {operands : List α} (h : operands.length < 2) :
    applyTop env op operands = .error (.arg "operator is missing an operand") := by
  rcases operands with _ | ⟨b, _ | ⟨a, operands⟩⟩
  · rfl
  · rfl
  · simp only [length_cons] at h
    omega

theorem applyWhile_dry (hdry : env.dryRun = true) (now : Char → Bool) (hnow : now '(' = false) :
    ∀ {operators : List Char} {operands : List α},
      (∀ op ∈ operators, op = '(' ∨ ∃ o : EpOp, op = o.char) →
      opCount operators < operands.length →
      ∃ operators' operands', applyWhile env now operators operands = .ok (operators', operands') ∧
        operands'.length + opCount operators = operands.length + opCount operators' ∧
        (levelsOf operators').tail = (levelsOf operators).tail ∧
        (∀ op ∈ operators', op ∈ operators) := by
  intro operators
  induction operators with
  | nil =>
    intro operands _ _
    exact ⟨[], operands, rfl, rfl, rfl, fun op h => h⟩
  | cons op operators ih =>
    intro operands hops hlen
    rcases hops op mem_cons_self with rfl | ⟨o, rfl⟩
    · refine ⟨'(' :: operators, operands, ?_, rfl, rfl, fun op h => h⟩
      rw [applyWhile, if_neg (by simp [hnow])]
    · have hcount : opCount (o.char :: operators) = opCount operators + 1 := by
        simp [opCount, char_ne_lpar]
      by_cases hn : now o.char = true
      · have htwo : 2 ≤ operands.length := by omega
        obtain ⟨rest, happly, hrest⟩ := applyTop_dry hdry o htwo
        have hroom : opCount operators < rest.length := by omega
        obtain ⟨operators', operands', hwhile, hleft, hlevels, hmem⟩ :=
          ih (fun op h => hops op (mem_cons_of_mem _ h)) hroom
        refine ⟨operators', operands', ?_, by omega, ?_, fun op h => mem_cons_of_mem _ (hmem op h)⟩
        · rw [applyWhile, if_pos hn, happly]
          exact hwhile
        · rw [hlevels, levelsOf, if_neg (char_ne_lpar o), tail_cons]
      · refine ⟨o.char :: operators, operands, ?_, rfl, rfl, fun op h => h⟩
        rw [applyWhile, if_neg hn]

theorem applyWhile_level (hdry : env.dryRun = true) :
    ∀ {operators : List Char} {operands : List α} {d : ℕ},
      (∀ op ∈ operators, op = '(' ∨ ∃ o : EpOp, op = o.char) →
      operands.length = d + opCount operators →
      ∃ own stops, levelsOf operators = own :: (levelsOf stops).tail ∧
        (stops = [] ∨ ∃ rest, stops = '(' :: rest) ∧ (∀ op ∈ stops, op ∈ operators) ∧
        (own = false → stops = operators) ∧
        (own = true ∧ d + opCount stops = 0 ∧
            (∃ e, applyWhile env (fun top => top != '(') operators operands = .error e) ∨
          ¬ (own = true ∧ d + opCount stops = 0) ∧
            ∃ operands', applyWhile env (fun top => top != '(') operators operands =
              .ok (stops, operands') ∧ operands'.length = d + opCount stops) := by
  intro operators
  induction operators with
  | nil =>
    intro operands d _ hlen
    exact ⟨false, [], rfl, .inl rfl, fun op h => h, fun _ => rfl,
      .inr ⟨by simp, operands, rfl, hlen⟩⟩
  | cons op operators ih =>
    intro operands d hops hlen
    rcases hops op mem_cons_self with rfl | ⟨o, rfl⟩
    · exact ⟨false, '(' :: operators, rfl, .inr ⟨operators, rfl⟩, fun op h => h, fun _ => rfl,
        .inr ⟨by simp, operands, rfl, hlen⟩⟩
    · have hcount : opCount (o.char :: operators) = opCount operators + 1 := by
        simp [opCount, char_ne_lpar]
      have hnow : (o.char != '(') = true := by simp [char_ne_lpar]
      have hops' : ∀ op ∈ operators, op = '(' ∨ ∃ o : EpOp, op = o.char :=
        fun op h => hops op (mem_cons_of_mem _ h)
      rcases Nat.lt_or_ge operands.length 2 with hshort | htwo
      · -- nothing to apply it to: no operator under it, no value to spare
        have hlen' : ([] : List α).length = 0 + opCount operators := by
          rw [length_nil]
          omega
        obtain ⟨own, stops, hlevels, hstops, hmem, -⟩ := ih hops' hlen'
        have hsub : opCount stops = 0 := by
          rw [opCount, countP_eq_zero]
          intro op hop
          have hzero : opCount operators = 0 := by omega
          rw [opCount, countP_eq_zero] at hzero
          exact hzero op (hmem op hop)
        refine ⟨true, stops, ?_, hstops, fun op h => mem_cons_of_mem _ (hmem op h), by simp,
          .inl ⟨rfl, by omega, .arg "operator is missing an operand", ?_⟩⟩
        · rw [levelsOf, if_neg (char_ne_lpar o), hlevels, tail_cons]
        · rw [applyWhile, if_pos hnow, applyTop_short _ hshort]
          rfl
      · obtain ⟨rest, happly, hrest⟩ := applyTop_dry hdry o htwo
        have hlen' : rest.length = d + opCount operators := by omega
        obtain ⟨own, stops, hlevels, hstops, hmem, hown, hrun⟩ := ih hops' hlen'
        refine ⟨true, stops, ?_, hstops, fun op h => mem_cons_of_mem _ (hmem op h), by simp, ?_⟩
        · rw [levelsOf, if_neg (char_ne_lpar o), hlevels, tail_cons]
        · rw [applyWhile, if_pos hnow, happly]
          rcases hrun with ⟨_, hzero, he⟩ | ⟨hspare, hrun⟩
          · exact .inl ⟨rfl, hzero, he⟩
          · refine .inr ⟨?_, hrun⟩
            rintro ⟨_, hzero⟩
            cases own with
            | true => exact hspare ⟨rfl, hzero⟩
            | false =>
              rw [hown rfl] at hzero
              omega

theorem any_levelsOf {operators : List Char}
    (hops : ∀ op ∈ operators, op = '(' ∨ ∃ o : EpOp, op = o.char) :
    (levelsOf operators).any id = true ↔ 0 < opCount operators := by
  induction operators with
  | nil => simp [levelsOf, opCount]
  | cons op operators ih =>
    rcases hops op mem_cons_self with rfl | ⟨o, rfl⟩
    · have ih' := ih fun op h => hops op (mem_cons_of_mem _ h)
      simpa [levelsOf, opCount] using ih'
    · simp [levelsOf, opCount, char_ne_lpar]

theorem readByte_dry (hdry : env.dryRun = true) (ctx : EpCtx α) (index : ℕ) :
    ∃ m, readByte env ctx index = .ok ({ ctx with maxByte := m }, 0) :=
  ⟨some (max index (ctx.maxByte.getD 0)), by simp [readByte, hdry]⟩

theorem readSpan_dry (hdry : env.dryRun = true) (count j value : ℕ) (ctx : EpCtx α) :
    ∃ m n, readSpan env count j value ctx = .ok ({ ctx with maxByte := m }, n) := by
  induction count generalizing j value ctx with
  | zero => exact ⟨ctx.maxByte, value, rfl⟩
  | succ count ih =>
    obtain ⟨m, hread⟩ := readByte_dry hdry ctx j
    obtain ⟨m', n, hspan⟩ := ih (j + 1) (value * 256 + (0 : UInt8).toNat) { ctx with maxByte := m }
    exact ⟨m', n, by rw [readSpan, hread]; exact hspan⟩

theorem readAtom_dry (hdry : env.dryRun = true) (ctx : EpCtx α) (a : EpAtom) :
    rangeFits (.atom a) = true ∧ (∃ m x, readAtom env ctx a = .ok ({ ctx with maxByte := m }, x)) ∨
      rangeFits (.atom a) = false ∧ ∃ e, readAtom env ctx a = .error e := by
  cases a with
  | num run => exact .inl ⟨rfl, ctx.maxByte, _, rfl⟩
  | v => exact .inl ⟨rfl, ctx.maxByte, _, rfl⟩
  | byte index =>
    obtain ⟨m, hread⟩ := readByte_dry hdry ctx (index % sizeMod)
    exact .inl ⟨rfl, m, _, by rw [readAtom, hread]; rfl⟩
  | bit index b =>
    obtain ⟨m, hread⟩ := readByte_dry hdry ctx (index % sizeMod)
    exact .inl ⟨rfl, m, _, by rw [readAtom, hread]; rfl⟩
  | sbyte index =>
    obtain ⟨m, hread⟩ := readByte_dry hdry ctx (index % sizeMod)
    exact .inl ⟨rfl, m, _, by rw [readAtom, hread]; rfl⟩
  | range signed start stop =>
    rw [readAtom, readRange]
    obtain ⟨x, hx⟩ : ∃ x, x = start % sizeMod := ⟨_, rfl⟩
    obtain ⟨y, hy⟩ : ∃ y, y = stop % sizeMod := ⟨_, rfl⟩
    simp only [rangeFits, ← hx, ← hy]
    rcases Nat.lt_or_ge y x with hlt | hle
    · exact .inr ⟨by simp [Nat.not_le.mpr hlt], _, if_pos hlt⟩
    · rw [if_neg (Nat.not_lt.mpr hle)]
      rcases Nat.lt_or_ge 7 (y - x) with h7 | h7
      · exact .inr ⟨by simp [Nat.not_le.mpr h7], _, if_pos h7⟩
      · rw [if_neg (Nat.not_lt.mpr h7)]
        obtain ⟨m, n, hspan⟩ := readSpan_dry hdry (y - x + 1) x 0 ctx
        rw [hspan]
        by_cases hend : y = sizeMod - 1
        · exact .inr ⟨by simp [hend], .hang, by simp [hend, bind, Except.bind]⟩
        · refine .inl ⟨by simp [hle, h7, hend], m, ?_⟩
          simp only [bind, Except.bind, hend, if_false]
          split_ifs <;> exact ⟨_, rfl⟩

/-- How a run on tokens ends, against the count: full stacks, both go on, or
both refuse. -/
def EndsAs (result : Except EpErr (EpCtx α)) (fits : Bool) (count : Option Counts) : Prop :=
  result = .error .tooDeep ∨
    (fits = true ∧ ∃ ctx c, result = .ok ctx ∧ count = some c ∧ Agrees ctx c) ∨
      ((fits = false ∨ count = none) ∧ ∃ e, result = .error e)

theorem pushOperator_dry (hdry : env.dryRun = true) (ctx : EpCtx α) (o : EpOp) (d : ℕ)
    {levels : List Bool} (hops : ∀ op ∈ ctx.operators, op = '(' ∨ ∃ o : EpOp, op = o.char)
    (hlen : ctx.operands.length = d + 1 + opCount ctx.operators)
    (hlevels : levelsOf ctx.operators = levels) :
    pushOperator env ctx o.char = .error .tooDeep ∨ ∃ ctx', pushOperator env ctx o.char = .ok ctx' ∧
        Agrees ctx' ⟨true, ctx.unaryOk, d, true :: levels.tail⟩ := by
  have hroom : opCount ctx.operators < ctx.operands.length := by omega
  obtain ⟨operators', operands', hwhile, hleft, htail, hmem⟩ :=
    applyWhile_dry hdry (fun top => decide (precedence o.char ≤ precedence top))
      (by cases o <;> rfl) hops hroom
  rcases pushOperator_cases hwhile with hpush | hpush
  · exact .inl hpush
  · refine .inr ⟨_, hpush, rfl, rfl, ?_, ?_, by simp, ?_⟩
    · rw [levelsOf, if_neg (char_ne_lpar o), htail, hlevels]
    · have hcount : opCount (o.char :: operators') = opCount operators' + 1 := by
        simp [opCount, char_ne_lpar]
      show operands'.length = d + opCount (o.char :: operators')
      omega
    · intro op hop
      rcases mem_cons.mp hop with rfl | hop
      · exact .inr ⟨o, rfl⟩
      · exact hops op (hmem op hop)

/-- **One token**: the stacks and the count move together. -/
theorem evalTok_dry (hdry : env.dryRun = true) {ctx : EpCtx α} {c : Counts} (h : Agrees ctx c)
    (tok : EpTok) : EndsAs (evalTok env ctx tok) (rangeFits tok) (countTok c tok) := by
  cases tok with
  | atom a =>
    rcases readAtom_dry hdry ctx a with ⟨hfits, m, x, hread⟩ | ⟨hfits, e, hread⟩
    · rw [evalTok, hread]
      rcases pushOperand_cases { ctx with maxByte := m } x with hpush | hpush
      · exact .inl hpush
      · refine .inr (.inl ⟨hfits, _, _, hpush, rfl, rfl, rfl, h.levels, ?_, by simp, h.operators⟩)
        simp only [length_cons, h.operands]
        omega
    · exact .inr (.inr ⟨.inl hfits, e, by rw [evalTok, hread]; rfl⟩)
  | op o =>
    rw [evalTok, countTok, h.lead]
    split_ifs with hminus hawaited
    · -- a minus in front: its zero, then the operator
      rw [unaryMinus]
      rcases pushOperand_cases ctx (env.ar.ofInt 0) with hpush | hpush
      · exact .inl (by rw [hpush]; rfl)
      · rw [hpush]
        have hlen : (env.ar.ofInt 0 :: ctx.operands).length =
            c.surplus + 1 + opCount ctx.operators := by
          rw [length_cons, h.operands]
          omega
        rcases pushOperator_dry hdry ⟨env.ar.ofInt 0 :: ctx.operands, ctx.operators, true, false,
            ctx.maxByte⟩ .sub c.surplus h.operators hlen h.levels with hop | ⟨ctx', hop, hagrees⟩
        · exact .inl hop
        · exact .inr (.inl ⟨rfl, ctx', _, hop, rfl, hagrees⟩)
    · refine .inr (.inr ⟨.inr rfl, .arg "operator where a value was expected", ?_⟩)
      rw [binaryOperator, h.awaited, if_pos hawaited]
    · have hspare := h.spare (by simpa using hawaited)
      rw [binaryOperator, h.awaited, if_neg hawaited]
      have hlen : ctx.operands.length = c.surplus - 1 + 1 + opCount ctx.operators := by
        rw [h.operands]
        omega
      rcases pushOperator_dry hdry ctx o (c.surplus - 1) h.operators hlen h.levels with
        hop | ⟨ctx', hop, hagrees⟩
      · exact .inl hop
      · rw [h.lead] at hagrees
        exact .inr (.inl ⟨rfl, ctx', _, hop, rfl, hagrees⟩)
  | lpar =>
    rw [evalTok, openParen]
    split_ifs with hdeep
    · exact .inl rfl
    · refine .inr (.inl ⟨rfl, _, _, rfl, rfl, rfl, rfl, ?_, ?_, by simp, ?_⟩)
      · rw [levelsOf, if_pos rfl, h.levels]
      · simpa [opCount] using h.operands
      · intro op hop
        rcases mem_cons.mp hop with rfl | hop
        · exact .inl rfl
        · exact h.operators op hop
  | rpar =>
    obtain ⟨own, stops, hlevels, hstops, hmem, -, hrun⟩ := applyWhile_level hdry h.operators h.operands
    rw [evalTok, closeParen, countTok, ← h.levels, hlevels]
    rcases hstops with rfl | ⟨rest, rfl⟩
    · -- no parenthesis is open
      refine .inr (.inr ⟨.inr rfl, ?_⟩)
      rcases hrun with ⟨_, _, e, he⟩ | ⟨_, operands', hok, _⟩
      · exact ⟨e, by rw [he]; rfl⟩
      · exact ⟨.arg "mismatched parentheses", by rw [hok]; rfl⟩
    · have hrest : ∀ op ∈ rest, op = '(' ∨ ∃ o : EpOp, op = o.char :=
        fun op hop => h.operators op (hmem op (mem_cons_of_mem _ hop))
      obtain ⟨outer, levels, hcons⟩ : ∃ outer levels, levelsOf rest = outer :: levels := by
        rcases rest with _ | ⟨op, rest⟩
        · exact ⟨false, [], rfl⟩
        · rw [levelsOf]
          split_ifs
          · exact ⟨false, _, rfl⟩
          · exact ⟨true, _, rfl⟩
      have hany := any_levelsOf hrest
      have hcount : opCount ('(' :: rest) = opCount rest := by simp [opCount]
      have hlevels' : (levelsOf ('(' :: rest)).tail = outer :: levels := by
        rw [levelsOf, if_pos rfl, tail_cons, hcons]
      rw [hlevels']
      rw [hcons] at hany
      rcases hrun with ⟨hown, hzero, e, he⟩ | ⟨hspare, operands', hok, hlen'⟩
      · refine .inr (.inr ⟨.inr ?_, e, by rw [he]; rfl⟩)
        have hnone : ¬ (outer :: levels).any id = true := by
          rw [hany]
          omega
        exact if_pos ⟨hown, by omega, hnone⟩
      · refine .inr (.inl ⟨rfl, { ctx with operators := rest, operands := operands' },
          { c with levels := outer :: levels }, by rw [hok]; rfl, ?_,
          h.awaited, h.lead, hcons, hlen', h.spare, hrest⟩)
        apply if_neg
        rintro ⟨hown, hzero, hnone⟩
        rw [hany] at hnone
        exact hspare ⟨hown, by omega⟩

/-- **A run**: the count decides it, unless a stack is full. -/
theorem foldlM_evalTok_dry (hdry : env.dryRun = true) (ts : List EpTok) {ctx : EpCtx α}
    {c : Counts} (h : Agrees ctx c) :
    EndsAs (ts.foldlM (evalTok env) ctx) (ts.all rangeFits) (ts.foldlM countTok c) := by
  induction ts generalizing ctx c with
  | nil => exact .inr (.inl ⟨rfl, ctx, c, rfl, rfl, h⟩)
  | cons tok ts ih =>
    rw [foldlM_cons, foldlM_cons, all_cons]
    rcases evalTok_dry hdry h tok with hdeep | ⟨hfits, ctx', c', hrun, hcount, h'⟩ | ⟨hno, e, he⟩
    · exact .inl (by rw [hdeep]; rfl)
    · rw [hrun, hcount, hfits]
      exact ih h'
    · refine .inr (.inr ⟨?_, e, by rw [he]; rfl⟩)
      rcases hno with hfits | hcount
      · exact .inl (by rw [hfits, Bool.false_and])
      · exact .inr (by rw [hcount]; rfl)

theorem levelsOf_ne_nil (operators : List Char) : levelsOf operators ≠ [] := by
  cases operators with
  | nil => simp [levelsOf]
  | cons op operators =>
    rw [levelsOf]
    split_ifs <;> simp

/-- **The end**: one value, every level closed. -/
theorem evaluateEnd_dry (hdry : env.dryRun = true) {ctx : EpCtx α} {c : Counts} (h : Agrees ctx c) :
    (∃ r, evaluateEnd env ctx = .ok r) ∧ c.done = true ∨
      (∃ e, evaluateEnd env ctx = .error e) ∧ c.done = false := by
  obtain ⟨own, stops, hlevels, hstops, hmem, -, hrun⟩ := applyWhile_level hdry h.operators h.operands
  rw [h.levels] at hlevels
  rw [evaluateEnd, Counts.done, hlevels]
  rcases hstops with rfl | ⟨rest, rfl⟩
  · rcases hrun with ⟨_, hzero, e, he⟩ | ⟨_, operands', hok, hlen⟩
    · refine .inr ⟨⟨e, by rw [he]; rfl⟩, ?_⟩
      have hne : ¬ c.surplus = 1 := by omega
      simp [hne]
    · have hlen' : operands'.length = c.surplus := hlen
      rw [hok]
      rcases operands' with _ | ⟨x, _ | ⟨y, operands'⟩⟩
      · refine .inr ⟨⟨.arg "expression yields no single value", rfl⟩, ?_⟩
        simp [← hlen']
      · refine .inl ⟨⟨_, rfl⟩, ?_⟩
        simp [← hlen', levelsOf]
      · refine .inr ⟨⟨.arg "expression yields no single value", rfl⟩, ?_⟩
        simp [← hlen']
  · refine .inr ⟨?_, ?_⟩
    · rcases hrun with ⟨_, _, e, he⟩ | ⟨_, operands', hok, _⟩
      · exact ⟨e, by rw [he]; rfl⟩
      · exact ⟨.arg "mismatched parentheses", by rw [hok]; rfl⟩
    · have hne := levelsOf_ne_nil rest
      simp [levelsOf, hne]

end Dry

/-! ## The check -/

/-- The text stays within the check's stacks. -/
def CheckWithinStacks {α : Type} (ar : Arith α) (s : List Char) : Prop :=
  expressionParserCheck ar s ≠ .error .tooDeep

/-- **What the check accepts**: tokens whose ranges fit and that count out to one
value. -/
theorem expressionParserCheck_isOk_iff {α : Type} (ar : Arith α) (hdeep : CheckWithinStacks ar s) :
    (∃ m, expressionParserCheck ar s = .ok m) ↔
      ∃ ts, tokenize s = some ts ∧ ts.all rangeFits = true ∧ countsOut ts = true := by
  obtain ⟨env, henv⟩ : ∃ env : EpEnv α, env = ⟨ar, [], ar.ofInt 0, true⟩ := ⟨_, rfl⟩
  have hdry : env.dryRun = true := by rw [henv]
  have hok : ∀ r, evaluate env s = .ok r → expressionParserCheck ar s = .ok r.1.maxByte := by
    subst henv
    intro r hr
    rw [expressionParserCheck, hr]
  have herr : ∀ e, evaluate env s = .error e → ∀ m, expressionParserCheck ar s ≠ .ok m := by
    subst henv
    intro e he m hm
    rw [expressionParserCheck, he] at hm
    cases e <;> cases hm
  cases htok : tokenize s with
  | none =>
    obtain ⟨e, he⟩ := evaluate_of_tokenize_none env htok
    constructor
    · rintro ⟨m, hm⟩
      exact absurd hm (herr e he m)
    · rintro ⟨ts, hts, -⟩
      cases hts
  | some ts =>
    have heval := evaluate_of_tokenize env htok
    have hrefuse : (∃ e, evaluate env s = .error e) →
        ¬ (ts.all rangeFits = true ∧ countsOut ts = true) →
        ((∃ m, expressionParserCheck ar s = .ok m) ↔
          ∃ ts', some ts = some ts' ∧ ts'.all rangeFits = true ∧ countsOut ts' = true) := by
      rintro ⟨e, he⟩ hno
      constructor
      · rintro ⟨m, hm⟩
        exact absurd hm (herr e he m)
      · rintro ⟨ts', hts, h⟩
        cases hts
        exact absurd h hno
    rcases foldlM_evalTok_dry hdry ts agrees_init with
      hrun | ⟨hfits, ctx, c, hrun, hcount, hagrees⟩ | ⟨hno, e, he⟩
    · rw [hrun] at heval
      refine absurd ?_ hdeep
      subst henv
      rw [expressionParserCheck, heval]
      rfl
    · rw [hrun] at heval
      rcases evaluateEnd_dry hdry hagrees with ⟨⟨r, hr⟩, hdone⟩ | ⟨⟨e, he⟩, hdone⟩
      · have hout : countsOut ts = true := by rw [countsOut, hcount, any_some, hdone]
        have hrun' : evaluate env s = .ok r := heval.trans hr
        exact ⟨fun _ => ⟨ts, rfl, hfits, hout⟩, fun _ => ⟨_, hok r hrun'⟩⟩
      · refine hrefuse ⟨e, by rw [heval]; exact he⟩ ?_
        rw [countsOut, hcount, any_some, hdone]
        simp
    · refine hrefuse ⟨e, by rw [heval, he]; rfl⟩ ?_
      rintro ⟨hfits, hout⟩
      rcases hno with hno | hno
      · rw [hfits] at hno
        cases hno
      · rw [countsOut, hno] at hout
        cases hout

/-! ## The documented grammar -/

/-- What the grammar says of a token alone: a number has a digit and at most one
point, a range is in order and at most eight bytes wide. -/
def tokWellFormed : EpTok → Bool
  | .atom (.num run) => run.any Char.isDigit && decide (run.count '.' ≤ 1)
  | .atom (.range _ start stop) => decide (start ≤ stop) && decide (stop ≤ start + 7)
  | _ => true

/-- **The documented grammar**: values and operators alternate, a minus may stand
at the start and behind a parenthesis, parentheses enclose an expression. -/
def IsSentence (s : List Char) : Prop :=
  ∃ ts, Spells ts s ∧ ts.all tokWellFormed = true ∧ Infix.IsInfix EpOp.sub true ts

/-- The grammar on tokens, in one pass. -/
def wellFormed (ts : List EpTok) : Bool :=
  ts.all tokWellFormed && Infix.placed EpOp.sub true true 0 ts

theorem isSentence_iff (s : List Char) :
    IsSentence s ↔ ∃ ts, tokenize s = some ts ∧ wellFormed ts = true := by
  constructor
  · rintro ⟨ts, hs, htoks, hinfix⟩
    have hplaced := (isInfix_iff_placed EpOp.sub ts).mp hinfix
    exact ⟨ts, hs.tokenize (placed_separated EpOp.sub hplaced), by simp [wellFormed, htoks, hplaced]⟩
  · rintro ⟨ts, hts, hwf⟩
    rw [wellFormed, Bool.and_eq_true] at hwf
    exact ⟨ts, spells_of_tokenize hts, hwf.1, (isInfix_iff_placed EpOp.sub ts).mpr hwf.2⟩

theorem countTok_infix {lead : Bool} (h : Infix.IsInfix EpOp.sub lead ts) :
    ∀ {c : Counts} {own : Bool} {outer : List Bool}, c.levels = own :: outer →
      (lead = true → c.lead = true) →
      ∃ own', ts.foldlM countTok c = some ⟨false, false, c.surplus + 1, own' :: outer⟩ := by
  induction h with
  | atom lead a =>
    intro c own outer hlevels _
    exact ⟨own, by rw [← hlevels]; rfl⟩
  | @paren lead ts _ ih =>
    intro c own outer hlevels _
    have hopen : countTok c .lpar =
        some { c with awaited := true, lead := true, levels := false :: own :: outer } := by
      rw [countTok, hlevels]
    obtain ⟨own', hrun⟩ := ih (c := { c with
      awaited := true, lead := true, levels := false :: own :: outer }) rfl (fun _ => rfl)
    refine ⟨own, ?_⟩
    rw [cons_append, foldlM_cons, hopen]
    simp only [bind_eq_bind, bind_some, foldlM_append, hrun, foldlM_cons, foldlM_nil, countTok]
    -- the value in the parentheses is to spare
    rw [if_neg (by simp)]
    rfl
  | @bin o lead ts ts' _ _ ih ih' =>
    intro c own outer hlevels hlead
    obtain ⟨own₁, hrun₁⟩ := ih hlevels hlead
    obtain ⟨own₂, hrun₂⟩ := ih' (c := ⟨true, false, c.surplus, true :: outer⟩) rfl (by simp)
    refine ⟨own₂, ?_⟩
    rw [foldlM_append, hrun₁]
    simp only [bind_eq_bind, bind_some, foldlM_cons, countTok,
      Bool.false_eq_true, and_false, if_false, Nat.add_sub_cancel, tail_cons, hrun₂]
  | @neg ts _ ih =>
    intro c own outer hlevels hlead
    have hminus : countTok c (.op .sub) = some ⟨true, false, c.surplus, true :: outer⟩ := by
      rw [countTok, if_pos ⟨rfl, hlead rfl⟩, hlevels, tail_cons]
    obtain ⟨own', hrun⟩ := ih (c := ⟨true, false, c.surplus, true :: outer⟩) rfl (by simp)
    refine ⟨own', ?_⟩
    rw [foldlM_cons, hminus]
    exact hrun

theorem countsOut_of_isInfix (h : Infix.IsInfix EpOp.sub true ts) : countsOut ts = true := by
  obtain ⟨own, hrun⟩ := countTok_infix h (c := Counts.init) rfl (fun _ => rfl)
  rw [countsOut, hrun]
  rfl

theorem countsOut_of_wellFormed (h : wellFormed ts = true) : countsOut ts = true := by
  rw [wellFormed, Bool.and_eq_true] at h
  exact countsOut_of_isInfix ((isInfix_iff_placed EpOp.sub ts).mpr h.2)

/-- When the check agrees with the grammar: a well-formed text has no range that
wraps or ends at `SIZE_MAX`, and a text that is not well formed does not count
out (or has a range that does not fit). -/
def CheckAgrees (s : List Char) : Prop :=
  ∀ ts, tokenize s = some ts →
    (wellFormed ts = true → ts.all rangeFits = true) ∧
    (wellFormed ts = false → ¬ (ts.all rangeFits = true ∧ countsOut ts = true))

/-- **The check and the grammar.** Within the stacks, the check accepts a text
exactly when it is a sentence if and only if the text, when it is read as tokens
at all, is well formed with ranges that fit, or fails the count. -/
theorem expressionParserCheck_iff_sentence {α : Type} (ar : Arith α) (s : List Char)
    (hdeep : CheckWithinStacks ar s) :
    ((∃ m, expressionParserCheck ar s = .ok m) ↔ IsSentence s) ↔ CheckAgrees s := by
  rw [expressionParserCheck_isOk_iff ar hdeep, isSentence_iff]
  cases htok : tokenize s with
  | none => simp [CheckAgrees, htok]
  | some ts =>
    have hcounts : wellFormed ts = true → countsOut ts = true := countsOut_of_wellFormed
    simp only [CheckAgrees, htok, some.injEq, exists_eq_left', forall_eq']
    rcases hwf : wellFormed ts with _ | _
    · simp
    · have hout := hcounts hwf
      simp [hout]

/-- A postfix plus: the values come out even, so the check takes it. -/
theorem expressionParserCheck_postfix :
    ¬ ∀ s : List Char, CheckWithinStacks intArith s →
      ((∃ m, expressionParserCheck intArith s = .ok m) ↔ IsSentence s) := by
  intro h
  have hok : ∃ m, expressionParserCheck intArith ['1', ' ', '2', '+'] = .ok m := ⟨_, rfl⟩
  have hdeep : CheckWithinStacks intArith ['1', ' ', '2', '+'] := by
    intro hdeep
    cases hdeep
  have hsentence := (h _ hdeep).mp hok
  rw [isSentence_iff] at hsentence
  obtain ⟨ts, hts, hwf⟩ := hsentence
  have htok : tokenize ['1', ' ', '2', '+'] =
      some [.atom (.num ['1']), .atom (.num ['2']), .op .add] := by rfl
  rw [htok, some.injEq] at hts
  subst hts
  revert hwf
  decide

/-- The same text, read off the counts; and a sentence. -/
theorem expressionParserCheck_iff_sentence_postfix :
    (CheckWithinStacks intArith ['1', ' ', '2', '+'] ∧ ¬ CheckAgrees ['1', ' ', '2', '+']) ∧
      CheckAgrees ['B', '1', '+', '2'] ∧
      ((∃ m, expressionParserCheck intArith ['B', '1', '+', '2'] = .ok m) ↔
        IsSentence ['B', '1', '+', '2']) := by
  have hagrees : CheckAgrees ['B', '1', '+', '2'] := by
    intro ts hts
    have htok : tokenize ['B', '1', '+', '2'] =
        some [.atom (.byte 1), .op .add, .atom (.num ['2'])] := by rfl
    rw [htok, some.injEq] at hts
    subst hts
    exact ⟨fun _ => by decide, fun h => absurd h (by decide)⟩
  have hdeep : CheckWithinStacks intArith ['B', '1', '+', '2'] := by
    intro h
    cases h
  have hdeep' : CheckWithinStacks intArith ['1', ' ', '2', '+'] := by
    intro h
    cases h
  refine ⟨⟨hdeep', fun h => ?_⟩, hagrees,
    (expressionParserCheck_iff_sentence intArith _ hdeep).mpr hagrees⟩
  exact absurd ⟨by decide, by decide⟩ ((h _ rfl).2 (by decide))

end Meatpi
