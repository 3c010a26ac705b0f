import Meatpi.Expression.Check
import Meatpi.Expression.Drift

/-!
# The indexes as `size_t`

An index is read into a `size_t`, digit by digit, and the byte loop of a range
counts up to its bound inclusive. Both ends of the type show: the loop of a range
that ends at `SIZE_MAX` has no way out in a dry run (`byteLoop_stalls`), and an
index of more than 32 bits is another, smaller one.
-/

namespace Meatpi

open List Nat Option

variable {tok : EpTok} {data : List UInt8} {β : Type} {count start : ℕ}

variable {ts : List EpTok} {fuel j value : ℕ}

variable {s : List Char} {stop : ℕ} {α : Type}

/-! ## The byte loop -/

/-- The byte loop of `parse_range` as it is written,
`for (j = start; j <= end && err == ESP_OK; j++)`, with `j` a `size_t` and the
value a `uint64_t`; `none` when it is still running after `fuel` tests. -/
def byteLoop (env : EpEnv α) (stop : ℕ) :
    ℕ → ℕ → ℕ → EpCtx α → Option (Except EpErr (EpCtx α × ℕ))
  | 0, _, _, _ => none
  | fuel + 1, j, value, ctx =>
    if j ≤ stop then
      match readByte env ctx j with
      | .error e => some (.error e)
      | .ok (ctx, b) =>
        byteLoop env stop fuel ((j + 1) % sizeMod) ((value * 256 + b.toNat) % 2 ^ 64) ctx
    else some (.ok (ctx, value))

theorem readSpan_within {env : EpEnv α} (hrun : env.dryRun = false) : ∀ {count j value : ℕ}
    {ctx : EpCtx α} {r : EpCtx α × ℕ}, readSpan env count j value ctx = .ok r →
      ∀ i, j ≤ i → i < j + count → i < env.data.length := by
  intro count
  induction count with
  | zero => intro j value ctx r _ i hle hlt; omega
  | succ count ih =>
    intro j value ctx r h i hle hlt
    rw [readSpan, readByte, if_neg (by simp [hrun])] at h
    cases hb : env.data[j]? with
    | none => rw [hb] at h; cases h
    | some b =>
      rw [hb] at h
      obtain ⟨hj, -⟩ := List.getElem?_eq_some_iff.mp hb
      rcases Nat.eq_or_lt_of_le hle with rfl | hnext
      · exact hj
      · exact ih h i hnext (by omega)

/-- **No way out**: every `size_t` is at most `SIZE_MAX`, and a dry run reads
every byte. -/
theorem byteLoop_stalls {env : EpEnv α} (hdry : env.dryRun = true) (fuel : ℕ) :
    ∀ {j : ℕ} (value : ℕ) (ctx : EpCtx α), j < sizeMod →
      byteLoop env (sizeMod - 1) fuel j value ctx = none := by
  induction fuel with
  | zero => intro j value ctx _; rfl
  | succ fuel ih =>
    intro j value ctx hj
    rw [byteLoop, if_pos (by omega), readByte_notes hdry]
    exact ih _ _ (mod_lt _ (by decide))

/-- The loop ends where the span is read or refused, the last `size_t` aside. -/
theorem byteLoop_of_readSpan {env : EpEnv α} (hstop : stop < sizeMod) {ctx : EpCtx α}
    {r : Except EpErr (EpCtx α × ℕ)} (hj : j + count = stop + 1) (hcount : count ≤ 8)
    (hvalue : value < 256 ^ (8 - count)) (h : readSpan env count j value ctx = r)
    (hend : (∃ e, r = .error e) ∨ stop ≠ sizeMod - 1) :
    ∃ fuel, byteLoop env stop fuel j value ctx = some r := by
  induction count generalizing j value ctx with
  | zero =>
    subst h
    refine ⟨1, ?_⟩
    rw [byteLoop, if_neg (by omega)]
    rfl
  | succ count ih =>
    rw [readSpan] at h
    cases hread : readByte env ctx j with
    | error e' =>
      rw [hread] at h
      subst h
      refine ⟨1, ?_⟩
      rw [byteLoop, if_pos (by omega), hread]
      rfl
    | ok p =>
      rw [hread] at h
      have hb := p.2.toNat_lt
      have hpow : 256 ^ (8 - count) = 256 ^ (8 - (count + 1)) * 256 := by
        rw [← Nat.pow_succ]
        congr 1
        omega
      have hnext : value * 256 + p.2.toNat < 256 ^ (8 - count) := by omega
      have hsmall : (256 : ℕ) ^ (8 - count) ≤ 256 ^ 8 := Nat.pow_le_pow_right (by decide) (by omega)
      have hmod : (value * 256 + p.2.toNat) % 2 ^ 64 = value * 256 + p.2.toNat :=
        mod_eq_of_lt (by omega)
      -- the last byte leaves nothing to refuse
      have hlast : count = 0 → stop ≠ sizeMod - 1 := by
        rintro rfl
        obtain ⟨e, rfl⟩ | hne := hend
        · cases h
        · exact hne
      have hj' : (j + 1) % sizeMod = j + 1 := mod_eq_of_lt (by omega)
      obtain ⟨fuel, hfuel⟩ := ih (by omega) (by omega) hnext h
      refine ⟨fuel + 1, ?_⟩
      rw [byteLoop, if_pos (by omega), hread]
      simp only [hj', hmod, hfuel]

theorem byteLoop_spec {env : EpEnv α} (hsize : env.dryRun = false → env.data.length < sizeMod)
    (hle : start ≤ stop) (hwide : stop - start ≤ 7) (hstop : stop < sizeMod) (ctx : EpCtx α) :
    (∀ fuel, byteLoop env stop fuel start 0 ctx = none) ∧ stop = sizeMod - 1 ∧
        (∃ r, readSpan env (stop - start + 1) start 0 ctx = .ok r) ∨
      ∃ fuel, byteLoop env stop fuel start 0 ctx =
          some (readSpan env (stop - start + 1) start 0 ctx) ∧
        ((∃ e, readSpan env (stop - start + 1) start 0 ctx = .error e) ∨ stop ≠ sizeMod - 1) := by
  have hcount : start + (stop - start + 1) = stop + 1 := by omega
  have hzero : 0 < 256 ^ (8 - (stop - start + 1)) := Nat.pow_pos (by decide)
  cases hspan : readSpan env (stop - start + 1) start 0 ctx with
  | error e =>
    obtain ⟨fuel, hfuel⟩ := byteLoop_of_readSpan hstop hcount (by omega) hzero hspan (.inl ⟨e, rfl⟩)
    exact .inr ⟨fuel, hfuel, .inl ⟨e, rfl⟩⟩
  | ok r =>
    by_cases hend : stop = sizeMod - 1
    · cases hdry : env.dryRun with
      | true =>
        refine .inl ⟨fun fuel => ?_, hend, r, rfl⟩
        rw [hend]
        exact byteLoop_stalls hdry fuel 0 ctx (by omega)
      | false =>
        have hlen := hsize hdry
        have hlast := readSpan_within hdry hspan stop (by omega) (by omega)
        omega
    · obtain ⟨fuel, hfuel⟩ := byteLoop_of_readSpan hstop hcount (by omega) hzero hspan (.inr hend)
      exact .inr ⟨fuel, hfuel, .inr hend⟩

/-- **The loop in a range**: it never ends exactly where `readRange` says so, and
what it ends with is what the range is made of. -/
theorem readRange_byteLoop {env : EpEnv α}
    (hsize : env.dryRun = false → env.data.length < sizeMod) (hle : start ≤ stop)
    (hwide : stop - start ≤ 7) (hstop : stop < sizeMod) (ctx : EpCtx α) (kind : Char) :
    (∀ fuel, byteLoop env stop fuel start 0 ctx = none) ∧
      readRange env ctx kind start stop = .error .hang ∨
      ∃ fuel r, byteLoop env stop fuel start 0 ctx = some r ∧
        readRange env ctx kind start stop =
          r.map fun p => (p.1, rangeValue env kind (stop - start + 1) p.2) := by
  rw [readRange_eq, if_neg (by omega), if_neg (by omega)]
  rcases byteLoop_spec hsize hle hwide hstop ctx with ⟨hnone, hend, r, hspan⟩ | ⟨fuel, hfuel, hend⟩
  · refine .inl ⟨hnone, ?_⟩
    rw [hspan]
    exact if_pos hend
  · refine .inr ⟨fuel, _, hfuel, ?_⟩
    rcases hend with ⟨e, he⟩ | hend
    · rw [he]
      rfl
    · simp only [if_neg hend]
      cases readSpan env (stop - start + 1) start 0 ctx <;> rfl

/-! ## The tokens that are read -/

/-- The tokens of a text up to where it cannot be read. -/
def readableLoop : ℕ → List Char → List EpTok
  | 0, _ => []
  | _ + 1, [] => []
  | fuel + 1, c :: s =>
    match lexStep c s with
    | none => []
    | some (none, s) => readableLoop fuel s
    | some (some tok, s) => tok :: readableLoop fuel s

def readable (s : List Char) : List EpTok := readableLoop s.length s

theorem readableLoop_of_tokenizeLoop {s : List Char} (h : tokenizeLoop fuel s = some ts) :
    readableLoop fuel s = ts := by
  induction fuel generalizing s ts with
  | zero => cases h; rfl
  | succ fuel ih =>
    cases s with
    | nil => cases h; rfl
    | cons c s =>
      rw [tokenizeLoop] at h
      rw [readableLoop]
      rcases hlex : lexStep c s with _ | ⟨_ | tok, rest⟩
      · simp [hlex] at h
      · rw [hlex] at h
        exact ih h
      · rw [hlex] at h
        obtain ⟨ts, hts, rfl⟩ := map_eq_some_iff.mp h
        rw [← ih hts]

theorem readable_of_tokenize (h : tokenize s = some ts) : readable s = ts :=
  readableLoop_of_tokenizeLoop h

/-! ## What never ends -/

/-- The run does not stall. -/
def Returns {β : Type} (x : Except EpErr β) : Prop := x ≠ .error .hang

theorem Returns.ok {β : Type} (b : β) : Returns (.ok b : Except EpErr β) := fun h => by cases h

theorem Returns.arg (msg : String) : Returns (.error (.arg msg) : Except EpErr β) :=
  fun h => by cases h

theorem Returns.bind {γ : Type} {x : Except EpErr β} {f : β → Except EpErr γ} (h : Returns x)
    (hf : ∀ b, x = .ok b → Returns (f b)) : Returns (x >>= f) := by
  cases x with
  | ok b => exact hf b rfl
  | error e =>
    intro he
    cases he
    exact h rfl

section Stall

variable {env : EpEnv α}

theorem applyTop_returns (op : Char) (operands : List α) : Returns (applyTop env op operands) := by
  rcases operands with _ | ⟨b, _ | ⟨a, operands⟩⟩
  · exact .arg _
  · exact .arg _
  · refine Returns.bind ?_ fun r _ => .ok _
    simp only [applyOp]
    split_ifs <;> first | exact .ok _ | exact .arg _ | exact fun h => by cases h

theorem applyWhile_returns (now : Char → Bool) (operators : List Char) (operands : List α) :
    Returns (applyWhile env now operators operands) := by
  induction operators generalizing operands with
  | nil => exact .ok _
  | cons op operators ih =>
    rw [applyWhile]
    split_ifs
    · exact (applyTop_returns op operands).bind fun rest _ => ih rest
    · exact .ok _

theorem pushOperand_returns (ctx : EpCtx α) (x : α) : Returns (pushOperand ctx x) := by
  rw [pushOperand]
  split_ifs
  · exact .arg _
  · exact .ok _

theorem pushOperator_returns (ctx : EpCtx α) (op : Char) : Returns (pushOperator env ctx op) := by
  refine (applyWhile_returns _ _ _).bind fun p _ => ?_
  obtain ⟨operators, operands⟩ := p
  show Returns (if epStackMax ≤ operators.length then _ else _)
  split_ifs
  · exact .arg _
  · exact .ok _

theorem closeParen_returns (ctx : EpCtx α) : Returns (closeParen env ctx) := by
  refine (applyWhile_returns _ _ _).bind fun p _ => ?_
  obtain ⟨_ | ⟨op, operators⟩, operands⟩ := p
  · exact .arg _
  · exact .ok _

theorem evaluateEnd_returns (ctx : EpCtx α) : Returns (evaluateEnd env ctx) := by
  refine (applyWhile_returns _ _ _).bind fun p _ => ?_
  obtain ⟨_ | ⟨op, operators⟩, _ | ⟨x, _ | ⟨y, operands⟩⟩⟩ := p
  · exact .arg _
  · exact .ok _
  · exact .arg _
  all_goals exact .arg _

theorem readByte_returns (ctx : EpCtx α) (index : ℕ) : Returns (readByte env ctx index) := by
  rw [readByte]
  split_ifs
  · exact .ok _
  · split
    · exact .ok _
    · exact fun h => by cases h

theorem readSpan_returns (count j value : ℕ) (ctx : EpCtx α) :
    Returns (readSpan env count j value ctx) := by
  induction count generalizing j value ctx with
  | zero => exact .ok _
  | succ count ih =>
    exact (readByte_returns ctx j).bind fun p _ => ih _ _ p.1

theorem byteLoop_returns {ctx : EpCtx α} {r : Except EpErr (EpCtx α × ℕ)}
    (h : byteLoop env stop fuel j value ctx = some r) : Returns r := by
  induction fuel generalizing j value ctx r with
  | zero => cases h
  | succ fuel ih =>
    rw [byteLoop] at h
    split_ifs at h
    · have hread : Returns (readByte env ctx j) := readByte_returns ctx j
      cases hb : readByte env ctx j with
      | error e =>
        rw [hb] at h hread
        cases h
        intro he
        cases he
        exact hread rfl
      | ok p =>
        rw [hb] at h
        exact ih h
    · cases h
      exact .ok _

theorem evalTok_returns (ctx : EpCtx α)
    (h : ∀ signed start stop, tok ≠ .atom (.range signed start stop)) :
    Returns (evalTok env ctx tok) := by
  cases tok with
  | lpar =>
    rw [evalTok, openParen]
    split_ifs
    · exact .arg _
    · exact .ok _
  | rpar => exact closeParen_returns ctx
  | op o =>
    rw [evalTok]
    split_ifs
    · exact (pushOperand_returns ctx _).bind fun ctx' _ => pushOperator_returns _ _
    · rw [binaryOperator]
      split_ifs
      · exact .arg _
      · exact pushOperator_returns ctx _
  | atom a =>
    refine Returns.bind ?_ fun p _ => pushOperand_returns _ _
    cases a with
    | num run => exact .ok _
    | v => exact .ok _
    | byte index => exact (readByte_returns ctx _).bind fun p _ => .ok _
    | bit index b => exact (readByte_returns ctx _).bind fun p _ => .ok _
    | sbyte index => exact (readByte_returns ctx _).bind fun p _ => .ok _
    | range signed start stop => exact absurd rfl (h signed start stop)

/-- A range in order, at most eight bytes, that ends at `SIZE_MAX`, with its
indexes as `size_t`. -/
def stalls : EpTok → Bool
  | .atom (.range _ start stop) =>
    decide (start % sizeMod ≤ stop % sizeMod) && decide (stop % sizeMod - start % sizeMod ≤ 7) &&
      decide (stop % sizeMod = sizeMod - 1)
  | _ => false

/-- **A dry step** stalls on such a range and nowhere else. -/
theorem evalTok_stalls (hdry : env.dryRun = true) (ctx : EpCtx α) (tok : EpTok) :
    evalTok env ctx tok = .error .hang ↔ stalls tok = true := by
  by_cases hrange : ∃ signed start stop, tok = .atom (.range signed start stop)
  · obtain ⟨signed, start, stop, rfl⟩ := hrange
    rw [evalTok, readAtom, readRange_eq]
    obtain ⟨m, value, hspan, -⟩ := readSpan_notes hdry
      (stop % sizeMod - start % sizeMod + 1) (start % sizeMod) 0 ctx
    simp only [stalls, Bool.and_eq_true, decide_eq_true_eq]
    by_cases hinv : stop % sizeMod < start % sizeMod
    · rw [if_pos hinv]
      exact ⟨fun h => (by cases h), fun h => absurd h.1.1 (Nat.not_le.mpr hinv)⟩
    by_cases hwide : 7 < stop % sizeMod - start % sizeMod
    · rw [if_neg hinv, if_pos hwide]
      exact ⟨fun h => (by cases h), fun h => absurd h.1.2 (Nat.not_le.mpr hwide)⟩
    rw [if_neg hinv, if_neg hwide, hspan]
    by_cases hend : stop % sizeMod = sizeMod - 1
    · simp only [bind, Except.bind, if_pos hend]
      exact ⟨fun _ => ⟨⟨by omega, by omega⟩, hend⟩, fun _ => by trivial⟩
    · simp only [bind, Except.bind, if_neg hend]
      exact ⟨fun h => absurd h (pushOperand_returns _ _), fun h => absurd h.2 hend⟩
  · have hother : ∀ signed start stop, tok ≠ .atom (.range signed start stop) :=
      fun signed start stop h => hrange ⟨signed, start, stop, h⟩
    have hno : stalls tok = false := by
      cases tok with
      | atom a =>
        cases a with
        | range signed start stop => exact absurd rfl (hother signed start stop)
        | _ => rfl
      | _ => rfl
    rw [hno]
    exact ⟨fun h => absurd h (evalTok_returns ctx hother), fun h => by cases h⟩

/-- **A run on a payload** comes back: the byte at `SIZE_MAX` is not there. -/
theorem evalTok_returns_run (hrun : env.dryRun = false) (hsize : env.data.length < sizeMod)
    (ctx : EpCtx α) (tok : EpTok) : Returns (evalTok env ctx tok) := by
  by_cases hrange : ∃ signed start stop, tok = .atom (.range signed start stop)
  · obtain ⟨signed, start, stop, rfl⟩ := hrange
    refine Returns.bind ?_ fun p _ => pushOperand_returns _ _
    rw [readAtom, readRange_eq]
    by_cases hinv : stop % sizeMod < start % sizeMod
    · rw [if_pos hinv]
      exact .arg _
    by_cases hwide : 7 < stop % sizeMod - start % sizeMod
    · rw [if_neg hinv, if_pos hwide]
      exact .arg _
    rw [if_neg hinv, if_neg hwide]
    refine (readSpan_returns _ _ _ _).bind fun r hr => ?_
    have hlast := readSpan_within hrun hr (stop % sizeMod) (by omega) (by omega)
    rw [if_neg (by omega)]
    exact .ok _
  · exact evalTok_returns ctx fun signed start stop h => hrange ⟨signed, start, stop, h⟩

theorem foldlM_evalTok_hang {ctx : EpCtx α} :
    ts.foldlM (evalTok env) ctx = .error .hang ↔
      ∃ pre tok post ctx', ts = pre ++ tok :: post ∧ pre.foldlM (evalTok env) ctx = .ok ctx' ∧
        evalTok env ctx' tok = .error .hang := by
  induction ts generalizing ctx with
  | nil =>
    refine ⟨fun h => (by cases h), ?_⟩
    rintro ⟨pre, tok, post, ctx', hts, -⟩
    simp at hts
  | cons tok ts ih =>
    rw [foldlM_cons]
    constructor
    · intro h
      cases hstep : evalTok env ctx tok with
      | error e =>
        rw [hstep] at h
        cases h
        exact ⟨[], tok, ts, ctx, rfl, rfl, hstep⟩
      | ok mid =>
        rw [hstep] at h
        obtain ⟨pre, tok', post, ctx', rfl, hpre, hhang⟩ := ih.mp h
        refine ⟨tok :: pre, tok', post, ctx', rfl, ?_, hhang⟩
        rw [foldlM_cons, hstep]
        exact hpre
    · rintro ⟨pre, tok', post, ctx', hts, hpre, hhang⟩
      cases pre with
      | nil =>
        obtain ⟨rfl, rfl⟩ := hts
        cases hpre
        rw [hhang]
        rfl
      | cons first pre =>
        obtain ⟨rfl, rfl⟩ := hts
        rw [foldlM_cons] at hpre
        cases hstep : evalTok env ctx tok with
        | error e => rw [hstep] at hpre; cases hpre
        | ok mid =>
          rw [hstep] at hpre
          exact ih.mpr ⟨pre, tok', post, ctx', rfl, hpre, hhang⟩

theorem parseRangeSyntax_none (h : lexRange s = none) :
    ∃ msg, parseRangeSyntax s = .error (.arg msg) := by
  cases s with
  | nil => exact ⟨_, rfl⟩
  | cons kind s =>
    by_cases hkind : kind ≠ 'B' ∧ kind ≠ 'S'
    · exact ⟨_, by rw [parseRangeSyntax, if_pos hkind]⟩
    · refine ⟨"bad range syntax", ?_⟩
      simp only [lexRange, hkind, if_false] at h
      simp only [parseRangeSyntax, hkind, if_false, parseIndex_eq]
      cases hstart : lexIndex s with
      | none => rfl
      | some i =>
        cases hskip : skip [':', kind] i.2 with
        | none => simp [hskip]
        | some s' =>
          cases hstop : lexIndex s' with
          | none => simp [hskip, hstop]
          | some i' =>
            cases hclose : skip [']'] i'.2 with
            | none => simp [hskip, hstop, hclose]
            | some rest => simp [hstart, hskip, hstop, hclose] at h

theorem parseByteRef_returns (ctx : EpCtx α) (kind : Char) (s : List Char) :
    Returns (parseByteRef env ctx kind s) := by
  have hpush : ∀ (p : EpCtx α × UInt8) (x : α) (rest : List Char),
      Returns (do let ctx ← pushOperand p.1 x; .ok (ctx, rest)) :=
    fun p x rest => (pushOperand_returns p.1 x).bind fun ctx' _ => .ok _
  rw [parseByteRef]
  cases parseIndex s with
  | none => exact .arg _
  | some i =>
    refine (readByte_returns ctx i.1).bind fun p _ => ?_
    split_ifs
    · exact hpush p _ _
    · cases skip [':'] i.2 with
      | none => exact hpush p _ _
      | some s' =>
        dsimp only
        cases parseBit s' with
        | none => exact .arg _
        | some b => exact hpush p _ _

theorem evaluateStep_returns (ctx : EpCtx α) {c : Char} (h : lexStep c s = none) :
    Returns (evaluateStep env ctx c s) := by
  have hbinary : ∀ rest : List Char,
      Returns (do let ctx ← binaryOperator env ctx c; .ok (ctx, rest)) := by
    intro rest
    refine Returns.bind ?_ fun ctx' _ => .ok _
    rw [binaryOperator]
    split_ifs
    · exact .arg _
    · exact pushOperator_returns ctx c
  rw [evaluateStep]
  split_ifs with hspace hnum hV hrange hbyte hopen hclose hminus hop hshift
  · exact .ok _
  · exact (pushOperand_returns ctx _).bind fun ctx' _ => .ok _
  · exact (pushOperand_returns ctx _).bind fun ctx' _ => .ok _
  · -- a range whose syntax is wrong
    subst hrange
    obtain ⟨msg, hmsg⟩ := parseRangeSyntax_none (map_eq_none_iff.mp h)
    rw [parseRange, hmsg]
    exact .arg msg
  · exact parseByteRef_returns ctx c s
  · refine Returns.bind ?_ fun ctx' _ => .ok _
    show Returns (evalTok env ctx .lpar)
    exact evalTok_returns ctx fun _ _ _ h => by cases h
  · exact (closeParen_returns ctx).bind fun ctx' _ => .ok _
  · refine Returns.bind ?_ fun ctx' _ => .ok _
    exact (pushOperand_returns ctx _).bind fun ctx' _ => pushOperator_returns _ _
  · exact hbinary _
  · exact hbinary _
  · exact .arg _

/-- **The loop stalls** where its tokens do. -/
theorem evaluateLoop_hang {s : List Char} (ctx : EpCtx α) :
    evaluateLoop env fuel ctx s = .error .hang ↔
      (readableLoop fuel s).foldlM (evalTok env) ctx = .error .hang := by
  induction fuel generalizing s ctx with
  | zero => exact ⟨fun h => (by cases h), fun h => by cases h⟩
  | succ fuel ih =>
    cases s with
    | nil => exact ⟨fun h => (by cases h), fun h => by cases h⟩
    | cons c s =>
      have hstep := evaluateStep_eq env ctx c s
      rw [evaluateLoop, readableLoop]
      rcases hlex : lexStep c s with _ | ⟨_ | tok, rest⟩
      · have hreturns : Returns (evaluateStep env ctx c s) := evaluateStep_returns ctx hlex
        rw [hlex] at hstep
        obtain ⟨e, he⟩ := hstep
        rw [he] at hreturns ⊢
        exact ⟨fun h => absurd (by cases h; rfl) hreturns, fun h => by cases h⟩
      · rw [hlex] at hstep
        rw [show evaluateStep env ctx c s = .ok (ctx, rest) from hstep]
        exact ih ctx
      · rw [hlex] at hstep
        rw [show evaluateStep env ctx c s = (evalTok env ctx tok).map fun ctx => (ctx, rest)
          from hstep, foldlM_cons]
        cases hone : evalTok env ctx tok with
        | error e => exact ⟨fun h => (by cases h; rfl), fun h => by cases h; rfl⟩
        | ok mid => exact ih mid

theorem evaluate_hang (s : List Char) :
    evaluate env s = .error .hang ↔
      (readable s).foldlM (evalTok env) EpCtx.init = .error .hang := by
  rw [readable, ← evaluateLoop_hang, evaluate]
  cases hloop : evaluateLoop env s.length EpCtx.init s with
  | error e => exact ⟨fun h => (by cases h; rfl), fun h => by cases h; rfl⟩
  | ok ctx => exact ⟨fun h => absurd h (evaluateEnd_returns ctx), fun h => by cases h⟩

/-! ## Every loop ends, or one does not -/

/-- The byte loop of every range the run reaches ends. All other loops of the
evaluator take a character or an operator at each turn. -/
def LoopsEnd (env : EpEnv α) (s : List Char) : Prop :=
  ∀ pre signed start stop post ctx,
    readable s = pre ++ .atom (.range signed start stop) :: post →
    pre.foldlM (evalTok env) EpCtx.init = .ok ctx →
    start % sizeMod ≤ stop % sizeMod → stop % sizeMod - start % sizeMod ≤ 7 →
    ∃ fuel, byteLoop env (stop % sizeMod) fuel (start % sizeMod) 0 ctx ≠ none

theorem evalTok_range_hang (hsize : env.dryRun = false → env.data.length < sizeMod) (ctx : EpCtx α)
    (signed : Bool) (start stop : ℕ) :
    evalTok env ctx (.atom (.range signed start stop)) = .error .hang ↔
      start % sizeMod ≤ stop % sizeMod ∧ stop % sizeMod - start % sizeMod ≤ 7 ∧
        ∀ fuel, byteLoop env (stop % sizeMod) fuel (start % sizeMod) 0 ctx = none := by
  rw [evalTok, readAtom]
  by_cases hinv : stop % sizeMod < start % sizeMod
  · rw [readRange_eq, if_pos hinv]
    exact ⟨fun h => (by cases h), fun h => absurd h.1 (Nat.not_le.mpr hinv)⟩
  by_cases hwide : 7 < stop % sizeMod - start % sizeMod
  · rw [readRange_eq, if_neg hinv, if_pos hwide]
    exact ⟨fun h => (by cases h), fun h => absurd h.2.1 (Nat.not_le.mpr hwide)⟩
  have hstop : stop % sizeMod < sizeMod := mod_lt _ (by decide)
  rcases readRange_byteLoop hsize (Nat.not_lt.mp hinv) (Nat.not_lt.mp hwide) hstop ctx
    (if signed then 'S' else 'B') with ⟨hnone, hread⟩ | ⟨fuel, r, hfuel, hread⟩
  · rw [hread]
    exact ⟨fun _ => ⟨Nat.not_lt.mp hinv, Nat.not_lt.mp hwide, hnone⟩, fun _ => rfl⟩
  · refine ⟨fun h => absurd h ?_, fun h => ?_⟩
    · refine Returns.bind ?_ fun p _ => pushOperand_returns _ _
      have hr := byteLoop_returns hfuel
      rw [hread]
      cases r with
      | ok p => exact .ok _
      | error e =>
        intro h
        cases h
        exact hr rfl
    · rw [h.2.2 fuel] at hfuel
      cases hfuel

theorem loopsEnd_iff (hsize : env.dryRun = false → env.data.length < sizeMod) (s : List Char) :
    LoopsEnd env s ↔ evaluate env s ≠ .error .hang := by
  rw [Ne, evaluate_hang, foldlM_evalTok_hang]
  constructor
  · rintro hends ⟨pre, tok, post, ctx, hread, hpre, hhang⟩
    by_cases hrange : ∃ signed start stop, tok = .atom (.range signed start stop)
    · obtain ⟨signed, start, stop, rfl⟩ := hrange
      obtain ⟨hle, hwide, hnone⟩ := (evalTok_range_hang hsize ctx signed start stop).mp hhang
      obtain ⟨fuel, hfuel⟩ := hends pre signed start stop post ctx hread hpre hle hwide
      exact hfuel (hnone fuel)
    · exact evalTok_returns ctx (fun signed start stop h => hrange ⟨signed, start, stop, h⟩) hhang
  · intro hno pre signed start stop post ctx hread hpre hle hwide
    by_contra hnone
    push Not at hnone
    exact hno ⟨pre, _, post, ctx, hread, hpre,
      (evalTok_range_hang hsize ctx signed start stop).mpr ⟨hle, hwide, hnone⟩⟩

end Stall

/-- The dry run of `expression_parser_check`. -/
def checkEnv (ar : Arith α) : EpEnv α := ⟨ar, [], ar.ofInt 0, true⟩

/-- The run of `expression_parser_eval`. -/
def evalEnv (ar : Arith α) (data : List UInt8) (v : α) : EpEnv α := ⟨ar, data, v, false⟩

/-- The check gets to a range that ends at `SIZE_MAX`: what stands in front of it
has ranges that fit, counts and stays within the stacks. -/
def ReachesSizeMax (ar : Arith α) (s : List Char) : Prop :=
  ∃ pre tok post, readable s = pre ++ tok :: post ∧ stalls tok = true ∧
    pre.all rangeFits = true ∧ (pre.foldlM countTok Counts.init).isSome = true ∧
    pre.foldlM (evalTok (checkEnv ar)) EpCtx.init ≠ .error .tooDeep

theorem evaluate_checkEnv_hang (ar : Arith α) (s : List Char) :
    evaluate (checkEnv ar) s = .error .hang ↔ ReachesSizeMax ar s := by
  have hdry : (checkEnv ar).dryRun = true := rfl
  rw [evaluate_hang, foldlM_evalTok_hang]
  constructor
  · rintro ⟨pre, tok, post, ctx, hread, hpre, hhang⟩
    rcases foldlM_evalTok_dry hdry pre agrees_init with hrun | ⟨hfits, _, c, _, hcount, _⟩ | ⟨_, e, he⟩
    · rw [hrun] at hpre
      cases hpre
    · refine ⟨pre, tok, post, hread, (evalTok_stalls hdry ctx tok).mp hhang, hfits, ?_, ?_⟩
      · rw [hcount]
        rfl
      · rw [hpre]
        exact fun h => by cases h
    · rw [he] at hpre
      cases hpre
  · rintro ⟨pre, tok, post, hread, hstalls, hfits, hcount, hdeep⟩
    rcases foldlM_evalTok_dry hdry pre agrees_init with hrun | ⟨_, ctx, _, hpre, _⟩ | ⟨hno, _⟩
    · exact absurd hrun hdeep
    · exact ⟨pre, tok, post, ctx, hread, hpre, (evalTok_stalls hdry ctx tok).mpr hstalls⟩
    · rcases hno with hno | hno
      · rw [hfits] at hno
        cases hno
      · rw [hno] at hcount
        cases hcount

theorem evaluate_evalEnv_returns (ar : Arith α) (s : List Char) (v : α)
    (hsize : data.length < sizeMod) : Returns (evaluate (evalEnv ar data v) s) := by
  intro h
  rw [evaluate_hang, foldlM_evalTok_hang] at h
  obtain ⟨pre, tok, post, ctx, -, -, hhang⟩ := h
  exact evalTok_returns_run rfl hsize ctx tok hhang

/-- **When both end.** The evaluation always does; the check does exactly when it
gets to no range that ends at `SIZE_MAX`. -/
theorem expressionParser_loopsEnd_iff (ar : Arith α) (s : List Char) :
    (LoopsEnd (checkEnv ar) s ∧ ∀ data v, data.length < sizeMod → LoopsEnd (evalEnv ar data v) s) ↔
      ¬ ReachesSizeMax ar s := by
  rw [loopsEnd_iff (fun h => by cases h), Ne, evaluate_checkEnv_hang]
  refine ⟨fun h => h.1, fun h => ⟨h, fun data v hsize => ?_⟩⟩
  rw [loopsEnd_iff fun _ => hsize]
  exact evaluate_evalEnv_returns ar s v hsize

/-- `[B4294967295:B4294967295]` -/
def sizeMaxRange : List Char :=
  ['[', 'B', '4', '2', '9', '4', '9', '6', '7', '2', '9', '5', ':',
    'B', '4', '2', '9', '4', '9', '6', '7', '2', '9', '5', ']']

/-- Its check is still in the byte loop after any number of turns. -/
theorem not_loopsEnd_sizeMaxRange : ¬ LoopsEnd (checkEnv intArith) sizeMaxRange := by
  rw [loopsEnd_iff fun h => by cases h]
  intro h
  exact h rfl

/-! ## What the indexes say -/

/-- The indexes of a token, as the numbers that are written. -/
def refIndexes : EpTok → List ℕ
  | .atom (.byte index) => [index]
  | .atom (.bit index _) => [index]
  | .atom (.sbyte index) => [index]
  | .atom (.range _ start stop) => [start, stop]
  | _ => []

/-- Every index is taken for what it says: one that is not in the payload makes
the evaluation fail, and the check reports at least it or refuses the text. -/
def IndexesHold (ar : Arith α) (s : List Char) (data : List UInt8) (v : α) : Prop :=
  ∀ tok ∈ readable s, ∀ n ∈ refIndexes tok, data.length ≤ n →
    (∃ code msg, expressionParserEval ar s data v = .error (.err code msg)) ∧
      ((∃ high, expressionParserCheck ar s = .ok (some high) ∧ n ≤ high) ∨
        ∃ msg, expressionParserCheck ar s = .error (.arg msg))

/-- All indexes are below `2^32`. -/
def IndexesFit (ts : List EpTok) : Prop := ∀ tok ∈ ts, ∀ n ∈ refIndexes tok, n < sizeMod

/-- The highest byte is below `bound`. -/
def NotedBelow (bound : ℕ) (noted : Option ℕ) : Prop := ∀ m ∈ noted, m < bound

section Noted

variable {env : EpEnv α} {bound : ℕ}

theorem readSpan_noted (hdry : env.dryRun = true) {ctx : EpCtx α} {r : EpCtx α × ℕ}
    (h : readSpan env count j value ctx = .ok r) (hbound : j + count ≤ bound)
    (hbelow : NotedBelow bound ctx.maxByte) :
    NotedBelow bound r.1.maxByte ∧ ∀ i, j ≤ i → i < j + count → ∃ high ∈ r.1.maxByte, i ≤ high := by
  induction count generalizing j value ctx r with
  | zero =>
    cases h
    exact ⟨hbelow, fun i hle hlt => by omega⟩
  | succ count ih =>
    rw [readSpan, readByte_notes hdry] at h
    have hnext : NotedBelow bound (some (max j (ctx.maxByte.getD 0))) := by
      rintro m hm
      obtain rfl : max j (ctx.maxByte.getD 0) = m := by simpa using hm
      cases hmax : ctx.maxByte with
      | none => simp; omega
      | some k => exact Nat.max_lt.mpr ⟨by omega, hbelow k hmax⟩
    obtain ⟨hr, hnoted⟩ := ih h (by omega) hnext
    refine ⟨hr, fun i hle hlt => ?_⟩
    rcases Nat.eq_or_lt_of_le hle with rfl | hlt'
    · obtain ⟨m, value', hspan, hgrows⟩ := readSpan_notes hdry count (j + 1)
        (value * 256 + (0 : UInt8).toNat) { ctx with maxByte := some (max j (ctx.maxByte.getD 0)) }
      rw [show readSpan env count (j + 1) (value * 256 + (0 : UInt8).toNat)
        { ctx with maxByte := some (max j (ctx.maxByte.getD 0)) } = .ok r from h] at hspan
      cases hspan
      obtain ⟨high, hhigh, hge⟩ := hgrows _ rfl
      exact ⟨high, hhigh, (Nat.le_max_left _ _).trans hge⟩
    · exact hnoted i hlt' (by omega)

/-- **A dry step** notes the indexes of its token as `size_t`, and nothing beyond. -/
theorem evalTok_noted (hdry : env.dryRun = true) {ctx ctx' : EpCtx α}
    (h : evalTok env ctx tok = .ok ctx') (hrefs : ∀ n ∈ refIndexes tok, n % sizeMod < bound)
    (hbelow : NotedBelow bound ctx.maxByte) : NotedBelow bound ctx'.maxByte ∧
      ∀ n ∈ refIndexes tok, ∃ high ∈ ctx'.maxByte, n % sizeMod ≤ high := by
  have hbyte : ∀ (index : ℕ) (x : α), index % sizeMod < bound →
      pushOperand { ctx with maxByte := some (max (index % sizeMod) (ctx.maxByte.getD 0)) } x =
        .ok ctx' → NotedBelow bound ctx'.maxByte ∧
          ∀ n ∈ [index], ∃ high ∈ ctx'.maxByte, n % sizeMod ≤ high := by
    intro index x hmod hpush
    have hspan : readSpan env 1 (index % sizeMod) 0 ctx = .ok
        ({ ctx with maxByte := some (max (index % sizeMod) (ctx.maxByte.getD 0)) }, 0) := by
      rw [readSpan, readByte_notes hdry]
      rfl
    obtain ⟨hr, hnoted⟩ := readSpan_noted hdry hspan (by omega) hbelow
    rw [pushOperand_maxByte hpush]
    refine ⟨hr, fun n hn => ?_⟩
    obtain rfl := mem_singleton.mp hn
    exact hnoted _ (Nat.le_refl _) (by omega)
  have hkeep : ctx'.maxByte = ctx.maxByte → refIndexes tok = [] → NotedBelow bound ctx'.maxByte ∧
        ∀ n ∈ refIndexes tok, ∃ high ∈ ctx'.maxByte, n % sizeMod ≤ high := by
    intro hmax hnone
    rw [hmax, hnone]
    exact ⟨hbelow, fun n hn => by cases hn⟩
  cases tok with
  | lpar => exact hkeep (openParen_maxByte h) rfl
  | rpar => exact hkeep (closeParen_maxByte h) rfl
  | op o => exact hkeep (evalTok_op_maxByte h) rfl
  | atom a =>
    cases a with
    | num run => exact hkeep (pushOperand_maxByte h) rfl
    | v => exact hkeep (pushOperand_maxByte h) rfl
    | byte index =>
      rw [evalTok, readAtom, readByte_notes hdry] at h
      exact hbyte index _ (hrefs index (by simp [refIndexes])) h
    | bit index b =>
      rw [evalTok, readAtom, readByte_notes hdry] at h
      exact hbyte index _ (hrefs index (by simp [refIndexes])) h
    | sbyte index =>
      rw [evalTok, readAtom, readByte_notes hdry] at h
      exact hbyte index _ (hrefs index (by simp [refIndexes])) h
    | range signed start stop =>
      have hstop := hrefs stop (by simp [refIndexes])
      rw [evalTok, readAtom, readRange_eq] at h
      by_cases hinv : stop % sizeMod < start % sizeMod
      · rw [if_pos hinv] at h
        cases h
      by_cases hwide : 7 < stop % sizeMod - start % sizeMod
      · rw [if_neg hinv, if_pos hwide] at h
        cases h
      rw [if_neg hinv, if_neg hwide] at h
      cases hspan : readSpan env (stop % sizeMod - start % sizeMod + 1) (start % sizeMod) 0 ctx with
      | error e => rw [hspan] at h; cases h
      | ok r =>
        rw [hspan] at h
        by_cases hend : stop % sizeMod = sizeMod - 1
        · simp only [bind, Except.bind, if_pos hend] at h
          cases h
        · simp only [bind, Except.bind, if_neg hend] at h
          obtain ⟨hr, hnoted⟩ := readSpan_noted hdry hspan (by omega) hbelow
          rw [pushOperand_maxByte h]
          refine ⟨hr, fun n hn => ?_⟩
          simp only [refIndexes, mem_cons, not_mem_nil, or_false] at hn
          rcases hn with rfl | rfl
          · exact hnoted _ (Nat.le_refl _) (by omega)
          · exact hnoted _ (Nat.not_lt.mp hinv) (by omega)

/-- **A dry run** notes every index. -/
theorem foldlM_evalTok_noted (hdry : env.dryRun = true) {ctx ctx' : EpCtx α}
    (h : ts.foldlM (evalTok env) ctx = .ok ctx')
    (hrefs : ∀ tok ∈ ts, ∀ n ∈ refIndexes tok, n % sizeMod < bound)
    (hbelow : NotedBelow bound ctx.maxByte) :
    NotedBelow bound ctx'.maxByte ∧
      ∀ tok ∈ ts, ∀ n ∈ refIndexes tok, ∃ high ∈ ctx'.maxByte, n % sizeMod ≤ high := by
  induction ts generalizing ctx ctx' with
  | nil =>
    cases h
    exact ⟨hbelow, fun tok htok => by cases htok⟩
  | cons tok ts ih =>
    rw [foldlM_cons] at h
    cases hstep : evalTok env ctx tok with
    | error e => rw [hstep] at h; cases h
    | ok mid =>
      rw [hstep] at h
      obtain ⟨hmid, hnoted⟩ := evalTok_noted hdry hstep (hrefs tok mem_cons_self) hbelow
      obtain ⟨hlast, hrest⟩ := ih h (fun t ht => hrefs t (mem_cons_of_mem _ ht)) hmid
      refine ⟨hlast, fun tok' htok' n hn => ?_⟩
      rcases mem_cons.mp htok' with rfl | htok'
      · obtain ⟨high, hhigh, hle⟩ := hnoted n hn
        obtain ⟨high', hhigh', hle'⟩ := foldlM_evalTok_grows hdry ts h high hhigh
        exact ⟨high', hhigh', hle.trans hle'⟩
      · exact hrest tok' htok' n hn

end Noted

theorem expressionParserCheck_noted {ar : Arith α} {m : Option ℕ}
    (h : expressionParserCheck ar s = .ok m) :
    NotedBelow sizeMod m ∧
      ∀ tok ∈ readable s, ∀ n ∈ refIndexes tok, ∃ high ∈ m, n % sizeMod ≤ high := by
  obtain ⟨p, hp, rfl⟩ := expressionParserCheck_ok h
  obtain ⟨ts, hts⟩ := tokenize_of_evaluate hp
  rw [evaluate_of_tokenize _ hts] at hp
  rw [readable_of_tokenize hts]
  cases hrun : ts.foldlM (evalTok (checkEnv ar)) EpCtx.init with
  | error e =>
    rw [checkEnv] at hrun
    rw [hrun] at hp
    cases hp
  | ok ctx =>
    have hdry : (checkEnv ar).dryRun = true := rfl
    obtain ⟨hbelow, hnoted⟩ := foldlM_evalTok_noted hdry hrun
      (fun _ _ n _ => mod_lt n (by decide)) fun m hm => by cases hm
    rw [checkEnv] at hrun
    rw [hrun] at hp
    rw [evaluateEnd_maxByte hp]
    exact ⟨hbelow, hnoted⟩

theorem expressionParserEval_cases {ar : Arith α} {v : α} (hsize : data.length < sizeMod) :
    (∃ r, expressionParserEval ar s data v = .ok r) ∨
      ∃ code msg, expressionParserEval ar s data v = .error (.err code msg) := by
  have hreturns := evaluate_evalEnv_returns ar s v hsize
  rw [expressionParserEval]
  cases heval : evaluate (⟨ar, data, v, false⟩ : EpEnv α) s with
  | ok q => exact .inl ⟨q.2, rfl⟩
  | error e =>
    cases e with
    | err code msg => exact .inr ⟨code, msg, rfl⟩
    | hang => exact absurd heval hreturns

theorem expressionParserCheck_cases (ar : Arith α) (s : List Char) :
    (∃ m, expressionParserCheck ar s = .ok m) ∨
      (∃ msg, expressionParserCheck ar s = .error (.arg msg)) ∨
      expressionParserCheck ar s = .error .hang ∧ ReachesSizeMax ar s := by
  cases heval : evaluate (checkEnv ar) s with
  | ok p =>
    refine .inl ⟨p.1.maxByte, ?_⟩
    rw [expressionParserCheck, ← checkEnv, heval]
  | error e =>
    cases e with
    | err code msg =>
      refine .inr (.inl ⟨msg, ?_⟩)
      rw [expressionParserCheck, ← checkEnv, heval]
    | hang =>
      refine .inr (.inr ⟨?_, (evaluate_checkEnv_hang ar s).mp heval⟩)
      rw [expressionParserCheck, ← checkEnv, heval]

/-- **When the indexes hold**: the check comes back, and an accepted text has no
index from `2^32` on. -/
theorem expressionParser_indexes_iff (ar : Arith α) (s : List Char) (data : List UInt8) (v : α)
    (hsize : data.length < sizeMod) :
    IndexesHold ar s data v ↔ ¬ ReachesSizeMax ar s ∧
        (CheckWithinStacks ar s → ∀ ts, tokenize s = some ts → ts.all rangeFits = true →
          countsOut ts = true → IndexesFit ts) := by
  constructor
  · intro hhold
    constructor
    · -- the range that stalls the check is beyond every payload
      intro hreach
      have hhang := (evaluate_checkEnv_hang ar s).mpr hreach
      obtain ⟨pre, tok, post, hread, hstalls, -⟩ := hreach
      have hmem : tok ∈ readable s := by rw [hread]; simp
      cases tok with
      | atom a =>
        cases a with
        | range signed start stop =>
          simp only [stalls, Bool.and_eq_true, decide_eq_true_eq] at hstalls
          have hbig : data.length ≤ stop := by
            have := mod_le stop sizeMod
            omega
          have hcheck : expressionParserCheck ar s = .error .hang := by
            rw [expressionParserCheck, ← checkEnv, hhang]
          obtain ⟨-, ⟨high, hok, -⟩ | ⟨msg, hno⟩⟩ := hhold _ hmem stop (by simp [refIndexes]) hbig
          · rw [hcheck] at hok
            cases hok
          · rw [hcheck] at hno
            cases hno
        | _ => cases hstalls
      | _ => cases hstalls
    · intro hdeep ts hts hfits hcount tok htok n hn
      by_contra hbig
      obtain ⟨m, hm⟩ := (expressionParserCheck_isOk_iff ar hdeep).mpr ⟨ts, hts, hfits, hcount⟩
      rw [← readable_of_tokenize hts] at htok
      obtain ⟨-, ⟨high, hok, hle⟩ | ⟨msg, hno⟩⟩ := hhold tok htok n hn (by omega)
      · have := (expressionParserCheck_noted hok).1 high rfl
        omega
      · rw [hm] at hno
        cases hno
  · rintro ⟨hreach, hfit⟩ tok htok n hn hlen
    rcases expressionParserCheck_cases ar s with ⟨m, hm⟩ | ⟨msg, hno⟩ | ⟨-, hhang⟩
    · -- accepted: the index is its own `size_t`
      have hdeep : CheckWithinStacks ar s := by
        intro h
        rw [hm] at h
        cases h
      obtain ⟨ts, hts, hfits, hcount⟩ := (expressionParserCheck_isOk_iff ar hdeep).mp ⟨m, hm⟩
      have hsmall : n < sizeMod := by
        rw [readable_of_tokenize hts] at htok
        exact hfit hdeep ts hts hfits hcount tok htok n hn
      obtain ⟨high, hhigh, hle⟩ := (expressionParserCheck_noted hm).2 tok htok n hn
      rw [mod_eq_of_lt hsmall] at hle
      obtain rfl : m = some high := hhigh
      refine ⟨?_, .inl ⟨high, hm, hle⟩⟩
      rcases expressionParserEval_cases hsize with ⟨r, hr⟩ | hfail
      · obtain ⟨m', hm', hwithin⟩ := expressionParserCheck_of_eval hr
        rw [hm] at hm'
        cases hm'
        have := hwithin high rfl
        omega
      · exact hfail
    · refine ⟨?_, .inr ⟨msg, hno⟩⟩
      rcases expressionParserEval_cases hsize with ⟨r, hr⟩ | hfail
      · obtain ⟨m', hm', -⟩ := expressionParserCheck_of_eval hr
        rw [hno] at hm'
        cases hm'
      · exact hfail
    · exact absurd hhang hreach

/-- `B4294967296` -/
def wrappedByte : List Char := ['B', '4', '2', '9', '4', '9', '6', '7', '2', '9', '6']

/-- It reads the first byte of the payload. -/
theorem not_indexesHold_wrappedByte : ¬ IndexesHold intArith wrappedByte [7] 0 := by
  intro h
  have hmem : (.atom (.byte 4294967296) : EpTok) ∈ readable wrappedByte := by decide
  obtain ⟨⟨code, msg, hfail⟩, -⟩ := h _ hmem 4294967296 (by simp [refIndexes]) (by decide)
  cases hfail

/-- `B1` on a payload of one byte. -/
theorem indexesHold_of_small : IndexesHold intArith ['B', '1'] [7] 0 := by
  refine (expressionParser_indexes_iff intArith _ [7] 0 (by decide)).mpr ⟨?_, ?_⟩
  · rintro ⟨pre, tok, post, hread, hstalls, -⟩
    have hone : readable ['B', '1'] = [.atom (.byte 1)] := rfl
    have hmem : tok ∈ readable ['B', '1'] := by rw [hread]; simp
    rw [hone, mem_singleton] at hmem
    subst hmem
    cases hstalls
  · intro _ ts hts _ _ tok htok n hn
    have hone : tokenize ['B', '1'] = some [.atom (.byte 1)] := rfl
    rw [hone, some.injEq] at hts
    subst hts
    rw [mem_singleton] at htok
    subst htok
    rw [mem_singleton.mp hn]
    decide

end Meatpi
