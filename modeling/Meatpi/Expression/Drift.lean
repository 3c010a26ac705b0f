import Meatpi.Expression.Tokens

/-!
# The check and the evaluation stay together

One evaluator runs in two modes. A dry run and a run on a payload do the same to
the operator stack, to the flags and to the number of operands; the values are
all that differs. So the payload's run can leave the dry one only where a value
or a byte decides: at a division by zero and at a byte that is not there
(`Trails`). What the check accepts never fails for its syntax.
-/

namespace Meatpi

open List

variable {m : Option ℕ} {s : List Char} {size : ℕ} {α : Type}

/-! ## Two runs -/

/-- The highest byte does not go down. -/
def Grows (low high : Option ℕ) : Prop := ∀ m ∈ low, ∃ m' ∈ high, m ≤ m'

theorem Grows.refl (m : Option ℕ) : Grows m m := fun k hk => ⟨k, hk, Nat.le_refl k⟩

theorem Grows.trans {a b c : Option ℕ} (h : Grows a b) (h' : Grows b c) : Grows a c := by
  intro m hm
  obtain ⟨m', hm', hle⟩ := h m hm
  obtain ⟨m'', hm'', hle'⟩ := h' m' hm'
  exact ⟨m'', hm'', hle.trans hle'⟩

/-- How a run on `size` bytes follows the dry run: to related results, to the same
error, or off at a division by zero or at a byte it does not have. There the dry
run, if it goes on, has noted that byte. -/
inductive Trails {β γ : Type} (size : ℕ) (high : β → Option ℕ) (R : β → γ → Prop) :
    Except EpErr β → Except EpErr γ → Prop
  | ok {d : β} {r : γ} : R d r → Trails size high R (.ok d) (.ok r)
  | same (e : EpErr) : Trails size high R (.error e) (.error e)
  | zero (dry : Except EpErr β) (msg : String) :
      Trails size high R dry (.error (.err .fail msg))
  | short (dry : Except EpErr β) (msg : String) :
      (∀ d, dry = .ok d → ∃ m ∈ high d, size ≤ m) →
      Trails size high R dry (.error (.err .invalidSize msg))

theorem Trails.bind {β γ δ ε : Type} {high : β → Option ℕ} {high' : δ → Option ℕ} {R : β → γ → Prop}
    {R' : δ → ε → Prop} {x : Except EpErr β} {y : Except EpErr γ} {f : β → Except EpErr δ}
    {g : γ → Except EpErr ε} (h : Trails size high R x y)
    (hstep : ∀ d r, R d r → Trails size high' R' (f d) (g r))
    (hgrows : ∀ d d', f d = .ok d' → Grows (high d) (high' d')) :
    Trails size high' R' (x >>= f) (y >>= g) := by
  cases h with
  | ok hR => exact hstep _ _ hR
  | same e => exact .same e
  | zero _ msg => exact .zero _ msg
  | short _ msg hnoted =>
    refine .short _ msg fun d' hd' => ?_
    cases x with
    | error e => cases hd'
    | ok d =>
      obtain ⟨m, hm, hsize⟩ := hnoted d rfl
      obtain ⟨m', hm', hle⟩ := hgrows d d' hd' m hm
      exact ⟨m', hm', hsize.trans hle⟩

/-- The stacks and the flags of two runs that are in step; the payload had every
byte so far. -/
structure InStep (size : ℕ) (d r : EpCtx α) : Prop where
  operands : d.operands.length = r.operands.length
  operators : d.operators = r.operators
  expectOperand : d.expectOperand = r.expectOperand
  unaryOk : d.unaryOk = r.unaryOk
  maxByte : d.maxByte = r.maxByte
  within : ∀ m ∈ r.maxByte, m < size

theorem inStep_init (size : ℕ) : InStep size (EpCtx.init : EpCtx α) EpCtx.init :=
  ⟨rfl, rfl, rfl, rfl, rfl, by simp [EpCtx.init]⟩

/-! ## The bytes noted -/

theorem readByte_notes {env : EpEnv α} (hdry : env.dryRun = true) (ctx : EpCtx α) (index : ℕ) :
    readByte env ctx index =
      .ok ({ ctx with maxByte := some (max index (ctx.maxByte.getD 0)) }, 0) := by
  rw [readByte, if_pos hdry]

theorem grows_max (index : ℕ) (m : Option ℕ) : Grows m (some (max index (m.getD 0))) := by
  rintro k rfl
  exact ⟨_, rfl, Nat.le_max_right _ _⟩

theorem readSpan_notes {env : EpEnv α} (hdry : env.dryRun = true) (count j value : ℕ)
    (ctx : EpCtx α) :
    ∃ m value', readSpan env count j value ctx = .ok ({ ctx with maxByte := m }, value') ∧
      Grows ctx.maxByte m := by
  induction count generalizing j value ctx with
  | zero => exact ⟨ctx.maxByte, value, rfl, .refl _⟩
  | succ count ih =>
    obtain ⟨m, value', hspan, hgrows⟩ := ih (j + 1) (value * 256 + (0 : UInt8).toNat)
      { ctx with maxByte := some (max j (ctx.maxByte.getD 0)) }
    refine ⟨m, value', ?_, (grows_max j _).trans hgrows⟩
    rw [readSpan, readByte_notes hdry]
    exact hspan

theorem pushOperand_maxByte {ctx ctx' : EpCtx α} {x : α} (h : pushOperand ctx x = .ok ctx') :
    ctx'.maxByte = ctx.maxByte := by
  rw [pushOperand] at h
  split_ifs at h
  cases h
  rfl

theorem pushOperator_maxByte {env : EpEnv α} {ctx ctx' : EpCtx α} {op : Char}
    (h : pushOperator env ctx op = .ok ctx') : ctx'.maxByte = ctx.maxByte := by
  simp only [pushOperator, bind, Except.bind] at h
  split at h
  · cases h
  · split_ifs at h
    cases h
    rfl

/-- The value of a span that was read. -/
def rangeValue (env : EpEnv α) (kind : Char) (span value : ℕ) : α :=
  if kind = 'B' then env.ar.ofInt value
  else if span = 1 then env.ar.ofInt (signedOf 8 value)
  else if span = 2 then env.ar.ofInt (signedOf 16 value)
  else if span ≤ 4 then env.ar.ofInt (signedOf 32 value)
  else env.ar.ofInt (signedOf 64 value)

theorem readRange_eq (env : EpEnv α) (ctx : EpCtx α) (kind : Char) (start stop : ℕ) :
    readRange env ctx kind start stop = if stop < start then .error (.arg "inverted range")
      else if 7 < stop - start then .error (.arg "range wider than 8 bytes")
      else readSpan env (stop - start + 1) start 0 ctx >>= fun r =>
        if stop = sizeMod - 1 then .error .hang
        else .ok (r.1, rangeValue env kind (stop - start + 1) r.2) := by
  have hvalue : ∀ r : EpCtx α × ℕ, (if kind = 'B' then .ok (r.1, env.ar.ofInt r.2)
      else if stop - start + 1 = 1 then .ok (r.1, env.ar.ofInt (signedOf 8 r.2))
      else if stop - start + 1 = 2 then .ok (r.1, env.ar.ofInt (signedOf 16 r.2))
      else if stop - start + 1 ≤ 4 then .ok (r.1, env.ar.ofInt (signedOf 32 r.2))
      else .ok (r.1, env.ar.ofInt (signedOf 64 r.2)) : Except EpErr (EpCtx α × α)) =
        .ok (r.1, rangeValue env kind (stop - start + 1) r.2) := by
    intro r
    rw [rangeValue]
    split_ifs <;> rfl
  simp only [← hvalue]
  rfl

theorem readRange_grows {env : EpEnv α} (hdry : env.dryRun = true) {ctx : EpCtx α} {kind : Char}
    {start stop : ℕ} {r : EpCtx α × α} (h : readRange env ctx kind start stop = .ok r) :
    Grows ctx.maxByte r.1.maxByte := by
  obtain ⟨m, value, hspan, hgrows⟩ := readSpan_notes hdry (stop - start + 1) start 0 ctx
  simp only [readRange_eq, hspan, bind, Except.bind] at h
  split_ifs at h
  cases h
  exact hgrows

theorem readAtom_grows {env : EpEnv α} (hdry : env.dryRun = true) {ctx : EpCtx α} {a : EpAtom}
    {r : EpCtx α × α} (h : readAtom env ctx a = .ok r) : Grows ctx.maxByte r.1.maxByte := by
  cases a with
  | num run => cases h; exact .refl _
  | v => cases h; exact .refl _
  | byte index =>
    rw [readAtom, readByte_notes hdry] at h
    cases h
    exact grows_max _ _
  | bit index b =>
    rw [readAtom, readByte_notes hdry] at h
    cases h
    exact grows_max _ _
  | sbyte index =>
    rw [readAtom, readByte_notes hdry] at h
    cases h
    exact grows_max _ _
  | range signed start stop => exact readRange_grows hdry h

theorem closeParen_maxByte {env : EpEnv α} {ctx ctx' : EpCtx α}
    (h : closeParen env ctx = .ok ctx') : ctx'.maxByte = ctx.maxByte := by
  simp only [closeParen, bind, Except.bind] at h
  split at h
  · cases h
  · split at h
    · cases h
      rfl
    · cases h

theorem openParen_maxByte {ctx ctx' : EpCtx α} (h : openParen ctx = .ok ctx') :
    ctx'.maxByte = ctx.maxByte := by
  rw [openParen] at h
  split_ifs at h
  cases h
  rfl

theorem unaryMinus_maxByte {env : EpEnv α} {ctx ctx' : EpCtx α}
    (h : unaryMinus env ctx = .ok ctx') : ctx'.maxByte = ctx.maxByte := by
  rw [unaryMinus] at h
  cases hpush : pushOperand ctx (env.ar.ofInt 0) with
  | error e => rw [hpush] at h; cases h
  | ok pushed =>
    rw [hpush] at h
    have hmax : ctx'.maxByte = pushed.maxByte := pushOperator_maxByte h
    exact hmax.trans (pushOperand_maxByte hpush)

theorem evalTok_op_maxByte {env : EpEnv α} {ctx ctx' : EpCtx α} {o : EpOp}
    (h : evalTok env ctx (.op o) = .ok ctx') : ctx'.maxByte = ctx.maxByte := by
  rw [evalTok] at h
  split_ifs at h
  · exact unaryMinus_maxByte h
  · rw [binaryOperator] at h
    split_ifs at h
    exact pushOperator_maxByte h

/-- **A dry step notes bytes, and forgets none.** -/
theorem evalTok_grows {env : EpEnv α} (hdry : env.dryRun = true) {ctx ctx' : EpCtx α} {tok : EpTok}
    (h : evalTok env ctx tok = .ok ctx') : Grows ctx.maxByte ctx'.maxByte := by
  cases tok with
  | atom a =>
    rw [evalTok] at h
    cases hread : readAtom env ctx a with
    | error e => rw [hread] at h; cases h
    | ok r =>
      rw [hread] at h
      rw [pushOperand_maxByte (show pushOperand r.1 r.2 = .ok ctx' from h)]
      exact readAtom_grows hdry hread
  | lpar => rw [openParen_maxByte h]; exact .refl _
  | rpar => rw [closeParen_maxByte h]; exact .refl _
  | op o => rw [evalTok_op_maxByte h]; exact .refl _

theorem foldlM_evalTok_grows {env : EpEnv α} (hdry : env.dryRun = true) (ts : List EpTok)
    {ctx ctx' : EpCtx α} (h : ts.foldlM (evalTok env) ctx = .ok ctx') :
    Grows ctx.maxByte ctx'.maxByte := by
  induction ts generalizing ctx ctx' with
  | nil => cases h; exact .refl _
  | cons tok ts ih =>
    rw [foldlM_cons] at h
    cases hstep : evalTok env ctx tok with
    | error e => rw [hstep] at h; cases h
    | ok mid =>
      rw [hstep] at h
      exact (evalTok_grows hdry hstep).trans (ih h)

/-! ## Step by step -/

section Trail

variable {dry env : EpEnv α}

/-- The dry run of the same arithmetic. -/
structure DryOf (dry env : EpEnv α) : Prop where
  ar : dry.ar = env.ar
  dryRun : dry.dryRun = true
  run : env.dryRun = false

theorem readByte_trails (hd : DryOf dry env) {d r : EpCtx α} (h : InStep env.data.length d r)
    (index : ℕ) :
    Trails env.data.length (fun p : EpCtx α × UInt8 => p.1.maxByte)
      (fun p q => InStep env.data.length p.1 q.1) (readByte dry d index) (readByte env r index) := by
  rw [readByte_notes hd.dryRun, readByte, if_neg (by simp [hd.run])]
  cases hb : env.data[index]? with
  | none =>
    have hsize : env.data.length ≤ index := List.getElem?_eq_none_iff.mp hb
    refine .short _ _ fun p hp => ?_
    cases hp
    exact ⟨_, rfl, hsize.trans (Nat.le_max_left _ _)⟩
  | some b =>
    obtain ⟨hlt, -⟩ := List.getElem?_eq_some_iff.mp hb
    refine .ok ⟨h.operands, h.operators, h.expectOperand, h.unaryOk, ?_, ?_⟩
    · rw [h.maxByte]
    · rintro m hm
      obtain rfl : max index (r.maxByte.getD 0) = m := by simpa using hm
      cases hmax : r.maxByte with
      | none => simpa using hlt
      | some k => exact Nat.max_lt.mpr ⟨hlt, h.within k hmax⟩

theorem readSpan_trails (hd : DryOf dry env) (count j value value' : ℕ) {d r : EpCtx α}
    (h : InStep env.data.length d r) :
    Trails env.data.length (fun p : EpCtx α × ℕ => p.1.maxByte)
      (fun p q => InStep env.data.length p.1 q.1) (readSpan dry count j value d)
      (readSpan env count j value' r) := by
  induction count generalizing j value value' d r with
  | zero => exact .ok h
  | succ count ih =>
    refine (readByte_trails hd h j).bind (fun p q hpq => ih _ _ _ hpq) fun p p' hp => ?_
    obtain ⟨m, value'', hspan, hgrows⟩ := readSpan_notes hd.dryRun count (j + 1)
      (value * 256 + p.2.toNat) p.1
    rw [show readSpan dry count (j + 1) (value * 256 + p.2.toNat) p.1 = .ok p' from hp] at hspan
    cases hspan
    exact hgrows

theorem readRange_trails (hd : DryOf dry env) {d r : EpCtx α} (h : InStep env.data.length d r)
    (kind : Char) (start stop : ℕ) :
    Trails env.data.length (fun p : EpCtx α × α => p.1.maxByte)
      (fun p q => InStep env.data.length p.1 q.1) (readRange dry d kind start stop)
      (readRange env r kind start stop) := by
  rw [readRange_eq, readRange_eq]
  by_cases hinv : stop < start
  · rw [if_pos hinv, if_pos hinv]
    exact .same _
  by_cases hwide : 7 < stop - start
  · rw [if_neg hinv, if_neg hinv, if_pos hwide, if_pos hwide]
    exact .same _
  rw [if_neg hinv, if_neg hinv, if_neg hwide, if_neg hwide]
  refine (readSpan_trails hd (stop - start + 1) start 0 0 h).bind (fun p q hpq => ?_)
    fun p p' hp => ?_
  · by_cases hend : stop = sizeMod - 1
    · rw [if_pos hend, if_pos hend]
      exact .same _
    · rw [if_neg hend, if_neg hend]
      exact .ok hpq
  · by_cases hend : stop = sizeMod - 1
    · rw [if_pos hend] at hp
      cases hp
    · rw [if_neg hend] at hp
      cases hp
      exact .refl _

/-- **An atom** is noted in both, whatever its value. -/
theorem readAtom_trails (hd : DryOf dry env) {d r : EpCtx α} (h : InStep env.data.length d r)
    (a : EpAtom) :
    Trails env.data.length (fun p : EpCtx α × α => p.1.maxByte)
      (fun p q => InStep env.data.length p.1 q.1) (readAtom dry d a) (readAtom env r a) := by
  have hbyte : ∀ (index : ℕ) (f g : UInt8 → α),
      Trails env.data.length (fun p : EpCtx α × α => p.1.maxByte)
        (fun p q => InStep env.data.length p.1 q.1)
        ((readByte dry d index).bind fun p => .ok (p.1, f p.2))
        ((readByte env r index).bind fun p => .ok (p.1, g p.2)) := by
    intro index f g
    refine (readByte_trails hd h index).bind (fun p q hpq => .ok hpq) fun p p' hp => ?_
    cases hp
    exact .refl _
  cases a with
  | num run => exact .ok h
  | v => exact .ok h
  | byte index =>
    exact hbyte (index % sizeMod) (fun b => dry.ar.ofInt b.toNat) fun b => env.ar.ofInt b.toNat
  | bit index k =>
    exact hbyte (index % sizeMod) (fun b => dry.ar.ofInt (b.toNat / 2 ^ k % 2 : ℕ))
      fun b => env.ar.ofInt (b.toNat / 2 ^ k % 2 : ℕ)
  | sbyte index =>
    exact hbyte (index % sizeMod) (fun b => dry.ar.ofInt (signedOf 8 b.toNat))
      fun b => env.ar.ofInt (signedOf 8 b.toNat)
  | range signed start stop => exact readRange_trails hd h _ _ _

theorem pushOperand_trails {d r : EpCtx α} (h : InStep size d r) (x y : α) :
    Trails size EpCtx.maxByte (InStep size) (pushOperand d x) (pushOperand r y) := by
  rw [pushOperand, pushOperand, h.operands]
  split_ifs
  · exact .same _
  · refine .ok ⟨?_, h.operators, rfl, rfl, h.maxByte, h.within⟩
    rw [length_cons, length_cons, h.operands]

/-- Two operand stacks of one height. -/
def SameHeight (xs ys : List α) : Prop := xs.length = ys.length

theorem applyTop_trails (hd : DryOf dry env) (size : ℕ) (op : Char) {xs ys : List α}
    (h : SameHeight xs ys) :
    Trails size (fun _ => none) SameHeight (applyTop dry op xs) (applyTop env op ys) := by
  rcases xs with _ | ⟨b, _ | ⟨a, xs⟩⟩ <;> rcases ys with _ | ⟨b', _ | ⟨a', ys⟩⟩ <;>
    simp only [SameHeight, length_cons, length_nil] at h <;> try omega
  · exact .same _
  · exact .same _
  · have hrest : ∀ x y : α, SameHeight (x :: xs) (y :: ys) := by
      intro x y
      simp only [SameHeight, length_cons]
      omega
    have hop : Trails size (fun _ => none) (fun _ _ => True) (applyOp dry op a b)
        (applyOp env op a' b') := by
      simp only [applyOp, hd.ar, hd.dryRun, hd.run]
      split_ifs <;> first | exact .ok trivial | exact .zero _ _ | exact .same _
    refine hop.bind (fun x y _ => .ok (hrest x y)) fun _ _ _ => .refl _

theorem applyWhile_trails (hd : DryOf dry env) (size : ℕ) (now : Char → Bool)
    (operators : List Char) {xs ys : List α} (h : SameHeight xs ys) :
    Trails size (fun _ => none) (fun p q : List Char × List α => p.1 = q.1 ∧ SameHeight p.2 q.2)
      (applyWhile dry now operators xs) (applyWhile env now operators ys) := by
  induction operators generalizing xs ys with
  | nil => exact .ok ⟨rfl, h⟩
  | cons op operators ih =>
    rw [applyWhile, applyWhile]
    split_ifs
    · exact (applyTop_trails hd size op h).bind (fun _ _ h' => ih h') fun _ _ _ => .refl _
    · exact .ok ⟨rfl, h⟩

theorem pushOperator_trails (hd : DryOf dry env) {d r : EpCtx α} (h : InStep size d r) (op : Char) :
    Trails size EpCtx.maxByte (InStep size) (pushOperator dry d op) (pushOperator env r op) := by
  rw [pushOperator, h.operators]
  refine (applyWhile_trails hd size _ r.operators h.operands).bind (fun p q hpq => ?_)
    fun _ _ _ m hm => by cases hm
  obtain ⟨hops, hheight⟩ := hpq
  simp only [hops]
  split_ifs
  · exact .same _
  · exact .ok ⟨hheight, rfl, rfl, h.unaryOk, h.maxByte, h.within⟩

theorem closeParen_trails (hd : DryOf dry env) {d r : EpCtx α} (h : InStep size d r) :
    Trails size EpCtx.maxByte (InStep size) (closeParen dry d) (closeParen env r) := by
  rw [closeParen, h.operators]
  refine (applyWhile_trails hd size _ r.operators h.operands).bind (fun p q hpq => ?_)
    fun _ _ _ m hm => by cases hm
  obtain ⟨operators, operands⟩ := p
  obtain ⟨operators', operands'⟩ := q
  obtain ⟨hops, hheight⟩ := hpq
  obtain rfl : operators = operators' := hops
  cases operators with
  | nil => exact .same _
  | cons op operators =>
    exact .ok ⟨hheight, rfl, h.expectOperand, h.unaryOk, h.maxByte, h.within⟩

theorem unaryMinus_trails (hd : DryOf dry env) {d r : EpCtx α} (h : InStep size d r) :
    Trails size EpCtx.maxByte (InStep size) (unaryMinus dry d) (unaryMinus env r) := by
  refine (pushOperand_trails h _ _).bind (fun d' r' h' => ?_) fun d' d'' hd' => ?_
  · have hstep : InStep size { d' with expectOperand := true } { r' with expectOperand := true } :=
      ⟨h'.operands, h'.operators, rfl, h'.unaryOk, h'.maxByte, h'.within⟩
    exact pushOperator_trails hd hstep '-'
  · rw [pushOperator_maxByte hd']
    exact .refl _

/-- **A token** takes both runs on. -/
theorem evalTok_trails (hd : DryOf dry env) {d r : EpCtx α} (h : InStep env.data.length d r)
    (tok : EpTok) :
    Trails env.data.length EpCtx.maxByte (InStep env.data.length) (evalTok dry d tok)
      (evalTok env r tok) := by
  cases tok with
  | atom a =>
    refine (readAtom_trails hd h a).bind (fun p q hpq => pushOperand_trails hpq _ _)
      fun p p' hp => ?_
    rw [pushOperand_maxByte (show pushOperand p.1 p.2 = .ok p' from hp)]
    exact .refl _
  | lpar =>
    rw [evalTok, evalTok, openParen, openParen, h.operators]
    split_ifs
    · exact .same _
    · exact .ok ⟨h.operands, rfl, rfl, rfl, h.maxByte, h.within⟩
  | rpar => exact closeParen_trails hd h
  | op o =>
    rw [evalTok, evalTok, h.unaryOk]
    split_ifs
    · exact unaryMinus_trails hd h
    · rw [binaryOperator, binaryOperator, h.expectOperand]
      split_ifs
      · exact .same _
      · exact pushOperator_trails hd h o.char

/-- **A run over the tokens.** -/
theorem foldlM_evalTok_trails (hd : DryOf dry env) (ts : List EpTok) {d r : EpCtx α}
    (h : InStep env.data.length d r) :
    Trails env.data.length EpCtx.maxByte (InStep env.data.length) (ts.foldlM (evalTok dry) d)
      (ts.foldlM (evalTok env) r) := by
  induction ts generalizing d r with
  | nil => exact .ok h
  | cons tok ts ih =>
    rw [foldlM_cons, foldlM_cons]
    exact (evalTok_trails hd h tok).bind (fun _ _ h' => ih h')
      fun _ _ h' => foldlM_evalTok_grows hd.dryRun ts h'

theorem evaluateEnd_trails (hd : DryOf dry env) {d r : EpCtx α} (h : InStep size d r) :
    Trails size (fun p : EpCtx α × α => p.1.maxByte)
      (fun p q => p.1.maxByte = q.1.maxByte ∧ ∀ m ∈ q.1.maxByte, m < size)
      (evaluateEnd dry d) (evaluateEnd env r) := by
  rw [evaluateEnd, h.operators]
  refine (applyWhile_trails hd size _ r.operators h.operands).bind (fun p q hpq => ?_)
    fun _ _ _ m hm => by cases hm
  obtain ⟨operators, operands⟩ := p
  obtain ⟨operators', operands'⟩ := q
  obtain ⟨hops, hheight⟩ := hpq
  obtain rfl : operators = operators' := hops
  cases operators with
  | cons op operators => exact .same _
  | nil =>
    rcases operands with _ | ⟨x, _ | ⟨y, operands⟩⟩ <;>
      rcases operands' with _ | ⟨x', _ | ⟨y', operands'⟩⟩ <;>
      simp only [SameHeight, length_cons, length_nil] at hheight <;> try omega
    · exact .same _
    · exact .ok ⟨h.maxByte, h.within⟩
    · exact .same _

theorem evaluateEnd_maxByte {env : EpEnv α} {ctx : EpCtx α} {r : EpCtx α × α}
    (h : evaluateEnd env ctx = .ok r) : r.1.maxByte = ctx.maxByte := by
  simp only [evaluateEnd, bind, Except.bind] at h
  split at h
  · cases h
  · split at h
    · cases h
    · split at h
      · cases h
        rfl
      · cases h

/-- **The two runs** over a text that is read as tokens. -/
theorem evaluate_trails (hd : DryOf dry env) {ts : List EpTok} (h : tokenize s = some ts) :
    Trails env.data.length (fun p : EpCtx α × α => p.1.maxByte)
      (fun p q => p.1.maxByte = q.1.maxByte ∧ ∀ m ∈ q.1.maxByte, m < env.data.length)
      (evaluate dry s) (evaluate env s) := by
  rw [evaluate_of_tokenize dry h, evaluate_of_tokenize env h]
  refine (foldlM_evalTok_trails hd ts (inStep_init _)).bind
    (fun d r hdr => evaluateEnd_trails hd hdr) fun d p hp => ?_
  rw [evaluateEnd_maxByte hp]
  exact .refl _

end Trail

/-! ## Saved and run -/

theorem expressionParserCheck_ok {ar : Arith α} (h : expressionParserCheck ar s = .ok m) :
    ∃ p : EpCtx α × α, evaluate ⟨ar, [], ar.ofInt 0, true⟩ s = .ok p ∧ p.1.maxByte = m := by
  rw [expressionParserCheck] at h
  split at h
  case h_1 ctx x hp =>
    cases h
    exact ⟨(ctx, x), hp, rfl⟩
  case h_2 => cases h
  case h_3 => cases h

theorem tokenize_of_evaluate {env : EpEnv α} {p : EpCtx α × α} (h : evaluate env s = .ok p) :
    ∃ ts, tokenize s = some ts := by
  cases htok : tokenize s with
  | some ts => exact ⟨ts, rfl⟩
  | none =>
    obtain ⟨e, he⟩ := evaluate_of_tokenize_none env htok
    rw [he] at h
    cases h

theorem checkEnv_dryOf (ar : Arith α) (data : List UInt8) (v : α) :
    DryOf (⟨ar, [], ar.ofInt 0, true⟩ : EpEnv α) ⟨ar, data, v, false⟩ :=
  ⟨rfl, rfl, rfl⟩

theorem expressionParserCheck_of_eval {ar : Arith α} {data : List UInt8} {v r : α}
    (h : expressionParserEval ar s data v = .ok r) :
    ∃ m, expressionParserCheck ar s = .ok m ∧ ∀ high ∈ m, high < data.length := by
  cases heval : evaluate (⟨ar, data, v, false⟩ : EpEnv α) s with
  | error e =>
    rw [expressionParserEval, heval] at h
    cases h
  | ok q =>
    obtain ⟨ts, hts⟩ := tokenize_of_evaluate heval
    have htrails := evaluate_trails (checkEnv_dryOf ar data v) hts
    rw [heval] at htrails
    generalize hp : evaluate (⟨ar, [], ar.ofInt 0, true⟩ : EpEnv α) s = dryRun at htrails
    cases htrails with
    | @ok p q h =>
      obtain ⟨hmax, hwithin⟩ := h
      refine ⟨p.1.maxByte, ?_, fun high hhigh => hwithin high ?_⟩
      · rw [expressionParserCheck, hp]
      · rwa [hmax] at hhigh

theorem expressionParserEval_of_check {ar : Arith α} (h : expressionParserCheck ar s = .ok m)
    (data : List UInt8) (v : α) :
    (∃ r, expressionParserEval ar s data v = .ok r) ∨
      (∃ msg, expressionParserEval ar s data v = .error (.err .fail msg)) ∨
      (∃ msg, expressionParserEval ar s data v = .error (.err .invalidSize msg)) ∧
        ∃ high ∈ m, data.length ≤ high := by
  obtain ⟨p, hp, rfl⟩ := expressionParserCheck_ok h
  obtain ⟨ts, hts⟩ := tokenize_of_evaluate hp
  have htrails := evaluate_trails (checkEnv_dryOf ar data v) hts
  rw [hp] at htrails
  rw [expressionParserEval]
  cases heval : evaluate (⟨ar, data, v, false⟩ : EpEnv α) s with
  | ok q => exact .inl ⟨q.2, rfl⟩
  | error e =>
    rw [heval] at htrails
    cases htrails with
    | zero _ msg => exact .inr (.inl ⟨msg, rfl⟩)
    | short _ msg hnoted => exact .inr (.inr ⟨⟨msg, rfl⟩, hnoted p rfl⟩)

/-- **The check and the evaluation never drift.** An accepted text fails only for
its values or for a byte it lacks, and for no byte when the payload is longer than
the highest index reported; a text with a value is accepted, and reports an index
within the payload. -/
theorem expressionParserCheck_eval (ar : Arith α) (s : List Char) (data : List UInt8) (v : α) :
    (∀ m, expressionParserCheck ar s = .ok m → ((∃ r, expressionParserEval ar s data v = .ok r) ∨
        (∃ msg, expressionParserEval ar s data v = .error (.err .fail msg)) ∨
        ∃ msg, expressionParserEval ar s data v = .error (.err .invalidSize msg)) ∧
      ((∀ high ∈ m, high < data.length) →
        ∀ msg, expressionParserEval ar s data v ≠ .error (.err .invalidSize msg))) ∧
    ∀ r, expressionParserEval ar s data v = .ok r →
      ∃ m, expressionParserCheck ar s = .ok m ∧ ∀ high ∈ m, high < data.length := by
  refine ⟨fun m hm => ?_, fun r hr => expressionParserCheck_of_eval hr⟩
  rcases expressionParserEval_of_check hm data v with
    ⟨r, hr⟩ | ⟨msg, hfail⟩ | ⟨⟨msg, hshort⟩, high, hhigh, hlen⟩
  · refine ⟨.inl ⟨r, hr⟩, fun _ msg' hmsg => ?_⟩
    rw [hr] at hmsg
    cases hmsg
  · refine ⟨.inr (.inl ⟨msg, hfail⟩), fun _ msg' hmsg => ?_⟩
    rw [hfail] at hmsg
    cases hmsg
  · exact ⟨.inr (.inr ⟨msg, hshort⟩), fun hlong => absurd (hlong high hhigh) (Nat.not_lt.mpr hlen)⟩

end Meatpi
