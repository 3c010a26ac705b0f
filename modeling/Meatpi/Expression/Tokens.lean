import Meatpi.Expression.Parser
import Meatpi.Library.DecText
import Meatpi.Library.Infix

/-!
# The tokens of an expression

The loop of `evaluate` reads characters; what it does to its stacks depends on
the tokens alone. `tokenize` is the lexical part on its own, `evalTok` the step
on a token, and the loop is the fold of `evalTok` over the tokens
(`evaluateLoop_tokenize`). `Spells` is the other direction: a text that spells
tokens, with any blanks between them, is tokenized to them.
-/

namespace Meatpi

open List Option

variable {blanks : List Char} {fuel : ℕ} {c : Char} {s : List Char}

inductive EpOp where
  | add | sub | mul | div | band | bor | bxor | shl | shr
  deriving DecidableEq

/-- The character on the operator stack. -/
def EpOp.char : EpOp → Char
  | add => '+' | sub => '-' | mul => '*' | div => '/'
  | band => '&' | bor => '|' | bxor => '^' | shl => '<' | shr => '>'

/-- The operator as it is written. -/
def EpOp.text : EpOp → List Char
  | shl => ['<', '<']
  | shr => ['>', '>']
  | o => [o.char]

def EpOp.prec (o : EpOp) : ℕ := precedence o.char

/-- The values of an expression; the indexes are the numbers as written. -/
inductive EpAtom where
  | num (run : List Char)
  | v
  | byte (index : ℕ)
  | bit (index b : ℕ)
  | sbyte (index : ℕ)
  | range (signed : Bool) (start stop : ℕ)
  deriving DecidableEq

abbrev EpTok := Infix.Tok EpAtom EpOp

/-! ## Lexing -/

def lexIndex (s : List Char) : Option (ℕ × List Char) :=
  match s.takeWhile Char.isDigit with
  | [] => none
  | digits => some (decNat digits, s.dropWhile Char.isDigit)

def lexRange (s : List Char) : Option (EpAtom × List Char) :=
  match s with
  | [] => none
  | kind :: s =>
    if kind ≠ 'B' ∧ kind ≠ 'S' then none
    else do
      let (start, s) ← lexIndex s
      let s ← skip [':', kind] s
      let (stop, s) ← lexIndex s
      let s ← skip [']'] s
      some (.range (kind == 'S') start stop, s)

def lexByteRef (kind : Char) (s : List Char) : Option (EpAtom × List Char) := do
  let (index, s) ← lexIndex s
  if kind = 'S' then some (.sbyte index, s)
  else
    match skip [':'] s with
    | none => some (.byte index, s)
    | some s => do
      let (b, s) ← parseBit s
      some (.bit index b, s)

/-- An operator character. -/
def opOfChar (c : Char) : Option EpOp :=
  if c = '+' then some .add
  else if c = '-' then some .sub
  else if c = '*' then some .mul
  else if c = '/' then some .div
  else if c = '&' then some .band
  else if c = '|' then some .bor
  else if c = '^' then some .bxor
  else none

/-- The operator at the front of `c :: s`. -/
def lexOp (c : Char) (s : List Char) : Option (EpOp × List Char) :=
  match opOfChar c with
  | some o => some (o, s)
  | none =>
    if c = '<' ∧ s.head? = some '<' then some (.shl, s.tail)
    else if c = '>' ∧ s.head? = some '>' then some (.shr, s.tail)
    else none

/-- One turn over the text `c :: s`: a blank, or a token. -/
def lexStep (c : Char) (s : List Char) : Option (Option EpTok × List Char) :=
  if isSpaceC c then some (none, s)
  else if isNumChar c then
    some (some (.atom (.num ((c :: s).takeWhile isNumChar))), (c :: s).dropWhile isNumChar)
  else if c = 'V' then some (some (.atom .v), s)
  else if c = '[' then (lexRange s).map fun (a, s) => (some (.atom a), s)
  else if c = 'B' ∨ c = 'S' then (lexByteRef c s).map fun (a, s) => (some (.atom a), s)
  else if c = '(' then some (some .lpar, s)
  else if c = ')' then some (some .rpar, s)
  else (lexOp c s).map fun (o, s) => (some (.op o), s)

/-- The tokens of a text; `fuel` bounds the turns as in `evaluateLoop`. -/
def tokenizeLoop : ℕ → List Char → Option (List EpTok)
  | 0, _ => some []
  | _ + 1, [] => some []
  | fuel + 1, c :: s =>
    match lexStep c s with
    | none => none
    | some (none, s) => tokenizeLoop fuel s
    | some (some tok, s) => (tokenizeLoop fuel s).map (tok :: ·)

def tokenize (s : List Char) : Option (List EpTok) := tokenizeLoop s.length s

/-! ## The step on a token -/

section Step

variable {α : Type} (env : EpEnv α)

/-- The value of an atom, with the bytes it records. -/
def readAtom (ctx : EpCtx α) : EpAtom → Except EpErr (EpCtx α × α)
  | .num run => .ok (ctx, env.ar.num run)
  | .v => .ok (ctx, env.v)
  | .byte index => do
    let (ctx, value) ← readByte env ctx (index % sizeMod)
    .ok (ctx, env.ar.ofInt value.toNat)
  | .bit index b => do
    let (ctx, value) ← readByte env ctx (index % sizeMod)
    .ok (ctx, env.ar.ofInt ((value.toNat / 2 ^ b % 2 : ℕ)))
  | .sbyte index => do
    let (ctx, value) ← readByte env ctx (index % sizeMod)
    .ok (ctx, env.ar.ofInt (signedOf 8 value.toNat))
  | .range signed start stop =>
    readRange env ctx (if signed then 'S' else 'B') (start % sizeMod) (stop % sizeMod)

def evalTok (ctx : EpCtx α) : EpTok → Except EpErr (EpCtx α)
  | .atom a => do
    let (ctx, value) ← readAtom env ctx a
    pushOperand ctx value
  | .lpar => openParen ctx
  | .rpar => closeParen env ctx
  | .op o =>
    if o = .sub ∧ ctx.unaryOk then unaryMinus env ctx else binaryOperator env ctx o.char

variable (ctx : EpCtx α)

theorem decIndex_eq (digits : List Char) : decIndex digits = decNat digits % sizeMod := by
  induction digits using List.reverseRecOn with
  | nil => rfl
  | append_singleton digits c ih =>
    have hnat : decNat (digits ++ [c]) = decNat digits * 10 + (c.toNat - '0'.toNat) := by
      rw [decNat, map_append, map_singleton, ofDigitsBE_concat, ← decNat]
    rw [decIndex, foldl_append, ← decIndex, ih, hnat, foldl_cons, foldl_nil]
    simp [Nat.add_mod, Nat.mul_mod]

theorem parseIndex_eq (s : List Char) :
    parseIndex s = (lexIndex s).map fun i => (i.1 % sizeMod, i.2) := by
  rw [parseIndex, lexIndex]
  cases s.takeWhile Char.isDigit with
  | nil => rfl
  | cons c digits => simp only [decIndex_eq, map_some]

/-- `result` is the step on the token read, nothing for a blank, and an error
where there is no token. -/
def StepOn (lexed : Option (Option EpTok × List Char))
    (result : Except EpErr (EpCtx α × List Char)) : Prop :=
  match lexed with
  | some (none, rest) => result = .ok (ctx, rest)
  | some (some tok, rest) => result = (evalTok env ctx tok).map fun ctx => (ctx, rest)
  | none => ∃ e, result = .error e

theorem StepOn.ite {c : Prop} [Decidable c] {lexed lexed' : Option (Option EpTok × List Char)}
    {result result' : Except EpErr (EpCtx α × List Char)} (h : c → StepOn env ctx lexed result)
    (h' : ¬ c → StepOn env ctx lexed' result') :
    StepOn env ctx (if c then lexed else lexed') (if c then result else result') := by
  split_ifs with hc
  · exact h hc
  · exact h' hc

theorem parseRange_eq (s : List Char) :
    match lexRange s with
    | some (a, rest) => parseRange env ctx s =
        (evalTok env ctx (.atom a)).map fun ctx => (ctx, rest)
    | none => ∃ e, parseRange env ctx s = .error e := by
  cases s with
  | nil => exact ⟨_, rfl⟩
  | cons kind s =>
    by_cases hkind : kind ≠ 'B' ∧ kind ≠ 'S'
    · have hnone : lexRange (kind :: s) = none := by rw [lexRange, if_pos hkind]
      rw [hnone]
      exact ⟨_, by rw [parseRange, parseRangeSyntax, if_pos hkind]; rfl⟩
    · have hk : (if (kind == 'S') = true then 'S' else 'B') = kind := by
        by_cases hS : kind = 'S'
        · simp [hS]
        · rw [if_neg (by simpa using hS)]
          by_contra hB
          exact hkind ⟨fun h => hB h.symm, hS⟩
      simp only [lexRange, parseRange, parseRangeSyntax, hkind, if_false, parseIndex_eq]
      cases lexIndex s with
      | none => exact ⟨_, rfl⟩
      | some i =>
        cases hskip : skip [':', kind] i.2 with
        | none => simp [hskip, bind, Except.bind]
        | some s' =>
          cases hstop : lexIndex s' with
          | none => simp [hskip, hstop, bind, Except.bind]
          | some i' =>
            cases hclose : skip [']'] i'.2 with
            | none => simp [hskip, hstop, hclose, bind, Except.bind]
            | some rest =>
              simp only [hskip, hstop, hclose, bind, Option.bind, Except.bind, map_some, evalTok,
                readAtom, hk]
              cases readRange env ctx kind (i.1 % sizeMod) (i'.1 % sizeMod) with
              | error e => rfl
              | ok r => cases pushOperand r.1 r.2 <;> rfl

theorem parseByteRef_eq (kind : Char) (s : List Char) :
    match lexByteRef kind s with
    | some (a, rest) => parseByteRef env ctx kind s =
        (evalTok env ctx (.atom a)).map fun ctx => (ctx, rest)
    | none => ∃ e, parseByteRef env ctx kind s = .error e := by
  simp only [lexByteRef, parseByteRef, parseIndex_eq]
  cases lexIndex s with
  | none => exact ⟨_, rfl⟩
  | some i =>
    simp only [map_some, bind, Option.bind, Except.bind]
    by_cases hS : kind = 'S'
    · simp only [hS, if_true, evalTok, readAtom, bind, Except.bind]
      cases readByte env ctx (i.1 % sizeMod) with
      | error e => rfl
      | ok r => cases hp : pushOperand r.1 (env.ar.ofInt (signedOf 8 r.2.toNat)) <;> rfl
    · simp only [hS, if_false]
      cases skip [':'] i.2 with
      | none =>
        simp only [evalTok, readAtom, bind, Except.bind]
        cases readByte env ctx (i.1 % sizeMod) with
        | error e => rfl
        | ok r => cases hp : pushOperand r.1 (env.ar.ofInt r.2.toNat) <;> simp only [hp] <;> rfl
      | some s' =>
        cases hbit : parseBit s' with
        | none =>
          simp only [hbit]
          cases readByte env ctx (i.1 % sizeMod) <;> exact ⟨_, rfl⟩
        | some b =>
          simp only [hbit, evalTok, readAtom, bind, Except.bind]
          cases readByte env ctx (i.1 % sizeMod) with
          | error e => rfl
          | ok r =>
            cases hp : pushOperand r.1 (env.ar.ofInt (r.2.toNat / 2 ^ b.1 % 2 : ℕ)) <;>
              simp only [hp] <;> rfl

theorem opOfChar_some {o : EpOp} (h : opOfChar c = some o) :
    o.char = c ∧ (c = '+' ∨ c = '-' ∨ c = '*' ∨ c = '/' ∨ c = '&' ∨ c = '|' ∨ c = '^') ∧
      (o = .sub ↔ c = '-') := by
  simp only [opOfChar] at h
  split_ifs at h with h₁ h₂ h₃ h₄ h₅ h₆ h₇ <;> cases h <;> subst_vars <;> decide

theorem opOfChar_none (h : opOfChar c = none) :
    ¬ (c = '+' ∨ c = '-' ∨ c = '*' ∨ c = '/' ∨ c = '&' ∨ c = '|' ∨ c = '^') := by
  simp only [opOfChar] at h
  split_ifs at h with h₁ h₂ h₃ h₄ h₅ h₆ h₇
  simp [h₁, h₂, h₃, h₄, h₅, h₆, h₇]

theorem bind_ok_eq_map {β : Type} (x : Except EpErr (EpCtx α)) (rest : β) :
    (do let ctx ← x; .ok (ctx, rest)) = x.map fun ctx => (ctx, rest) := by
  cases x <;> rfl

/-- **One turn of the loop** is the step on the token it reads. -/
theorem evaluateStep_eq (c : Char) (s : List Char) :
    StepOn env ctx (lexStep c s) (evaluateStep env ctx c s) := by
  refine .ite env ctx (fun _ => rfl) fun _ => ?_
  refine .ite env ctx (fun _ => rfl) fun _ => ?_
  refine .ite env ctx (fun _ => rfl) fun _ => ?_
  refine .ite env ctx (fun _ => ?_) fun _ => ?_
  · have h := parseRange_eq env ctx s
    cases hlex : lexRange s with
    | none => rwa [hlex] at h
    | some a => rwa [hlex] at h
  refine .ite env ctx (fun _ => ?_) fun _ => ?_
  · have h := parseByteRef_eq env ctx c s
    cases hlex : lexByteRef c s with
    | none => rwa [hlex] at h
    | some a => rwa [hlex] at h
  refine .ite env ctx (fun _ => rfl) fun _ => ?_
  refine .ite env ctx (fun _ => rfl) fun _ => ?_
  simp only [bind_ok_eq_map, lexOp]
  cases ho : opOfChar c with
  | some o =>
    obtain ⟨hchar, hop, hsub⟩ := opOfChar_some ho
    show _ = _
    rw [evalTok, hchar]
    simp only [hsub]
    split_ifs <;> rfl
  | none =>
    have hop := opOfChar_none ho
    have hminus : ¬ (c = '-' ∧ ctx.unaryOk = true) := fun h => hop (.inr (.inl h.1))
    rw [if_neg hop, if_neg hminus]
    by_cases hl : c = '<' ∧ s.head? = some '<'
    · simp only [hl]
      rfl
    · by_cases hr : c = '>' ∧ s.head? = some '>'
      · simp only [hr]
        rfl
      · have hshift : ¬ ((c = '<' ∨ c = '>') ∧ s.head? = some c) := by
          rintro ⟨rfl | rfl, h⟩
          · exact hl ⟨rfl, h⟩
          · exact hr ⟨rfl, h⟩
        simp only [if_neg hl, if_neg hr, if_neg hshift]
        exact ⟨_, rfl⟩

/-- **The loop is the fold over the tokens.** -/
theorem evaluateLoop_of_some {s : List Char} {ts : List EpTok} (ctx : EpCtx α)
    (h : tokenizeLoop fuel s = some ts) :
    evaluateLoop env fuel ctx s = ts.foldlM (evalTok env) ctx := by
  induction fuel generalizing s ts ctx with
  | zero => cases h; rfl
  | succ fuel ih =>
    cases s with
    | nil => cases h; rfl
    | cons c s =>
      have hstep := evaluateStep_eq env ctx c s
      rw [tokenizeLoop] at h
      rw [evaluateLoop]
      rcases hlex : lexStep c s with _ | ⟨_ | tok, rest⟩
      · simp [hlex] at h
      · rw [hlex] at h hstep
        rw [show evaluateStep env ctx c s = .ok (ctx, rest) from hstep]
        exact ih ctx h
      · rw [hlex] at h hstep
        obtain ⟨ts, hts, rfl⟩ := map_eq_some_iff.mp h
        rw [show evaluateStep env ctx c s = (evalTok env ctx tok).map fun ctx => (ctx, rest)
          from hstep, foldlM_cons]
        cases evalTok env ctx tok with
        | error e => rfl
        | ok ctx => exact ih ctx hts

theorem evaluateLoop_of_none {s : List Char} (ctx : EpCtx α) (h : tokenizeLoop fuel s = none) :
    ∃ e, evaluateLoop env fuel ctx s = .error e := by
  induction fuel generalizing s ctx with
  | zero => cases h
  | succ fuel ih =>
    cases s with
    | nil => cases h
    | cons c s =>
      have hstep := evaluateStep_eq env ctx c s
      rw [tokenizeLoop] at h
      rw [evaluateLoop]
      rcases hlex : lexStep c s with _ | ⟨_ | tok, rest⟩
      · rw [hlex] at hstep
        obtain ⟨e, he⟩ := hstep
        exact ⟨e, by rw [he]; rfl⟩
      · rw [hlex] at h hstep
        rw [show evaluateStep env ctx c s = .ok (ctx, rest) from hstep]
        exact ih ctx h
      · rw [hlex] at h hstep
        rw [show evaluateStep env ctx c s = (evalTok env ctx tok).map fun ctx => (ctx, rest)
          from hstep]
        cases evalTok env ctx tok with
        | error e => exact ⟨e, rfl⟩
        | ok ctx => exact ih ctx (map_eq_none_iff.mp h)

theorem evaluate_of_tokenize {ts : List EpTok} (h : tokenize s = some ts) :
    evaluate env s = (do
      let ctx ← ts.foldlM (evalTok env) EpCtx.init
      evaluateEnd env ctx) := by
  rw [evaluate, evaluateLoop_of_some env EpCtx.init h]

theorem evaluate_of_tokenize_none (h : tokenize s = none) : ∃ e, evaluate env s = .error e := by
  obtain ⟨e, he⟩ := evaluateLoop_of_none env EpCtx.init h
  exact ⟨e, by rw [evaluate, he]; rfl⟩

end Step

/-! ## Spelling -/

/-- The texts of an atom. -/
inductive SpellsAtom : EpAtom → List Char → Prop
  | num (run : List Char) : run ≠ [] → (∀ c ∈ run, isNumChar c = true) → SpellsAtom (.num run) run
  | v : SpellsAtom .v ['V']
  | byte (ds : List Char) : ds ≠ [] → (∀ c ∈ ds, c.isDigit = true) →
      SpellsAtom (.byte (decNat ds)) ('B' :: ds)
  | bit (ds : List Char) (c : Char) : ds ≠ [] → (∀ c ∈ ds, c.isDigit = true) →
      c.isDigit = true → c ≤ '7' →
      SpellsAtom (.bit (decNat ds) (c.toNat - '0'.toNat)) ('B' :: ds ++ [':', c])
  | sbyte (ds : List Char) : ds ≠ [] → (∀ c ∈ ds, c.isDigit = true) →
      SpellsAtom (.sbyte (decNat ds)) ('S' :: ds)
  | range (signed : Bool) (ds ds' : List Char) : ds ≠ [] → (∀ c ∈ ds, c.isDigit = true) →
      ds' ≠ [] → (∀ c ∈ ds', c.isDigit = true) →
      SpellsAtom (.range signed (decNat ds) (decNat ds'))
        ('[' :: (if signed then 'S' else 'B') :: ds ++ [':', if signed then 'S' else 'B'] ++ ds' ++
          [']'])

/-- The texts of a token. -/
inductive SpellsTok : EpTok → List Char → Prop
  | atom {a : EpAtom} {text : List Char} : SpellsAtom a text → SpellsTok (.atom a) text
  | op (o : EpOp) : SpellsTok (.op o) o.text
  | lpar : SpellsTok .lpar ['(']
  | rpar : SpellsTok .rpar [')']

/-- A text spells tokens, with any blanks around them. -/
inductive Spells : List EpTok → List Char → Prop
  | nil {blanks : List Char} : (∀ c ∈ blanks, isSpaceC c = true) → Spells [] blanks
  | cons {blanks text s : List Char} {tok : EpTok} {ts : List EpTok} :
      (∀ c ∈ blanks, isSpaceC c = true) → SpellsTok tok text → Spells ts s →
      Spells (tok :: ts) (blanks ++ text ++ s)

/-- Where an atom ends: no digit, no point, no colon. -/
def EndsAtom (s : List Char) : Prop := ∀ c ∈ s.head?, isNumChar c = false ∧ c ≠ ':'

theorem isSpaceC_cases (h : isSpaceC c = true) :
    c = ' ' ∨ c = '\t' ∨ c = '\n' ∨ c = '\x0b' ∨ c = '\x0c' ∨ c = '\r' := by
  simp only [isSpaceC, Bool.or_eq_true, beq_iff_eq] at h
  tauto

theorem endsAtom_append_of_space (h : ∀ c ∈ blanks, isSpaceC c = true) (hs : EndsAtom s) :
    EndsAtom (blanks ++ s) := by
  rcases blanks with _ | ⟨c, blanks⟩
  · exact hs
  · intro d hd
    obtain rfl : c = d := by simpa using hd
    rcases isSpaceC_cases (h c mem_cons_self) with rfl | rfl | rfl | rfl | rfl | rfl <;> decide

theorem Spells.endsAtom {ts : List EpTok} (h : Spells ts s) (hatom : ∀ a ts', ts ≠ .atom a :: ts') :
    EndsAtom s := by
  cases h with
  | nil hb =>
    rw [← append_nil s]
    exact endsAtom_append_of_space hb (fun c hc => by simp at hc)
  | cons hb htext _ =>
    rw [append_assoc]
    apply endsAtom_append_of_space hb
    cases htext with
    | atom ha => exact absurd rfl (hatom _ _)
    | op o =>
      intro c hc
      cases o <;> obtain rfl : _ = c := by simpa [EpOp.text] using hc
      all_goals decide
    | lpar =>
      intro c hc
      obtain rfl : '(' = c := by simpa using hc
      decide
    | rpar =>
      intro c hc
      obtain rfl : ')' = c := by simpa using hc
      decide

theorem takeWhile_dropWhile_run {p : Char → Bool} {run : List Char} (hrun : ∀ c ∈ run, p c = true)
    (hs : ∀ c ∈ s.head?, p c = false) :
    (run ++ s).takeWhile p = run ∧ (run ++ s).dropWhile p = s := by
  rw [takeWhile_append_of_pos hrun, dropWhile_append_of_pos hrun]
  rcases s with _ | ⟨c, s⟩
  · simp
  · have hc : ¬ p c = true := by simp [hs c rfl]
    rw [takeWhile_cons_of_neg hc, dropWhile_cons_of_neg hc, append_nil]
    exact ⟨rfl, rfl⟩

theorem isNumChar_of_isDigit (h : c.isDigit = true) : isNumChar c = true := by
  simp [isNumChar, h]

theorem lexIndex_digits {ds : List Char} (hne : ds ≠ []) (hds : ∀ c ∈ ds, c.isDigit = true)
    (hs : ∀ c ∈ s.head?, c.isDigit = false) : lexIndex (ds ++ s) = some (decNat ds, s) := by
  obtain ⟨htake, hdrop⟩ := takeWhile_dropWhile_run hds hs
  rw [lexIndex, htake, hdrop]
  rcases ds with _ | ⟨d, ds⟩
  · exact absurd rfl hne
  · rfl

theorem skip_append (p s : List Char) : skip p (p ++ s) = some s := by
  rw [skip, if_pos (by simp), drop_left]

theorem EndsAtom.not_digit (h : EndsAtom s) : ∀ c ∈ s.head?, c.isDigit = false := by
  intro c hc
  have := (h c hc).1
  simp only [isNumChar, Bool.or_eq_false_iff] at this
  exact this.1

theorem EndsAtom.skip_colon (h : EndsAtom s) : skip [':'] s = none := by
  rcases s with _ | ⟨c, s⟩
  · rfl
  · have hc : ':' ≠ c := fun heq => (h c rfl).2 heq.symm
    simp [skip, List.isPrefixOf, hc]

/-- **An atom is read off its text.** -/
theorem SpellsAtom.lexStep {a : EpAtom} {text : List Char} (h : SpellsAtom a text)
    (hs : EndsAtom s) :
    ∃ c text', text = c :: text' ∧ Meatpi.lexStep c (text' ++ s) = some (some (.atom a), s) := by
  cases h with
  | num run hne hrun =>
    obtain ⟨c, text', rfl⟩ := exists_cons_of_ne_nil hne
    refine ⟨c, text', rfl, ?_⟩
    have hc := hrun c mem_cons_self
    have hspace : ¬ isSpaceC c = true := by
      intro hsp
      rcases isSpaceC_cases hsp with rfl | rfl | rfl | rfl | rfl | rfl <;> revert hc <;> decide
    obtain ⟨htake, hdrop⟩ := takeWhile_dropWhile_run (s := s) hrun fun d hd => (hs d hd).1
    rw [Meatpi.lexStep, if_neg hspace, if_pos hc, ← cons_append, htake, hdrop]
  | v => exact ⟨'V', [], rfl, rfl⟩
  | byte ds hne hds =>
    refine ⟨'B', ds, rfl, ?_⟩
    have hidx := lexIndex_digits hne hds hs.not_digit
    show Option.map _ (lexByteRef 'B' (ds ++ s)) = _
    simp [lexByteRef, hidx, hs.skip_colon]
  | bit ds c hne hds hc h7 =>
    refine ⟨'B', ds ++ [':', c], rfl, ?_⟩
    have hidx := lexIndex_digits (s := ':' :: c :: s) hne hds (by simp)
    have hskip : skip [':'] (':' :: c :: s) = some (c :: s) := skip_append [':'] (c :: s)
    rw [append_assoc]
    show Option.map _ (lexByteRef 'B' (ds ++ ':' :: c :: s)) = _
    simp [lexByteRef, hidx, hskip, parseBit, hc, h7]
  | sbyte ds hne hds =>
    refine ⟨'S', ds, rfl, ?_⟩
    have hidx := lexIndex_digits hne hds hs.not_digit
    show Option.map _ (lexByteRef 'S' (ds ++ s)) = _
    simp [lexByteRef, hidx]
  | range signed ds ds' hne hds hne' hds' =>
    obtain ⟨k, hk⟩ : ∃ k, k = if signed then 'S' else 'B' := ⟨_, rfl⟩
    rw [← hk]
    refine ⟨'[', k :: ds ++ [':', k] ++ ds' ++ [']'], rfl, ?_⟩
    have htext : k :: ds ++ [':', k] ++ ds' ++ [']'] ++ s =
        k :: (ds ++ ':' :: k :: (ds' ++ ']' :: s)) := by simp
    have hkind : ¬ (k ≠ 'B' ∧ k ≠ 'S') := by cases signed <;> simp [hk]
    have hsigned : (k == 'S') = signed := by cases signed <;> simp [hk]
    have hidx := lexIndex_digits (s := ':' :: k :: (ds' ++ ']' :: s)) hne hds (by simp)
    have hidx' := lexIndex_digits (s := ']' :: s) hne' hds' (by simp)
    have hcolon : skip [':', k] (':' :: k :: (ds' ++ ']' :: s)) = some (ds' ++ ']' :: s) :=
      skip_append [':', k] _
    have hclose : skip [']'] (']' :: s) = some s := skip_append [']'] s
    rw [htext]
    show Option.map _ (lexRange (k :: (ds ++ ':' :: k :: (ds' ++ ']' :: s)))) = _
    simp [lexRange, hkind, hidx, hcolon, hidx', hclose, hsigned]

theorem SpellsTok.lexStep {tok : EpTok} {text : List Char} (h : SpellsTok tok text)
    (hs : ∀ a, tok = .atom a → EndsAtom s) :
    ∃ c text', text = c :: text' ∧ Meatpi.lexStep c (text' ++ s) = some (some tok, s) := by
  cases h with
  | atom ha => exact ha.lexStep (hs _ rfl)
  | op o => cases o <;> exact ⟨_, _, rfl, rfl⟩
  | lpar => exact ⟨'(', [], rfl, rfl⟩
  | rpar => exact ⟨')', [], rfl, rfl⟩

theorem tokenizeLoop_blanks (hb : ∀ c ∈ blanks, isSpaceC c = true) (s : List Char) (fuel : ℕ) :
    tokenizeLoop (blanks.length + fuel) (blanks ++ s) = tokenizeLoop fuel s := by
  induction blanks with
  | nil => rw [length_nil, Nat.zero_add, nil_append]
  | cons c blanks ih =>
    have hlex : Meatpi.lexStep c (blanks ++ s) = some (none, blanks ++ s) := by
      rw [Meatpi.lexStep, if_pos (hb c mem_cons_self)]
    rw [length_cons, Nat.add_right_comm, cons_append, tokenizeLoop, hlex]
    exact ih fun d hd => hb d (mem_cons_of_mem _ hd)

/-- **A spelled text is its tokens.** -/
theorem Spells.tokenizeLoop_eq {ts : List EpTok} (h : Spells ts s) :
    Infix.separated ts = true → ∀ fuel, s.length ≤ fuel → tokenizeLoop fuel s = some ts := by
  induction h with
  | @nil blanks hb =>
    intro _ fuel hfuel
    obtain ⟨k, rfl⟩ := Nat.exists_eq_add_of_le hfuel
    have := tokenizeLoop_blanks hb [] k
    rw [append_nil] at this
    rw [this]
    cases k <;> rfl
  | @cons blanks text s tok ts hb htext hspell ih =>
    intro hsep fuel hfuel
    have hends : ∀ a, tok = .atom a → EndsAtom s := by
      rintro a rfl
      apply hspell.endsAtom
      rintro b ts' rfl
      simp [Infix.separated] at hsep
    have hsep' : Infix.separated ts = true := Infix.separated_tail hsep
    obtain ⟨c, text', rfl, hlex⟩ := htext.lexStep hends
    simp only [length_append, length_cons] at hfuel
    obtain ⟨k, rfl⟩ : ∃ k, fuel = blanks.length + (k + 1) := ⟨fuel - blanks.length - 1, by omega⟩
    rw [append_assoc, tokenizeLoop_blanks hb, cons_append, tokenizeLoop, hlex]
    simp only [ih hsep' k (by omega), map_some]

theorem Spells.tokenize {ts : List EpTok} (h : Spells ts s) (hsep : Infix.separated ts = true) :
    Meatpi.tokenize s = some ts :=
  h.tokenizeLoop_eq hsep s.length (Nat.le_refl _)

end Meatpi
