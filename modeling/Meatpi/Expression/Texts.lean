import Meatpi.Expression.Indexes

/-!
# Texts made of tokens

A text that a program writes is a list of tokens, each in its one spelling. Such a
text is read back as its tokens (`tokenize_tokTexts`), the stacks are deep enough
when the tokens are few (`checkWithinStacks_of_few`, `withinStacks_of_few`), and the
check reports exactly the highest index among them (`expressionParserCheck_highest`).
-/

namespace Meatpi

open List Nat

variable {β : Type} {count value : ℕ} {j : ℕ}

variable {tok : EpTok} {s : List Char} {ts : List EpTok} {m n : ℕ}

/-! ## One spelling for each token -/

def tokText : EpTok → List Char
  | .atom (.num run) => run
  | .atom .v => ['V']
  | .atom (.byte index) => 'B' :: decText index
  | .atom (.bit index b) => 'B' :: decText index ++ [':', Nat.digitChar b]
  | .atom (.sbyte index) => 'S' :: decText index
  | .atom (.range signed start stop) =>
    '[' :: (if signed then 'S' else 'B') :: decText start ++
      [':', if signed then 'S' else 'B'] ++ decText stop ++ [']']
  | .op o => o.text
  | .lpar => ['(']
  | .rpar => [')']

/-- A number is written in digits and points, a bit is one of a byte. -/
def Writable : EpTok → Prop
  | .atom (.num run) => run ≠ [] ∧ ∀ c ∈ run, isNumChar c = true
  | .atom (.bit _ b) => b < 8
  | _ => True

theorem spellsTok_tokText (h : Writable tok) : SpellsTok tok (tokText tok) := by
  have hdigits : ∀ n, ∀ c ∈ decText n, c.isDigit = true := fun _ _ => isDigit_of_mem_decText
  cases tok with
  | atom a =>
    refine .atom ?_
    cases a with
    | num run => exact .num run h.1 h.2
    | v => exact .v
    | byte index =>
      have hs := SpellsAtom.byte (decText index) (decText_ne_nil _) (hdigits _)
      rwa [decNat_decText] at hs
    | bit index b =>
      have hb : (Nat.digitChar b).toNat - '0'.toNat = b ∧ (Nat.digitChar b).isDigit = true ∧
          Nat.digitChar b ≤ '7' := by
        revert h
        change b < 8 → _
        revert b
        decide
      have hs := SpellsAtom.bit (decText index) (Nat.digitChar b) (decText_ne_nil _) (hdigits _)
        hb.2.1 hb.2.2
      rwa [decNat_decText, hb.1] at hs
    | sbyte index =>
      have hs := SpellsAtom.sbyte (decText index) (decText_ne_nil _) (hdigits _)
      rwa [decNat_decText] at hs
    | range signed start stop =>
      have hs := SpellsAtom.range signed (decText start) (decText stop) (decText_ne_nil _)
        (hdigits _) (decText_ne_nil _) (hdigits _)
      rwa [decNat_decText, decNat_decText] at hs
  | op o => exact .op o
  | lpar => exact .lpar
  | rpar => exact .rpar

theorem spells_tokTexts : ∀ {ts : List EpTok}, (∀ tok ∈ ts, Writable tok) →
    Spells ts (ts.flatMap tokText)
  | [], _ => .nil (by simp)
  | tok :: ts, h => by
    have hb : ∀ c ∈ ([] : List Char), isSpaceC c = true := by simp
    exact .cons hb (spellsTok_tokText (h tok mem_cons_self))
      (spells_tokTexts fun t ht => h t (mem_cons_of_mem _ ht))

/-- **A written text is read back.** -/
theorem tokenize_tokTexts (h : ∀ tok ∈ ts, Writable tok) (hsep : Infix.separated ts = true) :
    tokenize (ts.flatMap tokText) = some ts :=
  (spells_tokTexts h).tokenize hsep

/-- The other characters of a token. -/
def tokChars : List Char :=
  ['V', 'B', 'S', ':', '[', ']', '(', ')', '+', '-', '*', '/', '&', '|', '^', '<', '>']

/-- The characters of a text that is made of tokens. -/
def IsTokChar (c : Char) : Prop := isSpaceC c = true ∨ isNumChar c = true ∨ c ∈ tokChars

instance : DecidablePred IsTokChar := fun c =>
  inferInstanceAs (Decidable (isSpaceC c = true ∨ isNumChar c = true ∨ c ∈ tokChars))

theorem isTokChar_of_spellsTok {text : List Char} (h : SpellsTok tok text) :
    ∀ c ∈ text, IsTokChar c := by
  have hdigits : ∀ {ds : List Char}, (∀ c ∈ ds, c.isDigit = true) → ∀ c ∈ ds, IsTokChar c :=
    fun hds c hc => .inr (.inl (isNumChar_of_isDigit (hds c hc)))
  have hother : ∀ {c}, c ∈ tokChars → IsTokChar c := fun hc => .inr (.inr hc)
  cases h with
  | atom h =>
    cases h with
    | num run _ hrun => exact fun c hc => .inr (.inl (hrun c hc))
    | v => exact fun c hc => hother (by simp at hc; rw [hc]; decide)
    | byte ds _ hds =>
      intro c hc
      rcases mem_cons.1 hc with rfl | hc
      · exact hother (by decide)
      · exact hdigits hds c hc
    | bit ds b _ hds hb _ =>
      intro c hc
      simp only [cons_append, mem_cons, mem_append, not_mem_nil, or_false] at hc
      rcases hc with rfl | hc | rfl | rfl
      · exact hother (by decide)
      · exact hdigits hds c hc
      · exact hother (by decide)
      · exact .inr (.inl (isNumChar_of_isDigit hb))
    | sbyte ds _ hds =>
      intro c hc
      rcases mem_cons.1 hc with rfl | hc
      · exact hother (by decide)
      · exact hdigits hds c hc
    | range signed ds ds' _ hds _ hds' =>
      have hkind : IsTokChar (if signed then 'S' else 'B') := by
        cases signed <;> exact hother (by decide)
      intro c hc
      simp only [cons_append, mem_cons, mem_append, not_mem_nil, or_false] at hc
      rcases hc with rfl | rfl | ((hc | rfl | rfl) | hc) | rfl
      · exact hother (by decide)
      · exact hkind
      · exact hdigits hds c hc
      · exact hother (by decide)
      · exact hkind
      · exact hdigits hds' c hc
      · exact hother (by decide)
  | op o =>
    intro c hc
    refine hother ?_
    cases o <;> simp [EpOp.text, EpOp.char] at hc <;> rw [hc] <;> decide
  | lpar => exact fun c hc => hother (by simp at hc; rw [hc]; decide)
  | rpar => exact fun c hc => hother (by simp at hc; rw [hc]; decide)

theorem isTokChar_of_spells (h : Spells ts s) : ∀ c ∈ s, IsTokChar c := by
  induction h with
  | nil hb => exact fun c hc => .inl (hb c hc)
  | cons hb htok _ ih =>
    intro c hc
    rw [mem_append, mem_append] at hc
    rcases hc with (hc | hc) | hc
    · exact .inl (hb c hc)
    · exact isTokChar_of_spellsTok htok c hc
    · exact ih c hc

/-- **A foreign character** makes the check refuse the text. -/
theorem expressionParserCheck_foreign {α : Type} (ar : Arith α) {c : Char} (hc : c ∈ s)
    (hno : ¬ IsTokChar c) (m : Option ℕ) : expressionParserCheck ar s ≠ .ok m := by
  intro h
  obtain ⟨p, hp, -⟩ := expressionParserCheck_ok h
  obtain ⟨ts, hts⟩ := tokenize_of_evaluate hp
  exact hno (isTokChar_of_spells (spells_of_tokenize hts) c hc)

/-! ## Few tokens -/

/-- The stacks did not run full. -/
def Shallow {β : Type} (x : Except EpErr β) : Prop :=
  ∀ code, x ≠ .error (.err code "expression too deep")

section Shallow

variable {α : Type} {env : EpEnv α}

theorem Shallow.ok {β : Type} (b : β) : Shallow (.ok b : Except EpErr β) := fun _ h => by cases h

theorem Shallow.err {code : EpCode} {msg : String} (hmsg : msg ≠ "expression too deep") :
    Shallow (.error (.err code msg) : Except EpErr β) := fun code' h => by
  cases h
  exact hmsg rfl

theorem Shallow.bind {γ : Type} {x : Except EpErr β} {f : β → Except EpErr γ} (h : Shallow x)
    (hf : ∀ b, x = .ok b → Shallow (f b)) : Shallow (x >>= f) := by
  cases x with
  | ok b => exact hf b rfl
  | error e =>
    intro code he
    cases he
    exact h code rfl

theorem applyTop_shallow (op : Char) (operands : List α) : Shallow (applyTop env op operands) := by
  rcases operands with _ | ⟨b, _ | ⟨a, operands⟩⟩
  · exact .err (by decide)
  · exact .err (by decide)
  · refine Shallow.bind ?_ fun r _ => .ok _
    simp only [applyOp]
    split_ifs <;> first | exact .ok _ | exact .err (by decide)

theorem applyWhile_shallow (now : Char → Bool) : ∀ (operators : List Char) (operands : List α),
    Shallow (applyWhile env now operators operands) ∧
      ∀ p, applyWhile env now operators operands = .ok p →
        p.1.length ≤ operators.length ∧ p.2.length ≤ operands.length := by
  intro operators
  induction operators with
  | nil =>
    intro operands
    refine ⟨.ok _, fun p hp => ?_⟩
    cases hp
    exact ⟨Nat.le_refl _, Nat.le_refl _⟩
  | cons op operators ih =>
    intro operands
    rw [applyWhile]
    split_ifs
    · refine ⟨(applyTop_shallow op operands).bind fun operands' _ => (ih operands').1, ?_⟩
      intro p hp
      rcases operands with _ | ⟨b, _ | ⟨a, operands⟩⟩
      · cases hp
      · cases hp
      · cases hop : applyOp env op a b with
        | error e =>
          rw [applyTop, hop] at hp
          cases hp
        | ok r =>
          rw [applyTop, hop] at hp
          have hlen := (ih (r :: operands)).2 p hp
          simp only [length_cons] at hlen ⊢
          omega
    · refine ⟨.ok _, fun p hp => ?_⟩
      cases hp
      exact ⟨Nat.le_refl _, Nat.le_refl _⟩

theorem readByte_shallow (ctx : EpCtx α) (index : ℕ) : Shallow (readByte env ctx index) := by
  rw [readByte]
  split_ifs
  · exact .ok _
  · split
    · exact .ok _
    · exact .err (by decide)

theorem readSpan_shallow (count j value : ℕ) (ctx : EpCtx α) :
    Shallow (readSpan env count j value ctx) := by
  induction count generalizing j value ctx with
  | zero => exact .ok _
  | succ count ih =>
    exact (readByte_shallow ctx j).bind fun p _ => ih _ _ _

theorem readAtom_shallow (ctx : EpCtx α) (a : EpAtom) : Shallow (readAtom env ctx a) := by
  cases a with
  | num run => exact .ok _
  | v => exact .ok _
  | byte index => exact (readByte_shallow ctx _).bind fun p _ => .ok _
  | bit index b => exact (readByte_shallow ctx _).bind fun p _ => .ok _
  | sbyte index => exact (readByte_shallow ctx _).bind fun p _ => .ok _
  | range signed start stop =>
    rw [readAtom, readRange_eq]
    split_ifs
    · exact .err (by decide)
    · exact .err (by decide)
    all_goals
      refine (readSpan_shallow _ _ _ ctx).bind fun r _ => ?_
      first
        | exact .ok _
        | exact fun code h => by cases h

/-- Reading leaves the stacks alone. -/
def SameStacks (ctx ctx' : EpCtx α) : Prop :=
  ctx'.operands = ctx.operands ∧ ctx'.operators = ctx.operators

theorem readByte_stacks {ctx : EpCtx α} {index : ℕ} {p : EpCtx α × UInt8}
    (h : readByte env ctx index = .ok p) : SameStacks ctx p.1 := by
  rw [readByte] at h
  split_ifs at h
  · cases h
    exact ⟨rfl, rfl⟩
  · split at h
    · cases h
      exact ⟨rfl, rfl⟩
    · cases h

theorem readSpan_stacks {ctx : EpCtx α} {p : EpCtx α × ℕ}
    (h : readSpan env count j value ctx = .ok p) : SameStacks ctx p.1 := by
  induction count generalizing j value ctx p with
  | zero =>
    cases h
    exact ⟨rfl, rfl⟩
  | succ count ih =>
    rw [readSpan] at h
    cases hread : readByte env ctx j with
    | error e => rw [hread] at h; cases h
    | ok q =>
      rw [hread] at h
      obtain ⟨hops, hors⟩ := ih h
      obtain ⟨hops', hors'⟩ := readByte_stacks hread
      exact ⟨hops.trans hops', hors.trans hors'⟩

theorem readAtom_stacks {ctx : EpCtx α} {a : EpAtom} {p : EpCtx α × α}
    (h : readAtom env ctx a = .ok p) : SameStacks ctx p.1 := by
  have hbyte : ∀ (index : ℕ) (f : UInt8 → α),
      (do let q ← readByte env ctx index; .ok (q.1, f q.2)) = Except.ok p → SameStacks ctx p.1 := by
    intro index f h
    cases hread : readByte env ctx index with
    | error e => rw [hread] at h; cases h
    | ok q =>
      rw [hread] at h
      cases h
      exact readByte_stacks hread
  cases a with
  | num run => cases h; exact ⟨rfl, rfl⟩
  | v => cases h; exact ⟨rfl, rfl⟩
  | byte index => exact hbyte (index % sizeMod) (fun x => env.ar.ofInt x.toNat) h
  | bit index b =>
    exact hbyte (index % sizeMod) (fun x => env.ar.ofInt (x.toNat / 2 ^ b % 2 : ℕ)) h
  | sbyte index => exact hbyte (index % sizeMod) (fun x => env.ar.ofInt (signedOf 8 x.toNat)) h
  | range signed start stop =>
    rw [readAtom, readRange_eq] at h
    split_ifs at h
    all_goals
      cases hspan : readSpan env (stop % sizeMod - start % sizeMod + 1) (start % sizeMod) 0 ctx with
      | error e => rw [hspan] at h; cases h
      | ok r =>
        rw [hspan] at h
        first
          | (cases h; exact readSpan_stacks hspan)
          | cases h

/-- How many operands a token may push. -/
def operandsOf : EpTok → ℕ
  | .atom _ => 1
  | .op .sub => 1 -- a minus in front brings a zero
  | _ => 0

/-- How many operators a token may push. -/
def operatorsOf : EpTok → ℕ
  | .op _ => 1
  | .lpar => 1
  | _ => 0

/-- There is room for as many more on the stacks. -/
def Room (operands operators : ℕ) (ctx : EpCtx α) : Prop :=
  ctx.operands.length + operands ≤ epStackMax ∧ ctx.operators.length + operators ≤ epStackMax

theorem pushOperand_room {ctx : EpCtx α} {x : α} (h : Room (m + 1) n ctx) :
    ∃ ctx', pushOperand ctx x = .ok ctx' ∧ Room m n ctx' := by
  obtain ⟨hops, hors⟩ := h
  refine ⟨{ ctx with operands := x :: ctx.operands, expectOperand := false, unaryOk := false },
    by rw [pushOperand, if_neg (by omega)], ?_, hors⟩
  rw [length_cons]
  omega

theorem pushOperator_room {ctx : EpCtx α} {op : Char} (h : Room m (n + 1) ctx) :
    Shallow (pushOperator env ctx op) ∧
      ∀ ctx', pushOperator env ctx op = .ok ctx' → Room m n ctx' := by
  obtain ⟨hops, hors⟩ := h
  obtain ⟨hshallow, hlen⟩ := @applyWhile_shallow α env
    (fun top => decide (precedence op ≤ precedence top)) ctx.operators ctx.operands
  cases happly : applyWhile env (fun top => decide (precedence op ≤ precedence top)) ctx.operators
      ctx.operands with
  | error e =>
    rw [happly] at hshallow
    refine ⟨?_, fun ctx' h => ?_⟩
    · rw [pushOperator, happly]
      intro code he
      cases he
      exact hshallow code rfl
    · rw [pushOperator, happly] at h
      cases h
  | ok p =>
    have hp := hlen p happly
    have hroom : ¬ epStackMax ≤ p.1.length := by omega
    simp only [pushOperator, happly, bind, Except.bind, if_neg hroom]
    refine ⟨.ok _, fun ctx' h => ?_⟩
    cases h
    refine ⟨?_, ?_⟩
    · show p.2.length + m ≤ epStackMax
      omega
    · rw [length_cons]
      omega

/-- **One token** takes no more room than it may. -/
theorem evalTok_room {ctx : EpCtx α} (tok : EpTok)
    (h : Room (operandsOf tok + m) (operatorsOf tok + n) ctx) :
    Shallow (evalTok env ctx tok) ∧ ∀ ctx', evalTok env ctx tok = .ok ctx' → Room m n ctx' := by
  cases tok with
  | atom a =>
    simp only [operandsOf, operatorsOf, Nat.add_comm 1, Nat.zero_add] at h
    rw [evalTok]
    cases hread : readAtom env ctx a with
    | error e =>
      have hshallow := @readAtom_shallow α env ctx a
      rw [hread] at hshallow
      refine ⟨fun code he => ?_, fun ctx' h => by cases h⟩
      cases he
      exact hshallow code rfl
    | ok p =>
      obtain ⟨hops, hors⟩ := readAtom_stacks hread
      have hp : Room (m + 1) n p.1 := by
        rw [Room, hops, hors]
        exact h
      obtain ⟨ctx', hpush, hroom⟩ := pushOperand_room (x := p.2) hp
      simp only [bind, Except.bind, hpush]
      refine ⟨.ok _, fun ctx'' h => ?_⟩
      cases h
      exact hroom
  | lpar =>
    obtain ⟨hops, hors⟩ := h
    simp only [operatorsOf] at hors
    rw [evalTok, openParen, if_neg (by omega)]
    refine ⟨.ok _, fun ctx' h => ?_⟩
    cases h
    refine ⟨by simpa [operandsOf] using hops, ?_⟩
    rw [length_cons]
    omega
  | rpar =>
    obtain ⟨hshallow, hlen⟩ := @applyWhile_shallow α env (fun top => top != '(')
      ctx.operators ctx.operands
    rw [evalTok, closeParen]
    cases happly : applyWhile env (fun top => top != '(') ctx.operators ctx.operands with
    | error e =>
      rw [happly] at hshallow
      refine ⟨fun code he => ?_, fun ctx' h => by cases h⟩
      cases he
      exact hshallow code rfl
    | ok p =>
      have hp := hlen p happly
      obtain ⟨_ | ⟨op, operators⟩, operands⟩ := p
      · exact ⟨.err (by decide), fun ctx' h => by cases h⟩
      · refine ⟨.ok _, fun ctx' hctx => ?_⟩
        cases hctx
        obtain ⟨hops, hors⟩ := h
        simp only [length_cons, operandsOf, operatorsOf] at hp hops hors
        exact ⟨by show operands.length + m ≤ _; omega, by show operators.length + n ≤ _; omega⟩
  | op o =>
    rw [evalTok]
    split_ifs with hunary
    · obtain ⟨rfl, -⟩ := hunary
      have h' : Room (m + 1) (n + 1) ctx := by
        simp only [operandsOf, operatorsOf, Nat.add_comm 1] at h
        exact h
      obtain ⟨ctx', hpush, hroom⟩ := pushOperand_room (x := env.ar.ofInt 0) h'
      rw [unaryMinus, hpush]
      have hroom' : Room m (n + 1) { ctx' with expectOperand := true } := hroom
      exact pushOperator_room hroom'
    · rw [binaryOperator]
      split_ifs
      · exact ⟨.err (by decide), fun ctx' h => by cases h⟩
      · refine pushOperator_room ⟨?_, ?_⟩
        · exact (Nat.add_le_add_left (Nat.le_add_left m _) _).trans h.1
        · have hors := h.2
          simp only [operatorsOf] at hors
          omega

/-- **A run over few tokens** does not fill the stacks. -/
theorem foldlM_evalTok_room (ts : List EpTok) {ctx : EpCtx α}
    (h : Room (ts.map operandsOf).sum (ts.map operatorsOf).sum ctx) :
    Shallow (ts.foldlM (evalTok env) ctx) := by
  induction ts generalizing ctx with
  | nil => exact .ok _
  | cons tok ts ih =>
    rw [map_cons, map_cons, sum_cons, sum_cons] at h
    obtain ⟨hshallow, hroom⟩ := evalTok_room tok h
    exact hshallow.bind fun ctx' hctx' => ih (hroom ctx' hctx')

theorem evaluate_shallow {ts : List EpTok} {s : List Char} (hts : tokenize s = some ts)
    (hops : (ts.map operandsOf).sum ≤ epStackMax) (hors : (ts.map operatorsOf).sum ≤ epStackMax) :
    Shallow (evaluate env s) := by
  rw [evaluate_of_tokenize env hts]
  refine (foldlM_evalTok_room ts ⟨?_, ?_⟩).bind fun ctx _ => ?_
  · simpa [EpCtx.init] using hops
  · simpa [EpCtx.init] using hors
  · refine (applyWhile_shallow _ _ _).1.bind fun p _ => ?_
    obtain ⟨_ | ⟨op, operators⟩, _ | ⟨x, _ | ⟨y, operands⟩⟩⟩ := p
    · exact .err (by decide)
    · exact .ok _
    · exact .err (by decide)
    · exact .err (by decide)
    · exact .err (by decide)
    · exact .err (by decide)

theorem checkWithinStacks_of_few (ar : Arith α) (hts : tokenize s = some ts)
    (hops : (ts.map operandsOf).sum ≤ epStackMax) (hors : (ts.map operatorsOf).sum ≤ epStackMax) :
    CheckWithinStacks ar s := by
  have hshallow := @evaluate_shallow α ⟨ar, [], ar.ofInt 0, true⟩ ts s hts hops hors
  rw [CheckWithinStacks, expressionParserCheck]
  intro h
  split at h
  · cases h
  · rename_i code msg heval
    cases h
    exact hshallow code heval
  · cases h

theorem withinStacks_of_few (ar : Arith α) (hts : tokenize s = some ts)
    (hops : (ts.map operandsOf).sum ≤ epStackMax) (hors : (ts.map operatorsOf).sum ≤ epStackMax)
    (data : List UInt8) (v : α) : WithinStacks ar s data v := by
  have hshallow := @evaluate_shallow α ⟨ar, data, v, false⟩ ts s hts hops hors
  rw [WithinStacks, expressionParserEval]
  intro h
  cases heval : evaluate ⟨ar, data, v, false⟩ s with
  | ok p => rw [heval] at h; cases h
  | error e =>
    rw [heval] at h
    cases h
    exact hshallow .invalidArg heval

end Shallow

/-! ## The highest index -/

section Highest

variable {α : Type}

/-- **What the check reports** is the highest index, for indexes below `2^32`. -/
theorem expressionParserCheck_highest {ar : Arith α} {m : Option ℕ}
    (h : expressionParserCheck ar s = .ok m) (hts : tokenize s = some ts) {top : ℕ}
    (htop : top < sizeMod) (hall : ∀ tok ∈ ts, ∀ n ∈ refIndexes tok, n ≤ top)
    (hsome : ∃ tok ∈ ts, top ∈ refIndexes tok) : m = some top := by
  obtain ⟨-, hnoted⟩ := expressionParserCheck_noted h
  obtain ⟨tok, htok, hmem⟩ := hsome
  rw [readable_of_tokenize hts] at hnoted
  obtain ⟨high, hhigh, hle⟩ := hnoted tok htok top hmem
  rw [mod_eq_of_lt htop] at hle
  obtain ⟨p, hp, rfl⟩ := expressionParserCheck_ok h
  rw [evaluate_of_tokenize _ hts] at hp
  cases hrun : ts.foldlM (evalTok ⟨ar, [], ar.ofInt 0, true⟩) EpCtx.init with
  | error e => rw [hrun] at hp; cases hp
  | ok ctx =>
    rw [hrun] at hp
    have hrefs : ∀ tok ∈ ts, ∀ n ∈ refIndexes tok, n % sizeMod < top + 1 := fun tok htok n hn =>
      lt_succ_of_le ((mod_le _ _).trans (hall tok htok n hn))
    have hbelow := (foldlM_evalTok_noted rfl hrun hrefs (fun k hk => by cases hk)).1
    rw [evaluateEnd_maxByte hp] at hhigh ⊢
    have hlt := hbelow high hhigh
    have heq : high = top := by omega
    rw [← heq]
    exact hhigh

end Highest

end Meatpi
