import Mathlib.Algebra.Order.Ring.Int
import Mathlib.Data.List.Infix

/-!
# Rule evaluation (`event_manager_eval.c`, `event_manager_template.c`)

What an event means for a rule: the `match` filter, the `when` conditions over
the fields of the trigger and over live values, the transition of a while-rule,
its re-check between events, and the cooldown. A text is its characters up to
the terminating NUL; what a `double` is stays open (`EmDouble`). Times are
64-bit microseconds and do not wrap.
-/

namespace Meatpi

def emKvMax : ℕ := 6
def emStrMax : ℕ := 48

/-- What the evaluation asks of a `double`. -/
structure EmDouble (D : Type) where
  ofI64 : Int64 → D
  eq : D → D → Bool
  lt : D → D → Bool
  le : D → D → Bool
  /-- `strtod`, of a text that it reads to the end -/
  strtod : List Char → Option D
  /-- `%g` -/
  fmtG : D → List Char

/-- The value of an event field. -/
inductive EmVal (D : Type) where
  | f64 (d : D)
  | i64 (i : Int64)
  | str (s : List Char)
  | bool (b : Bool)

structure EmKv (D : Type) where
  key : List Char
  v : EmVal D

structure EmEvent (D : Type) where
  source : List Char
  name : List Char
  tsUs : ℤ
  kv : List (EmKv D)

inductive EmOp where
  | eq
  | ne
  | gt
  | ge
  | lt
  | le
  | changed
  | contains
  deriving DecidableEq

/-- `em_operand_t`: a number (a boolean as 0 or 1) or a string. -/
structure EmOperand (D : Type) where
  key : List Char
  isNum : Bool
  num : D
  str : List Char

/-- What a `changed` condition keeps: a number or a string. -/
inductive EmKept (D : Type) where
  | num (d : D)
  | str (s : List Char)

/-- `em_when_t`; a condition with a `value` reads that live value. -/
structure EmWhen (D : Type) where
  key : List Char
  op : EmOp
  val : EmOperand D
  value : List Char

structure EmRule (D : Type) where
  name : List Char
  enabled : Bool
  on : List Char
  matchOn : List (EmOperand D)
  whenAll : List (EmWhen D)
  action : List Char
  withJson : List Char
  cooldownMs : UInt32
  undo : Bool

/-- `em_rule_state_t`: the previous value of each `changed` condition, the last
fire (0 for never), the while-rule's flag and the event that armed it. -/
structure EmRuleState (D : Type) where
  lastFireUs : ℤ
  last : ℕ → Option (EmKept D)
  active : Bool
  lastEv : EmEvent D

/-- A rule's state at boot. -/
def emRuleStateZero (D : Type) : EmRuleState D where
  lastFireUs := 0
  last := fun _ => none
  active := false
  lastEv := ⟨[], [], 0, []⟩

/-- `em_tpl_resolver_t`: a live value, given the room there is for it. -/
abbrev EmResolver := List Char → ℕ → Option (List Char)

variable {D : Type}

/-! ## Templates -/

def emEventGet (ev : EmEvent D) (key : List Char) : Option (EmKv D) :=
  (ev.kv.take emKvMax).find? fun kv => kv.key == key

/-- `em_kv_render`, before it is cut to the room there is -/
def emKvRender (dbl : EmDouble D) (kv : EmKv D) : List Char :=
  match kv.v with
  | .f64 d => dbl.fmtG d
  | .i64 i => (toString i.toInt).toList
  | .bool b => if b then "true".toList else "false".toList
  | .str s => s

/-- `resolve`: one `${...}` name, in `room` bytes with the NUL. -/
def emResolve (dbl : EmDouble D) (name : List Char) (ev : EmEvent D) (resolver : EmResolver)
    (room : ℕ) : List Char :=
  let val :=
    match emEventGet ev name with
    | some kv => emKvRender dbl kv
    | none =>
      if name = "ts".toList then
        (toString ev.tsUs).toList
      else if name = "source".toList then
        ev.source
      else if name = "name".toList then
        ev.name
      else
        (resolver name room).getD "null".toList
  val.take (room - 1)

/-- The loop of `em_template_render`. -/
def emRenderLoop (dbl : EmDouble D) (ev : EmEvent D) (resolver : EmResolver) (outLen : ℕ)
    (tpl out : List Char) : Option (List Char) :=
  match tpl with
  | [] => some out
  | c :: rest =>
    if out.length ≥ outLen - 1 then
      none
    else
      let name := (rest.drop 1).takeWhile (· ≠ '}')
      -- "${", a name of less than 64 bytes and the closing brace
      if c = '$' ∧ rest.head? = some '\x7b' ∧ '}' ∈ rest.drop 1 ∧ name.length < 64 then
        emRenderLoop dbl ev resolver outLen (rest.drop (name.length + 2))
          (out ++ emResolve dbl name ev resolver (outLen - out.length))
      else
        emRenderLoop dbl ev resolver outLen rest (out ++ [c])
termination_by tpl.length
decreasing_by
  all_goals simp only [List.length_cons, List.length_drop]; omega

/-- `em_template_render`; nothing when the text does not fit. -/
def emTemplateRender (dbl : EmDouble D) (tpl : List Char) (ev : EmEvent D) (resolver : EmResolver)
    (outLen : ℕ) : Option (List Char) :=
  emRenderLoop dbl ev resolver outLen tpl []

/-! ## Conditions -/

/-- `kv_num`: a value as a number, unless it is a string. -/
def kvNum (dbl : EmDouble D) : EmVal D → Option D
  | .f64 d => some d
  | .i64 i => some (dbl.ofI64 i)
  | .bool b => some (dbl.ofI64 (if b then 1 else 0))
  | .str _ => none

def operandEqualsKv (dbl : EmDouble D) (o : EmOperand D) (v : EmVal D) : Bool :=
  if o.isNum then
    match kvNum dbl v with
    | some n => dbl.eq n o.num
    | none => false
  else
    match v with
    | .str s => s == o.str
    | _ => false

def emRuleMatch (dbl : EmDouble D) (r : EmRule D) (ev : EmEvent D) : Bool :=
  r.matchOn.all fun o =>
    match emEventGet ev o.key with
    | some kv => operandEqualsKv dbl o kv.v
    | none => false

/-- A comparison of a value that is a number. -/
def kvCompare (dbl : EmDouble D) (v : EmVal D) (cmp : D → Bool) : Bool :=
  match kvNum dbl v with
  | some n => cmp n
  | none => false

/-- What `changed` keeps of a value. -/
def changedSlot (dbl : EmDouble D) (v : EmVal D) : EmKept D :=
  match kvNum dbl v, v with
  | some n, _ => .num n
  | none, .str s => .str (s.take (emStrMax - 1))
  | none, _ => .str []

/-- A value differs from the one kept before; the first one does. -/
def slotChanged (dbl : EmDouble D) (prev : Option (EmKept D)) (v : EmVal D) : Bool :=
  match prev, kvNum dbl v, v with
  | none, _, _ => true
  | some (.num d), some n, _ => !dbl.eq n d
  | some (.str s), none, .str s' => s' != s
  | some _, _, _ => true

/-- `when_holds`, of a condition that needs no kept value -/
def whenHolds (dbl : EmDouble D) (c : EmWhen D) (v : EmVal D) : Bool :=
  match c.op with
  | .eq => operandEqualsKv dbl c.val v
  | .ne => !operandEqualsKv dbl c.val v
  | .gt => kvCompare dbl v fun n => dbl.lt c.val.num n
  | .ge => kvCompare dbl v fun n => dbl.le c.val.num n
  | .lt => kvCompare dbl v fun n => dbl.lt n c.val.num
  | .le => kvCompare dbl v fun n => dbl.le n c.val.num
  | .contains =>
    match v with
    | .str s => !c.val.isNum && decide (c.val.str <:+: s)
    | _ => false
  | .changed => false

def kvFromText (dbl : EmDouble D) (txt : List Char) : Option (EmVal D) :=
  if txt = [] ∨ txt = "null".toList then
    none
  else if txt = "true".toList ∨ txt = "false".toList then
    some (.bool (txt.head? == some 't'))
  else
    match dbl.strtod txt with
    | some n => some (.f64 n)
    | none => some (.str (txt.take (emStrMax - 1)))

/-- `cond_kv`: the field of the trigger, or the live value. -/
def condKv (dbl : EmDouble D) (c : EmWhen D) (ev : EmEvent D) (resolver : EmResolver) :
    Option (EmVal D) :=
  if c.value = [] then
    (emEventGet ev c.key).map EmKv.v
  else
    match emTemplateRender dbl c.value ev resolver emStrMax with
    | some txt => kvFromText dbl txt
    | none => none

/-- `em_rule_when_ex`: all conditions are looked at, the `changed` ones keep
their value. -/
def emRuleWhenEx (dbl : EmDouble D) (r : EmRule D) (ev : EmEvent D) (st : EmRuleState D)
    (resolver : EmResolver) : Bool × EmRuleState D :=
  r.whenAll.zipIdx.foldl (fun (acc : Bool × EmRuleState D) (c : EmWhen D × ℕ) =>
    match condKv dbl c.1 ev resolver with
    | none => (false, acc.2)
    | some v =>
      if c.1.op = .changed then
        (acc.1 && slotChanged dbl (acc.2.last c.2) v,
          { acc.2 with last := Function.update acc.2.last c.2 (some (changedSlot dbl v)) })
      else
        (acc.1 && whenHolds dbl c.1 v, acc.2)) (true, st)

def emRuleHasLive (r : EmRule D) : Bool := r.whenAll.any fun c => c.value ≠ []

def emRuleLiveHolds (dbl : EmDouble D) (r : EmRule D) (st : EmRuleState D) (resolver : EmResolver) :
    Bool :=
  r.whenAll.all fun c =>
    if c.value = [] ∨ c.op = .changed then
      true
    else
      match condKv dbl c st.lastEv resolver with
      | some v => whenHolds dbl c v
      | none => false

/-! ## Decisions -/

def emRuleCooldownOk (r : EmRule D) (st : EmRuleState D) (nowUs : ℤ) : Bool × EmRuleState D :=
  if r.cooldownMs > 0 ∧ st.lastFireUs ≠ 0 ∧
      nowUs - st.lastFireUs < (r.cooldownMs.toNat : ℤ) * 1000 then
    (false, st)
  else
    (true, { st with lastFireUs := nowUs })

inductive EmStep where
  | none
  | run
  | undo
  deriving DecidableEq

def emRuleStep (r : EmRule D) (st : EmRuleState D) (holds : Bool) (ev : EmEvent D) :
    EmStep × EmRuleState D :=
  if !r.undo then
    (if holds then .run else .none, st)
  else if holds then
    (if st.active then .none else .run, { st with lastEv := ev })
  else if st.active then
    (.undo, { st with active := false })
  else
    (.none, st)

def emRuleRecheck (dbl : EmDouble D) (r : EmRule D) (st : EmRuleState D) (resolver : EmResolver) :
    Bool × EmRuleState D :=
  if !r.enabled || !r.undo || !st.active || !emRuleHasLive r ||
      emRuleLiveHolds dbl r st resolver then
    (false, st)
  else
    (true, { st with active := false })

/-- The `selector` of an event. -/
def emSelector (ev : EmEvent D) : List Char := ev.source ++ '.' :: ev.name

/-- A rule looks at an event: it is enabled, listens to it, and `match` holds. -/
def emRuleListens (dbl : EmDouble D) (r : EmRule D) (ev : EmEvent D) : Bool :=
  r.enabled && r.on == emSelector ev && emRuleMatch dbl r ev

/-- `em_rule_decide`: the step, the state, and whether the cooldown held it
back. -/
def emRuleDecide (dbl : EmDouble D) (r : EmRule D) (st : EmRuleState D) (ev : EmEvent D)
    (nowUs : ℤ) (resolver : EmResolver) : EmStep × EmRuleState D × Bool :=
  if !emRuleListens dbl r ev then
    (.none, st, false)
  else
    -- the `changed` slots move with every matched event, also a suppressed one
    let w := emRuleWhenEx dbl r ev st resolver
    let s := emRuleStep r w.2 w.1 ev
    if s.1 = .run then
      let c := emRuleCooldownOk r s.2 nowUs
      if c.1 then (.run, c.2, false) else (.none, c.2, true)
    else
      (s.1, s.2, false)

def emRuleApplied (r : EmRule D) (st : EmRuleState D) : EmRuleState D := { st with active := r.undo }

end Meatpi
