import Meatpi.EventManager.Eval

/-!
# While-rules over a run (`dispatch_one`, `recheck_active`)

The dispatcher takes events in order and looks at the active while-rules in between.
Whether a rule's action ran is an outcome of the turn. The flag of a rule is set after
its action was applied and cleared before the undo is tried: an undo that fails leaves
the action in effect. Where none fails, the successful runs of a rule are an apply, an
undo, an apply and so on, and the flag says which was last.
-/

namespace Meatpi

open List

variable {undo : Bool}

/-- A run of a rule's action, as apply or as undo, and whether it succeeded. -/
structure EmAttempt where
  undo : Bool
  ok : Bool
  deriving DecidableEq

/-- A rule's state with the runs of its action so far. -/
structure EmRuleRun (D : Type) where
  st : EmRuleState D
  log : List EmAttempt

/-- A turn of the dispatcher: an event or a re-check, with what each rule reads
as live values and the outcome of its run, if it runs. -/
inductive EmInput (D : Type) where
  | event (ev : EmEvent D) (nowUs : ℤ) (resolver : ℕ → EmResolver) (ok : ℕ → Bool)
  | recheck (resolver : ℕ → EmResolver) (ok : ℕ → Bool)

variable {D : Type}

/-! ## The dispatcher -/

/-- The loop of `dispatch_one` for one rule. -/
def dispatchRule (dbl : EmDouble D) (rule : EmRule D) (x : EmRuleRun D) (ev : EmEvent D) (nowUs : ℤ)
    (resolver : EmResolver) (ok : Bool) : EmRuleRun D :=
  let d := emRuleDecide dbl rule x.st ev nowUs resolver
  match d.1 with
  | .run =>
    { st := if ok then emRuleApplied rule d.2.1 else d.2.1, log := x.log ++ [⟨false, ok⟩] }
  | .undo => { st := d.2.1, log := x.log ++ [⟨true, ok⟩] }
  | .none => { st := d.2.1, log := x.log }

/-- The loop of `recheck_active` for one rule. -/
def recheckRule (dbl : EmDouble D) (rule : EmRule D) (x : EmRuleRun D) (resolver : EmResolver)
    (ok : Bool) : EmRuleRun D :=
  let d := emRuleRecheck dbl rule x.st resolver
  if d.1 then { st := d.2, log := x.log ++ [⟨true, ok⟩] } else { st := d.2, log := x.log }

/-- What a turn does to the rule at an index. -/
def EmRuleRun.turn (dbl : EmDouble D) (rule : EmRule D) (r : ℕ) (x : EmRuleRun D) :
    EmInput D → EmRuleRun D
  | .event ev nowUs resolver ok => dispatchRule dbl rule x ev nowUs (resolver r) (ok r)
  | .recheck resolver ok => recheckRule dbl rule x (resolver r) (ok r)

/-- `dispatch_one` and `recheck_active`: every rule, in order. -/
def emTurn (dbl : EmDouble D) (rules : List (EmRule D)) (xs : List (EmRuleRun D))
    (input : EmInput D) : List (EmRuleRun D) :=
  xs.mapIdx fun r x =>
    match rules[r]? with
    | some rule => x.turn dbl rule r input
    | none => x

/-- The rules after a run of the dispatcher from boot. -/
def emRun (dbl : EmDouble D) (rules : List (EmRule D)) (inputs : List (EmInput D)) :
    List (EmRuleRun D) :=
  inputs.foldl (emTurn dbl rules) (rules.map fun _ => ⟨emRuleStateZero D, []⟩)

/-- One rule after a run of the dispatcher from boot. -/
def emRuleRun (dbl : EmDouble D) (rule : EmRule D) (r : ℕ) (inputs : List (EmInput D)) :
    EmRuleRun D :=
  inputs.foldl (EmRuleRun.turn dbl rule r) ⟨emRuleStateZero D, []⟩

theorem emTurn_getElem? (dbl : EmDouble D) (rules : List (EmRule D)) (xs : List (EmRuleRun D))
    (input : EmInput D) {r : ℕ} {rule : EmRule D} (hr : rules[r]? = some rule) :
    (emTurn dbl rules xs input)[r]? = xs[r]?.map fun x => x.turn dbl rule r input := by
  rw [emTurn, List.getElem?_mapIdx, hr]

theorem emRun_getElem? (dbl : EmDouble D) (rules : List (EmRule D)) (inputs : List (EmInput D))
    {r : ℕ} {rule : EmRule D} (hr : rules[r]? = some rule) :
    (emRun dbl rules inputs)[r]? = some (emRuleRun dbl rule r inputs) := by
  suffices hgen : ∀ (xs : List (EmRuleRun D)) (x : EmRuleRun D), xs[r]? = some x →
      (inputs.foldl (emTurn dbl rules) xs)[r]? =
        some (inputs.foldl (EmRuleRun.turn dbl rule r) x) by
    apply hgen
    rw [List.getElem?_map, hr]
    rfl
  induction inputs with
  | nil => exact fun xs x hx => hx
  | cons input inputs ih =>
    intro xs x hx
    apply ih
    rw [emTurn_getElem? dbl rules xs input hr, hx]
    rfl

theorem emRuleRun_append (dbl : EmDouble D) (rule : EmRule D) (r : ℕ) (inputs : List (EmInput D))
    (input : EmInput D) : emRuleRun dbl rule r (inputs ++ [input]) =
      (emRuleRun dbl rule r inputs).turn dbl rule r input := by
  rw [emRuleRun, foldl_append]
  rfl

/-! ## What a turn does -/

theorem emRuleWhenEx_active (dbl : EmDouble D) (rule : EmRule D) (ev : EmEvent D)
    (st : EmRuleState D) (resolver : EmResolver) :
    (emRuleWhenEx dbl rule ev st resolver).2.active = st.active := by
  rw [emRuleWhenEx]
  generalize true = b
  induction rule.whenAll.zipIdx generalizing st b with
  | nil => rfl
  | cons c cs ih =>
    rw [foldl_cons]
    split
    · exact ih st false
    · split
      · rw [ih]
      · rw [ih]

theorem emRuleCooldownOk_active (rule : EmRule D) (st : EmRuleState D) (nowUs : ℤ) :
    (emRuleCooldownOk rule st nowUs).2.active = st.active := by
  rw [emRuleCooldownOk]
  split <;> rfl

/-- The turns of a while-rule. -/
inductive EmTurned (x : EmRuleRun D) (x' : EmRuleRun D) : Prop
  | quiet (hlog : x'.log = x.log) (hactive : x'.st.active = x.st.active)
  | apply (ok : Bool) (hwas : x.st.active = false) (hlog : x'.log = x.log ++ [⟨false, ok⟩])
      (hactive : x'.st.active = ok)
  | undo (ok : Bool) (hwas : x.st.active = true) (hlog : x'.log = x.log ++ [⟨true, ok⟩])
      (hactive : x'.st.active = false)

section Turns

variable {dbl : EmDouble D} {rule : EmRule D} (hundo : rule.undo = true)

include hundo

theorem emRuleStep_cases (st : EmRuleState D) (holds : Bool) (ev : EmEvent D) :
    ((emRuleStep rule st holds ev).1 = .none ∧ (emRuleStep rule st holds ev).2.active = st.active) ∨
    ((emRuleStep rule st holds ev).1 = .run ∧ st.active = false ∧
      (emRuleStep rule st holds ev).2.active = false) ∨
    ((emRuleStep rule st holds ev).1 = .undo ∧ st.active = true ∧
      (emRuleStep rule st holds ev).2.active = false) := by
  rw [emRuleStep, hundo]
  cases holds with
  | true =>
    cases hactive : st.active with
    | true => exact .inl ⟨rfl, rfl⟩
    | false => exact .inr (.inl ⟨rfl, rfl, rfl⟩)
  | false =>
    cases hactive : st.active with
    | true => exact .inr (.inr ⟨rfl, rfl, rfl⟩)
    | false => exact .inl ⟨rfl, hactive⟩

theorem emRuleDecide_cases (st : EmRuleState D) (ev : EmEvent D) (nowUs : ℤ)
    (resolver : EmResolver) :
    ((emRuleDecide dbl rule st ev nowUs resolver).1 = .none ∧
      (emRuleDecide dbl rule st ev nowUs resolver).2.1.active = st.active) ∨
    ((emRuleDecide dbl rule st ev nowUs resolver).1 = .run ∧ st.active = false ∧
      (emRuleDecide dbl rule st ev nowUs resolver).2.1.active = false) ∨
    ((emRuleDecide dbl rule st ev nowUs resolver).1 = .undo ∧ st.active = true ∧
      (emRuleDecide dbl rule st ev nowUs resolver).2.1.active = false) := by
  rw [emRuleDecide]
  split
  · exact .inl ⟨rfl, rfl⟩
  · have hwhen := emRuleWhenEx_active dbl rule ev st resolver
    generalize emRuleWhenEx dbl rule ev st resolver = w at hwhen ⊢
    have hcases := emRuleStep_cases hundo w.2 w.1 ev
    dsimp only
    generalize emRuleStep rule w.2 w.1 ev = s at hcases ⊢
    rw [hwhen] at hcases
    rcases hcases with hnone | ⟨hs, hwas, hactive⟩ | hundone
    · have hne : s.1 ≠ .run := by rw [hnone.1]; exact EmStep.noConfusion
      rw [if_neg hne]
      exact .inl hnone
    · rw [if_pos hs]
      have hcool := emRuleCooldownOk_active rule s.2 nowUs
      generalize emRuleCooldownOk rule s.2 nowUs = c at hcool ⊢
      cases hc : c.1 with
      | false => exact .inl ⟨rfl, hcool.trans (hactive.trans hwas.symm)⟩
      | true => exact .inr (.inl ⟨rfl, hwas, hcool.trans hactive⟩)
    · have hne : s.1 ≠ .run := by rw [hundone.1]; exact EmStep.noConfusion
      rw [if_neg hne]
      exact .inr (.inr hundone)

theorem turned_dispatchRule (x : EmRuleRun D) (ev : EmEvent D) (nowUs : ℤ) (resolver : EmResolver)
    (ok : Bool) : EmTurned x (dispatchRule dbl rule x ev nowUs resolver ok) := by
  rw [dispatchRule]
  have hcases : ((emRuleDecide dbl rule x.st ev nowUs resolver).1 = .none ∧ _) ∨ _ :=
    emRuleDecide_cases hundo x.st ev nowUs resolver
  generalize emRuleDecide dbl rule x.st ev nowUs resolver = d at hcases ⊢
  obtain ⟨hd, hactive⟩ | ⟨hd, hwas, hactive⟩ | ⟨hd, hwas, hactive⟩ := hcases
  · rw [hd]
    exact .quiet rfl hactive
  · rw [hd]
    refine .apply ok hwas rfl ?_
    cases ok with
    | true => exact hundo
    | false => exact hactive
  · rw [hd]
    exact .undo ok hwas rfl hactive

omit hundo in
theorem turned_recheckRule (x : EmRuleRun D) (resolver : EmResolver) (ok : Bool) :
    EmTurned x (recheckRule dbl rule x resolver ok) := by
  rw [recheckRule, emRuleRecheck]
  split
  · exact .quiet rfl rfl
  · rename_i hdue
    have hwas : x.st.active = true := by
      cases hactive : x.st.active with
      | true => rfl
      | false =>
        refine absurd ?_ hdue
        rw [hactive]
        simp
    exact .undo ok hwas rfl rfl

/-- **A turn** leaves a while-rule, applies it when it is not active, or undoes
it when it is, which clears the flag. -/
theorem turned (r : ℕ) (x : EmRuleRun D) (input : EmInput D) :
    EmTurned x (x.turn dbl rule r input) := by
  cases input with
  | event ev nowUs resolver ok => exact turned_dispatchRule hundo x ev nowUs (resolver r) (ok r)
  | recheck resolver ok => exact turned_recheckRule x (resolver r) (ok r)

end Turns

/-! ## What a while-rule should keep -/

/-- The successful runs of a rule; `true` is an undo. -/
def EmRuleRun.successes (x : EmRuleRun D) : List Bool :=
  (x.log.filter EmAttempt.ok).map EmAttempt.undo

/-- Applies and undos in turn, an apply first. -/
def Alternates (runs : List Bool) : Prop := ∀ i b, runs[i]? = some b → b = decide (i % 2 = 1)

/-- A turn at which the conditions of a rule do not hold. -/
def EmNotHolds (dbl : EmDouble D) (rule : EmRule D) (r : ℕ) (st : EmRuleState D) :
    EmInput D → Prop
  | .event ev _ resolver _ =>
    emRuleListens dbl rule ev = true ∧ (emRuleWhenEx dbl rule ev st (resolver r)).1 = false
  | .recheck resolver _ =>
    rule.enabled = true ∧ emRuleHasLive rule = true ∧
      emRuleLiveHolds dbl rule st (resolver r) = false

/-- What a while-rule keeps in a run: after every turn its successful runs
alternate and the flag says that the last one was an apply; and after an undo
that failed, and turns that ran nothing, a turn at which the conditions do not
hold tries to undo again. -/
structure WhileKept (dbl : EmDouble D) (rule : EmRule D) (r : ℕ) (inputs : List (EmInput D)) :
    Prop where
  alternates : ∀ pre, pre <+: inputs → Alternates (emRuleRun dbl rule r pre).successes
  flag : ∀ pre, pre <+: inputs → ((emRuleRun dbl rule r pre).st.active = true ↔
    (emRuleRun dbl rule r pre).successes.getLast? = some false)
  retried : ∀ pre input mid next, pre ++ [input] ++ mid ++ [next] <+: inputs →
    (emRuleRun dbl rule r (pre ++ [input])).log =
      (emRuleRun dbl rule r pre).log ++ [⟨true, false⟩] →
    (emRuleRun dbl rule r (pre ++ [input] ++ mid)).log =
      (emRuleRun dbl rule r (pre ++ [input])).log →
    EmNotHolds dbl rule r (emRuleRun dbl rule r (pre ++ [input] ++ mid)).st next →
    ∃ ok, (emRuleRun dbl rule r (pre ++ [input] ++ mid ++ [next])).log =
      (emRuleRun dbl rule r (pre ++ [input] ++ mid)).log ++ [⟨true, ok⟩]

/-- No undo of a rule fails. -/
def EmRuleRun.UndosOk (x : EmRuleRun D) : Prop := ∀ a ∈ x.log, a.undo = true → a.ok = true

/-! ## Runs -/

/-- The flag and the parity of the successful runs. -/
structure WhileInv (x : EmRuleRun D) : Prop where
  alternates : Alternates x.successes
  flag : x.st.active = decide (x.successes.length % 2 = 1)

theorem successes_append_ok {x x' : EmRuleRun D} (h : x'.log = x.log ++ [⟨undo, true⟩]) :
    x'.successes = x.successes ++ [undo] := by
  rw [EmRuleRun.successes, h, filter_append, map_append]
  rfl

theorem successes_append_failed {x x' : EmRuleRun D} (h : x'.log = x.log ++ [⟨undo, false⟩]) :
    x'.successes = x.successes := by
  rw [EmRuleRun.successes, h, filter_append, map_append]
  exact append_nil _

theorem Alternates.append {runs : List Bool} {b : Bool} (h : Alternates runs)
    (hb : b = decide (runs.length % 2 = 1)) : Alternates (runs ++ [b]) := by
  intro i c hc
  rcases Nat.lt_trichotomy i runs.length with hlt | rfl | hgt
  · rw [List.getElem?_append_left hlt] at hc
    exact h i c hc
  · rw [List.getElem?_concat_length] at hc
    rw [← Option.some.inj hc]
    exact hb
  · rw [List.getElem?_eq_none (by rw [length_append, length_singleton]; omega)] at hc
    cases hc

theorem WhileInv.turned {x x' : EmRuleRun D} (h : WhileInv x) (hturn : EmTurned x x')
    (hok : x'.UndosOk) : WhileInv x' := by
  cases hturn with
  | quiet hlog hactive =>
    have hsame : x'.successes = x.successes := by rw [EmRuleRun.successes, hlog]; rfl
    exact ⟨by rw [hsame]; exact h.alternates, by rw [hsame, hactive]; exact h.flag⟩
  | apply ok hwas hlog hactive =>
    have heven : decide (x.successes.length % 2 = 1) = false := h.flag.symm.trans hwas
    cases ok with
    | true =>
      have hsucc := successes_append_ok hlog
      refine ⟨by rw [hsucc]; exact h.alternates.append heven.symm, ?_⟩
      rw [hsucc, hactive, length_append, length_singleton]
      have hne := of_decide_eq_false heven
      exact (decide_eq_true (by omega)).symm
    | false =>
      have hsucc := successes_append_failed hlog
      exact ⟨by rw [hsucc]; exact h.alternates, by rw [hsucc, hactive]; exact heven.symm⟩
  | undo ok hwas hlog hactive =>
    have hodd : decide (x.successes.length % 2 = 1) = true := h.flag.symm.trans hwas
    have htrue : ok = true :=
      hok ⟨true, ok⟩ (by rw [hlog]; exact mem_append_right _ (mem_singleton_self _)) rfl
    subst htrue
    have hsucc := successes_append_ok hlog
    refine ⟨by rw [hsucc]; exact h.alternates.append hodd.symm, ?_⟩
    rw [hsucc, hactive, length_append, length_singleton]
    have heq := of_decide_eq_true hodd
    exact (decide_eq_false (by omega)).symm

theorem EmTurned.log_grows {x x' : EmRuleRun D} (h : EmTurned x x') : x.log <+: x'.log := by
  cases h with
  | quiet hlog _ =>
    exact hlog ▸ prefix_rfl
  | apply ok _ hlog _ => exact ⟨_, hlog.symm⟩
  | undo ok _ hlog _ => exact ⟨_, hlog.symm⟩

theorem WhileInv.active_iff {x : EmRuleRun D} (h : WhileInv x) :
    x.st.active = true ↔ x.successes.getLast? = some false := by
  rw [h.flag, decide_eq_true_iff, List.getLast?_eq_getElem?]
  constructor
  · intro hodd
    have hlt : x.successes.length - 1 < x.successes.length := by omega
    rw [List.getElem?_eq_getElem hlt, Option.some.injEq,
      h.alternates _ _ (List.getElem?_eq_getElem hlt)]
    exact decide_eq_false (by omega)
  · intro hlast
    have hparity := of_decide_eq_false (h.alternates _ _ hlast).symm
    have hpos : x.successes.length - 1 < x.successes.length := (List.getElem?_eq_some_iff.mp hlast).1
    omega

section Runs

variable {dbl : EmDouble D} {rule : EmRule D} {r : ℕ}

theorem whileInv_run (hundo : rule.undo = true) : ∀ inputs : List (EmInput D),
    (emRuleRun dbl rule r inputs).UndosOk → WhileInv (emRuleRun dbl rule r inputs) := by
  intro inputs
  induction inputs using List.reverseRecOn with
  | nil =>
    intro _
    refine ⟨?_, rfl⟩
    intro i b hb
    cases hb
  | append_singleton inputs input ih =>
    rw [emRuleRun_append]
    intro hok
    have hturn : EmTurned _ ((emRuleRun dbl rule r inputs).turn dbl rule r input) :=
      turned hundo r _ input
    refine (ih ?_).turned hturn hok
    intro a ha
    exact hok a (hturn.log_grows.subset ha)

theorem log_grows_run (hundo : rule.undo = true) {pre inputs : List (EmInput D)}
    (h : pre <+: inputs) :
    (emRuleRun dbl rule r pre).log <+: (emRuleRun dbl rule r inputs).log := by
  obtain ⟨rest, rfl⟩ := h
  induction rest using List.reverseRecOn with
  | nil =>
    exact (append_nil pre).symm ▸ prefix_rfl
  | append_singleton rest input ih =>
    rw [← append_assoc, emRuleRun_append]
    exact ih.trans (turned hundo r _ input).log_grows

theorem undosOk_of_whileKept (hundo : rule.undo = true) : ∀ inputs : List (EmInput D),
    WhileKept dbl rule r inputs → (emRuleRun dbl rule r inputs).UndosOk := by
  intro inputs
  induction inputs using List.reverseRecOn with
  | nil =>
    intro _ a ha
    cases ha
  | append_singleton inputs input ih =>
    intro hkept
    have hpre : inputs <+: inputs ++ [input] := prefix_append _ _
    have hbefore : WhileKept dbl rule r inputs := by
      refine ⟨?_, ?_, ?_⟩
      · exact fun pre h => hkept.alternates pre (h.trans hpre)
      · exact fun pre h => hkept.flag pre (h.trans hpre)
      · exact fun pre i mid next h => hkept.retried pre i mid next (h.trans hpre)
    have hflag := hkept.flag inputs hpre
    have hflag' := hkept.flag (inputs ++ [input]) prefix_rfl
    have hturn : EmTurned _ ((emRuleRun dbl rule r inputs).turn dbl rule r input) :=
      turned hundo r _ input
    rw [emRuleRun_append] at hflag' ⊢
    intro a ha haundo
    cases hturn with
    | quiet hlog hactive =>
      rw [hlog] at ha
      exact ih hbefore a ha haundo
    | apply ok hwas hlog hactive =>
      rw [hlog] at ha
      rcases mem_append.mp ha with hold | hnew
      · exact ih hbefore a hold haundo
      · rw [mem_singleton.mp hnew] at haundo
        cases haundo
    | undo ok hwas hlog hactive =>
      rw [hlog] at ha
      rcases mem_append.mp ha with hold | hnew
      · exact ih hbefore a hold haundo
      · rw [mem_singleton.mp hnew]
        cases ok with
        | true => rfl
        | false =>
          rw [successes_append_failed hlog, hactive] at hflag'
          exact absurd (hflag'.mpr (hflag.mp hwas)) Bool.false_ne_true

end Runs

/-- **While-rules.** In every run of the dispatcher a while-rule keeps its
discipline (its successful runs alternate, the flag says which was last, and an
undo that failed is tried again) exactly when none of its undos fails. -/
theorem while_rule_kept (dbl : EmDouble D) {rules : List (EmRule D)} {r : ℕ} {rule : EmRule D}
    (hr : rules[r]? = some rule) (hundo : rule.undo = true) (inputs : List (EmInput D)) :
    (∀ pre, (emRun dbl rules pre)[r]? = some (emRuleRun dbl rule r pre)) ∧
    (WhileKept dbl rule r inputs ↔ (emRuleRun dbl rule r inputs).UndosOk) := by
  refine ⟨fun pre => emRun_getElem? dbl rules pre hr, undosOk_of_whileKept hundo inputs, ?_⟩
  intro hok
  have hinv : ∀ pre, pre <+: inputs → WhileInv (emRuleRun dbl rule r pre) := by
    intro pre hpre
    apply whileInv_run hundo
    intro a ha
    exact hok a ((log_grows_run hundo hpre).subset ha)
  constructor
  · exact fun pre hpre => (hinv pre hpre).alternates
  · exact fun pre hpre => (hinv pre hpre).active_iff
  · -- no undo fails
    intro pre input mid next hpre hfailed hmid hnot
    have hpre' : pre ++ [input] <+: inputs := by
      rw [append_assoc] at hpre
      exact (prefix_append _ _).trans hpre
    have hmem : (⟨true, false⟩ : EmAttempt) ∈ (emRuleRun dbl rule r inputs).log := by
      apply (log_grows_run hundo hpre').subset
      rw [hfailed]
      exact mem_append_right _ (mem_singleton_self _)
    exact absurd (hok _ hmem rfl) Bool.false_ne_true

/-! ## One rule -/

/-- Doubles that are integers. -/
def sampleDouble : EmDouble ℤ where
  ofI64 i := i.toInt
  eq a b := decide (a = b)
  lt a b := decide (a < b)
  le a b := decide (a ≤ b)
  strtod _ := none
  fmtG _ := []

/-- While the ignition is on, a group of parameters is read. -/
def ignitionRule : EmRule ℤ where
  name := "ignition".toList
  enabled := true
  on := "autopid.param".toList
  matchOn := []
  whenAll := [⟨"value".toList, .eq, ⟨[], true, 1, []⟩, []⟩]
  action := "autopid.group".toList
  withJson := []
  cooldownMs := 0
  undo := true

/-- The ignition is reported, and the run that this brings about ends so. -/
def ignition (on : ℤ) (ok : Bool) : EmInput ℤ :=
  .event ⟨"autopid".toList, "param".toList, 0, [⟨"value".toList, .f64 on⟩]⟩ 1
    (fun _ _ _ => none) (fun _ => ok)

theorem while_rule_kept_ignition :
    (emRuleRun sampleDouble ignitionRule 0
      [ignition 1 true, ignition 0 true, ignition 1 true]).successes = [false, true, false] ∧
    WhileKept sampleDouble ignitionRule 0 [ignition 1 true, ignition 0 true, ignition 1 true] := by
  have hr : [ignitionRule][0]? = some ignitionRule := rfl
  refine ⟨by decide, ?_⟩
  exact (while_rule_kept sampleDouble hr rfl _).2.mpr (by unfold EmRuleRun.UndosOk; decide)

/-- The undo fails once: the flag is cleared though the apply is in effect, the
next report that the ignition is off tries nothing, and the next that it is on
applies a second time. -/
theorem while_rule_lost :
    (emRuleRun sampleDouble ignitionRule 0 [ignition 1 true, ignition 0 false]).st.active = false ∧
    (emRuleRun sampleDouble ignitionRule 0 [ignition 1 true, ignition 0 false]).successes =
      [false] ∧
    (emRuleRun sampleDouble ignitionRule 0
      [ignition 1 true, ignition 0 false, ignition 0 true]).log = [⟨false, true⟩, ⟨true, false⟩] ∧
    (emRuleRun sampleDouble ignitionRule 0
      [ignition 1 true, ignition 0 false, ignition 0 true, ignition 1 true]).successes =
        [false, false] ∧
    ¬ WhileKept sampleDouble ignitionRule 0
      [ignition 1 true, ignition 0 false, ignition 0 true, ignition 1 true] := by
  refine ⟨by decide, by decide, by decide, by decide, ?_⟩
  intro hkept
  have halt := hkept.alternates _ prefix_rfl 1 false (by decide)
  exact absurd halt (by decide)

end Meatpi
