import Mathlib.Data.List.Basic
import Mathlib.Logic.Relation

/-!
# The flash worker (`flash_jobs.c`, `flash_jobs_core.c`)

A task whose stack is in PSRAM publishes its flash work for a worker and waits. Callers
take turns (`s_lock`); a worker is created when none is alive, and leaves when nothing
came for an idle period. A step is one atomic section of a caller or of a worker, in any
order, with the semaphores `s_wake` and `s_done` between them; an idle period may be over
at any time. The counters are left out.
-/

namespace Meatpi

open List Relation

/-! ## The core -/

/-- `fj_state_t` -/
structure FjState where
  workerAlive : Bool
  jobPending : Bool

inductive FjWorkerStep where
  | run
  | wait
  | exit

/-- `fj_publish`: whether a worker must be created first. -/
def fjPublish (st : FjState) : Bool × FjState := (!st.workerAlive, { st with jobPending := true })

def fjSpawned (st : FjState) (ok : Bool) : FjState :=
  if ok then { st with workerAlive := true } else { st with jobPending := false }

def fjWorkerWake (st : FjState) (signalled : Bool) : FjWorkerStep × FjState :=
  if st.jobPending then (.run, { st with jobPending := false })
  else if signalled then (.wait, st)
  else (.exit, { st with workerAlive := false })

/-! ## The callers and the workers -/

/-- Where the caller that has `s_lock` is in `flash_jobs_run`. -/
inductive FjPhase where
  /-- nobody has it -/
  | free
  | locked
  /-- before and after `xTaskCreate` -/
  | creates
  | created (ok : Bool)
  /-- before `s_wake` is given -/
  | ready
  /-- for `s_done` -/
  | waits

/-- Where a worker is in its loop. -/
inductive FjWorker (J : Type) where
  /-- on `s_wake` -/
  | idle
  | woken (signalled : Bool)
  | runs (fn : Option J)

structure FjSys (J E : Type) where
  st : FjState
  phase : FjPhase
  /-- `s_fn` and `s_arg` -/
  fn : Option J
  /-- `s_err`, nothing is `ESP_FAIL` -/
  err : Option E
  wake : Bool
  done : Bool
  workers : List (FjWorker J)
  /-- the jobs that were run, with their results -/
  ran : List (Option J × Option E)
  /-- the calls that returned, with what they returned -/
  returned : List (Option J × Option E)

variable {J E : Type}

def FjSys.init : FjSys J E :=
  ⟨⟨false, false⟩, .free, none, none, false, false, [], [], []⟩

inductive FjStep (s : FjSys J E) : FjSys J E → Prop
  | call (j : J) : s.phase = .free →
      FjStep s { s with phase := .locked, fn := some j, err := none }
  | publish : s.phase = .locked →
      FjStep s { s with
        st := (fjPublish s.st).2
        phase := if (fjPublish s.st).1 then .creates else .ready }
  | create (ok : Bool) : s.phase = .creates →
      FjStep s { s with
        phase := .created ok
        workers := if ok then .idle :: s.workers else s.workers }
  -- the outcome is recorded; without a worker the call is refused
  | record (ok : Bool) : s.phase = .created ok →
      FjStep s { s with st := fjSpawned s.st ok, phase := if ok then .ready else .free }
  | give : s.phase = .ready → FjStep s { s with wake := true, phase := .waits }
  | ret : s.phase = .waits → s.done = true →
      FjStep s { s with phase := .free, done := false, returned := s.returned ++ [(s.fn, s.err)] }
  -- a worker's wait ends, by the signal or by the idle period
  | wake {ws ws' : List (FjWorker J)} : s.workers = ws ++ .idle :: ws' →
      FjStep s { s with wake := false, workers := ws ++ .woken s.wake :: ws' }
  | look {ws ws' : List (FjWorker J)} (signalled : Bool) : s.workers = ws ++ .woken signalled :: ws' →
      FjStep s { s with
        st := (fjWorkerWake s.st signalled).2
        workers := match (fjWorkerWake s.st signalled).1 with
          | .run => ws ++ .runs s.fn :: ws'
          | .wait => ws ++ .idle :: ws'
          | .exit => ws ++ ws' }
  | finish {ws ws' : List (FjWorker J)} (fn : Option J) (e : E) :
      s.workers = ws ++ .runs fn :: ws' →
      FjStep s { s with
        err := some e
        done := true
        workers := ws ++ .idle :: ws'
        ran := s.ran ++ [(fn, some e)] }

/-! ## What every interleaving keeps -/

variable {s s' : FjSys J E}

/-- No worker is in a job. -/
def FjQuiet (ws : List (FjWorker J)) : Prop := ∀ fn, .runs fn ∉ ws

/-- Nothing is published. -/
def FjSys.Calm (s : FjSys J E) : Prop :=
  s.st.jobPending = false ∧ s.done = false ∧ FjQuiet s.workers ∧ s.ran = s.returned

/-- The published job waits for a worker, is in one, or is done. -/
def FjSys.Served (s : FjSys J E) : Prop :=
  s.st.jobPending = true ∧ s.done = false ∧ FjQuiet s.workers ∧ s.ran = s.returned ∨
  s.st.jobPending = false ∧ s.done = false ∧ s.workers = [.runs s.fn] ∧ s.ran = s.returned ∨
  s.st.jobPending = false ∧ s.done = true ∧ FjQuiet s.workers ∧
    s.ran = s.returned ++ [(s.fn, s.err)]

structure FjSys.Inv (s : FjSys J E) : Prop where
  one : s.workers.length ≤ 1
  alive : s.phase ≠ .created true → s.st.workerAlive = false → s.workers = []
  turn : match s.phase with
    | .free | .locked => s.Calm
    | .creates | .created false =>
      s.st.jobPending = true ∧ s.done = false ∧ s.workers = [] ∧ s.ran = s.returned
    | _ => s.Served

theorem FjSys.Inv.init : (FjSys.init : FjSys J E).Inv :=
  ⟨Nat.zero_le _, fun _ _ => rfl, rfl, rfl, fun _ => not_mem_nil, rfl⟩

theorem FjSys.Inv.single (h : s.Inv) {w : FjWorker J} {ws ws' : List (FjWorker J)}
    (hw : s.workers = ws ++ w :: ws') : ws = [] ∧ ws' = [] ∧ s.workers = [w] := by
  have hone := h.one
  rw [hw, length_append, length_cons] at hone
  have hws : ws = [] := length_eq_zero_iff.1 (by omega)
  have hws' : ws' = [] := length_eq_zero_iff.1 (by omega)
  exact ⟨hws, hws', by rw [hw, hws, hws', nil_append]⟩

theorem FjSys.Inv.step (h : s.Inv) (hstep : FjStep s s') : s'.Inv := by
  have hsingle := @h.single
  obtain ⟨hone, halive, hturn⟩ := h
  cases hstep with
  | call j hphase => constructor <;> grind [Calm, Served]
  | publish hphase => constructor <;> grind [Calm, Served, fjPublish]
  | create ok hphase => constructor <;> grind [Calm, Served, FjQuiet]
  | record ok hphase => constructor <;> grind [Calm, Served, fjSpawned, FjQuiet]
  | give hphase => constructor <;> grind [Calm, Served]
  | ret hphase hdone => constructor <;> grind [Calm, Served]
  -- the worker that moves is the only one
  | wake hw =>
    obtain ⟨rfl, rfl, hone⟩ := hsingle hw
    constructor <;> grind [Calm, Served, FjQuiet]
  | look signalled hw =>
    obtain ⟨rfl, rfl, hone⟩ := hsingle hw
    cases hpend : s.st.jobPending <;> cases signalled <;>
      constructor <;> grind [Calm, Served, FjQuiet, fjWorkerWake]
  | finish fn e hw =>
    obtain ⟨rfl, rfl, hone⟩ := hsingle hw
    constructor <;> grind [Calm, Served, FjQuiet]

theorem FjSys.Inv.run (h : ReflTransGen FjStep .init s) : s.Inv := by
  induction h with
  | refl => exact .init
  | tail _ hstep ih => exact ih.step hstep

/-- **The books of the flash worker**, in any interleaving: at most one worker is in its
loop, and the jobs that were run, with their results, are those of the calls that
returned, and at most the current call's. -/
theorem flashJobs_books (h : ReflTransGen FjStep .init s) : s.workers.length ≤ 1 ∧
    (s.ran = s.returned ∨ s.ran = s.returned ++ [(s.fn, s.err)]) := by
  have hinv := FjSys.Inv.run h
  refine ⟨hinv.one, ?_⟩
  have hturn := hinv.turn
  grind [FjSys.Calm, FjSys.Served]

theorem run_seven : ReflTransGen FjStep .init
    (⟨⟨true, false⟩, .free, some 7, some 0, false, false, [.idle], [(some 7, some 0)],
      [(some 7, some 0)]⟩ : FjSys ℕ ℕ) :=
  .tail (.tail (.tail (.tail (.tail (.tail (.tail (.tail (.tail .refl (.call 7 rfl))
    (.publish rfl)) (.create true rfl)) (.record true rfl)) (.give rfl))
    (@FjStep.wake _ _ _ [] [] rfl)) (@FjStep.look _ _ _ [] [] true rfl))
    (@FjStep.finish _ _ _ [] [] (some 7) 0 rfl)) (.ret rfl rfl)

/-- The same worker has run a second job, whose call has not returned. -/
theorem flashJobs_books_ran :
    let s : FjSys ℕ ℕ := ⟨⟨true, false⟩, .waits, some 8, some 1, false, true, [.idle],
      [(some 7, some 0), (some 8, some 1)], [(some 7, some 0)]⟩
    s.workers.length ≤ 1 ∧ (s.ran = s.returned ∨ s.ran = s.returned ++ [(s.fn, s.err)]) :=
  flashJobs_books (.tail (.tail (.tail (.tail (.tail (.tail run_seven (.call 8 rfl))
    (.publish rfl)) (.give rfl)) (@FjStep.wake _ _ _ [] [] rfl))
    (@FjStep.look _ _ _ [] [] true rfl)) (@FjStep.finish _ _ _ [] [] (some 8) 1 rfl))

/-! ## Nobody waits for a worker that left -/

/-- A step where a new worker does not leave before its creation is recorded, which takes
its creator to be held up for an idle period. -/
def FjTimely (s s' : FjSys J E) : Prop :=
  FjStep s s' ∧ (s.phase = .created true → s'.workers ≠ [])

structure FjSys.Staffed (s : FjSys J E) : Prop where
  alive : s.st.workerAlive = true → s.workers ≠ []
  created : s.phase = .created true → s.workers ≠ []
  pending : s.phase = .ready ∨ s.phase = .waits → s.st.jobPending = true →
    s.st.workerAlive = true

theorem FjSys.Staffed.step (hinv : s.Inv) (h : s.Staffed) (hstep : FjTimely s s') :
    s'.Staffed := by
  have hsingle := @hinv.single
  obtain ⟨halive, hcreated, hpending⟩ := h
  obtain ⟨hstep, htimely⟩ := hstep
  cases hstep with
  | call j hphase => constructor <;> grind
  | publish hphase => constructor <;> grind [fjPublish]
  | create ok hphase => constructor <;> grind
  | record ok hphase => constructor <;> grind [fjSpawned]
  | give hphase => constructor <;> grind
  | ret hphase hdone => constructor <;> grind
  | wake hw => constructor <;> grind
  | look signalled hw =>
    obtain ⟨rfl, rfl, hone⟩ := hsingle hw
    constructor <;> grind [fjWorkerWake]
  | finish fn e hw => constructor <;> grind

theorem FjSys.Staffed.run (h : ReflTransGen FjTimely .init s) : s.Inv ∧ s.Staffed := by
  induction h with
  | refl => exact ⟨.init, by constructor <;> simp [FjSys.init]⟩
  | tail _ hstep ih => exact ⟨ih.1.step hstep.1, ih.2.step ih.1 hstep⟩

/-- **A caller that waits** finds its job done, in the worker, or waiting for a worker
that is there. -/
theorem flashJobs_staffed (h : ReflTransGen FjTimely .init s) (hwaits : s.phase = .waits) :
    s.done = true ∨ ∃ w, s.workers = [w] ∧ (w = .runs s.fn ∨ s.st.jobPending = true) := by
  obtain ⟨hinv, hstaffed⟩ := FjSys.Staffed.run h
  have hturn := hinv.turn
  rw [hwaits] at hturn
  obtain ⟨hpending, -⟩ | ⟨-, -, hrun, -⟩ | ⟨-, hdone, -⟩ := hturn
  · have hne := hstaffed.alive (hstaffed.pending (.inr hwaits) hpending)
    obtain ⟨w, ws, hw⟩ := exists_cons_of_ne_nil hne
    have hone : s.workers = [] ++ w :: ws := hw
    exact .inr ⟨w, (hinv.single hone).2.2, .inr hpending⟩
  · exact .inr ⟨_, hrun, .inl rfl⟩
  · exact .inl hdone

theorem flashJobs_staffed_given :
    let s : FjSys ℕ ℕ := ⟨⟨true, true⟩, .waits, some 7, none, true, false, [.idle], [], []⟩
    s.done = true ∨ ∃ w, s.workers = [w] ∧ (w = .runs s.fn ∨ s.st.jobPending = true) :=
  flashJobs_staffed (.tail (.tail (.tail (.tail (.tail .refl
    ⟨.call 7 rfl, nofun⟩) ⟨.publish rfl, nofun⟩) ⟨.create true rfl, nofun⟩)
    ⟨.record true rfl, fun _ => cons_ne_nil _ _⟩) ⟨.give rfl, nofun⟩) rfl

end Meatpi
