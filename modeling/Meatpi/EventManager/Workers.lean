import Mathlib.Data.List.Pairwise
import Mathlib.Data.List.Perm.Subperm
import Meatpi.Library.Accounted
import Meatpi.Library.Run

/-!
# Blocking actions (`enqueue_job`, `worker_task`)

A blocking action becomes a job. The dispatcher puts it into a queue of eight
and never waits: when the queue is full the oldest job goes. Two workers take
jobs from the queue and run them. A rule's flag follows the queueing of its
job, not its run. The dispatcher's three calls on the queue are steps of their
own, so that the workers may come in between.
-/

namespace Meatpi

open Function List Option

variable {rule : ℕ}

def emJobQueue : ℕ := 8
def emWorkers : ℕ := 2

/-- `em_job_t`: the rule, apply or undo, and which decision it was. -/
structure EmJob where
  seq : ℕ
  rule : ℕ
  undo : Bool
  deriving DecidableEq

/-- Where the dispatcher is in `enqueue_job`. -/
inductive EmSender where
  | idle
  /-- before the first `xQueueSend` -/
  | sending (job : EmJob)
  /-- the queue was full -/
  | refused (job : EmJob)
  /-- the oldest job was taken out, before the second `xQueueSend` -/
  | resending (job : EmJob)
  deriving DecidableEq

/-- The job in the dispatcher's hands. -/
def EmSender.job : EmSender → List EmJob
  | .idle => []
  | .sending job => [job]
  | .refused job => [job]
  | .resending job => [job]

/-- The queue, the workers with the job each holds, and the flags of the rules;
and what happened so far: the jobs decided, dropped, taken and run, in order,
and the rules of which both workers held a job at once. -/
structure EmPool where
  queue : List EmJob
  worker : Fin emWorkers → Option EmJob
  sender : EmSender
  active : ℕ → Bool
  decided : List EmJob
  dropped : List EmJob
  taken : List EmJob
  ran : List EmJob
  overlapped : List ℕ

/-- The pool at boot. -/
def emPoolBoot : EmPool where
  queue := []
  worker := fun _ => none
  sender := .idle
  active := fun _ => false
  decided := []
  dropped := []
  taken := []
  ran := []
  overlapped := []

/-- What a task does next. -/
inductive EmPoolLabel where
  /-- a rule's step is to run its action, or to undo it -/
  | decide (rule : ℕ) (undo : Bool)
  /-- the first `xQueueSend` -/
  | send
  /-- `xQueueReceive` of the victim -/
  | evict
  /-- the second `xQueueSend` -/
  | resend
  /-- a worker's `xQueueReceive` -/
  | take (w : Fin emWorkers)
  /-- a worker runs its job -/
  | run (w : Fin emWorkers)

namespace EmPool

/-- A job was queued: after an apply, `em_rule_applied`. -/
def queued (isWhile : ℕ → Bool) (s : EmPool) (job : EmJob) : EmPool :=
  { s with
    queue := s.queue ++ [job]
    sender := .idle
    active :=
      if job.undo then s.active else update s.active job.rule (isWhile job.rule) }

/-- Another worker holds a job of the rule. -/
def othersHold (s : EmPool) (w : Fin emWorkers) (rule : ℕ) : Bool :=
  (List.finRange emWorkers).any fun v =>
    decide (v ≠ w) && ((s.worker v).map EmJob.rule == some rule)

/-- The step of a task, when it can take one. A while-rule applies when it is
not active and undoes when it is, which clears its flag; another rule only
applies. -/
def next (isWhile : ℕ → Bool) (s : EmPool) : EmPoolLabel → Option EmPool
  | .decide rule undo =>
    if s.sender = .idle ∧ (if isWhile rule then s.active rule = undo else undo = false) then
      let job : EmJob := ⟨s.decided.length, rule, undo⟩
      some
        { s with
          decided := s.decided ++ [job]
          sender := .sending job
          active := if undo then update s.active rule false else s.active }
    else
      none
  | .send =>
    match s.sender with
    | .sending job =>
      if s.queue.length < emJobQueue then
        some (s.queued isWhile job)
      else
        some { s with sender := .refused job }
    | _ => none
  | .evict =>
    match s.sender with
    | .refused job =>
      match s.queue with
      | [] => some { s with sender := .resending job }
      | victim :: rest =>
        some { s with queue := rest, dropped := s.dropped ++ [victim], sender := .resending job }
    | _ => none
  | .resend =>
    match s.sender with
    | .resending job =>
      if s.queue.length < emJobQueue then
        some (s.queued isWhile job)
      else
        some { s with dropped := s.dropped ++ [job], sender := .idle }
    | _ => none
  | .take w =>
    match s.worker w, s.queue with
    | none, job :: rest =>
      some
        { s with
          queue := rest
          worker := update s.worker w (some job)
          taken := s.taken ++ [job]
          overlapped := if s.othersHold w job.rule then s.overlapped ++ [job.rule] else s.overlapped }
    | _, _ => none
  | .run w =>
    match s.worker w with
    | some job =>
      some { s with worker := update s.worker w none, ran := s.ran ++ [job] }
    | none => none

end EmPool

/-- A step of one of the tasks. -/
def EmPoolStep (isWhile : ℕ → Bool) (s : EmPool) (l : EmPoolLabel) (s' : EmPool) : Prop :=
  s.next isWhile l = some s'

/-! ## The invariant -/

/-- The jobs of a rule. -/
def ofRule (r : ℕ) (job : EmJob) : Bool := job.rule == r

/-- What holds between two steps. -/
structure PoolInv (isWhile : ℕ → Bool) (s : EmPool) : Prop where
  /-- every job decided is taken, waiting or dropped, in the order of the decisions -/
  accounted : Accounted s.decided s.dropped (s.taken ++ (s.queue ++ s.sender.job))
  seqs : ∀ k (j : EmJob), s.decided[k]? = some j → j.seq = k
  /-- a job that was taken was run, or a worker holds it -/
  hands : ∀ j, j ∈ s.taken ↔ j ∈ s.ran ∨ ∃ w, s.worker w = some j
  /-- the job in the dispatcher's hands is the last one decided -/
  last : ∀ j : EmJob, j ∈ s.sender.job → ∀ j' ∈ s.decided, j'.seq ≤ j.seq
  /-- a rule that is active is a while-rule whose last job is an apply that was queued -/
  flags : ∀ r, s.active r = true → isWhile r = true ∧ ∃ j ∈ s.decided, j.rule = r ∧
    j.undo = false ∧ j ∉ s.sender.job ∧ ∀ j' ∈ s.decided, j'.rule = r → j'.seq ≤ j.seq
  /-- the jobs of a rule are run as they were taken, when no two of them are held at once -/
  order : ∀ r, r ∉ s.overlapped →
    (s.taken.filter (ofRule r) = s.ran.filter (ofRule r) ∧
      ∀ w j, s.worker w = some j → j.rule ≠ r) ∨
    ∃ w j, s.worker w = some j ∧ j.rule = r ∧
      (∀ v j', s.worker v = some j' → j'.rule = r → v = w) ∧
      s.taken.filter (ofRule r) = s.ran.filter (ofRule r) ++ [j]

section Invariant

variable {isWhile : ℕ → Bool} {s s' : EmPool}

theorem poolInv_boot (isWhile : ℕ → Bool) : PoolInv isWhile emPoolBoot where
  accounted := .nil
  seqs := by intro k j h; cases h
  hands := by
    intro j
    constructor
    · intro h; cases h
    · rintro (h | ⟨w, h⟩) <;> cases h
  last := by intro j h; cases h
  flags := by intro r h; cases h
  order := by
    intro r _
    exact .inl ⟨rfl, by intro w j h; cases h⟩

theorem PoolInv.seq_lt (h : PoolInv isWhile s) {j : EmJob} (hj : j ∈ s.decided) :
    j.seq < s.decided.length := by
  obtain ⟨k, hk⟩ := mem_iff_getElem?.mp hj
  rw [h.seqs k j hk]
  exact (List.getElem?_eq_some_iff.mp hk).1

theorem PoolInv.pairwise (h : PoolInv isWhile s) :
    (s.taken ++ (s.queue ++ s.sender.job)).Pairwise fun j j' => j.seq < j'.seq := by
  refine List.Pairwise.sublist h.accounted.sublist ?_
  rw [pairwise_iff_getElem]
  intro k l hk hl hkl
  rw [h.seqs k _ (List.getElem?_eq_getElem hk), h.seqs l _ (List.getElem?_eq_getElem hl)]
  exact hkl

theorem PoolInv.decide (h : PoolInv isWhile s) {undo : Bool}
    (hstep : s.next isWhile (.decide rule undo) = some s') : PoolInv isWhile s' := by
  rw [EmPool.next] at hstep
  by_cases hguard : s.sender = .idle ∧ (if isWhile rule then s.active rule = undo else undo = false)
  · rw [if_pos hguard] at hstep
    obtain ⟨hidle, hflag⟩ := hguard
    obtain rfl := some.inj hstep
    have hnew : (⟨s.decided.length, rule, undo⟩ : EmJob) ∉ s.decided := by
      intro hmem
      exact Nat.lt_irrefl _ (h.seq_lt hmem)
    constructor
    · have hkept := h.accounted
      rw [hidle] at hkept
      have hoffer := hkept.offer hnew
      rw [EmSender.job, append_nil, append_assoc] at hoffer
      exact hoffer
    · intro k j hj
      rcases Nat.lt_trichotomy k s.decided.length with hlt | rfl | hgt
      · rw [List.getElem?_append_left hlt] at hj
        exact h.seqs k j hj
      · rw [List.getElem?_concat_length] at hj
        rw [← some.inj hj]
      · rw [List.getElem?_eq_none (by rw [length_append, length_singleton]; omega)] at hj
        cases hj
    · exact h.hands
    · intro j hj j' hj'
      obtain rfl := mem_singleton.mp hj
      rcases mem_append.mp hj' with hold | hlast
      · exact Nat.le_of_lt (h.seq_lt hold)
      · exact Nat.le_of_eq (congrArg EmJob.seq (mem_singleton.mp hlast))
    · intro r hactive
      replace hactive : (if undo then update s.active rule false else s.active) r = true :=
        hactive
      -- the rule itself is not active now, and the others' jobs are the ones of before
      have hr : r ≠ rule ∧ s.active r = true := by
        rcases eq_or_ne r rule with rfl | hne
        · cases hwhile : isWhile r with
          | false =>
            have hold : s.active r = false := by
              cases hs : s.active r with
              | false => rfl
              | true => rw [(h.flags r hs).1] at hwhile; cases hwhile
            cases undo with
            | true => rw [if_pos rfl, update_self] at hactive; cases hactive
            | false => rw [if_neg Bool.false_ne_true, hold] at hactive; cases hactive
          | true =>
            rw [hwhile] at hflag
            cases undo with
            | true => rw [if_pos rfl, update_self] at hactive; cases hactive
            | false => rw [if_neg Bool.false_ne_true, hflag] at hactive; cases hactive
        · refine ⟨hne, ?_⟩
          cases undo with
          | true => rwa [if_pos rfl, update_of_ne hne] at hactive
          | false => exact hactive
      obtain ⟨hwhile, j, hj, hrule, happly, -, hlast⟩ := h.flags r hr.2
      refine ⟨hwhile, j, mem_append_left _ hj, hrule, happly, ?_, ?_⟩
      · intro hmem
        rw [mem_singleton.mp hmem] at hj
        exact hnew hj
      · intro j' hj' hrule'
        rcases mem_append.mp hj' with hold | hnew'
        · exact hlast j' hold hrule'
        · rw [mem_singleton.mp hnew'] at hrule'
          exact absurd hrule'.symm hr.1
    · exact h.order
  · rw [if_neg hguard] at hstep
    cases hstep

theorem PoolInv.queued (h : PoolInv isWhile s) {job : EmJob} (hjob : s.sender.job = [job]) :
    PoolInv isWhile (s.queued isWhile job) where
  accounted := by
    have hkept := h.accounted
    rw [hjob] at hkept
    rw [EmPool.queued, EmSender.job, append_nil]
    exact hkept
  seqs := h.seqs
  hands := h.hands
  last := by intro j hj; cases hj
  flags := by
    intro r hactive
    have hmem : job ∈ s.decided := by
      refine (h.accounted.mem_kept ?_).1
      rw [hjob]
      exact mem_append_right _ (mem_append_right _ (mem_singleton_self job))
    have hbefore : s.active r = true → isWhile r = true ∧ ∃ j ∈ s.decided, j.rule = r ∧
        j.undo = false ∧ j ∉ ([] : List EmJob) ∧
          ∀ j' ∈ s.decided, j'.rule = r → j'.seq ≤ j.seq := by
      intro hs
      obtain ⟨hwhile, j, hj, hrule, happly, -, hlast⟩ := h.flags r hs
      exact ⟨hwhile, j, hj, hrule, happly, not_mem_nil, hlast⟩
    rw [EmPool.queued] at hactive
    dsimp only at hactive
    cases hundo : job.undo with
    | true =>
      rw [if_pos hundo] at hactive
      exact hbefore hactive
    | false =>
      rw [if_neg (by rw [hundo]; exact Bool.false_ne_true)] at hactive
      rcases eq_or_ne r job.rule with rfl | hne
      · rw [update_self] at hactive
        refine ⟨hactive, job, hmem, rfl, hundo, not_mem_nil, ?_⟩
        intro j' hj' _
        exact h.last job (by rw [hjob]; exact mem_singleton_self job) j' hj'
      · rw [update_of_ne hne] at hactive
        exact hbefore hactive
  order := h.order

theorem PoolInv.same_job (h : PoolInv isWhile s) {sender : EmSender}
    (hjob : sender.job = s.sender.job) : PoolInv isWhile { s with sender := sender } where
  accounted := by
    rw [hjob]
    exact h.accounted
  seqs := h.seqs
  hands := h.hands
  last := by
    rw [hjob]
    exact h.last
  flags := by
    rw [hjob]
    exact h.flags
  order := h.order

theorem PoolInv.send (h : PoolInv isWhile s) (hstep : s.next isWhile .send = some s') :
    PoolInv isWhile s' := by
  rw [EmPool.next] at hstep
  split at hstep
  · rename_i job hsender
    split at hstep
    · obtain rfl := some.inj hstep
      exact h.queued (by rw [hsender]; rfl)
    · obtain rfl := some.inj hstep
      exact h.same_job (by rw [hsender]; rfl)
  · cases hstep

theorem PoolInv.evict (h : PoolInv isWhile s) (hstep : s.next isWhile .evict = some s') :
    PoolInv isWhile s' := by
  rw [EmPool.next] at hstep
  split at hstep
  · rename_i job hsender
    have hjob : (EmSender.resending job).job = s.sender.job := by rw [hsender]; rfl
    split at hstep
    · obtain rfl := some.inj hstep
      exact h.same_job hjob
    · rename_i victim rest hqueue
      obtain rfl := some.inj hstep
      have hsame := h.same_job hjob
      refine ⟨?_, hsame.seqs, hsame.hands, hsame.last, hsame.flags, hsame.order⟩
      have hkept := hsame.accounted
      rw [hqueue] at hkept
      exact hkept.drop
  · cases hstep

theorem PoolInv.resend (h : PoolInv isWhile s) (hstep : s.next isWhile .resend = some s') :
    PoolInv isWhile s' := by
  rw [EmPool.next] at hstep
  split at hstep
  · rename_i job hsender
    have hjob : s.sender.job = [job] := by rw [hsender]; rfl
    split at hstep
    · obtain rfl := some.inj hstep
      exact h.queued hjob
    · obtain rfl := some.inj hstep
      refine ⟨?_, h.seqs, h.hands, (by intro j hj; cases hj), ?_, h.order⟩
      · have hkept := h.accounted
        rw [hjob, ← append_assoc] at hkept
        have hdrop := hkept.drop
        rw [append_assoc] at hdrop
        exact hdrop
      · intro r hactive
        obtain ⟨hwhile, j, hj, hrule, happly, -, hlast⟩ := h.flags r hactive
        exact ⟨hwhile, j, hj, hrule, happly, not_mem_nil, hlast⟩
  · cases hstep

theorem not_othersHold {w v : Fin emWorkers} {j : EmJob} (h : s.othersHold w rule = false)
    (hv : s.worker v = some j) (hvw : v ≠ w) : j.rule ≠ rule := by
  rintro rfl
  have hall := any_eq_false.mp h v (mem_finRange v)
  rw [hv, decide_eq_true hvw] at hall
  exact hall (by simp)

theorem PoolInv.take (h : PoolInv isWhile s) {w : Fin emWorkers}
    (hstep : s.next isWhile (.take w) = some s') : PoolInv isWhile s' := by
  rw [EmPool.next] at hstep
  split at hstep
  · rename_i job rest hworker hqueue
    obtain rfl := some.inj hstep
    constructor
    · have hkept := h.accounted
      rw [hqueue] at hkept
      rw [append_assoc]
      exact hkept
    · exact h.seqs
    · intro j
      dsimp only
      rw [mem_append, mem_singleton, h.hands j]
      constructor
      · rintro ((hran | ⟨v, hv⟩) | rfl)
        · exact .inl hran
        · refine .inr ⟨v, ?_⟩
          have hvw : v ≠ w := by
            rintro rfl
            rw [hworker] at hv
            cases hv
          rw [update_of_ne hvw]
          exact hv
        · exact .inr ⟨w, update_self ..⟩
      · rintro (hran | ⟨v, hv⟩)
        · exact .inl (.inl hran)
        · rcases eq_or_ne v w with rfl | hvw
          · rw [update_self] at hv
            exact .inr (some.inj hv).symm
          · rw [update_of_ne hvw] at hv
            exact .inl (.inr ⟨v, hv⟩)
    · exact h.last
    · exact h.flags
    · intro r hr
      have hmono : r ∉ s.overlapped := by
        intro hmem
        refine hr ?_
        split
        · exact mem_append_left _ hmem
        · exact hmem
      dsimp only
      rw [filter_append]
      rcases eq_or_ne job.rule r with rfl | hne
      · -- the rule's only job in hand
        have hothers : s.othersHold w job.rule = false := by
          cases ho : s.othersHold w job.rule with
          | false => rfl
          | true =>
            refine absurd ?_ hr
            rw [if_pos ho]
            exact mem_append_right _ (mem_singleton_self _)
        have hsingle : [job].filter (ofRule job.rule) = [job] :=
          filter_cons_of_pos (beq_self_eq_true job.rule)
        refine .inr ⟨w, job, update_self .., rfl, ?_, ?_⟩
        · intro v j' hv hrule
          rcases eq_or_ne v w with rfl | hvw
          · rfl
          · rw [update_of_ne hvw] at hv
            exact absurd hrule (not_othersHold hothers hv hvw)
        · rcases h.order job.rule hmono with ⟨heq, -⟩ | ⟨v, j, hv, hrule, -, -⟩
          · rw [heq, hsingle]
          · have hvw : v ≠ w := by
              rintro rfl
              rw [hworker] at hv
              cases hv
            exact absurd hrule (not_othersHold hothers hv hvw)
      · have hsingle : [job].filter (ofRule r) = [] :=
          filter_cons_of_neg (by rw [ofRule, beq_iff_eq]; exact hne)
        rw [hsingle, append_nil]
        rcases h.order r hmono with ⟨heq, hnone⟩ | ⟨v, j, hv, hrule, honly, heq⟩
        · refine .inl ⟨heq, ?_⟩
          intro v j hv
          rcases eq_or_ne v w with rfl | hvw
          · rw [update_self] at hv
            rw [← some.inj hv]
            exact hne
          · rw [update_of_ne hvw] at hv
            exact hnone v j hv
        · have hvw : v ≠ w := by
            rintro rfl
            rw [hworker] at hv
            cases hv
          refine .inr ⟨v, j, by rw [update_of_ne hvw]; exact hv, hrule, ?_, heq⟩
          intro u j' hu hrule'
          rcases eq_or_ne u w with rfl | huw
          · rw [update_self] at hu
            rw [← some.inj hu] at hrule'
            exact absurd hrule' hne
          · rw [update_of_ne huw] at hu
            exact honly u j' hu hrule'
  · cases hstep

theorem PoolInv.run (h : PoolInv isWhile s) {w : Fin emWorkers}
    (hstep : s.next isWhile (.run w) = some s') : PoolInv isWhile s' := by
  rw [EmPool.next] at hstep
  split at hstep
  · rename_i job hworker
    obtain rfl := some.inj hstep
    constructor
    · exact h.accounted
    · exact h.seqs
    · intro j
      dsimp only
      rw [h.hands j, mem_append, mem_singleton]
      constructor
      · rintro (hran | ⟨v, hv⟩)
        · exact .inl (.inl hran)
        · rcases eq_or_ne v w with rfl | hvw
          · rw [hworker] at hv
            exact .inl (.inr (some.inj hv).symm)
          · exact .inr ⟨v, by rw [update_of_ne hvw]; exact hv⟩
      · rintro ((hran | rfl) | ⟨v, hv⟩)
        · exact .inl hran
        · exact .inr ⟨w, hworker⟩
        · rcases eq_or_ne v w with rfl | hvw
          · rw [update_self] at hv
            cases hv
          · rw [update_of_ne hvw] at hv
            exact .inr ⟨v, hv⟩
    · exact h.last
    · exact h.flags
    · intro r hr
      dsimp only
      rw [filter_append]
      rcases eq_or_ne job.rule r with rfl | hne
      · have hsingle : [job].filter (ofRule job.rule) = [job] :=
          filter_cons_of_pos (beq_self_eq_true job.rule)
        rcases h.order job.rule hr with ⟨-, hnone⟩ | ⟨v, j, hv, hrule, honly, heq⟩
        · exact absurd rfl (hnone w job hworker)
        · obtain rfl := honly w job hworker rfl
          rw [hworker] at hv
          obtain rfl := some.inj hv
          refine .inl ⟨by rw [heq, hsingle], ?_⟩
          intro u j' hu hrule'
          rcases eq_or_ne u w with rfl | huw
          · rw [update_self] at hu
            cases hu
          · rw [update_of_ne huw] at hu
            exact huw (honly u j' hu hrule')
      · have hsingle : [job].filter (ofRule r) = [] :=
          filter_cons_of_neg (by rw [ofRule, beq_iff_eq]; exact hne)
        rw [hsingle, append_nil]
        rcases h.order r hr with ⟨heq, hnone⟩ | ⟨v, j, hv, hrule, honly, heq⟩
        · refine .inl ⟨heq, ?_⟩
          intro v j hv
          rcases eq_or_ne v w with rfl | hvw
          · rw [update_self] at hv
            cases hv
          · rw [update_of_ne hvw] at hv
            exact hnone v j hv
        · have hvw : v ≠ w := by
            rintro rfl
            rw [hworker] at hv
            rw [← some.inj hv] at hrule
            exact hne hrule
          refine .inr ⟨v, j, by rw [update_of_ne hvw]; exact hv, hrule, ?_, heq⟩
          intro u j' hu hrule'
          rcases eq_or_ne u w with rfl | huw
          · rw [update_self] at hu
            cases hu
          · rw [update_of_ne huw] at hu
            exact honly u j' hu hrule'
  · cases hstep

/-- **A step** of any task keeps the invariant. -/
theorem poolInv_step (h : PoolInv isWhile s) {l : EmPoolLabel} (hstep : EmPoolStep isWhile s l s') :
    PoolInv isWhile s' := by
  cases l with
  | decide rule undo => exact h.decide hstep
  | send => exact h.send hstep
  | evict => exact h.evict hstep
  | resend => exact h.resend hstep
  | take w => exact h.take hstep
  | run w => exact h.run hstep

end Invariant

/-! ## Runs -/

/-- The tasks take these steps one after another. -/
def EmPool.steps (isWhile : ℕ → Bool) : List EmPoolLabel → EmPool → Option EmPool
  | [], s => some s
  | l :: ls, s => (s.next isWhile l).bind (EmPool.steps isWhile ls)

theorem run_of_steps {isWhile : ℕ → Bool} {ls : List EmPoolLabel} {s s' : EmPool}
    (h : s.steps isWhile ls = some s') : Run (EmPoolStep isWhile) s ls s' := by
  induction ls generalizing s s' with
  | nil =>
    obtain rfl := some.inj h
    exact .nil s
  | cons l ls ih =>
    obtain ⟨s₁, hfirst, hrest⟩ := bind_eq_some_iff.mp h
    exact .cons hfirst (ih hrest)

/-- **Jobs are taken in the order they were decided**, the dropped ones apart.
A job that was run has had every job decided before it run, dropped, or in the
hands of a worker. As long as none of its jobs is dropped and no worker takes
one while the other holds one, the jobs of a rule run in the order they were
decided, and the last one to run is the last one decided. The last job of a
rule that is active is an apply that was run, is held or queued, or was
dropped. -/
theorem jobs_in_order {isWhile : ℕ → Bool} {ls : List EmPoolLabel} {s : EmPool}
    (hrun : Run (EmPoolStep isWhile) emPoolBoot ls s) :
    s.decided.filter (fun j => decide (j ∉ s.dropped)) = s.taken ++ (s.queue ++ s.sender.job) ∧
    (∀ j ∈ s.ran, ∀ j' ∈ s.decided, j'.seq < j.seq →
      j' ∈ s.ran ∨ j' ∈ s.dropped ∨ ∃ w, s.worker w = some j') ∧
    (∀ r, r ∉ s.overlapped → (∀ j ∈ s.dropped, j.rule ≠ r) →
      s.ran.filter (ofRule r) <+: s.decided.filter (ofRule r) ∧
      ((∀ j ∈ s.decided, j.rule = r → j ∈ s.ran) →
        (s.ran.filter (ofRule r)).getLast? = (s.decided.filter (ofRule r)).getLast?)) ∧
    ∀ r, s.active r = true → ∃ j ∈ s.decided, j.rule = r ∧ j.undo = false ∧
      (∀ j' ∈ s.decided, j'.rule = r → j'.seq ≤ j.seq) ∧
      (j ∈ s.ran ∨ (∃ w, s.worker w = some j) ∨ j ∈ s.queue ∨ j ∈ s.dropped) := by
  have h : PoolInv isWhile s :=
    hrun.inv (fun _ _ _ hstep hI => poolInv_step hI hstep) (poolInv_boot isWhile)
  refine ⟨h.accounted.kept_eq, ?_, ?_, ?_⟩
  · intro j hj j' hj' hlt
    have htaken : j ∈ s.taken := (h.hands j).mpr (.inl hj)
    rcases h.accounted.mem hj' with hkept | hdropped
    · rcases mem_append.mp hkept with hkept | hwaiting
      · rcases (h.hands j').mp hkept with hran | hheld
        · exact .inl hran
        · exact .inr (.inr hheld)
      · -- what waits was decided after what was taken
        have hafter := (pairwise_append.mp h.pairwise).2.2 j htaken j' hwaiting
        exact absurd hlt (Nat.lt_asymm hafter)
    · exact .inr (.inl hdropped)
  · intro r hr hdropped
    have hclass : s.decided.filter (ofRule r) =
        (s.taken ++ (s.queue ++ s.sender.job)).filter (ofRule r) := by
      apply h.accounted.filter_eq
      intro j hj
      exact beq_eq_false_iff_ne.mpr (hdropped j hj)
    have hfront : s.ran.filter (ofRule r) <+: s.decided.filter (ofRule r) := by
      rw [hclass, filter_append]
      refine List.IsPrefix.trans ?_ (prefix_append _ _)
      rcases h.order r hr with ⟨heq, -⟩ | ⟨w, j, -, -, -, heq⟩
      · exact heq ▸ prefix_rfl
      · rw [heq]
        exact prefix_append _ _
    refine ⟨hfront, ?_⟩
    intro hall
    have hsub : s.decided.filter (ofRule r) ⊆ s.ran.filter (ofRule r) := by
      intro j hj
      obtain ⟨hmem, hrule⟩ := mem_filter.mp hj
      exact mem_filter.mpr ⟨hall j hmem (beq_iff_eq.mp hrule), hrule⟩
    have hlen := ((h.accounted.nodup.filter (ofRule r)).subperm hsub).length_le
    rw [hfront.eq_of_length_le hlen]
  · intro r hactive
    obtain ⟨-, j, hj, hrule, happly, hsender, hlast⟩ := h.flags r hactive
    refine ⟨j, hj, hrule, happly, hlast, ?_⟩
    rcases h.accounted.mem hj with hkept | hdropped
    · rcases mem_append.mp hkept with htaken | hwaiting
      · rcases (h.hands j).mp htaken with hran | hheld
        · exact .inl hran
        · exact .inr (.inl hheld)
      · rcases mem_append.mp hwaiting with hqueue | hin
        · exact .inr (.inr (.inl hqueue))
        · exact absurd hin hsender
    · exact .inr (.inr (.inr hdropped))

/-- The first worker. -/
def emWorker0 : Fin emWorkers := ⟨0, by decide⟩
/-- The second worker. -/
def emWorker1 : Fin emWorkers := ⟨1, by decide⟩

/-- One worker at a time. -/
def steadyLabels : List EmPoolLabel :=
  [.decide 0 false, .send, .take emWorker0, .run emWorker0,
    .decide 0 true, .send, .take emWorker1, .run emWorker1]

/-- The pool after these steps. -/
def steadyPool : EmPool := (emPoolBoot.steps (fun _ => true) steadyLabels).getD emPoolBoot

theorem jobs_in_order_steady :
    steadyPool.decided = [⟨0, 0, false⟩, ⟨1, 0, true⟩] ∧
      (steadyPool.ran.filter (ofRule 0)).getLast? =
        (steadyPool.decided.filter (ofRule 0)).getLast? := by
  have hrun : Run (EmPoolStep fun _ => true) emPoolBoot steadyLabels steadyPool := run_of_steps rfl
  exact ⟨by decide, ((jobs_in_order hrun).2.2.1 0 (by decide) (by decide)).2 (by decide)⟩

/-- Both workers hold a job of the rule, and the undo runs first. -/
def swappedLabels : List EmPoolLabel :=
  [.decide 0 false, .send, .decide 0 true, .send, .take emWorker0, .take emWorker1,
    .run emWorker1, .run emWorker0]

/-- The pool after these steps. -/
def swappedPool : EmPool := (emPoolBoot.steps (fun _ => true) swappedLabels).getD emPoolBoot

/-- The jobs of another rule push the apply out of the queue. -/
def crowdedLabels : List EmPoolLabel :=
  [.decide 0 false, .send] ++
    (List.replicate 7 [.decide 1 false, .send]).flatten ++ [.decide 1 false, .send, .evict, .resend]

/-- The pool after these steps. -/
def crowdedPool : EmPool := (emPoolBoot.steps (fun r => r == 0) crowdedLabels).getD emPoolBoot

/-- The last job of a rule to run is not always the last one decided, and the
apply of a rule that is active may be neither run nor queued. -/
theorem jobs_out_of_order :
    (Run (EmPoolStep fun _ => true) emPoolBoot swappedLabels swappedPool ∧
      swappedPool.decided = [⟨0, 0, false⟩, ⟨1, 0, true⟩] ∧
      swappedPool.ran = [⟨1, 0, true⟩, ⟨0, 0, false⟩]) ∧
    Run (EmPoolStep fun r => r == 0) emPoolBoot crowdedLabels crowdedPool ∧
      crowdedPool.active 0 = true ∧
      ∀ j ∈ crowdedPool.decided, j.rule = 0 → j ∉ crowdedPool.taken ∧ j ∉ crowdedPool.queue := by
  refine ⟨⟨run_of_steps rfl, by decide, by decide⟩, run_of_steps rfl, by decide, by decide⟩

end Meatpi
