import Mathlib.Data.List.Count
import Mathlib.Logic.Relation

/-!
# A server of one request at a time

A server takes a request, takes its body under credits, answers with a head, a
counted stream of frames and a last one, and is idle again; a request that comes
meanwhile, or that it will not take, is answered at once. The peer may go away
under a request.

`Exchange.Kept` says for one request number what the peer was told about it, and
`Exchange.told` that a number used once is answered once, whatever else happens.
-/

namespace Meatpi

open List

/-! ## The exchange -/

/-- What a frame says: a credit for the body, the head of the answer, a counted
frame of its body, the counted last one. -/
inductive ExMark where
  | credit
  | head
  | data (ctr : ℕ)
  | last (ctr : ℕ)

/-- What the server is at; `stream n` has sent `n` frames of the body. -/
inductive ExPhase where
  | idle
  | upload
  | stream (n : ℕ)
  deriving DecidableEq

/-- The server, with what it sent, the requests it was given and those the peer
went away under. -/
structure Exchange (Q : Type) where
  phase : ExPhase
  seq : Q
  sent : List (Q × ExMark)
  handled : List Q
  dropped : List Q

namespace Exchange

variable {Q : Type} {m : ℕ} {e e' : Exchange Q}

/-- One thing the server does; counters run modulo `m`. -/
inductive Step (m : ℕ) : Exchange Q → Exchange Q → Prop
  | refuse (e : Exchange Q) (q : Q) :
      Step m e { e with
        handled := e.handled ++ [q]
        sent := e.sent ++ [(q, .head), (q, .last 0)] }
  | accept (e : Exchange Q) (q : Q) (hidle : e.phase = .idle) :
      Step m e { e with
        phase := .upload
        seq := q
        handled := e.handled ++ [q] }
  | credit (e : Exchange Q) (hphase : e.phase = .upload) :
      Step m e { e with sent := e.sent ++ [(e.seq, .credit)] }
  | head (e : Exchange Q) (hphase : e.phase = .upload) :
      Step m e { e with
        phase := .stream 0
        sent := e.sent ++ [(e.seq, .head)] }
  | data (e : Exchange Q) (n : ℕ) (hphase : e.phase = .stream n) :
      Step m e { e with
        phase := .stream (n + 1)
        sent := e.sent ++ [(e.seq, .data (n % m))] }
  | last (e : Exchange Q) (n : ℕ) (hphase : e.phase = .stream n) :
      Step m e { e with
        phase := .idle
        sent := e.sent ++ [(e.seq, .last (n % m))] }
  | drop (e : Exchange Q) (hphase : e.phase ≠ .idle) :
      Step m e { e with
        phase := .idle
        dropped := e.dropped ++ [e.seq] }

/-- Any number of them. -/
def Steps (m : ℕ) : Exchange Q → Exchange Q → Prop :=
  Relation.ReflTransGen (Step m)

theorem Steps.trans {e₁ e₂ e₃ : Exchange Q} (h : Steps m e₁ e₂) (h' : Steps m e₂ e₃) :
    Steps m e₁ e₃ :=
  Relation.ReflTransGen.trans h h'

theorem Step.steps (h : Step m e e') : Steps m e e' := Relation.ReflTransGen.single h

theorem Steps.refl (e : Exchange Q) : Steps m e e := Relation.ReflTransGen.refl

theorem steps_fail (e : Exchange Q) (hphase : e.phase = .upload) :
    Steps m e { e with
      phase := .idle
      sent := e.sent ++ [(e.seq, .head), (e.seq, .last 0)] } := by
  have hlast := Step.last (m := m) { e with
    phase := .stream 0
    sent := e.sent ++ [(e.seq, .head)] } 0 rfl
  simpa [append_assoc] using (Step.head (m := m) e hphase).steps.trans hlast.steps

/-! ## What the peer is told about a request -/

/-- The frames of the answer's body. -/
def datas (m n : ℕ) : List ExMark :=
  (List.range n).map fun i => .data (i % m)

theorem datas_succ (m n : ℕ) : datas m (n + 1) = datas m n ++ [.data (n % m)] := by
  rw [datas, range_succ, map_append]
  rfl

/-- Credits so far. -/
def Uploading (marks : List ExMark) : Prop :=
  ∃ k, marks = List.replicate k .credit

/-- Credits, the head and `n` frames of the body so far. -/
def Streaming (m n : ℕ) (marks : List ExMark) : Prop :=
  ∃ k, marks = List.replicate k .credit ++ .head :: datas m n

/-- Credits, one head, frames counted from zero and one last frame, counted on. -/
def Answered (m : ℕ) (marks : List ExMark) : Prop :=
  ∃ k n, marks = List.replicate k .credit ++ .head :: (datas m n ++ [.last (n % m)])

theorem Uploading.credit {marks : List ExMark} (h : Uploading marks) :
    Uploading (marks ++ [.credit]) := by
  obtain ⟨k, rfl⟩ := h
  exact ⟨k + 1, replicate_succ'.symm⟩

theorem Uploading.head {marks : List ExMark} (h : Uploading marks) :
    Streaming m 0 (marks ++ [.head]) := by
  obtain ⟨k, rfl⟩ := h
  exact ⟨k, rfl⟩

theorem Streaming.data {n : ℕ} {marks : List ExMark} (h : Streaming m n marks) :
    Streaming m (n + 1) (marks ++ [.data (n % m)]) := by
  obtain ⟨k, rfl⟩ := h
  refine ⟨k, ?_⟩
  rw [datas_succ, append_assoc, cons_append]

theorem Streaming.last {n : ℕ} {marks : List ExMark} (h : Streaming m n marks) :
    Answered m (marks ++ [.last (n % m)]) := by
  obtain ⟨k, rfl⟩ := h
  refine ⟨k, n, ?_⟩
  rw [append_assoc, cons_append]

/-- What the peer was told of a request that was handled once, by where the
server stands with it and by whether the peer went away under it. -/
def Told (m : ℕ) (phase : ExPhase) (dropped : Prop) (marks : List ExMark) : Prop :=
  match phase with
  | .upload => ¬ dropped ∧ Uploading marks
  | .stream n => ¬ dropped ∧ Streaming m n marks
  | .idle => dropped ∧ (Uploading marks ∨ ∃ n, Streaming m n marks) ∨
      ¬ dropped ∧ Answered m marks

section Of

variable [DecidableEq Q]

/-- What was sent of a request. -/
def marks (q : Q) (e : Exchange Q) : List ExMark :=
  (e.sent.filter fun s => s.1 = q).map Prod.snd

/-- Where the server stands with it. -/
def standing (q : Q) (e : Exchange Q) : ExPhase :=
  if e.seq = q then e.phase else .idle

/-- Nothing is known of a request before it is handled, and of one handled once
the peer was told what `Told` says. -/
structure Kept (m : ℕ) (q : Q) (e : Exchange Q) : Prop where
  unseen : e.handled.count q = 0 → e.marks q = [] ∧ e.standing q = .idle ∧ q ∉ e.dropped
  seen : e.handled.count q = 1 → Told m (e.standing q) (q ∈ e.dropped) (e.marks q)

theorem Kept.frame {q : Q} (h : Kept m q e) (hhandled : e'.handled.count q = e.handled.count q)
    (hmarks : e'.marks q = e.marks q) (hstanding : e'.standing q = e.standing q)
    (hdropped : q ∈ e'.dropped ↔ q ∈ e.dropped) : Kept m q e' := by
  constructor
  · rw [hhandled, hmarks, hstanding, hdropped]
    exact h.unseen
  · rw [hhandled, hmarks, hstanding, propext hdropped]
    exact h.seen

theorem Kept.serve {q : Q} (h : Kept m q e) (hactive : e.standing q ≠ .idle)
    (hhandled : e'.handled = e.handled)
    (htold : Told m (e.standing q) (q ∈ e.dropped) (e.marks q) →
      Told m (e'.standing q) (q ∈ e'.dropped) (e'.marks q)) : Kept m q e' := by
  constructor
  · rw [hhandled]
    intro hcount
    exact absurd (h.unseen hcount).2.1 hactive
  · rw [hhandled]
    exact fun hcount => htold (h.seen hcount)

theorem Kept.handle {q : Q} (h : Kept m q e) (hhandled : e'.handled = e.handled ++ [q])
    (htold : e.marks q = [] → q ∉ e.dropped → e.standing q = .idle →
      Told m (e'.standing q) (q ∈ e'.dropped) (e'.marks q)) : Kept m q e' := by
  have hcount : e'.handled.count q = e.handled.count q + 1 := by
    rw [hhandled, count_append, count_singleton_self]
  constructor
  · intro hzero
    omega
  · intro hone
    obtain ⟨hmarks, hstanding, hdropped⟩ := h.unseen (by omega)
    exact htold hmarks hdropped hstanding

theorem marks_append (q : Q) (e : Exchange Q) (more : List (Q × ExMark)) :
    ((e.sent ++ more).filter fun s => s.1 = q).map Prod.snd =
      e.marks q ++ (more.filter fun s => s.1 = q).map Prod.snd := by
  rw [filter_append, map_append, marks]

theorem Kept.tell {q : Q} (h : Kept m q e) (phase : ExPhase) (mark : ExMark)
    (hactive : e.phase ≠ .idle)
    (htold : ∀ dropped marks, Told m e.phase dropped marks → Told m phase dropped (marks ++ [mark])) :
    Kept m q { e with
      phase := phase
      sent := e.sent ++ [(e.seq, mark)] } := by
  by_cases hq : e.seq = q
  · subst hq
    have hstanding : e.standing e.seq = e.phase := if_pos rfl
    refine h.serve (by rwa [hstanding]) rfl fun hbefore => ?_
    rw [hstanding] at hbefore
    have hafter : standing e.seq { e with
        phase := phase
        sent := e.sent ++ [(e.seq, mark)] } = phase := if_pos rfl
    rw [hafter, marks, marks_append]
    simpa using htold _ _ hbefore
  · apply h.frame
    · rfl
    · rw [marks, marks_append]
      simp [hq]
    · rw [standing, standing, if_neg hq, if_neg hq]
    · rfl

theorem Kept.step {q : Q} (hstep : Step m e e') (h : Kept m q e) : Kept m q e' := by
  cases hstep with
  | refuse p =>
    by_cases hp : p = q
    · subst hp
      refine h.handle rfl fun hmarks hdropped hstanding => ?_
      have htold : Told m .idle (p ∈ e.dropped) [.head, .last 0] :=
        .inr ⟨hdropped, 0, 0, by rw [Nat.zero_mod]; rfl⟩
      rw [← hstanding] at htold
      have hall : marks p { e with
          handled := e.handled ++ [p]
          sent := e.sent ++ [(p, ExMark.head), (p, ExMark.last 0)] } =
          [.head, .last 0] := by
        rw [marks, marks_append, hmarks]
        simp
      rw [hall]
      exact htold
    · apply h.frame
      · simp [count_append, hp]
      · rw [marks, marks_append]
        simp [hp]
      · rfl
      · rfl
  | accept p hidle =>
    by_cases hp : p = q
    · subst hp
      refine h.handle rfl fun hmarks hdropped _ => ?_
      have hstanding : standing p { e with
          phase := .upload
          seq := p
          handled := e.handled ++ [p] } = .upload := if_pos rfl
      rw [hstanding]
      exact ⟨hdropped, 0, hmarks⟩
    · apply h.frame
      · simp [count_append, hp]
      · rfl
      · rw [standing, standing, if_neg hp, hidle, ite_self]
      · rfl
  | credit hphase =>
    apply h.tell e.phase .credit (by simp [hphase])
    intro dropped marks htold
    rw [hphase] at htold ⊢
    exact ⟨htold.1, htold.2.credit⟩
  | head hphase =>
    apply h.tell (.stream 0) .head (by simp [hphase])
    intro dropped marks htold
    rw [hphase] at htold
    exact ⟨htold.1, htold.2.head⟩
  | data n hphase =>
    apply h.tell (.stream (n + 1)) (.data (n % m)) (by simp [hphase])
    intro dropped marks htold
    rw [hphase] at htold
    exact ⟨htold.1, htold.2.data⟩
  | last n hphase =>
    apply h.tell .idle (.last (n % m)) (by simp [hphase])
    intro dropped marks htold
    rw [hphase] at htold
    exact .inr ⟨htold.1, htold.2.last⟩
  | drop hphase =>
    by_cases hq : e.seq = q
    · subst hq
      have hstanding : e.standing e.seq = e.phase := if_pos rfl
      refine h.serve (by rwa [hstanding]) rfl fun htold => ?_
      rw [hstanding] at htold
      have hafter : standing e.seq { e with
          phase := .idle
          dropped := e.dropped ++ [e.seq] } = .idle := if_pos rfl
      rw [hafter]
      refine .inl ⟨by simp, ?_⟩
      cases hp : e.phase with
      | idle => exact absurd hp hphase
      | upload =>
        rw [hp] at htold
        exact .inl htold.2
      | stream n =>
        rw [hp] at htold
        exact .inr ⟨n, htold.2⟩
    · apply h.frame
      · rfl
      · rfl
      · rw [standing, standing, if_neg hq, if_neg hq]
      · simp [Ne.symm hq]

theorem Kept.steps {q : Q} (hsteps : Steps m e e') (h : Kept m q e) : Kept m q e' := by
  induction hsteps with
  | refl => exact h
  | tail _ hstep ih => exact ih.step hstep

end Of

end Exchange

end Meatpi
