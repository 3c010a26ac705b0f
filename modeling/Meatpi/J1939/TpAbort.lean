import Meatpi.J1939.TpView

/-!
# An abort ends a transfer (`j1939_tp_cm`)

Either end of a connection may abort it, so an abort from one node to another can mean a
session in either direction, and its PGN says which. The receiver takes the session in
the direction of the frame, if there is one, and looks at the PGN afterwards.
-/

namespace Meatpi

open Option

/-- An open session between the two nodes, in either direction, with that PGN. -/
def IsTransfer (tp : J1939Tp) (sa da : UInt8) (pgn : ℕ) (i : Fin tpSessions) : Prop :=
  ((tp.s i).isOf sa da = true ∨ (tp.s i).isOf da sa = true) ∧ (tp.s i).pgn = pgn

/-- **An abort ends the right transfer**: one such session is closed, when there is one,
and every other session is as before. -/
def EndsTransfer (tp tp' : J1939Tp) (sa da : UInt8) (pgn : ℕ) : Prop :=
  (∃ i, IsTransfer tp sa da pgn i ∧
      tp'.s = Function.update tp.s i { tp.s i with isOpen := false }) ∨
    (¬ ∃ i, IsTransfer tp sa da pgn i) ∧ tp'.s = tp.s

/-- The session in the direction of the abort has another PGN and hides the one that the
abort means, which goes the other way. -/
def HidesTransfer (tp : J1939Tp) (sa da : UInt8) (pgn : ℕ) : Prop :=
  (∃ i, (tp.s i).isOf sa da = true ∧ (tp.s i).pgn ≠ pgn) ∧
    ∃ j, (tp.s j).isOf da sa = true ∧ (tp.s j).pgn = pgn

section Abort

variable {tp : J1939Tp} {sa da : UInt8} {d : TpFrame} {now : ℤ} {i : Fin tpSessions} {pgn : ℕ}

theorem j1939TpCm_abort (hd : d 0 = tpCtrlAbort) :
    j1939TpCm tp sa da d 8 now = ((sessionFind tp sa da).or (sessionFind tp da sa)).elim tp fun i =>
        if (tp.s i).pgn = cmPgn d then tp.close i .aborted else tp := by
  have hbam : ¬ d 0 = tpCtrlBam := by rw [hd]; decide
  have hrts : ¬ d 0 = tpCtrlRts := by rw [hd]; decide
  have hcts : ¬ d 0 = tpCtrlCts := by rw [hd]; decide
  have heoma : ¬ d 0 = tpCtrlEoma := by rw [hd]; decide
  rw [j1939TpCm, if_neg hbam, if_neg hrts, if_neg hcts, if_neg heoma, if_pos hd]
  cases (sessionFind tp sa da).or (sessionFind tp da sa) <;> rfl

theorem endsTransfer_found (hi : (tp.s i).isOf sa da = true ∨ (tp.s i).isOf da sa = true)
    (hpgn : (tp.s i).pgn = pgn) : EndsTransfer tp (tp.close i .aborted) sa da pgn :=
  .inl ⟨i, ⟨hi, hpgn⟩, rfl⟩

theorem endsTransfer_same_iff :
    EndsTransfer tp tp sa da pgn ↔ ¬ ∃ i, IsTransfer tp sa da pgn i := by
  constructor
  · rintro (⟨i, htransfer, hsame⟩ | ⟨hnone, -⟩)
    · -- an open session is not a closed one
      have hopen : (tp.s i).isOpen = true := htransfer.1.elim (fun h => (isOf_iff.mp h).1)
        fun h => (isOf_iff.mp h).1
      have hclosed := congrFun hsame i
      rw [Function.update_self] at hclosed
      rw [hclosed] at hopen
      cases hopen
    · exact hnone
  · exact fun hnone => .inr ⟨hnone, rfl⟩

theorem isOf_unique (h : TpInv tp) {i j : Fin tpSessions} (hi : (tp.s i).isOf sa da = true)
    (hj : (tp.s j).isOf sa da = true) : i = j := by
  obtain ⟨hiopen, hisa, hida⟩ := isOf_iff.mp hi
  obtain ⟨hjopen, hjsa, hjda⟩ := isOf_iff.mp hj
  exact h.unique i j hiopen hjopen (hisa.trans hjsa.symm) (hida.trans hjda.symm)

/-- **Which aborts end the right transfer**, in a state that keeps the books. -/
theorem TpInv.abort (h : TpInv tp) (hd : d 0 = tpCtrlAbort) :
    EndsTransfer tp (j1939TpCm tp sa da d 8 now) sa da (cmPgn d) ↔
      ¬ HidesTransfer tp sa da (cmPgn d) := by
  rw [j1939TpCm_abort hd]
  cases hfind : sessionFind tp sa da with
  | some i =>
    rw [some_or, elim_some]
    have hi := (sessionFind_eq_some h).mp hfind
    by_cases hpgn : (tp.s i).pgn = cmPgn d
    · rw [if_pos hpgn]
      refine ⟨fun _ => ?_, fun _ => endsTransfer_found (.inl hi) hpgn⟩
      rintro ⟨⟨i', hi', hne⟩, -⟩
      exact hne (isOf_unique h hi hi' ▸ hpgn)
    · rw [if_neg hpgn, endsTransfer_same_iff]
      refine not_congr ⟨?_, fun hhides => ?_⟩
      · rintro ⟨j, hj | hj, hjpgn⟩
        · exact absurd (isOf_unique h hj hi ▸ hjpgn) hpgn
        · exact ⟨⟨i, hi, hpgn⟩, j, hj, hjpgn⟩
      · obtain ⟨-, j, hj, hjpgn⟩ := hhides
        exact ⟨j, .inr hj, hjpgn⟩
  | none =>
    have hnone : ∀ i, ¬ (tp.s i).isOf sa da = true := fun i hi =>
      sessionFind_none.mp hfind i (isOf_iff.mp hi)
    have hshows : ¬ HidesTransfer tp sa da (cmPgn d) := fun hno =>
      hno.1.elim fun i hi => hnone i hi.1
    rw [none_or]
    refine ⟨fun _ => hshows, fun _ => ?_⟩
    cases hback : sessionFind tp da sa with
    | some j =>
      have hj := (sessionFind_eq_some h).mp hback
      rw [elim_some]
      by_cases hpgn : (tp.s j).pgn = cmPgn d
      · rw [if_pos hpgn]
        exact endsTransfer_found (.inr hj) hpgn
      · rw [if_neg hpgn, endsTransfer_same_iff]
        rintro ⟨j', hj' | hj', hpgn'⟩
        · exact hnone j' hj'
        · exact hpgn (isOf_unique h hj' hj ▸ hpgn')
    | none =>
      rw [elim_none, endsTransfer_same_iff]
      rintro ⟨j, hj | hj, -⟩
      · exact hnone j hj
      · exact sessionFind_none.mp hback j (isOf_iff.mp hj)

end Abort

/-- **An abort ends the right transfer** in every reachable state, unless a session in its
own direction hides the one it means. -/
theorem j1939Tp_abort (tp : J1939Tp) (calls : List TpCall) (sa da : UInt8) {d : TpFrame} (now : ℤ)
    (hd : d 0 = tpCtrlAbort) :
    EndsTransfer (tpRun (j1939TpInit tp) calls)
        (j1939TpCm (tpRun (j1939TpInit tp) calls) sa da d 8 now) sa da (cmPgn d) ↔
      ¬ HidesTransfer (tpRun (j1939TpInit tp) calls) sa da (cmPgn d) :=
  ((tpInv_init tp).run calls).abort hd

/-- A receiver before its first call. -/
def tpBlank : J1939Tp := ⟨fun _ => .zero, fun _ _ => 0, .zero, 0, []⟩

/-- A request to send nine bytes with PGN `lo`, and an abort of it. -/
def rtsFrame (lo : UInt8) : TpFrame := ![tpCtrlRts, 9, 0, 2, 0xFF, lo, 0, 0]
def abortFrame (lo : UInt8) : TpFrame := ![tpCtrlAbort, 3, 0xFF, 0xFF, 0xFF, lo, 0, 0]

/-- A transfer each way between the nodes 1 and 2. -/
def bothWays : List TpCall := [.cm 1 2 (rtsFrame 0x10) 8 0, .cm 2 1 (rtsFrame 0x20) 8 0]

/-- The sender aborts its own. -/
theorem j1939Tp_abort_own :
    EndsTransfer (tpRun (j1939TpInit tpBlank) bothWays)
      (j1939TpCm (tpRun (j1939TpInit tpBlank) bothWays) 1 2 (abortFrame 0x10) 8 0) 1 2
      (cmPgn (abortFrame 0x10)) := by
  refine (j1939Tp_abort tpBlank bothWays 1 2 0 rfl).mpr ?_
  rintro ⟨⟨i, hi, hpgn⟩, -⟩
  revert i
  decide +kernel

/-- The receiver aborts the other's: its own hides it, and both stay open. -/
theorem not_j1939Tp_abort :
    ¬ ∀ (tp : J1939Tp) (calls : List TpCall) (sa da : UInt8) (d : TpFrame) (now : ℤ),
      d 0 = tpCtrlAbort →
      EndsTransfer (tpRun (j1939TpInit tp) calls)
        (j1939TpCm (tpRun (j1939TpInit tp) calls) sa da d 8 now) sa da (cmPgn d) := by
  intro hall
  have hsame : ∀ i, ((j1939TpCm (tpRun (j1939TpInit tpBlank) bothWays) 1 2 (abortFrame 0x20) 8
      0).s i) = (tpRun (j1939TpInit tpBlank) bothWays).s i := by
    decide +kernel
  rcases hall tpBlank bothWays 1 2 (abortFrame 0x20) 0 rfl with ⟨i, htransfer, hclosed⟩ | ⟨hno, -⟩
  · have hopen : ((tpRun (j1939TpInit tpBlank) bothWays).s i).isOpen = true :=
      htransfer.1.elim (fun h => (isOf_iff.mp h).1) fun h => (isOf_iff.mp h).1
    have hi := congrFun hclosed i
    rw [Function.update_self, hsame i] at hi
    rw [hi] at hopen
    cases hopen
  · exact hno ⟨1, .inr (by decide +kernel), by decide +kernel⟩

end Meatpi
