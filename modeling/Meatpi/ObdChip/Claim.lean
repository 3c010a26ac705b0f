import Mathlib.Data.Int.Order.Basic
import Meatpi.Library.Run

/-!
# Who has the chip (`obd_chip_claim.c`)

The claim is one word for all tasks, `s_claim`, with at most one task that owns a
transaction. The model keeps beside it the `holder` and what each task was granted and
has not given back (`Grant`). A request inside a transaction is granted without the
claim, and its release leaves the claim alone as long as the transaction is the task's
own; once that was stolen, the release ends the claim of whoever holds it then
(`ClaimOp.Timely`, `obdClaim_exclusive`).
-/

namespace Meatpi

open Function List Option

/-- `obd_claim_t` -/
inductive ObdClaimType where
  | command
  | monitor
  | exclusive
  deriving DecidableEq

def obdTxnMaxUs : ℤ := 12 * 1000 * 1000

/-- What the lock guards, and the clock: `CLAIM_NONE` is `none`. -/
structure ObdClaim (τ : Type*) where
  claim : Option ObdClaimType
  txnTask : Option τ
  txnStartUs : ℤ
  nowUs : ℤ

/-- What one attempt of `obd_core_claim` ends with. -/
inductive ClaimOutcome where
  | nested
  | stolen
  | granted
  | monitorBlocks
  | busy

variable {τ : Type*} [DecidableEq τ]

namespace ObdClaim

/-- A transaction that was held too long. -/
def Expired (s : ObdClaim τ) : Prop :=
  s.claim = some .command ∧ s.txnTask ≠ none ∧ obdTxnMaxUs < s.nowUs - s.txnStartUs

instance (s : ObdClaim τ) : Decidable s.Expired := inferInstanceAs (Decidable (_ ∧ _ ∧ _))

/-- `obd_core_claim`, one attempt. -/
def obdCoreClaim (s : ObdClaim τ) (self : τ) (type : ObdClaimType) : ObdClaim τ × ClaimOutcome :=
  if type = .command ∧ s.txnTask = some self then (s, .nested)
  else if s.Expired then
    ({ s with
      txnTask := none
      claim := some type }, .stolen)
  else if s.claim = none then ({ s with claim := some type }, .granted)
  else if s.claim = some .monitor ∧ type = .command then (s, .monitorBlocks)
  else (s, .busy)

/-- `obd_core_release`: a nested request inside a held transaction does not release. -/
def obdCoreRelease (s : ObdClaim τ) (self : τ) : ObdClaim τ :=
  if s.txnTask = none ∨ s.txnTask ≠ some self then { s with claim := none } else s

/-- The end of `obd_chip_txn_begin`, once the claim is granted. -/
def obdChipTxnOwn (s : ObdClaim τ) (self : τ) : ObdClaim τ :=
  { s with
    txnTask := some self
    txnStartUs := s.nowUs }

def obdChipTxnEnd (s : ObdClaim τ) (self : τ) : ObdClaim τ :=
  if s.txnTask = some self then
    { s with
      txnTask := none
      claim := none }
  else s

end ObdClaim

/-! ## Tasks -/

/-- What a task was granted: the claim, a request inside its transaction, or a transaction. -/
inductive Grant where
  | plain (type : ObdClaimType)
  | nested
  | txn
  deriving DecidableEq

/-- Where a task is in `obd_chip_txn_begin`. -/
inductive TxnPc where
  | idle
  | beginning
  | owning

/-- The chip's claim, the tasks, and who was granted the claim last. -/
structure ClaimWorld (τ : Type*) where
  chip : ObdClaim τ
  pc : τ → TxnPc
  grants : τ → List Grant
  holder : Option τ

/-- An atomic section of a task, or time that passes. -/
inductive ClaimOp (τ : Type*) where
  | pass (us : ℕ)
  | claim (t : τ) (type : ObdClaimType)
  | release (t : τ) (g : Grant)
  | txnCheck (t : τ)
  | txnClaim (t : τ)
  | txnGiveUp (t : τ)
  | txnOwn (t : τ)
  | txnEnd (t : τ)

namespace ClaimWorld

/-- Nobody has claimed anything. -/
def init (nowUs : ℤ) : ClaimWorld τ :=
  { chip := ⟨none, none, 0, nowUs⟩, pc := fun _ => .idle, grants := fun _ => [], holder := none }

def push (w : ClaimWorld τ) (t : τ) (g : Grant) : ClaimWorld τ :=
  { w with grants := Function.update w.grants t (g :: w.grants t) }

def drop (w : ClaimWorld τ) (t : τ) (g : Grant) : ClaimWorld τ :=
  { w with grants := Function.update w.grants t ((w.grants t).erase g) }

def goto (w : ClaimWorld τ) (t : τ) (pc : TxnPc) : ClaimWorld τ :=
  { w with pc := Function.update w.pc t pc }

/-- The section ran: nobody holds a claim that is none. -/
def after (w : ClaimWorld τ) (chip : ObdClaim τ) : ClaimWorld τ :=
  { w with
    chip := chip
    holder := if chip.claim = none then none else w.holder }

/-- The claim is the task's. -/
def takenBy (w : ClaimWorld τ) (chip : ObdClaim τ) (t : τ) : ClaimWorld τ :=
  { w with
    chip := chip
    holder := some t }

end ClaimWorld

namespace ClaimOp

def apply (w : ClaimWorld τ) : ClaimOp τ → ClaimWorld τ
  | pass us => { w with chip := { w.chip with nowUs := w.chip.nowUs + us } }
  | claim t type =>
    match w.chip.obdCoreClaim t type with
    | (_, .nested) => w.push t .nested
    | (chip, .stolen) => (w.takenBy chip t).push t (.plain type)
    | (chip, .granted) => (w.takenBy chip t).push t (.plain type)
    | _ => w
  | release t g => (w.after (w.chip.obdCoreRelease t)).drop t g
  | txnCheck t => if w.chip.txnTask = some t then w else w.goto t .beginning
  | txnClaim t =>
    match w.chip.obdCoreClaim t .command with
    | (_, .nested) => w.goto t .owning
    | (chip, .stolen) => (w.takenBy chip t).goto t .owning
    | (chip, .granted) => (w.takenBy chip t).goto t .owning
    | _ => w
  | txnGiveUp t => w.goto t .idle
  | txnOwn t => ({ w with chip := w.chip.obdChipTxnOwn t }.goto t .idle).push t .txn
  | txnEnd t => (w.after (w.chip.obdChipTxnEnd t)).drop t .txn

/-- A task runs its own program, and gives back only what it was granted. -/
def Allowed (w : ClaimWorld τ) : ClaimOp τ → Prop
  | pass _ => True
  | claim t _ => w.pc t = .idle
  | release t g => w.pc t = .idle ∧ g ∈ w.grants t ∧ g ≠ .txn
  | txnCheck t => w.pc t = .idle
  | txnClaim t => w.pc t = .beginning
  | txnGiveUp t => w.pc t = .beginning
  | txnOwn t => w.pc t = .owning
  | txnEnd t => w.pc t = .idle ∧ .txn ∈ w.grants t

/-- A request that was granted inside a transaction is given back while the
transaction is still the task's own, or when nobody has claimed the chip. -/
def Timely (w : ClaimWorld τ) : ClaimOp τ → Prop
  | release t .nested => w.chip.txnTask = some t ∨ w.chip.claim = none
  | _ => True

/-- An attempt to take the claim, by `obd_core_claim` or in `obd_chip_txn_begin`. -/
def IsAttempt : ClaimOp τ → Prop
  | claim _ _ => True
  | txnClaim _ => True
  | _ => False

/-- A claim that was granted goes on, or its holder gives it back, or it is a
transaction that expired and is stolen. -/
def EndsRightly (w : ClaimWorld τ) (op : ClaimOp τ) : Prop :=
  ∀ h c, w.holder = some h → w.chip.claim = some c →
    (op.apply w).holder = some h ∧ (op.apply w).chip.claim = some c ∨
      op = .release h (.plain c) ∨ op = .txnEnd h ∨
      op.IsAttempt ∧ w.chip.txnTask = some h ∧ w.chip.Expired

end ClaimOp

/-! ## The invariant -/

def Grant.isPlain : Grant → Bool
  | .plain _ => true
  | _ => false

/-- Who can hold the claim, and as what. -/
structure ClaimWorld.Kept (w : ClaimWorld τ) : Prop where
  none_iff : w.chip.claim = none ↔ w.holder = none
  txn : ∀ t, w.chip.txnTask = some t → w.chip.claim = some .command ∧ w.holder = some t
  beginning : ∀ t, w.pc t = .beginning → w.chip.txnTask ≠ some t
  owning : ∀ t, w.pc t = .owning → w.chip.txnTask = none ∧ w.chip.claim = some .command ∧
    w.holder = some t ∧ ∀ c, .plain c ∉ w.grants t
  plain : ∀ t c, .plain c ∈ w.grants t →
    w.chip.txnTask = none ∧ w.chip.claim = some c ∧ w.holder = some t
  once : ∀ t, (w.grants t).countP Grant.isPlain ≤ 1

namespace ClaimWorld

variable {w : ClaimWorld τ}

omit [DecidableEq τ] in
theorem Kept.init (nowUs : ℤ) : (ClaimWorld.init nowUs : ClaimWorld τ).Kept :=
  ⟨iff_of_true rfl rfl, nofun, nofun, nofun, fun _ _ h => absurd h not_mem_nil, fun _ => Nat.zero_le _⟩

/-- Nobody was granted the claim, but for a transaction. -/
structure Free (w : ClaimWorld τ) : Prop where
  plain : ∀ t c, .plain c ∉ w.grants t
  owning : ∀ t, w.pc t ≠ .owning

omit [DecidableEq τ] in
theorem Kept.free_of_none (h : w.Kept) (hclaim : w.chip.claim = none) : w.Free := by
  refine ⟨fun t c hmem => ?_, fun t hpc => ?_⟩
  · obtain ⟨-, hsome, -⟩ := h.plain t c hmem
    rw [hclaim] at hsome
    cases hsome
  · obtain ⟨-, hsome, -, -⟩ := h.owning t hpc
    rw [hclaim] at hsome
    cases hsome

omit [DecidableEq τ] in
theorem Kept.free_of_txn (h : w.Kept) (htxn : w.chip.txnTask ≠ none) : w.Free :=
  ⟨fun t c hmem => htxn (h.plain t c hmem).1, fun t hpc => htxn (h.owning t hpc).1⟩

omit [DecidableEq τ] in
theorem Kept.free_after {w : ClaimWorld τ} {chip : ObdClaim τ} (hfree : w.Free)
    (hclaim : chip.claim = none) (htxn : chip.txnTask = none)
    (honce : ∀ t, (w.grants t).countP Grant.isPlain ≤ 1) : (w.after chip).Kept := by
  refine ⟨iff_of_true hclaim (if_pos hclaim), fun t ht => ?_, fun t _ ht => ?_,
    fun t hpc => absurd hpc (hfree.owning t), fun t c hmem => absurd hmem (hfree.plain t c),
    honce⟩
  · have ht : chip.txnTask = some t := ht
    rw [htxn] at ht
    cases ht
  · have ht : chip.txnTask = some t := ht
    rw [htxn] at ht
    cases ht

end ClaimWorld

/-! ## Sections of the lock -/

namespace ObdClaim

variable {s : ObdClaim τ} {t : τ} {type : ObdClaimType}

/-- **An attempt** to take the claim. -/
inductive CoreClaimSpec (s : ObdClaim τ) (t : τ) (type : ObdClaimType) :
    ObdClaim τ × ClaimOutcome → Prop
  | nested (htype : type = .command) (htxn : s.txnTask = some t) :
      CoreClaimSpec s t type (s, .nested)
  | stolen (hexpired : s.Expired) :
      CoreClaimSpec s t type ({ s with
        txnTask := none
        claim := some type }, .stolen)
  | granted (hnone : s.claim = none) :
      CoreClaimSpec s t type ({ s with claim := some type }, .granted)
  | refused (outcome : ClaimOutcome) (hout : outcome = .monitorBlocks ∨ outcome = .busy) :
      CoreClaimSpec s t type (s, outcome)

theorem obdCoreClaim_spec (s : ObdClaim τ) (t : τ) (type : ObdClaimType) :
    CoreClaimSpec s t type (s.obdCoreClaim t type) := by
  rw [obdCoreClaim]
  split_ifs with hnested hexpired hnone
  · exact .nested hnested.1 hnested.2
  · exact .stolen hexpired
  · exact .granted hnone
  · exact .refused _ (.inl rfl)
  · exact .refused _ (.inr rfl)

theorem obdCoreRelease_own (h : s.txnTask = some t) : s.obdCoreRelease t = s := by
  rw [obdCoreRelease, if_neg]
  rintro (hnone | hother)
  · rw [h] at hnone
    cases hnone
  · exact hother h

theorem obdCoreRelease_other (h : s.txnTask ≠ some t) :
    s.obdCoreRelease t = { s with claim := none } := if_pos (.inr h)

theorem obdCoreRelease_none (h : s.claim = none) : s.obdCoreRelease t = s := by
  by_cases hown : s.txnTask = some t
  · exact obdCoreRelease_own hown
  · rw [obdCoreRelease_other hown, ← h]

end ObdClaim

/-! ## Steps -/

namespace ClaimWorld

variable {w : ClaimWorld τ}

@[simp] theorem push_self (w : ClaimWorld τ) (t : τ) (g : Grant) :
    (w.push t g).grants t = g :: w.grants t := update_self ..

theorem push_of_ne (w : ClaimWorld τ) {t u : τ} (hne : u ≠ t) (g : Grant) :
    (w.push t g).grants u = w.grants u := update_of_ne hne ..

@[simp] theorem drop_self (w : ClaimWorld τ) (t : τ) (g : Grant) :
    (w.drop t g).grants t = (w.grants t).erase g := update_self ..

theorem drop_of_ne (w : ClaimWorld τ) {t u : τ} (hne : u ≠ t) (g : Grant) :
    (w.drop t g).grants u = w.grants u := update_of_ne hne ..

@[simp] theorem goto_self (w : ClaimWorld τ) (t : τ) (pc : TxnPc) : (w.goto t pc).pc t = pc :=
  update_self ..

theorem goto_of_ne (w : ClaimWorld τ) {t u : τ} (hne : u ≠ t) (pc : TxnPc) :
    (w.goto t pc).pc u = w.pc u := update_of_ne hne ..

theorem mem_drop {t u : τ} {g g' : Grant} (h : g' ∈ (w.drop t g).grants u) : g' ∈ w.grants u := by
  by_cases hut : u = t
  · rw [hut, drop_self] at h
    exact hut ▸ mem_of_mem_erase h
  · rwa [drop_of_ne w hut] at h

theorem countP_drop (w : ClaimWorld τ) (t : τ) (g : Grant) (u : τ) :
    ((w.drop t g).grants u).countP Grant.isPlain ≤ (w.grants u).countP Grant.isPlain := by
  by_cases hut : u = t
  · rw [hut, drop_self]
    exact erase_sublist.countP_le
  · exact Nat.le_of_eq (congrArg _ (drop_of_ne w hut g))

theorem Kept.drop (h : w.Kept) (t : τ) (g : Grant) : (w.drop t g).Kept := by
  refine ⟨h.none_iff, h.txn, h.beginning, fun u hpc => ?_, fun u c hmem => ?_, fun u => ?_⟩
  · obtain ⟨htxn, hclaim, hholder, hnone⟩ := h.owning u hpc
    exact ⟨htxn, hclaim, hholder, fun c hmem => hnone c (mem_drop hmem)⟩
  · exact h.plain u c (mem_drop hmem)
  · exact Nat.le_trans (countP_drop w t g u) (h.once u)

theorem Kept.push (h : w.Kept) (t : τ) {g : Grant} (hg : g.isPlain = false) :
    (w.push t g).Kept := by
  have hmem : ∀ u c, .plain c ∈ (w.push t g).grants u → .plain c ∈ w.grants u := by
    intro u c hmem
    by_cases hut : u = t
    · rw [hut, push_self] at hmem
      rcases mem_cons.mp hmem with heq | hmem
      · rw [← heq] at hg
        cases hg
      · exact hut ▸ hmem
    · rwa [push_of_ne w hut] at hmem
  refine ⟨h.none_iff, h.txn, h.beginning, fun u hpc => ?_, fun u c hu => h.plain u c (hmem u c hu),
    fun u => ?_⟩
  · obtain ⟨htxn, hclaim, hholder, hnone⟩ := h.owning u hpc
    exact ⟨htxn, hclaim, hholder, fun c hu => hnone c (hmem u c hu)⟩
  · by_cases hut : u = t
    · rw [hut, push_self, countP_cons_of_neg (by simp [hg])]
      exact h.once t
    · rw [push_of_ne _ hut]
      exact h.once u

theorem Kept.goto (h : w.Kept) {t : τ} {pc : TxnPc}
    (hbegin : pc = .beginning → w.chip.txnTask ≠ some t) (hown : pc ≠ .owning) :
    (w.goto t pc).Kept := by
  refine ⟨h.none_iff, h.txn, fun u hu => ?_, fun u hu => ?_, h.plain, h.once⟩
  · by_cases hut : u = t
    · rw [hut, goto_self] at hu
      exact hut ▸ hbegin hu
    · rw [goto_of_ne _ hut] at hu
      exact h.beginning u hu
  · by_cases hut : u = t
    · rw [hut, goto_self] at hu
      exact absurd hu hown
    · rw [goto_of_ne _ hut] at hu
      exact h.owning u hu

omit [DecidableEq τ] in
theorem Kept.after_same (h : w.Kept) : (w.after w.chip).Kept := by
  have hholder : (if w.chip.claim = none then none else w.holder) = w.holder := by
    split_ifs with hnone
    · exact (h.none_iff.mp hnone).symm
    · rfl
  have hsame : w.after w.chip = w := by
    rw [after, hholder]
  rw [hsame]
  exact h

/-- **A claim that is granted** to a task. -/
theorem Kept.grant (hfree : w.Free) (honce : ∀ t, (w.grants t).countP Grant.isPlain ≤ 1) {t : τ}
    {chip : ObdClaim τ} {type : ObdClaimType} (hclaim : chip.claim = some type)
    (htxn : chip.txnTask = none) : ((w.takenBy chip t).push t (.plain type)).Kept := by
  have hzero : (w.grants t).countP Grant.isPlain = 0 := by
    rw [countP_eq_zero]
    intro g hmem hplain
    cases g with
    | plain c => exact hfree.plain t c hmem
    | nested => cases hplain
    | txn => cases hplain
  have hno : ∀ u, chip.txnTask ≠ some u := fun u hu => by
    rw [htxn] at hu
    cases hu
  refine ⟨iff_of_false (fun hnone => ?_) nofun, fun u hu => absurd hu (hno u), fun u _ => hno u,
    fun u hu => absurd hu (hfree.owning u), fun u c hu => ?_, fun u => ?_⟩
  · have hnone : chip.claim = none := hnone
    rw [hclaim] at hnone
    cases hnone
  · by_cases hut : u = t
    · rw [hut, push_self] at hu
      rcases mem_cons.mp hu with heq | hu
      · cases heq
        exact ⟨htxn, hclaim, hut ▸ rfl⟩
      · exact absurd hu (hfree.plain t c)
    · rw [push_of_ne _ hut] at hu
      exact absurd hu (hfree.plain u c)
  · by_cases hut : u = t
    · rw [hut, push_self]
      have hone : (Grant.plain type :: w.grants t).countP Grant.isPlain = 0 + 1 :=
        hzero ▸ countP_cons_of_pos rfl
      exact Nat.le_of_eq hone
    · rw [push_of_ne _ hut]
      exact honce u

/-- **A claim that is granted** to a task which begins a transaction. -/
theorem Kept.grantTxn (hfree : w.Free) (honce : ∀ t, (w.grants t).countP Grant.isPlain ≤ 1) {t : τ}
    {chip : ObdClaim τ} (hclaim : chip.claim = some .command) (htxn : chip.txnTask = none) :
    ((w.takenBy chip t).goto t .owning).Kept := by
  have hno : ∀ u, chip.txnTask ≠ some u := fun u hu => by
    rw [htxn] at hu
    cases hu
  refine ⟨iff_of_false (fun hnone => ?_) nofun, fun u hu => absurd hu (hno u), fun u _ => hno u,
    fun u hu => ?_, fun u c hu => absurd hu (hfree.plain u c), honce⟩
  · have hnone : chip.claim = none := hnone
    rw [hclaim] at hnone
    cases hnone
  · by_cases hut : u = t
    · exact ⟨htxn, hclaim, hut ▸ rfl, hfree.plain u⟩
    · rw [goto_of_ne _ hut] at hu
      exact absurd hu (hfree.owning u)

theorem Kept.free_drop (h : w.Kept) {t : τ} {c : ObdClaimType} (hpc : w.pc t = .idle)
    (hmem : .plain c ∈ w.grants t) : (w.drop t (.plain c)).Free := by
  obtain ⟨-, hclaim, hholder⟩ := h.plain t c hmem
  refine ⟨fun u c' hu => ?_, fun u hu => ?_⟩
  · obtain ⟨-, hclaim', hholder'⟩ := h.plain u c' (mem_drop hu)
    obtain rfl := some.inj (hholder.symm.trans hholder')
    -- it was granted once
    rw [drop_self] at hu
    have hperm := (perm_cons_erase hmem).countP_eq Grant.isPlain
    have hpos : 0 < ((w.grants t).erase (.plain c)).countP Grant.isPlain :=
      countP_pos_iff.mpr ⟨_, hu, rfl⟩
    have honce := h.once t
    rw [hperm, countP_cons_of_pos (p := Grant.isPlain) rfl] at honce
    omega
  · obtain ⟨-, -, hholder', -⟩ := h.owning u hu
    obtain rfl := some.inj (hholder.symm.trans hholder')
    have hidle : TxnPc.idle = .owning := hpc.symm.trans hu
    cases hidle

end ClaimWorld

namespace ClaimOp

variable {w : ClaimWorld τ}

theorem kept_claim (h : w.Kept) (t : τ) (type : ObdClaimType) : ((claim t type).apply w).Kept := by
  rw [apply]
  have hspec := w.chip.obdCoreClaim_spec t type
  generalize w.chip.obdCoreClaim t type = r at hspec
  cases hspec with
  | nested => exact h.push t rfl
  | stolen hexpired => exact ClaimWorld.Kept.grant (h.free_of_txn hexpired.2.1) h.once rfl rfl
  | granted hnone =>
    refine ClaimWorld.Kept.grant (h.free_of_none hnone) h.once rfl ?_
    cases htxn : w.chip.txnTask with
    | none => rfl
    | some u =>
      have hsome := (h.txn u htxn).1
      rw [hnone] at hsome
      cases hsome
  | refused outcome hout => rcases hout with rfl | rfl <;> exact h

theorem kept_txnClaim (h : w.Kept) {t : τ} (hpc : w.pc t = .beginning) :
    ((txnClaim t).apply w).Kept := by
  rw [apply]
  have hspec := w.chip.obdCoreClaim_spec t .command
  generalize w.chip.obdCoreClaim t .command = r at hspec
  cases hspec with
  | nested _ htxn => exact absurd htxn (h.beginning t hpc)
  | stolen hexpired => exact ClaimWorld.Kept.grantTxn (h.free_of_txn hexpired.2.1) h.once rfl rfl
  | granted hnone =>
    refine ClaimWorld.Kept.grantTxn (h.free_of_none hnone) h.once rfl ?_
    cases htxn : w.chip.txnTask with
    | none => rfl
    | some u =>
      have hsome := (h.txn u htxn).1
      rw [hnone] at hsome
      cases hsome
  | refused outcome hout => rcases hout with rfl | rfl <;> exact h

theorem kept_release (h : w.Kept) {t : τ} {g : Grant} (hallowed : (release t g).Allowed w)
    (htimely : (release t g).Timely w) : ((release t g).apply w).Kept := by
  obtain ⟨hpc, hmem, htxn⟩ := hallowed
  rw [apply]
  cases g with
  | txn => exact absurd rfl htxn
  | nested =>
    have hsame : w.chip.obdCoreRelease t = w.chip :=
      htimely.elim ObdClaim.obdCoreRelease_own ObdClaim.obdCoreRelease_none
    rw [hsame]
    exact h.after_same.drop t .nested
  | plain c =>
    obtain ⟨hnone, -, -⟩ := h.plain t c hmem
    have hother : w.chip.txnTask ≠ some t := fun hown => by
      rw [hnone] at hown
      cases hown
    rw [ObdClaim.obdCoreRelease_other hother]
    have honce : ∀ u, ((w.drop t (.plain c)).grants u).countP Grant.isPlain ≤ 1 :=
      fun u => Nat.le_trans (ClaimWorld.countP_drop w t _ u) (h.once u)
    exact ClaimWorld.Kept.free_after (h.free_drop hpc hmem) rfl hnone honce

theorem kept_txnOwn (h : w.Kept) {t : τ} (hpc : w.pc t = .owning) : ((txnOwn t).apply w).Kept := by
  obtain ⟨hnone, hclaim, hholder, hplain⟩ := h.owning t hpc
  have hidle : ({ w with chip := w.chip.obdChipTxnOwn t }.goto t .idle).Kept := by
    refine ⟨h.none_iff, ?_, fun u hu => ?_, fun u hu => ?_, fun u c hu => ?_, h.once⟩
    · rintro u ⟨⟩
      exact ⟨hclaim, hholder⟩
    · rintro ⟨⟩
      rw [ClaimWorld.goto_self] at hu
      cases hu
    · by_cases hut : u = t
      · rw [hut, ClaimWorld.goto_self] at hu
        cases hu
      · rw [ClaimWorld.goto_of_ne _ hut] at hu
        obtain ⟨-, -, hholder', -⟩ := h.owning u hu
        exact absurd (some.inj (hholder'.symm.trans hholder)) hut
    · obtain ⟨-, -, hholder'⟩ := h.plain u c hu
      obtain rfl := some.inj (hholder.symm.trans hholder')
      exact absurd hu (hplain c)
  exact hidle.push t rfl

theorem kept_txnEnd (h : w.Kept) (t : τ) : ((txnEnd t).apply w).Kept := by
  rw [apply, ObdClaim.obdChipTxnEnd]
  split_ifs with hown
  · have hfree : w.Free := h.free_of_txn (by rw [hown]; exact nofun)
    have hcleared : (w.after { w.chip with
        txnTask := none
        claim := none }).Kept := ClaimWorld.Kept.free_after hfree rfl rfl h.once
    exact hcleared.drop t .txn
  · exact h.after_same.drop t .txn

/-- **One section** keeps the invariant, if a nested request is given back in time. -/
theorem kept (h : w.Kept) {op : ClaimOp τ} (hallowed : op.Allowed w) (htimely : op.Timely w) :
    (op.apply w).Kept := by
  cases op with
  | pass us => exact ⟨h.none_iff, h.txn, h.beginning, h.owning, h.plain, h.once⟩
  | claim t type => exact kept_claim h t type
  | release t g => exact kept_release h hallowed htimely
  | txnCheck t =>
    rw [apply]
    split_ifs with hown
    · exact h
    · exact h.goto (fun _ => hown) nofun
  | txnClaim t => exact kept_txnClaim h hallowed
  | txnGiveUp t => exact h.goto nofun nofun
  | txnOwn t => exact kept_txnOwn h hallowed
  | txnEnd t => exact kept_txnEnd h t

/-! ## How a claim ends -/

omit [DecidableEq τ] in
theorem after_holder {chip : ObdClaim τ} {h : τ} {c : ObdClaimType} (hholder : w.holder = some h)
    (hclaim : chip.claim = some c) :
    (w.after chip).holder = some h ∧ (w.after chip).chip.claim = some c := by
  refine ⟨?_, hclaim⟩
  rw [ClaimWorld.after, hclaim, if_neg nofun]
  exact hholder

/-- **An attempt** takes the claim from nobody but an expired transaction. -/
theorem endsRightly_attempt (h : w.Kept) {op : ClaimOp τ} (t : τ) (type : ObdClaimType)
    (hattempt : op.IsAttempt)
    (hsame : ∀ out, out = .nested ∨ out = .monitorBlocks ∨ out = .busy →
      w.chip.obdCoreClaim t type = (w.chip, out) →
      (op.apply w).holder = w.holder ∧ (op.apply w).chip = w.chip) : op.EndsRightly w := by
  intro holder c hholder hclaim
  have hspec := w.chip.obdCoreClaim_spec t type
  generalize hr : w.chip.obdCoreClaim t type = r at hspec
  cases hspec with
  | nested =>
    obtain ⟨hh, hc⟩ := hsame _ (.inl rfl) hr
    exact .inl ⟨hh.trans hholder, hc ▸ hclaim⟩
  | stolen hexpired =>
    refine .inr (.inr (.inr ⟨hattempt, ?_, hexpired⟩))
    obtain ⟨u, hu⟩ := ne_none_iff_exists'.mp hexpired.2.1
    rw [hu, ← (h.txn u hu).2, hholder]
  | granted hnone =>
    rw [hnone] at hclaim
    cases hclaim
  | refused outcome hout =>
    obtain ⟨hh, hc⟩ := hsame _ (.inr hout) hr
    exact .inl ⟨hh.trans hholder, hc ▸ hclaim⟩

/-- **A claim ends rightly** exactly when no request of a stolen transaction is given back late. -/
theorem endsRightly_iff (h : w.Kept) {op : ClaimOp τ} (hallowed : op.Allowed w) :
    op.EndsRightly w ↔ op.Timely w := by
  cases op with
  | pass us => exact iff_of_true (fun _ _ hholder hclaim => .inl ⟨hholder, hclaim⟩) trivial
  | claim t type =>
    refine iff_of_true (endsRightly_attempt h t type trivial fun out hout hr => ?_) trivial
    rw [apply, hr]
    rcases hout with rfl | rfl | rfl <;> exact ⟨rfl, rfl⟩
  | txnClaim t =>
    refine iff_of_true (endsRightly_attempt h t .command trivial fun out hout hr => ?_) trivial
    rw [apply, hr]
    rcases hout with rfl | rfl | rfl <;> exact ⟨rfl, rfl⟩
  | release t g =>
    obtain ⟨hpc, hmem, htxn⟩ := hallowed
    cases g with
    | txn => exact absurd rfl htxn
    | plain c =>
      refine iff_of_true (fun holder c' hholder hclaim => .inr (.inl ?_)) trivial
      obtain ⟨-, hclaim', hholder'⟩ := h.plain t c hmem
      rw [some.inj (hholder.symm.trans hholder'), some.inj (hclaim.symm.trans hclaim')]
    | nested =>
      constructor
      · intro hends
        by_contra hlate
        obtain ⟨hother, hsome⟩ := not_or.mp hlate
        obtain ⟨c, hclaim⟩ := ne_none_iff_exists'.mp hsome
        obtain ⟨holder, hholder⟩ := ne_none_iff_exists'.mp fun hnone => hsome (h.none_iff.mpr hnone)
        -- the chip is free after it
        rcases hends holder c hholder hclaim with ⟨-, hkeeps⟩ | hrel | hend | ⟨hattempt, -⟩
        · rw [apply, ObdClaim.obdCoreRelease_other hother] at hkeeps
          cases hkeeps
        · cases hrel
        · cases hend
        · exact hattempt
      · intro htimely holder c hholder hclaim
        have hsame : w.chip.obdCoreRelease t = w.chip :=
          htimely.elim ObdClaim.obdCoreRelease_own ObdClaim.obdCoreRelease_none
        rw [apply, hsame]
        exact .inl (after_holder hholder hclaim)
  | txnCheck t =>
    refine iff_of_true (fun holder c hholder hclaim => .inl ?_) trivial
    rw [apply]
    split_ifs <;> exact ⟨hholder, hclaim⟩
  | txnGiveUp t => exact iff_of_true (fun _ _ hholder hclaim => .inl ⟨hholder, hclaim⟩) trivial
  | txnOwn t => exact iff_of_true (fun _ _ hholder hclaim => .inl ⟨hholder, hclaim⟩) trivial
  | txnEnd t =>
    refine iff_of_true (fun holder c hholder hclaim => ?_) trivial
    by_cases hown : w.chip.txnTask = some t
    · obtain ⟨-, hholder'⟩ := h.txn t hown
      rw [some.inj (hholder.symm.trans hholder')]
      exact .inr (.inr (.inl rfl))
    · rw [apply, ObdClaim.obdChipTxnEnd, if_neg hown]
      exact .inl (after_holder hholder hclaim)

end ClaimOp

/-- A step of the tasks that gives nested requests back in time. -/
def ClaimStep (w : ClaimWorld τ) (op : ClaimOp τ) (w' : ClaimWorld τ) : Prop :=
  op.Allowed w ∧ op.Timely w ∧ w' = op.apply w

/-- **The claim is exclusive.** In every run in which nested requests are given
back in time, a claim that was granted ends by its holder's hand or as an expired
transaction that is stolen; the first section that is late ends another's claim. -/
theorem obdClaim_exclusive {t₀ : ℤ} {ops : List (ClaimOp τ)} {w : ClaimWorld τ}
    (hrun : Run ClaimStep (ClaimWorld.init t₀) ops w) {op : ClaimOp τ} (hop : op.Allowed w) :
    (w.chip.claim = none ↔ w.holder = none) ∧ (op.EndsRightly w ↔ op.Timely w) := by
  have hkept : w.Kept := by
    refine hrun.inv (I := ClaimWorld.Kept) (fun w op w' hstep h => ?_) (.init t₀)
    obtain ⟨hallowed, htimely, rfl⟩ := hstep
    exact ClaimOp.kept h hallowed htimely
  exact ⟨hkept.none_iff, ClaimOp.endsRightly_iff hkept hop⟩

/-! ## A transaction that is held too long -/

/-- Task 0 sends a request in its transaction, and the transaction expires. -/
def heldTooLong : List (ClaimOp ℕ) :=
  [.txnCheck 0, .txnClaim 0, .txnOwn 0, .claim 0 .command, .pass 12000001]

theorem heldTooLong_run : Run ClaimStep (ClaimWorld.init 0) heldTooLong
    (heldTooLong.foldl ClaimOp.apply (ClaimWorld.init 0)) :=
  .cons ⟨rfl, trivial, rfl⟩ (.cons ⟨rfl, trivial, rfl⟩ (.cons ⟨rfl, trivial, rfl⟩
    (.cons ⟨rfl, trivial, rfl⟩ (.cons ⟨trivial, trivial, rfl⟩ (.nil _)))))

/-- Another task may steal the transaction. -/
theorem obdClaim_exclusive_steal :
    (ClaimOp.claim 1 .exclusive).EndsRightly
      (heldTooLong.foldl ClaimOp.apply (ClaimWorld.init 0)) := by
  have hop : (ClaimOp.claim 1 .exclusive).Allowed
      (heldTooLong.foldl ClaimOp.apply (ClaimWorld.init 0)) := rfl
  exact (obdClaim_exclusive heldTooLong_run hop).2.mpr trivial

/-- The stolen transaction's request comes back and clears the firmware update's claim. -/
theorem obdClaim_cleared :
    ∃ w : ClaimWorld ℕ, Run (fun w op w' => op.Allowed w ∧ w' = op.apply w) (ClaimWorld.init 0)
        (heldTooLong ++ [ClaimOp.claim 1 .exclusive]) w ∧
      w.chip.claim = some .exclusive ∧ w.holder = some 1 ∧ (ClaimOp.release 0 .nested).Allowed w ∧
      ((ClaimOp.release 0 .nested).apply w).chip.claim = none ∧
      ¬ (ClaimOp.release 0 .nested).EndsRightly w := by
  refine ⟨_, .cons ⟨rfl, rfl⟩ (.cons ⟨rfl, rfl⟩ (.cons ⟨rfl, rfl⟩ (.cons ⟨rfl, rfl⟩
    (.cons ⟨trivial, rfl⟩ (.cons ⟨rfl, rfl⟩ (.nil _)))))), rfl, rfl,
    ⟨rfl, mem_cons_self, nofun⟩, rfl, fun hends => ?_⟩
  rcases hends 1 .exclusive rfl rfl with ⟨-, hkeeps⟩ | hrel | hend | ⟨hattempt, -⟩
  · cases hkeeps
  · cases hrel
  · cases hend
  · exact hattempt

end Meatpi
