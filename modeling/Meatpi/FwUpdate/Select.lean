import Meatpi.FwUpdate.Manifest
import Meatpi.Library.Stepping

/-!
# Which release to install (`fw_update_core.c`, the selection)

The newest release the channel offers, unless the installed version is below the one it
needs: then the newest one below it, and so on down to a release that can be installed
as things stand, a stepping stone.
-/

namespace Meatpi

open Bool List

variable {r : FwuRelease} {high low v : FwuVersion} {rel : List FwuRelease} {channel : ℕ}

/-! ## The selection -/

def candidate (channel : ℕ) (r : FwuRelease) : Bool :=
  !r.yanked && fwuChannelVisible channel r.channel

/-- `newest_between`, in a table that is sorted newest first. -/
def newestBetween (rel : List FwuRelease) (channel : ℕ) (low high : FwuVersion) :
    Option (Fin rel.length) :=
  rel.findFinIdx? fun r => candidate channel r && fwuVersionCmp r.version low == .gt &&
    fwuVersionCmp r.version high == .lt

/-- `fwu_layout_verdict`: the verdict, and the labels that are wiped. -/
def fwuLayoutVerdict (r : FwuRelease) (flashedMd5 : List Char) : FwuLayout × List Char :=
  if flashedMd5 = [] then (.unknown, [])
  else if r.layoutMd5 = flashedMd5 then (.none, [])
  else match r.layoutFrom.find? fun f => decide (f.md5 = flashedMd5) with
    | some f => (f.migration, if f.migration = .wipe then f.wipes else [])
    | none => (.unknown, [])

/-- `fwu_selection_t`; the releases are indices into the table. -/
structure FwuSelection (ι : Type) where
  available : Bool
  installable : Bool
  target : Option ι
  latest : Option ι
  me : Option ι
  step : Bool
  installedKnown : Bool
  installedParsed : Bool
  devBuild : Bool
  installedYanked : Bool
  verdict : FwuLayout
  wipes : List Char
  reason : String

/-- The releases the table holds below a version. -/
def belowVersion (rel : List FwuRelease) (v : FwuVersion) : ℕ :=
  rel.countP fun r => fwuVersionCmp r.version v == .lt

theorem belowVersion_lt (hr : r ∈ rel) (h : fwuVersionCmp r.version v = .lt) :
    belowVersion rel r.version < belowVersion rel v := by
  have hlt := fwuVersionCmp_lt.mp h
  have hmono : ∀ l : List FwuRelease, l.countP (fun q => fwuVersionCmp q.version r.version == .lt) ≤
        l.countP fun q => fwuVersionCmp q.version v == .lt := by
    intro l
    apply countP_mono_left
    intro q _ hq
    rw [beq_iff_eq, fwuVersionCmp_lt] at hq ⊢
    exact hq.trans hlt
  have hself : fwuVersionCmp r.version r.version ≠ .lt := by
    rw [ne_eq, fwuVersionCmp_lt]
    exact lt_irrefl _
  obtain ⟨before, after, rfl⟩ := append_of_mem hr
  have h1 := hmono before
  have h2 := hmono after
  rw [belowVersion, belowVersion, countP_append, countP_append,
    countP_cons_of_neg (by simpa using hself), countP_cons_of_pos (by simpa using h)]
  omega

theorem newestBetween_lt {i : Fin rel.length} (h : newestBetween rel channel low high = some i) :
    fwuVersionCmp rel[i].version high = .lt := by
  have hp := (List.findFinIdx?_eq_some_iff.mp h).1
  simp only [and_eq_true, beq_iff_eq] at hp
  exact hp.2

/-- The release needs a version above the installed one. -/
def needsMore (r : FwuRelease) (installed : FwuVersion) : Bool :=
  match r.min with
  | none => false
  | some m => fwuVersionCmp m installed == .gt

/-- The loop from the latest release down: the target, if there is a path, and whether a
stepping stone was taken. -/
def stepDown (rel : List FwuRelease) (channel : ℕ) (installed : FwuVersion)
    (target : Fin rel.length) (step : Bool) : Option (Fin rel.length) × Bool :=
  if needsMore rel[target] installed then
    match h : newestBetween rel channel installed rel[target].version with
    | none => (none, step)
    | some between => stepDown rel channel installed between true
  else (some target, step)
termination_by belowVersion rel rel[target].version
decreasing_by exact belowVersion_lt (List.getElem_mem _) (newestBetween_lt h)

/-- The installed release, by its exact `fw_version`. -/
def findMe (rel : List FwuRelease) (s : List Char) : Option (Fin rel.length) :=
  rel.findFinIdx? fun r => decide (r.fwVersion = s)

/-- What is known of the installed firmware. -/
structure FwuInstalled where
  version : FwuVersion
  yanked : Bool
  dev : Bool
  deriving DecidableEq

/-- The installed release, else what its words say. -/
def installedOf (rel : List FwuRelease) (s : List Char) : Option FwuInstalled :=
  match findMe rel s with
  | some i => some ⟨rel[i].version, rel[i].yanked, false⟩
  | none => (fwuVersionParseTolerant s).map fun v => ⟨v, false, v.dev⟩

/-- The selection for the target `t`. -/
def FwuSelection.offer (out : FwuSelection ℕ) (rel : List FwuRelease) (t : Fin rel.length)
    (step : Bool) (flashedMd5 : List Char) : FwuSelection ℕ :=
  let verdict := fwuLayoutVerdict rel[t] flashedMd5
  let out := { out with
    available := true, target := some t.val, step := step, verdict := verdict.1
    wipes := verdict.2 }
  match verdict.1 with
  | .serial => { out with reason := "layout_serial" }
  | .unknown => { out with reason := "layout_unknown" }
  | .none | .lossless | .wipe => { out with installable := true }

/-- Nothing selected. -/
def FwuSelection.init : FwuSelection ℕ :=
  ⟨false, false, none, none, none, false, false, false, false, false, .none, [], ""⟩

/-- What is said of the installed and the latest release whatever is selected. -/
def FwuSelection.base (rel : List FwuRelease) (channel : ℕ) (installed : Option (List Char)) :
    FwuSelection ℕ :=
  let me := installed.bind (findMe rel)
  let known := installed.bind (installedOf rel)
  { FwuSelection.init with
    me := me.map Fin.val
    latest := (rel.findFinIdx? (candidate channel)).map Fin.val
    installedKnown := me.isSome
    installedParsed := known.isSome
    installedYanked := (known.map FwuInstalled.yanked).getD false
    devBuild := (known.map FwuInstalled.dev).getD false }

/-- The selection from the table of a manifest. -/
def selectIn (rel : List FwuRelease) (channel : ℕ) (installedFwVersion : Option (List Char))
    (flashedMd5 : List Char) : FwuSelection ℕ :=
  let out := FwuSelection.base rel channel installedFwVersion
  match rel.findFinIdx? (candidate channel), installedFwVersion.bind (installedOf rel) with
  | none, _ => { out with reason := "no_release" }
  | some _, none => { out with reason := "unknown_version" }
  | some latest, some i =>
    -- a yanked installed release is replaced even by a lower target
    if fwuVersionCmp rel[latest].version i.version ≠ .gt ∧ !i.yanked then
      { out with reason := "up_to_date" }
    else match stepDown rel channel i.version latest false with
      | (none, step) => { out with step := step, reason := "no_path" }
      | (some t, step) => out.offer rel t step flashedMd5

def fwuSelect (m : Option FwuManifest) (channel : ℕ) (installedFwVersion : Option (List Char))
    (flashedMd5 : List Char) : FwuSelection ℕ :=
  match m with
  | none => { FwuSelection.init with reason := "no_release" }
  | some m => selectIn m.rel channel installedFwVersion flashedMd5

/-- The selection, its indices replaced by the releases they stand for. -/
def FwuSelection.on (sel : FwuSelection ℕ) (rel : List FwuRelease) : FwuSelection FwuRelease :=
  { sel with
    target := sel.target.bind (rel[·]?)
    latest := sel.latest.bind (rel[·]?)
    me := sel.me.bind (rel[·]?) }

/-! ## What the selection says -/

open SwapSort (Descending)

theorem needsMore_iff : needsMore r v = true ↔ ∃ m, r.min = some m ∧ v.key < m.key := by
  cases hm : r.min with
  | none => simp [needsMore, hm]
  | some m => simp [needsMore, hm, fwuVersionCmp_gt]

theorem not_needsMore_iff : needsMore r v = false ↔ ∀ m, r.min = some m → m.key ≤ v.key := by
  rw [← not_eq_true, needsMore_iff]
  simp

/-- A release that can stand between: the channel offers it, and it is newer than the
installed version. -/
def Between (channel : ℕ) (v : FwuVersion) (r : FwuRelease) : Prop :=
  candidate channel r = true ∧ v.key < r.key

theorem newestBetween_some (hdesc : Descending FwuRelease.key rel) {i : Fin rel.length}
    (h : newestBetween rel channel low high = some i) :
    Between channel low rel[i] ∧ rel[i].key < high.key ∧
      ∀ r ∈ rel, Between channel low r → r.key < high.key → r.key ≤ rel[i].key := by
  obtain ⟨hp, hmax⟩ := hdesc.first_greatest h
  simp only [and_eq_true, beq_iff_eq, fwuVersionCmp_gt, fwuVersionCmp_lt] at hp hmax
  exact ⟨⟨hp.1.1, hp.1.2⟩, hp.2, fun r hr hb hlt => hmax r hr ⟨⟨hb.1, hb.2⟩, hlt⟩⟩

theorem newestBetween_none (h : newestBetween rel channel low high = none) :
    ∀ r ∈ rel, Between channel low r → ¬r.key < high.key := by
  intro r hr hb hlt
  have hno := List.findFinIdx?_eq_none_iff.mp h r hr
  simp only [and_eq_true, beq_iff_eq, fwuVersionCmp_gt, fwuVersionCmp_lt] at hno
  exact hno ⟨⟨hb.1, hb.2⟩, hlt⟩

/-- **The loop finds the newest release that can be installed as things stand**, and no
path only where there is none. -/
theorem stepDown_spec (hdesc : Descending FwuRelease.key rel)
    (hinj : ∀ a ∈ rel, ∀ b ∈ rel, a.key = b.key → a = b) (channel : ℕ) (v : FwuVersion) :
    ∀ (target : Fin rel.length) (step : Bool), Between channel v rel[target] →
      match (stepDown rel channel v target step).1 with
      | some t => Between channel v rel[t] ∧ needsMore rel[t] v = false ∧
          ∀ r ∈ rel, Between channel v r → r.key ≤ rel[target].key → needsMore r v = false →
            r.key ≤ rel[t].key
      | none => ∀ r ∈ rel, Between channel v r → r.key ≤ rel[target].key →
          needsMore r v = true := by
  intro target step
  fun_induction stepDown rel channel v target step with
  | case1 target step hneeds hnone =>
    intro hb r hr hrb hle
    rcases hle.lt_or_eq with hlt | heq
    · exact absurd hlt (newestBetween_none hnone r hr hrb)
    · have hsame : r = rel[target] := hinj r hr _ (getElem_mem _) heq
      rw [hsame]
      exact hneeds
  | case2 target step hneeds between hsome ih =>
    intro hb
    obtain ⟨hbetween, hlow, hmax⟩ := newestBetween_some hdesc hsome
    have ih := ih hbetween
    have hdown : ∀ r ∈ rel, Between channel v r → r.key ≤ rel[target].key →
        needsMore r v = false → r.key ≤ rel[between].key := by
      intro r hr hrb hle hno
      rcases hle.lt_or_eq with hlt | heq
      · exact hmax r hr hrb hlt
      · have hsame : r = rel[target] := hinj r hr _ (getElem_mem _) heq
        rw [hsame, hneeds] at hno
        cases hno
    cases hres : (stepDown rel channel v between true).1 with
    | some t =>
      rw [hres] at ih
      exact ⟨ih.1, ih.2.1, fun r hr hrb hle hno => ih.2.2 r hr hrb (hdown r hr hrb hle hno) hno⟩
    | none =>
      rw [hres] at ih
      intro r hr hrb hle
      by_contra hno
      rw [not_eq_true] at hno
      rw [ih r hr hrb (hdown r hr hrb hle hno)] at hno
      cases hno
  | case3 target step hneeds =>
    intro hb
    exact ⟨hb, eq_false_iff.mpr hneeds, fun r _ _ hle _ => hle⟩

theorem FwuSelection.offer_eq (out : FwuSelection ℕ) (rel : List FwuRelease) (t : Fin rel.length)
    (step : Bool) (flashedMd5 : List Char) : let sel := out.offer rel t step flashedMd5
    sel.target = some t.val ∧ sel.latest = out.latest ∧ sel.me = out.me ∧
      (sel.reason = "no_path" → out.reason = "no_path") := by
  rw [FwuSelection.offer]
  cases (fwuLayoutVerdict rel[t] flashedMd5).1 <;> simp

/-- The latest release is not above the installed one, and nothing has to be replaced. -/
def UpToDate (latest : FwuRelease) (i : FwuInstalled) : Prop :=
  latest.key ≤ i.version.key ∧ i.yanked = false

/-- **What the selection can be**: nothing to offer, no path from the installed version, or
the target the loop found. -/
theorem fwuSelect_cases (m : FwuManifest) (channel : ℕ) (s flashed : List Char)
    {sel : FwuSelection ℕ} (hsel : fwuSelect (some m) channel (some s) flashed = sel) :
    sel.latest = (m.rel.findFinIdx? (candidate channel)).map Fin.val ∧
      sel.me = (findMe m.rel s).map Fin.val ∧
      ((sel.target = none ∧ sel.reason ≠ "no_path" ∧
          ∀ l i, m.rel.findFinIdx? (candidate channel) = some l → installedOf m.rel s = some i →
            UpToDate m.rel[l] i) ∨
        ∃ l i, m.rel.findFinIdx? (candidate channel) = some l ∧ installedOf m.rel s = some i ∧
          ¬UpToDate m.rel[l] i ∧
          match (stepDown m.rel channel i.version l false).1 with
          | none => sel.target = none
          | some t => sel.target = some t.val ∧ sel.reason ≠ "no_path") := by
  have hlatest : (FwuSelection.base m.rel channel (some s)).latest =
      (m.rel.findFinIdx? (candidate channel)).map Fin.val := rfl
  have hme : (FwuSelection.base m.rel channel (some s)).me = (findMe m.rel s).map Fin.val := rfl
  have hnone : (FwuSelection.base m.rel channel (some s)).target = none := rfl
  have hreason : (FwuSelection.base m.rel channel (some s)).reason ≠ "no_path" := by
    have hword : "" ≠ "no_path" := by decide
    exact hword
  rw [fwuSelect, selectIn] at hsel
  generalize FwuSelection.base m.rel channel (some s) = out at *
  simp only [Option.bind_some] at hsel
  cases hl : m.rel.findFinIdx? (candidate channel) with
  | none =>
    have hword : "no_release" ≠ "no_path" := by decide
    rw [hl] at hlatest hsel
    subst hsel
    exact ⟨hlatest, hme, .inl ⟨hnone, hword, fun l i h => by cases h⟩⟩
  | some l =>
    rw [hl] at hlatest hsel
    cases hi : installedOf m.rel s with
    | none =>
      have hword : "unknown_version" ≠ "no_path" := by decide
      rw [hi] at hsel
      subst hsel
      exact ⟨hlatest, hme, .inl ⟨hnone, hword, fun l i _ h => by cases h⟩⟩
    | some i =>
      rw [hi] at hsel
      dsimp only at hsel
      have hiff : (fwuVersionCmp m.rel[l].version i.version ≠ .gt ∧ (!i.yanked) = true) ↔
          UpToDate m.rel[l] i := by
        rw [ne_eq, fwuVersionCmp_gt, not_lt, not_eq_true']
        rfl
      by_cases hup : fwuVersionCmp m.rel[l].version i.version ≠ .gt ∧ (!i.yanked) = true
      · have hword : "up_to_date" ≠ "no_path" := by decide
        rw [if_pos hup] at hsel
        subst hsel
        refine ⟨hlatest, hme, .inl ⟨hnone, hword, fun l' i' hl' hi' => ?_⟩⟩
        cases hl'
        cases hi'
        exact hiff.mp hup
      · rw [if_neg hup] at hsel
        rw [hiff] at hup
        cases hstep : stepDown m.rel channel i.version l false with
        | mk found step =>
          cases found with
          | none =>
            rw [hstep] at hsel
            subst hsel
            refine ⟨hlatest, hme, .inr ⟨l, i, rfl, rfl, hup, ?_⟩⟩
            rw [hstep]
            exact hnone
          | some t =>
            rw [hstep] at hsel
            subst hsel
            obtain ⟨htarget, hlatest', hme', hreason'⟩ := out.offer_eq m.rel t step flashed
            refine ⟨hlatest'.trans hlatest, hme'.trans hme, .inr ⟨l, i, rfl, rfl, hup, ?_⟩⟩
            rw [hstep]
            exact ⟨htarget, fun h => hreason (hreason' h)⟩

end Meatpi
