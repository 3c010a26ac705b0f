import Meatpi.FwUpdate.Select
import Meatpi.Library.JsonText

/-!
# The path of updates

Over the table of a manifest the selection is the greedy step of `Stepping`: the target
is the newest release one can install from where one is, and installing one target after
the other ends at the latest release wherever a chain of installs leads there. Over the
document this holds as long as the table, which fills in the order of the document before
it is sorted, holds every release.
-/

namespace Meatpi

open List Option SwapSort

open Stepping (Step Chain Newest Greedy)

variable {v : FwuVersion}

/-! ## Over a table -/

/-- What a release needs, in the order of the versions. -/
def FwuRelease.need (r : FwuRelease) : Option (ℕ ×ₗ ℕ ×ₗ ℕ ×ₗ ℕ ×ₗ ℕ) := r.min.map FwuVersion.key

/-- A release among `rs` that the channel offers: visible, and not yanked. -/
def Offered (rs : List FwuRelease) (channel : ℕ) (r : FwuRelease) : Prop :=
  r ∈ rs ∧ candidate channel r = true

variable {r : FwuRelease}

theorem FwuRelease.need_lt {k : ℕ ×ₗ ℕ ×ₗ ℕ ×ₗ ℕ ×ₗ ℕ} (h : r.need = some k) : k < r.key := by
  obtain ⟨m, hm, rfl⟩ := map_eq_some_iff.mp h
  exact fwuVersionCmp_lt.mp (r.min_lt m hm)

theorem need_le_iff : (∀ k, r.need = some k → k ≤ v.key) ↔ needsMore r v = false := by
  rw [not_needsMore_iff]
  constructor
  · intro h m hm
    exact h m.key (by rw [FwuRelease.need, hm]; rfl)
  · intro h k hk
    obtain ⟨m, hm, rfl⟩ := map_eq_some_iff.mp hk
    exact h m hm

variable {rs : List FwuRelease}

theorem step_iff {channel : ℕ} :
    Offered rs channel r ∧ Step FwuRelease.key FwuRelease.need v.key r ↔
      r ∈ rs ∧ Between channel v r ∧ needsMore r v = false := by
  rw [Offered, Step, Between, need_le_iff]
  tauto

/-- A table as it is parsed: newest first, no two releases of one version and no two that a
device reports alike. -/
structure SortedTable (rel : List FwuRelease) : Prop where
  sorted : SwapSort.Descending FwuRelease.key rel
  version : ∀ a ∈ rel, ∀ b ∈ rel, a.key = b.key → a = b
  reported : ∀ a ∈ rel, ∀ b ∈ rel, a.fwVersion = b.fwVersion → a = b

variable {l : FwuRelease}

section

variable {m : FwuManifest} {channel : ℕ} {s flashed : List Char}

theorem select_latest_iff (h : SortedTable m.rel) (r : FwuRelease) :
    ((fwuSelect (some m) channel (some s) flashed).on m.rel).latest = some r ↔
      Offered m.rel channel r ∧ ∀ q, Offered m.rel channel q → q.key ≤ r.key := by
  have hlatest := (fwuSelect_cases m channel s flashed rfl).1
  have hon : ((fwuSelect (some m) channel (some s) flashed).on m.rel).latest =
      (m.rel.findFinIdx? (candidate channel)).map fun i => m.rel[i] := by
    rw [FwuSelection.on, hlatest]
    cases m.rel.findFinIdx? (candidate channel) with
    | none => rfl
    | some i => exact List.getElem?_eq_getElem i.isLt
  rw [hon]
  cases hl : m.rel.findFinIdx? (candidate channel) with
  | none =>
    have hnone := List.findFinIdx?_eq_none_iff.mp hl
    exact ⟨fun hsome => (by cases hsome), fun hr => absurd hr.1.2 (hnone r hr.1.1)⟩
  | some i =>
    obtain ⟨hp, hmax⟩ := h.sorted.first_greatest hl
    constructor
    · intro hsome
      cases hsome
      exact ⟨⟨getElem_mem _, hp⟩, fun q hq => hmax q hq.1 hq.2⟩
    · rintro ⟨⟨hr, hcand⟩, htop⟩
      have hkey : m.rel[i].key = r.key := le_antisymm (htop _ ⟨getElem_mem _, hp⟩) (hmax r hr hcand)
      exact congrArg some (h.version _ (getElem_mem _) r hr hkey)

theorem select_me_iff (h : SortedTable m.rel) (r : FwuRelease) :
    ((fwuSelect (some m) channel (some s) flashed).on m.rel).me = some r ↔
      r ∈ m.rel ∧ r.fwVersion = s := by
  have hme := (fwuSelect_cases m channel s flashed rfl).2.1
  have hon : ((fwuSelect (some m) channel (some s) flashed).on m.rel).me =
      (findMe m.rel s).map fun i => m.rel[i] := by
    rw [FwuSelection.on, hme]
    cases findMe m.rel s with
    | none => rfl
    | some i => exact List.getElem?_eq_getElem i.isLt
  rw [hon]
  cases hf : findMe m.rel s with
  | none =>
    have hnone := List.findFinIdx?_eq_none_iff.mp hf
    refine ⟨fun hsome => (by cases hsome), fun hr => ?_⟩
    have := hnone r hr.1
    simp [hr.2] at this
  | some i =>
    have hp := of_decide_eq_true (List.findFinIdx?_eq_some_iff.mp hf).1
    constructor
    · intro hsome
      cases hsome
      exact ⟨getElem_mem _, hp⟩
    · rintro ⟨hr, hrs⟩
      exact congrArg some (h.reported _ (getElem_mem _) r hr (hp.trans hrs.symm))

/-- **What a target is**: the newest release that can be installed now, or, in the place of
a yanked release, a lower one. -/
theorem select_target (h : SortedTable m.rel) {i : FwuInstalled} (hi : installedOf m.rel s = some i)
    {t : FwuRelease}
    (ht : ((fwuSelect (some m) channel (some s) flashed).on m.rel).target = some t) :
    Offered m.rel channel t ∧ (i.version.key < t.key ∨ i.yanked = true) ∧
      (∀ k, t.need = some k → k ≤ i.version.key) := by
  obtain ⟨-, -, hcases⟩ := fwuSelect_cases m channel s flashed rfl
  rcases hcases with ⟨hnone, -, -⟩ | ⟨l, i', hl, hi', hup, hres⟩
  · rw [FwuSelection.on, hnone] at ht
    cases ht
  rw [hi] at hi'
  cases hi'
  obtain ⟨hcand, -⟩ := h.sorted.first_greatest hl
  by_cases hlow : m.rel[l].key ≤ i.version.key
  · -- a yanked release is replaced by the latest, whatever it needs
    have hno : needsMore m.rel[l] i.version = false := by
      rw [← need_le_iff]
      exact fun k hk => (FwuRelease.need_lt hk).le.trans hlow
    have hyanked : i.yanked = true := by
      by_contra hnot
      exact hup ⟨hlow, Bool.eq_false_iff.mpr hnot⟩
    have hstep : stepDown m.rel channel i.version l false = (some l, false) := by
      rw [stepDown, if_neg (by rw [hno]; decide)]
    rw [hstep] at hres
    rw [FwuSelection.on, hres.1] at ht
    have hlt : m.rel[l] = t := some.inj ((List.getElem?_eq_getElem l.isLt).symm.trans ht)
    rw [← hlt]
    exact ⟨⟨getElem_mem _, hcand⟩, .inr hyanked, need_le_iff.mpr hno⟩
  · have hspec := stepDown_spec h.sorted h.version channel i.version l false ⟨hcand, not_le.mp hlow⟩
    cases hfound : (stepDown m.rel channel i.version l false).1 with
    | none =>
      rw [hfound] at hres
      rw [FwuSelection.on, show (fwuSelect (some m) channel (some s) flashed).target = none
        from hres] at ht
      cases ht
    | some j =>
      rw [hfound] at hres hspec
      rw [FwuSelection.on, hres.1] at ht
      have hjt : m.rel[j] = t := some.inj ((List.getElem?_eq_getElem j.isLt).symm.trans ht)
      rw [← hjt]
      exact ⟨⟨getElem_mem _, hspec.1.1⟩, .inl hspec.1.2, need_le_iff.mpr hspec.2.1⟩

/-- **Where some release can be installed the newest such is the target**, and the reason is
not that there is no path. -/
theorem select_newest (flashed : List Char) (h : SortedTable m.rel) {i : FwuInstalled}
    (hi : installedOf m.rel s = some i)
    (hstep : ∃ r, Offered m.rel channel r ∧ Step FwuRelease.key FwuRelease.need i.version.key r) :
    (fwuSelect (some m) channel (some s) flashed).reason ≠ "no_path" ∧
      ∃ t, ((fwuSelect (some m) channel (some s) flashed).on m.rel).target = some t ∧
        Newest FwuRelease.key FwuRelease.need (Offered m.rel channel) i.version.key t := by
  obtain ⟨r, hr⟩ := hstep
  obtain ⟨hmem, hbetween, hno⟩ := step_iff.mp hr
  obtain ⟨-, -, hcases⟩ := fwuSelect_cases m channel s flashed rfl
  have habove : ∀ l, m.rel.findFinIdx? (candidate channel) = some l → r.key ≤ m.rel[l].key :=
    fun l hl => (h.sorted.first_greatest hl).2 r hmem hbetween.1
  rcases hcases with ⟨-, -, hup⟩ | ⟨l, i', hl, hi', -, hres⟩
  · cases hl : m.rel.findFinIdx? (candidate channel) with
    | none => exact absurd hbetween.1 (List.findFinIdx?_eq_none_iff.mp hl r hmem)
    | some l =>
      exact absurd (hup l i hl hi).1 (not_le.mpr (hbetween.2.trans_le (habove l hl)))
  rw [hi] at hi'
  cases hi'
  have hspec := stepDown_spec h.sorted h.version channel i.version l false
    ⟨(h.sorted.first_greatest hl).1, hbetween.2.trans_le (habove l hl)⟩
  cases hfound : (stepDown m.rel channel i.version l false).1 with
  | none =>
    rw [hfound] at hspec
    rw [hspec r hmem hbetween (habove l hl)] at hno
    cases hno
  | some j =>
    rw [hfound] at hres hspec
    obtain ⟨hj, hjno, hmax⟩ := hspec
    refine ⟨hres.2, m.rel[j], ?_, ?_⟩
    · rw [FwuSelection.on, hres.1]
      exact List.getElem?_eq_getElem j.isLt
    · have hstep := step_iff.mpr ⟨getElem_mem _, hj, hjno⟩
      refine ⟨hstep.1, hstep.2, fun q hq hqstep => ?_⟩
      obtain ⟨hqmem, hqb, hqno⟩ := step_iff.mp ⟨hq, hqstep⟩
      exact hmax q hqmem hqb ((h.sorted.first_greatest hl).2 q hqmem hqb.1) hqno

theorem select_latest_done (h : SortedTable m.rel)
    (htop : ∀ q, Offered m.rel channel q → q.key ≤ l.key) {i : FwuInstalled}
    (hi : installedOf m.rel s = some i) (hversion : i.version = l.version)
    (hyanked : i.yanked = false) :
    ((fwuSelect (some m) channel (some s) flashed).on m.rel).target = none := by
  cases ht : ((fwuSelect (some m) channel (some s) flashed).on m.rel).target with
  | none => rfl
  | some t =>
    obtain ⟨hoffered, habove, -⟩ := select_target h hi ht
    rcases habove with hlt | hy
    · rw [hversion] at hlt
      exact absurd (htop t hoffered) (not_le.mpr hlt)
    · rw [hyanked] at hy
      cases hy

/-! ### Installing -/

/-- The device is given the target and reports it from then on. -/
def installTarget (m : FwuManifest) (channel : ℕ) (flashed s : List Char) : List Char :=
  match ((fwuSelect (some m) channel (some s) flashed).on m.rel).target with
  | some t => t.fwVersion
  | none => s

/-- What it reports after `k` targets, whatever layouts are in flash on the way. -/
def afterInstalls (m : FwuManifest) (channel : ℕ) :
    ℕ → (ℕ → List Char) → List Char → List Char
  | 0, _, s => s
  | k + 1, flashed, s =>
    afterInstalls m channel k (fun j => flashed (j + 1)) (installTarget m channel (flashed 0) s)

theorem installedOf_release (h : SortedTable m.rel) (hr : r ∈ m.rel) :
    installedOf m.rel r.fwVersion = some ⟨r.version, r.yanked, false⟩ := by
  rw [installedOf]
  cases hme : findMe m.rel r.fwVersion with
  | none =>
    have := List.findFinIdx?_eq_none_iff.mp hme r hr
    simp at this
  | some i =>
    have hp := (List.findFinIdx?_eq_some_iff.mp hme).1
    have hsame : m.rel[i] = r := h.reported _ (getElem_mem _) r hr (of_decide_eq_true hp)
    dsimp only
    rw [hsame]

theorem not_yanked_of_offered (h : Offered rs channel r) : r.yanked = false := by
  have := h.2
  rw [candidate, Bool.and_eq_true, Bool.not_eq_true'] at this
  exact this.1

theorem afterInstalls_latest (h : SortedTable m.rel) (hl : Offered m.rel channel l)
    (htop : ∀ q, Offered m.rel channel q → q.key ≤ l.key) :
    ∀ j flashed, afterInstalls m channel j flashed l.fwVersion = l.fwVersion := by
  intro j
  induction j with
  | zero => intro flashed; rfl
  | succ j ih =>
    intro flashed
    have hdone : installTarget m channel (flashed 0) l.fwVersion = l.fwVersion := by
      rw [installTarget, select_latest_done h htop (installedOf_release h hl.1) rfl
        (not_yanked_of_offered hl)]
    rw [afterInstalls, hdone, ih]

theorem afterInstalls_greedy (h : SortedTable m.rel) {k : ℕ} {key : ℕ ×ₗ ℕ ×ₗ ℕ ×ₗ ℕ ×ₗ ℕ}
    (hgreedy : Greedy FwuRelease.key FwuRelease.need (Offered m.rel channel) k key l)
    (htop : ∀ q, Offered m.rel channel q → q.key ≤ l.key) :
    ∀ {s : List Char} {i : FwuInstalled}, installedOf m.rel s = some i → i.version.key = key →
      ∀ j flashed, afterInstalls m channel (k + j) flashed s = l.fwVersion := by
  have hnext : ∀ {s : List Char} {i : FwuInstalled} {r : FwuRelease} (flashed : List Char),
      installedOf m.rel s = some i →
      Newest FwuRelease.key FwuRelease.need (Offered m.rel channel) i.version.key r →
      installTarget m channel flashed s = r.fwVersion := by
    intro s i r flashed hi hr
    obtain ⟨-, t, ht, hnewest⟩ := select_newest flashed h hi ⟨r, hr.1, hr.2.1⟩
    have hkey : t.key = r.key :=
      le_antisymm (hr.2.2 t hnewest.1 hnewest.2.1) (hnewest.2.2 r hr.1 hr.2.1)
    rw [installTarget, ht, h.version t hnewest.1.1 r hr.1.1 hkey]
  induction hgreedy with
  | one hr =>
    intro s i hi hkey j flashed
    rw [← hkey] at hr
    rw [Nat.add_comm, afterInstalls, hnext _ hi hr]
    exact afterInstalls_latest h hr.1 htop j _
  | more hr _ ih =>
    intro s i hi hkey j flashed
    rw [← hkey] at hr
    rw [Nat.add_right_comm, afterInstalls, hnext _ hi hr]
    exact ih htop (installedOf_release h hr.1.1) rfl j _

/-- **Installing targets ends at the latest release** wherever a chain leads there. -/
theorem installs_arrive (h : SortedTable m.rel) {i : FwuInstalled}
    (hi : installedOf m.rel s = some i) (htop : ∀ q, Offered m.rel channel q → q.key ≤ l.key)
    (hchain : Chain FwuRelease.key FwuRelease.need (Offered m.rel channel) i.version.key l) :
    ∃ k, ∀ flashed : ℕ → List Char, ∀ j, k ≤ j →
      afterInstalls m channel j flashed s = l.fwVersion := by
  have hfin : {r | Offered m.rel channel r}.Finite := (finite_toSet m.rel).subset fun r hr => hr.1
  obtain ⟨k, hk⟩ := hchain.greedy hfin (fun a b ha hb => h.version a ha.1 b hb.1) htop
  refine ⟨k, fun flashed j hj => ?_⟩
  obtain ⟨d, rfl⟩ := Nat.exists_eq_add_of_le hj
  exact afterInstalls_greedy h hk htop hi rfl d flashed

end

/-! ## Over a document -/

/-- The firmware that reports `s`: the release that reports so, or what the words say. -/
def Installed (rs : List FwuRelease) (s : List Char) (i : FwuInstalled) : Prop :=
  (∃ r ∈ rs, r.fwVersion = s ∧ i = ⟨r.version, r.yanked, false⟩) ∨
    ((∀ r ∈ rs, r.fwVersion ≠ s) ∧
      ∃ v, fwuVersionParseTolerant s = some v ∧ i = ⟨v, false, v.dev⟩)

/-- `fwu_select` over `fwu_manifest_parse`. -/
def selectFrom (cj : JsonCodec) (deviceType : List Char) (allowHttp : Bool) (channel : ℕ)
    (s flashed : List Char) (json : List UInt8) : FwuSelection FwuRelease :=
  let m := (fwuManifestParse cj.parse json deviceType allowHttp).2.1
  (fwuSelect (some m) channel (some s) flashed).on m.rel

/-- The releases differ in their versions and in what a device reports. -/
structure DistinctReleases (rs : List FwuRelease) : Prop where
  version : (rs.map FwuRelease.key).Nodup
  reported : (rs.map FwuRelease.fwVersion).Nodup

/-- **What the selection is for**, on the document `json` with the entries `items`: the
latest is the newest release offered; a target can be installed now; no path means that
there is none; the targets lead to the latest wherever a chain does; and the order of the
entries does not matter. -/
structure FindsPath (cj : JsonCodec) (deviceType : List Char) (allowHttp : Bool) (channel : ℕ)
    (s flashed : List Char) (i : FwuInstalled) (json : List UInt8) (items : List Json) : Prop where
  latest : ∀ r, (selectFrom cj deviceType allowHttp channel s flashed json).latest = some r ↔
    Offered (releasesOf allowHttp items) channel r ∧
      ∀ q, Offered (releasesOf allowHttp items) channel q → q.key ≤ r.key
  target : ∀ t, (selectFrom cj deviceType allowHttp channel s flashed json).target = some t →
    Offered (releasesOf allowHttp items) channel t ∧
      (i.version.key < t.key ∨ i.yanked = true) ∧ ∀ k, t.need = some k → k ≤ i.version.key
  noPath : (selectFrom cj deviceType allowHttp channel s flashed json).reason = "no_path" →
    ¬∃ t, Chain FwuRelease.key FwuRelease.need (Offered (releasesOf allowHttp items) channel)
      i.version.key t
  arrives : ∀ l, (∀ q, Offered (releasesOf allowHttp items) channel q → q.key ≤ l.key) →
    Chain FwuRelease.key FwuRelease.need (Offered (releasesOf allowHttp items) channel)
      i.version.key l →
    ∃ k, ∀ layouts : ℕ → List Char, ∀ j, k ≤ j →
      afterInstalls (fwuManifestParse cj.parse json deviceType allowHttp).2.1 channel j layouts s =
        l.fwVersion
  order : ∀ json' root' items', cj.parse json' = some root' →
    ManifestDoc root' deviceType items' → items'.Perm items →
    selectFrom cj deviceType allowHttp channel s flashed json' =
      selectFrom cj deviceType allowHttp channel s flashed json

theorem installedOf_iff {rel : List FwuRelease} (h : SortedTable rel) {s : List Char}
    {i : FwuInstalled} : installedOf rel s = some i ↔ Installed rel s i := by
  constructor
  · intro hi
    rw [installedOf] at hi
    cases hme : findMe rel s with
    | none =>
      rw [hme] at hi
      obtain ⟨v, hv, rfl⟩ := map_eq_some_iff.mp hi
      refine .inr ⟨fun r hr heq => ?_, v, hv, rfl⟩
      have := List.findFinIdx?_eq_none_iff.mp hme r hr
      simp [heq] at this
    | some k =>
      rw [hme] at hi
      have hp := (List.findFinIdx?_eq_some_iff.mp hme).1
      cases hi
      exact .inl ⟨rel[k], getElem_mem _, of_decide_eq_true hp, rfl⟩
  · rintro (⟨r, hr, rfl, rfl⟩ | ⟨hno, v, hv, rfl⟩)
    · rw [installedOf]
      cases hme : findMe rel r.fwVersion with
      | none =>
        have := List.findFinIdx?_eq_none_iff.mp hme r hr
        simp at this
      | some k =>
        have hp := (List.findFinIdx?_eq_some_iff.mp hme).1
        have hsame : rel[k] = r := h.reported _ (getElem_mem _) r hr (of_decide_eq_true hp)
        dsimp only
        rw [hsame]
    · rw [installedOf]
      have hme : findMe rel s = none := by
        rw [findMe, List.findFinIdx?_eq_none_iff]
        intro r hr
        simpa using hno r hr
      rw [hme, hv]
      rfl

theorem sortedTable_take (h : DistinctReleases rs) (n : ℕ) :
    SortedTable (SwapSort.sort FwuRelease.key (rs.take n)) := by
  have hmem : ∀ r ∈ SwapSort.sort FwuRelease.key (rs.take n), r ∈ rs :=
    fun r hr => mem_of_mem_take ((sort_perm _).mem_iff.mp hr)
  exact ⟨sort_descending _, fun a ha b hb => inj_on_of_nodup_map h.version (hmem a ha) (hmem b hb),
    fun a ha b hb => inj_on_of_nodup_map h.reported (hmem a ha) (hmem b hb)⟩

theorem fwuSelect_rel {m m' : FwuManifest} (h : m.rel = m'.rel) (channel : ℕ)
    (s : Option (List Char)) (flashed : List Char) :
    fwuSelect (some m) channel s flashed = fwuSelect (some m') channel s flashed := by
  rw [fwuSelect, fwuSelect, h]

theorem selectFrom_eq {cj : JsonCodec} {json : List UInt8} {root : Json} {deviceType : List Char}
    {items : List Json} (hjson : cj.parse json = some root) (hdoc : ManifestDoc root deviceType items)
    {allowHttp : Bool} {channel : ℕ} {s flashed : List Char} {m : FwuManifest}
    (hm : m.rel = SwapSort.sort FwuRelease.key ((releasesOf allowHttp items).take fwuMaxReleases)) :
    selectFrom cj deviceType allowHttp channel s flashed json =
      (fwuSelect (some m) channel (some s) flashed).on m.rel := by
  have hrel := fwuManifestParse_rel hjson hdoc allowHttp
  rw [selectFrom, fwuSelect_rel (hrel.trans hm.symm), hrel, hm]

theorem fwuSelect_nothing {m : FwuManifest} {channel : ℕ} {s : List Char}
    (hno : ∀ r ∈ m.rel, candidate channel r = false) (hme : ∀ r ∈ m.rel, r.fwVersion ≠ s)
    (flashed : List Char) :
    fwuSelect (some m) channel (some s) flashed = { FwuSelection.init with
      installedParsed := (fwuVersionParseTolerant s).isSome
      devBuild := ((fwuVersionParseTolerant s).map FwuVersion.dev).getD false
      reason := "no_release" } := by
  have hl : m.rel.findFinIdx? (candidate channel) = none := by
    rw [List.findFinIdx?_eq_none_iff]
    intro r hr
    rw [hno r hr]
    decide
  have hf : findMe m.rel s = none := by
    rw [findMe, List.findFinIdx?_eq_none_iff]
    intro r hr
    simpa using hme r hr
  have hi : installedOf m.rel s = (fwuVersionParseTolerant s).map fun v => ⟨v, false, v.dev⟩ := by
    rw [installedOf, hf]
  have hbase : FwuSelection.base m.rel channel (some s) = { FwuSelection.init with
      installedParsed := (fwuVersionParseTolerant s).isSome
      devBuild := ((fwuVersionParseTolerant s).map FwuVersion.dev).getD false } := by
    simp only [FwuSelection.base, bind_some, hf, hi, hl]
    cases fwuVersionParseTolerant s <;> rfl
  simp only [fwuSelect, selectIn, hl, hbase]

section

variable {cj : JsonCodec} {json : List UInt8} {root : Json} {deviceType : List Char}
  {items : List Json} {allowHttp : Bool} {channel : ℕ} {s flashed : List Char} {i : FwuInstalled}

theorem findsPath_of_short (hjson : cj.parse json = some root)
    (hdoc : ManifestDoc root deviceType items) (hd : DistinctReleases (releasesOf allowHttp items))
    (hi : Installed (releasesOf allowHttp items) s i)
    (hshort : (releasesOf allowHttp items).length ≤ fwuMaxReleases) :
    FindsPath cj deviceType allowHttp channel s flashed i json items := by
  set m := (fwuManifestParse cj.parse json deviceType allowHttp).2.1 with hm
  have hrel : m.rel = SwapSort.sort FwuRelease.key
      ((releasesOf allowHttp items).take fwuMaxReleases) := fwuManifestParse_rel hjson hdoc allowHttp
  have hsorted : SortedTable m.rel := by
    rw [hrel]
    exact sortedTable_take hd _
  have hmem : ∀ r, r ∈ m.rel ↔ r ∈ releasesOf allowHttp items := by
    intro r
    rw [hrel, (sort_perm _).mem_iff, take_of_length_le hshort]
  have hoffered : Offered (releasesOf allowHttp items) channel = Offered m.rel channel := by
    funext r
    rw [Offered, Offered, hmem]
  have hinst : installedOf m.rel s = some i := by
    rw [installedOf_iff hsorted]
    simpa only [Installed, hmem] using hi
  have hsel : selectFrom cj deviceType allowHttp channel s flashed json =
      (fwuSelect (some m) channel (some s) flashed).on m.rel := rfl
  refine ⟨?_, ?_, ?_, ?_, ?_⟩
  · intro r
    rw [hoffered]
    exact select_latest_iff hsorted r
  · intro t ht
    rw [hoffered]
    exact select_target hsorted hinst ht
  · intro hreason
    rw [hoffered]
    rintro ⟨t, hchain⟩
    exact (select_newest flashed hsorted hinst hchain.first).1 hreason
  · intro l htop hchain
    rw [hoffered] at htop hchain
    exact installs_arrive hsorted hinst htop hchain
  · intro json' root' items' hjson' hdoc' hperm
    have hp : (releasesOf allowHttp items').Perm (releasesOf allowHttp items) := hperm.filterMap _
    have hsame : m.rel = SwapSort.sort FwuRelease.key
        ((releasesOf allowHttp items').take fwuMaxReleases) := by
      rw [hrel, take_of_length_le hshort, take_of_length_le (by rwa [hp.length_eq])]
      exact sort_eq_of_perm hp.symm fun a ha b hb => inj_on_of_nodup_map hd.version ha hb
    rw [hsel, selectFrom_eq hjson' hdoc' hsame]

theorem findsPath_of_nothing (hjson : cj.parse json = some root)
    (hdoc : ManifestDoc root deviceType items)
    (hno : ∀ r, ¬Offered (releasesOf allowHttp items) channel r)
    (hme : ∀ r ∈ releasesOf allowHttp items, r.fwVersion ≠ s) :
    FindsPath cj deviceType allowHttp channel s flashed i json items := by
  have hnothing : ∀ {json' : List UInt8} {root' : Json} {items' : List Json},
      cj.parse json' = some root' → ManifestDoc root' deviceType items' → items'.Perm items →
      selectFrom cj deviceType allowHttp channel s flashed json' = { FwuSelection.init with
          target := none, latest := none, me := none
          installedParsed := (fwuVersionParseTolerant s).isSome
          devBuild := ((fwuVersionParseTolerant s).map FwuVersion.dev).getD false
          reason := "no_release" } := by
    intro json' root' items' hjson' hdoc' hperm
    have hp : (releasesOf allowHttp items').Perm (releasesOf allowHttp items) := hperm.filterMap _
    have hrel := fwuManifestParse_rel hjson' hdoc' allowHttp
    have hmem : ∀ r ∈ (fwuManifestParse cj.parse json' deviceType allowHttp).2.1.rel,
        r ∈ releasesOf allowHttp items := by
      intro r hr
      rw [hrel, (sort_perm _).mem_iff] at hr
      exact hp.mem_iff.mp (mem_of_mem_take hr)
    have hcand : ∀ r ∈ (fwuManifestParse cj.parse json' deviceType allowHttp).2.1.rel,
        candidate channel r = false :=
      fun r hr => Bool.eq_false_iff.mpr fun hc => hno r ⟨hmem r hr, hc⟩
    rw [selectFrom, fwuSelect_nothing hcand (fun r hr => hme r (hmem r hr)) flashed]
    rfl
  have hsel := hnothing hjson hdoc (List.Perm.refl items)
  have hword : "no_release" ≠ "no_path" := by decide
  refine ⟨?_, ?_, ?_, ?_, ?_⟩
  · intro r
    rw [hsel]
    exact ⟨fun h => (by cases h), fun h => absurd h.1 (hno r)⟩
  · intro t ht
    rw [hsel] at ht
    cases ht
  · intro hreason
    rw [hsel] at hreason
    exact absurd hreason hword
  · intro l _ hchain
    exact absurd hchain.mem (hno l)
  · intro json' root' items' hjson' hdoc' hperm
    rw [hnothing hjson' hdoc' hperm, hsel]

end

/-! ## A table that is too small -/

/-- The plainest manifest with these entries. -/
def manifestWith (deviceType : List Char) (items : List Json) : Json :=
  .obj [("schema".toList, .num 1), ("device_type".toList, .str deviceType),
    ("releases".toList, .arr items)]

theorem manifestDoc_manifestWith {deviceType : List Char} (hlen : deviceType.length < 32)
    (items : List Json) : ManifestDoc (manifestWith deviceType items) deviceType items := by
  have h1 : ("device_type".toList == "schema".toList) = false := by decide
  have h2 : ("releases".toList == "schema".toList) = false := by decide
  have h3 : ("releases".toList == "device_type".toList) = false := by decide
  refine ⟨?_, ?_, ?_⟩
  · rw [manifestWith, Json.getItem]
    exact lookup_cons_self
  · have hitem : (manifestWith deviceType items).getItem "device_type".toList =
        some (.str deviceType) := by
      rw [manifestWith, Json.getItem, lookup_cons, h1]
      exact lookup_cons_self
    rw [getStr_eq, hitem, bind_some, Json.asStr, filter_some, if_pos (decide_eq_true hlen)]
  · rw [manifestWith, Json.getItem, lookup_cons, h2, lookup_cons, h3]
    exact lookup_cons_self

theorem ManifestDoc.device_lt {root : Json} {deviceType : List Char} {items : List Json}
    (h : ManifestDoc root deviceType items) : deviceType.length < 32 := by
  have hd := h.device
  rw [getStr_eq] at hd
  exact of_decide_eq_true (filter_eq_some_iff.mp hd).2

/-- **In a document too long for the table** any release can be listed so that it is in
the table, and so that it is not. -/
theorem exists_orders {allowHttp : Bool} {items : List Json}
    (hd : DistinctReleases (releasesOf allowHttp items))
    (hlong : fwuMaxReleases < (releasesOf allowHttp items).length)
    (hr : r ∈ releasesOf allowHttp items) :
    ∃ first last : List Json, first.Perm items ∧ last.Perm items ∧
      r ∈ (releasesOf allowHttp first).take fwuMaxReleases ∧
      r ∉ (releasesOf allowHttp last).take fwuMaxReleases := by
  obtain ⟨o, ho, hparse⟩ := mem_filterMap.mp hr
  obtain ⟨before, after, rfl⟩ := append_of_mem ho
  have hfirst : releasesOf allowHttp (o :: (before ++ after)) =
      r :: releasesOf allowHttp (before ++ after) := filterMap_cons_some hparse
  have hlast : releasesOf allowHttp (before ++ after ++ [o]) =
      releasesOf allowHttp (before ++ after) ++ [r] := by
    rw [releasesOf, filterMap_append, filterMap_cons_some hparse]
    rfl
  have hperm : (o :: (before ++ after)).Perm (before ++ o :: after) := perm_middle.symm
  have hkeys := (hperm.filterMap (parseRelease allowHttp)).map FwuRelease.key
  have hnodup := hkeys.nodup_iff.mpr hd.version
  have hcount := (hperm.filterMap (parseRelease allowHttp)).length_eq
  change (releasesOf allowHttp (o :: (before ++ after))).length =
    (releasesOf allowHttp (before ++ o :: after)).length at hcount
  change ((releasesOf allowHttp (o :: (before ++ after))).map FwuRelease.key).Nodup at hnodup
  rw [hfirst, length_cons] at hcount
  rw [hfirst, map_cons, nodup_cons] at hnodup
  refine ⟨o :: (before ++ after), before ++ after ++ [o], hperm, ?_, ?_, ?_⟩
  · have hcomm : (before ++ after ++ [o]).Perm ([o] ++ (before ++ after)) := perm_append_comm
    exact hcomm.trans hperm
  · rw [hfirst]
    exact mem_cons_self
  · rw [hlast, take_append_of_le_length (by omega)]
    exact fun hmem => hnodup.1 (mem_map_of_mem (mem_of_mem_take hmem))

section

variable {cj : JsonCodec} {json : List UInt8} {root : Json} {deviceType : List Char}
  {items : List Json} {allowHttp : Bool} {channel : ℕ} {s flashed : List Char} {i : FwuInstalled}

theorem selectFrom_manifestWith (cj : JsonCodec) (channel : ℕ) (s flashed : List Char)
    (hlen : deviceType.length < 32) (hd : DistinctReleases (releasesOf allowHttp items))
    {items' : List Json} (hperm : items'.Perm items) :
    ∃ m : FwuManifest, SortedTable m.rel ∧
      (∀ r, r ∈ m.rel ↔ r ∈ (releasesOf allowHttp items').take fwuMaxReleases) ∧
      selectFrom cj deviceType allowHttp channel s flashed
        (cj.print (manifestWith deviceType items')) =
          (fwuSelect (some m) channel (some s) flashed).on m.rel := by
  have hp : (releasesOf allowHttp items').Perm (releasesOf allowHttp items) := hperm.filterMap _
  have hd' : DistinctReleases (releasesOf allowHttp items') :=
    ⟨(hp.map _).nodup_iff.mpr hd.version, (hp.map _).nodup_iff.mpr hd.reported⟩
  have hdoc := manifestDoc_manifestWith hlen items'
  have hrel := fwuManifestParse_rel (cj.parse_print _) hdoc allowHttp
  refine ⟨(fwuManifestParse cj.parse (cj.print (manifestWith deviceType items')) deviceType
    allowHttp).2.1, ?_, fun r => ?_, rfl⟩
  · rw [hrel]
    exact sortedTable_take hd' _
  · rw [hrel, (sort_perm _).mem_iff]

theorem not_findsPath_of_long (hlen : deviceType.length < 32)
    (hd : DistinctReleases (releasesOf allowHttp items))
    (hlong : fwuMaxReleases < (releasesOf allowHttp items).length)
    (hsome : (∃ r, Offered (releasesOf allowHttp items) channel r) ∨
      ∃ r ∈ releasesOf allowHttp items, r.fwVersion = s) :
    ¬FindsPath cj deviceType allowHttp channel s flashed i json items := by
  intro h
  have hsame : ∀ {items' : List Json}, items'.Perm items →
      selectFrom cj deviceType allowHttp channel s flashed
        (cj.print (manifestWith deviceType items')) =
          selectFrom cj deviceType allowHttp channel s flashed json :=
    fun hperm => h.order _ _ _ (cj.parse_print _) (manifestDoc_manifestWith hlen _) hperm
  -- two orders of the entries, with one release in the table and not in it
  have htwo : ∀ {r : FwuRelease}, r ∈ releasesOf allowHttp items → ∃ m m' : FwuManifest,
      SortedTable m.rel ∧ SortedTable m'.rel ∧ r ∈ m.rel ∧ r ∉ m'.rel ∧
        (∀ q ∈ m.rel, q ∈ releasesOf allowHttp items) ∧
        (fwuSelect (some m) channel (some s) flashed).on m.rel =
          (fwuSelect (some m') channel (some s) flashed).on m'.rel := by
    intro r hr
    obtain ⟨first, last, hfirst, hlast, hin, hout⟩ := exists_orders hd hlong hr
    obtain ⟨m, hsorted, hmem, hsel⟩ := selectFrom_manifestWith cj channel s flashed hlen hd hfirst
    obtain ⟨m', hsorted', hmem', hsel'⟩ := selectFrom_manifestWith cj channel s flashed
      hlen hd hlast
    refine ⟨m, m', hsorted, hsorted', (hmem r).mpr hin, fun hr' => hout ((hmem' r).mp hr'),
      fun q hq => ?_, ?_⟩
    · exact (hfirst.filterMap _).mem_iff.mp (mem_of_mem_take ((hmem q).mp hq))
    · rw [← hsel, ← hsel', hsame hfirst, hsame hlast]
  by_cases hany : ∃ r, Offered (releasesOf allowHttp items) channel r
  · have hfin : {r | Offered (releasesOf allowHttp items) channel r}.Finite :=
      (finite_toSet (releasesOf allowHttp items)).subset fun r hr => hr.1
    obtain ⟨l, hl, htop⟩ := Set.exists_max_image _ FwuRelease.key hfin hany
    obtain ⟨m, m', hsorted, hsorted', hin, hout, hsub, heq⟩ := htwo hl.1
    have hlatest : ((fwuSelect (some m) channel (some s) flashed).on m.rel).latest = some l :=
      (select_latest_iff hsorted l).mpr ⟨⟨hin, hl.2⟩, fun q hq => htop q ⟨hsub q hq.1, hq.2⟩⟩
    rw [heq] at hlatest
    exact hout ((select_latest_iff hsorted' l).mp hlatest).1.1
  · obtain ⟨r, hr, hrs⟩ := hsome.resolve_left hany
    obtain ⟨m, m', hsorted, hsorted', hin, hout, -, heq⟩ := htwo hr
    have hme : ((fwuSelect (some m) channel (some s) flashed).on m.rel).me = some r :=
      (select_me_iff hsorted r).mpr ⟨hin, hrs⟩
    rw [heq] at hme
    exact hout ((select_me_iff hsorted' r).mp hme).1

/-- **Update selection finds a path when there is one** exactly when the table can hold
every release of the document, or holds none that matters: none offered on the channel and
none installed. -/
theorem update_path_found_iff (cj : JsonCodec) {json : List UInt8} {root : Json}
    (deviceType : List Char) (items : List Json) (allowHttp : Bool) (channel : ℕ)
    (s flashed : List Char) (i : FwuInstalled) (hjson : cj.parse json = some root)
    (hdoc : ManifestDoc root deviceType items) (hd : DistinctReleases (releasesOf allowHttp items))
    (hi : Installed (releasesOf allowHttp items) s i) :
    FindsPath cj deviceType allowHttp channel s flashed i json items ↔
      (releasesOf allowHttp items).length ≤ fwuMaxReleases ∨
        ((∀ r, ¬Offered (releasesOf allowHttp items) channel r) ∧
          ∀ r ∈ releasesOf allowHttp items, r.fwVersion ≠ s) := by
  constructor
  · intro h
    by_contra hnot
    rw [not_or, not_and_or] at hnot
    obtain ⟨hlong, hsome⟩ := hnot
    push Not at hsome
    exact not_findsPath_of_long hdoc.device_lt hd (not_le.mp hlong) hsome h
  · rintro (hshort | ⟨hno, hme⟩)
    · exact findsPath_of_short hjson hdoc hd hi hshort
    · exact findsPath_of_nothing hjson hdoc hno hme

end

/-- The entry of a stable release 6.n.0. -/
def stableEntry (n : ℕ) : Json :=
  let version := "6.".toList ++ Nat.toDigits 10 n ++ ".0".toList
  .obj [("version".toList, .str version), ("fw_version".toList, .str version),
    ("channel".toList, .str "stable".toList), ("date".toList, .str "2026-10-20".toList),
    ("summary".toList, .str []), ("notes".toList, .str "n.md".toList),
    ("yanked".toList, .bool false),
    ("image".toList, .obj [("url".toList, .str "https://h/f.bin".toList),
      ("size".toList, .num 3000000), ("sha256".toList, .str (List.replicate 64 'a'))]),
    ("layout".toList, .obj [("md5".toList, .str (List.replicate 32 'a'))])]

/-- A manifest whose entries are 6.0.0 to 6.n.0, oldest first. -/
def stableEntries (n : ℕ) : List Json := (List.range (n + 1)).map stableEntry

/-- From the older of two releases the newer one is reached. -/
theorem update_path_found_iff_two :
    FindsPath (.pinned [] noPins) "wican_pro".toList false 0 "6.0.0".toList []
        ⟨⟨6, 0, 0, .none, 0, false⟩, false, false⟩
        ((JsonCodec.pinned [] noPins).print (manifestWith "wican_pro".toList (stableEntries 1)))
        (stableEntries 1) :=
  (update_path_found_iff _ _ _ _ _ _ _ _ (JsonCodec.parse_print _ _)
    (manifestDoc_manifestWith (by decide) _) ⟨by decide +kernel, by decide +kernel⟩
    (.inl (by decide +kernel))).mpr (.inl (by decide +kernel))

/-- Of 65 releases listed oldest first the newest is not in the table. -/
theorem newest_of_65_missed :
    ManifestDoc (manifestWith "wican_pro".toList (stableEntries 64)) "wican_pro".toList
        (stableEntries 64) ∧
      DistinctReleases (releasesOf false (stableEntries 64)) ∧
      Installed (releasesOf false (stableEntries 64)) "6.0.0".toList
        ⟨⟨6, 0, 0, .none, 0, false⟩, false, false⟩ ∧
      ¬FindsPath (.pinned [] noPins) "wican_pro".toList false 0 "6.0.0".toList []
        ⟨⟨6, 0, 0, .none, 0, false⟩, false, false⟩
        ((JsonCodec.pinned [] noPins).print (manifestWith "wican_pro".toList (stableEntries 64)))
        (stableEntries 64) := by
  have hd : DistinctReleases (releasesOf false (stableEntries 64)) :=
    ⟨by decide +kernel, by decide +kernel⟩
  have hme : ∃ r ∈ releasesOf false (stableEntries 64), r.fwVersion = "6.0.0".toList ∧
      (⟨⟨6, 0, 0, .none, 0, false⟩, false, false⟩ : FwuInstalled) = ⟨r.version, r.yanked, false⟩ := by
    decide +kernel
  have hlong : fwuMaxReleases < (releasesOf false (stableEntries 64)).length := by decide +kernel
  refine ⟨manifestDoc_manifestWith (by decide) _, hd, .inl hme, ?_⟩
  obtain ⟨r, hr, hrs, -⟩ := hme
  exact not_findsPath_of_long (by decide) hd hlong (.inr ⟨r, hr, hrs⟩)

end Meatpi
