import Meatpi.ConfigBackup.Converge

/-!
# The copy from before a factory reset (`hold_after_factory_reset`)

The boot after a factory reset holds the copies it finds, so that the sweeps leave
them alone until the user restores one or refreshes them. Whether the mark reaches
the medium is not looked at: when it does not, the next boot knows of no hold, and
its first sweep writes the defaults over the copy (`held_copy_overwritten`). The
copy is kept as long as whatever reads its manifest finds it held
(`held_copy_kept`).
-/

namespace Meatpi

open Bool CbCopies List Option Writes

variable {sd : Bool} {folders : CbMedium → CbFolder} {p : CbPart} {ram : CbRam}
  {nonce plain : List UInt8}

variable {mf : CbManifest}

/-! ## A copy that is found -/

section

variable (K : CbVault)

/-- The copy has a settings part, and its file is the one that the manifest
describes. -/
def Intact (folder : CbFolder) : Prop :=
  ∃ mf raw, readBack K folder = some mf ∧ (mf.parts .settings).present = true ∧
    folder (.part .settings) = some raw ∧ (mf.parts .settings).crc ≠ 0 ∧
    cbCrc32 raw = (mf.parts .settings).crc

/-- The manifest on the medium says held. -/
def SaysHeld (folder : CbFolder) : Prop := ∃ mf, readBack K folder = some mf ∧ mf.held = true

end

/-- The manifest can be read. -/
structure ManifestRead (env : CbCopyEnv) (m : CbMedium) (folder : CbFolder) : Prop where
  reads : env.reads m .manifest = true
  parses : env.parses m = true
  fits : ∀ text, folder .manifest = some text → text.length ≤ cbManifestMax

/-- The settings part can be read. -/
structure SettingsRead (env : CbCopyEnv) (m : CbMedium) (folder : CbFolder) : Prop where
  reads : env.reads m (.part .settings) = true
  fits : ∀ raw, folder (.part .settings) = some raw → raw.length ≤ cbDocMax

section

variable {K : CbVault} {env : CbCopyEnv} {m : CbMedium} {folder : CbFolder}

theorem cbReadFile_eq {cap : ℕ} {file : Option (List UInt8)} {data : List UInt8}
    (hfile : file = some data) (hfits : data.length ≤ cap) :
    cbReadFile true cap file = some data := by
  rw [cbReadFile, if_pos rfl, hfile, filter_some, if_pos (decide_eq_true hfits)]

theorem ManifestRead.eq (h : ManifestRead env m folder) (hmf : readBack K folder = some mf) :
    cbCopiesReadManifest K env m folder = { mf with loaded := true } := by
  obtain ⟨text, hfile, hparse⟩ := bind_eq_some_iff.mp hmf
  rw [cbCopiesReadManifest, h.reads, cbReadFile_eq hfile (h.fits text hfile)]
  simp only [h.parses, if_true, hparse]

theorem SettingsRead.verified (h : SettingsRead env m folder) (mf : CbManifest) {raw : List UInt8}
    (hfile : folder (.part .settings) = some raw) (hne : (mf.parts .settings).crc ≠ 0)
    (hcrc : cbCrc32 raw = (mf.parts .settings).crc) :
    (verifyParts env m folder mf).parts .settings = mf.parts .settings := by
  have hmatch : partMatches env m folder .settings (mf.parts .settings) = true := by
    rw [partMatches, h.reads, cbReadFile_eq hfile (h.fits raw hfile)]
    simp [hne, hcrc]
  rw [verifyParts]
  simp only [hmatch, Bool.not_true, Bool.and_false, false_eq_true, if_false]

theorem holdMedium_held (h : mf.held = true ∨ (mf.parts .settings).present = true) :
    (holdMedium K env m mf).1.held = true := by
  rw [holdMedium]
  split_ifs with hif
  · rfl
  · rcases h with h | h
    · exact h
    · rw [h, Bool.true_and, not_eq_true', not_eq_false] at hif
      exact hif

theorem needsPart_held (h : mf.held = true) (p : CbPart) (mac : CbMac) :
    needsPart mf p mac = false := by
  rw [needsPart, h, Bool.not_true, Bool.and_false]

/-- **A sweep writes nothing to a medium whose manifest says held.** -/
theorem foldl_quiet (K : CbVault) (env : CbCopyEnv) (sd : Bool) (ps : List CbPart) :
    ∀ acc : CbSweep,
    (acc.ram m).held = true → (ps.foldl (sweepPart K env sd) acc).wrote m = acc.wrote m ∧
        onMedium m (ps.foldl (sweepPart K env sd) acc).writes = onMedium m acc.writes := by
  induction ps with
  | nil => exact fun _ _ => ⟨rfl, rfl⟩
  | cons p ps ih =>
    intro acc h
    obtain ⟨hwrote, hws⟩ := ih _ ((sweepPart_held K env sd acc p m).trans h)
    rcases sweepPart_cases K env sd acc p m with
      ⟨_, h₁, h₂⟩ | ⟨_, plain, _, _, hneed, _⟩
    · exact ⟨hwrote.trans h₁, hws.trans h₂⟩
    · rw [needsPart_held h] at hneed
      cases hneed

theorem cbSweep_quiet (h : (loadManifests K env sd folders ram m).held = true) :
    ((cbSweep K env sd folders false ram).1 m).held = true ∧
      onMedium m (cbSweep K env sd folders false ram).2 = [] := by
  have hstart : (sweepRam K env sd folders false ram m).held = true := h
  rw [cbSweep]
  by_cases hbuf : ¬env.buffer
  · rw [if_pos hbuf]
    exact ⟨hstart, rfl⟩
  · rw [if_neg hbuf]
    have hacc : ((sweepParts K env sd folders false ram).ram m).held = true :=
      (foldl_held m CbPart.all _).trans hstart
    obtain ⟨hwrote, hws⟩ := foldl_quiet K env sd CbPart.all
      ⟨sweepRam K env sd folders false ram, fun _ => false, []⟩ hstart
    constructor
    · simp only [onMedia]
      split_ifs
      · rw [finishMedium_held, hacc]
      · exact hacc
    · simp only [onMedium_append, onMedium_onMedia (finishMedium_own K env _ _)]
      have hno : (sweepParts K env sd folders false ram).wrote m = false := hwrote
      have hnone : onMedium m (sweepParts K env sd folders false ram).writes = [] := hws
      rw [hnone]
      split_ifs
      · rw [finishMedium, hno]
        rfl
      · rfl

end

/-! ## What keeps the copy -/

/-- The user, or a restore of a settings part, lets the held copies go. -/
def CbOp.LetsGo : CbOp → Prop
  | .begin => False
  | .sweep force => force = true
  | .release => True

namespace CbCopies

variable {κ : Type*} [DecidableEq κ]

/-- The folder at a place. -/
def folderAt (s : CbCopies κ) (π : CbPlace κ) : CbFolder := fun f => s.files (π, f)

/-- What is called finds the copy at that place. -/
def Finds (K : CbVault) (π : CbPlace κ) (s : CbCopies κ) (o : CbOp) (env : CbCopyEnv) : Prop :=
  match o with
  | .begin => s.afterReset = true → ∀ m, s.place m = some π →
      ManifestRead env m (s.folderAt π) ∧
        (SaysHeld K (s.folderAt π) ∨ SettingsRead env m (s.folderAt π))
  | .sweep _ => ∀ m, s.place m = some π → (s.ram m).loaded = false →
      ManifestRead env m (s.folderAt π) ∧ SaysHeld K (s.folderAt π)
  | .release => True

/-- The condition on a step: whoever reads the manifest of the copy finds it, and its
card does not come into the slot while the manifest in memory is of another card
that is not held. -/
def Minds (K : CbVault) (π : CbPlace κ) (s : CbCopies κ) : CbEvent κ → Prop
  | .op o env | .cut o env _ _ => s.Finds K π o env
  | .restart _ => True
  | .card slot => slot.map CbPlace.card = some π → (s.ram .card).loaded = true →
      (s.ram .card).held = true

/-- A step after the reset that lets no copy go. -/
def Undisturbed (K : CbVault) (s : CbCopies κ) (e : CbEvent κ) (s' : CbCopies κ) : Prop :=
  Step K s e s' ∧
    match e with
    | .op o _ | .cut o _ _ _ => ¬o.LetsGo
    | _ => True

/-- The device as it comes up after the reset. -/
structure AfterReset (s : CbCopies κ) : Prop where
  ram : ∀ m, (s.ram m).loaded = false
  reset : s.afterReset = true
  started : s.started = false

/-- The copy is what it was at `s₀`, and is held wherever its manifest is in memory. -/
structure Kept (K : CbVault) (π : CbPlace κ) (s₀ s : CbCopies κ) : Prop where
  parts : ∀ p, s.files (π, .part p) = s₀.files (π, .part p)
  intact : Intact K (s.folderAt π)
  fresh : s.started = false → ∀ m, (s.ram m).loaded = false
  held : ∀ m, s.place m = some π → (s.ram m).loaded = true → (s.ram m).held = true

variable {K : CbVault} {π : CbPlace κ} {s s₀ : CbCopies κ}

omit [DecidableEq κ] in
theorem folder_at {m : CbMedium} (hm : s.place m = some π) : s.folder m = s.folderAt π := by
  funext f
  exact folder_eq hm f

/-- What a call that finds the copy leaves in memory and writes. -/
structure Spares (K : CbVault) (π : CbPlace κ) (s : CbCopies κ) (r : CbRam × List CbWrite) :
    Prop where
  held : ∀ m, s.place m = some π → (r.1 m).loaded = true → (r.1 m).held = true
  writes : ∀ m, s.place m = some π → ∀ f d, (f, d) ∈ onMedium m r.2 →
    f = .manifest ∧ ∃ mf, d = K.cj.print (cbManifestToJson mf) ∧
      ∃ mf', readBack K (s.folderAt π) = some mf' ∧ mf.parts .settings = mf'.parts .settings

omit [DecidableEq κ] in
/-- **A hold that finds the copy marks it in memory**, and what it writes is a manifest
with the same settings part. -/
theorem hold_spares (hk : Kept K π s₀ s) {env : CbCopyEnv} (hstarted : s.started = false)
    (hfinds : ∀ m, s.place m = some π → ManifestRead env m (s.folderAt π) ∧
      (SaysHeld K (s.folderAt π) ∨ SettingsRead env m (s.folderAt π))) :
    Spares K π s (holdAfterFactoryReset K env s.mounted s.folder s.ram) := by
  obtain ⟨mf, raw, hmf, hp, hfile, hne, hcrc⟩ := hk.intact
  generalize hload : loadManifests K env s.mounted s.folder s.ram = loaded
  have hthere : ∀ m, s.place m = some π → m.there s.mounted = true :=
    fun m hm => there_iff.mpr ⟨π, hm⟩
  have heq : ∀ m, s.place m = some π →
      loaded m = verifyParts env m (s.folderAt π) { mf with loaded := true } := by
    intro m hm
    rw [← hload, loadManifests, if_pos (hthere m hm), hk.fresh hstarted m,
      if_neg Bool.false_ne_true, folder_at hm, (hfinds m hm).1.eq hmf]
  constructor
  · intro m hm _
    have hthere := hthere m hm
    rw [holdAfterFactoryReset, hload, onMedia]
    simp only [hthere, if_true]
    apply holdMedium_held
    rw [heq m hm]
    rcases (hfinds m hm).2 with ⟨mf', hmf', hheld⟩ | hsettings
    · obtain rfl : mf = mf' := some.inj (hmf.symm.trans hmf')
      exact Or.inl hheld
    · refine Or.inr ?_
      rw [hsettings.verified { mf with loaded := true } hfile hne hcrc]
      exact hp
  · intro m hm f d hmem
    rw [holdAfterFactoryReset, hload, onMedium_onMedia (holdMedium_own K env),
      if_pos (hthere m hm), holdMedium] at hmem
    split_ifs at hmem with hif
    · obtain ⟨_, rfl, rfl⟩ := mem_writeManifest K env (mem_onMedium.mp hmem)
      refine ⟨rfl, _, rfl, mf, hmf, ?_⟩
      rw [and_eq_true] at hif
      rw [heq m hm] at hif ⊢
      exact (verifyParts_parts hif.1).1
    · cases hmem

omit [DecidableEq κ] in
/-- **A sweep that finds the copy leaves it alone.** -/
theorem sweep_spares (hk : Kept K π s₀ s) {env : CbCopyEnv}
    (hfinds : ∀ m, s.place m = some π → (s.ram m).loaded = false →
      ManifestRead env m (s.folderAt π) ∧ SaysHeld K (s.folderAt π)) :
    Spares K π s (cbSweep K env s.mounted s.folder false s.ram) := by
  have hheld : ∀ m, s.place m = some π →
      (loadManifests K env s.mounted s.folder s.ram m).held = true := by
    intro m hm
    rw [loadManifests, if_pos (there_iff.mpr ⟨π, hm⟩)]
    cases hloaded : (s.ram m).loaded with
    | true =>
      exact hk.held m hm hloaded
    | false =>
      rw [folder_at hm]
      obtain ⟨hread, mf, hmf, hheld⟩ := hfinds m hm hloaded
      rw [hread.eq hmf]
      exact hheld
  constructor
  · exact fun m hm _ => (cbSweep_quiet (hheld m hm)).1
  · intro m hm f d hmem
    rw [(cbSweep_quiet (hheld m hm)).2] at hmem
    cases hmem

theorem Spares.land {r : CbRam × List CbWrite} (h : Spares K π s r)
    (hintact : Intact K (s.folderAt π)) {ws : List CbWrite} (hws : ws ⊆ r.2) :
    (∀ p, s.land ws (π, .part p) = s.files (π, .part p)) ∧
      Intact K (fun f => s.land ws (π, f)) := by
  have hwrite : ∀ f d, ((π, f), d) ∈ ws.filterMap s.landing →
      f = .manifest ∧ ∃ mf, d = K.cj.print (cbManifestToJson mf) ∧
        ∃ mf', readBack K (s.folderAt π) = some mf' ∧ mf.parts .settings = mf'.parts .settings := by
    intro f d hmem
    obtain ⟨w, hw, hl⟩ := mem_filterMap.mp hmem
    obtain ⟨π', hπ', heq⟩ := map_eq_some_iff.mp hl
    obtain ⟨h₁, rfl⟩ := Prod.mk.inj heq
    obtain ⟨rfl, rfl⟩ := Prod.mk.inj h₁
    exact h.writes w.1.1 hπ' w.1.2 w.2 (mem_onMedium.mpr (hws hw))
  have hparts : ∀ p, s.land ws (π, .part p) = s.files (π, .part p) := by
    intro p
    apply land_other
    rintro ⟨x, d⟩ hmem rfl
    cases (hwrite _ _ hmem).1
  refine ⟨hparts, ?_⟩
  obtain ⟨mf, raw, hmf, hp, hfile, hne, hcrc⟩ := hintact
  have hfile' : (fun f => s.land ws (π, f)) (.part .settings) = some raw :=
    (hparts .settings).trans hfile
  rcases land_cases (p := (π, CbFile.manifest)) (ws.filterMap s.landing) s.files with
    hsame | ⟨d, hmem, hd⟩
  · refine ⟨mf, raw, ?_, hp, hfile', hne, hcrc⟩
    rw [← hmf]
    exact congrArg (fun file => Option.bind file _) hsame
  · obtain ⟨_, mf₁, rfl, mf', hmf', hsettings⟩ := hwrite _ _ hmem
    obtain rfl : mf = mf' := some.inj (hmf.symm.trans hmf')
    have hwritten : mf₁.written.parts .settings = mf.parts .settings := by
      rw [CbManifest.written]
      simp only [hsettings, hp, if_true]
    refine ⟨mf₁.written, raw, readBack_written hd, ?_, hfile', ?_, ?_⟩
    · rw [hwritten]
      exact hp
    · rw [hwritten]
      exact hne
    · rw [hwritten]
      exact hcrc

omit [DecidableEq κ] in
theorem call_spares (hk : Kept K π s₀ s) {o : CbOp} {env : CbCopyEnv} (hallows : s.Allows o)
    (hfinds : s.Finds K π o env) (hstays : ¬o.LetsGo) : Spares K π s (s.call K o env) := by
  cases o with
  | begin =>
    rw [call]
    split_ifs with hreset
    · exact hold_spares hk hallows (hfinds hreset)
    · exact ⟨hk.held, fun _ _ _ _ hmem => by cases hmem⟩
  | sweep force =>
    obtain rfl : force = false := (not_eq_true _).mp hstays
    exact sweep_spares hk hfinds
  | release => exact absurd trivial hstays

/-- **What happens keeps the copy**, as long as it meets the condition. -/
theorem Kept.step (hk : Kept K π s₀ s) {e : CbEvent κ} {s' : CbCopies κ} (hs : Undisturbed K s e s')
    (hminds : s.Minds K π e) : Kept K π s₀ s' := by
  obtain ⟨⟨hallows, rfl⟩, hstays⟩ := hs
  cases e with
  | op o env =>
    have hspares := call_spares hk hallows hminds hstays
    obtain ⟨hparts, hintact⟩ := hspares.land hk.intact (List.Subset.refl _)
    refine ⟨fun p => (hparts p).trans (hk.parts p), hintact, ?_, hspares.held⟩
    intro hfresh
    have hstarted : s.started = false ∧ (o == .begin) = false := by
      exact or_eq_false_iff.mp hfresh
    cases o with
    | begin => cases hstarted.2
    | sweep force =>
      have hallows : s.started = true := hallows
      rw [hstarted.1] at hallows
      cases hallows
    | release => exact absurd trivial hstays
  | cut o env n reset =>
    have hspares := call_spares hk hallows hminds hstays
    obtain ⟨hparts, hintact⟩ := hspares.land hk.intact (take_subset n _)
    exact ⟨fun p => (hparts p).trans (hk.parts p), hintact, fun _ _ => rfl,
      fun _ _ hloaded => by cases hloaded⟩
  | restart reset =>
    exact ⟨hk.parts, hk.intact, fun _ _ => rfl, fun _ _ hloaded => by cases hloaded⟩
  | card slot =>
    refine ⟨hk.parts, hk.intact, hk.fresh, fun m hm hloaded => ?_⟩
    cases m with
    | flash => exact hk.held .flash hm hloaded
    | card => exact hminds hm hloaded

/-- **A copy that is found held is kept.** In every run after a reset in which nobody
lets the copies go, and in which whoever reads the manifest of the copy finds it, the
copy has the parts it had. -/
theorem held_copy_kept {evs : List (CbEvent κ)}
    (hrun : Run (fun s e s' => Undisturbed K s e s' ∧ s.Minds K π e) s₀ evs s)
    (hreset : AfterReset s₀) (hintact : Intact K (s₀.folderAt π)) (p : CbPart) :
    s.files (π, .part p) = s₀.files (π, .part p) := by
  have hstart : Kept K π s₀ s₀ := by
    refine ⟨fun _ => rfl, hintact, fun _ => hreset.ram, fun m _ hloaded => ?_⟩
    rw [hreset.ram m] at hloaded
    cases hloaded
  have hkept : Kept K π s₀ s :=
    hrun.inv (I := Kept K π s₀) (fun _ _ _ hs hk => hk.step hs.1 hs.2) hstart
  exact hkept.parts p

/-! ## What overwrites it -/

theorem foldl_overwrites {env : CbCopyEnv} (sd : Bool) {m : CbMedium} (folder : CbFolder)
    (hb : env.builds p = some plain) (hn : env.nonces p = some nonce) (ps : List CbPart) :
    ∀ acc : CbSweep,
      (needsPart (acc.ram m) p (K.hmac plain) = true ∨
        Writes.land folder (onMedium m acc.writes) (.part p) = some (sealPart K p nonce plain)) →
        needsPart ((ps.foldl (sweepPart K env sd) acc).ram m) p (K.hmac plain) = true ∨
          Writes.land folder (onMedium m (ps.foldl (sweepPart K env sd) acc).writes) (.part p) =
            some (sealPart K p nonce plain) := by
  induction ps with
  | nil => exact fun _ h => h
  | cons q ps ih =>
    intro acc h
    apply ih
    rcases sweepPart_cases K env sd acc q m with
      ⟨hram, _, hws⟩ | ⟨nonce', plain', hb', hn', _, hram, _, hws⟩
    · rw [hram, hws]
      exact h
    · by_cases hqp : q = p
      · subst hqp
        obtain rfl := some.inj (hb.symm.trans hb')
        obtain rfl := some.inj (hn.symm.trans hn')
        rw [hws]
        exact Or.inr (land_mid _ fun w hw => (by cases hw))
      · rw [hram, hws]
        rcases h with h | h
        · left
          simp only [needsPart, Function.update_of_ne (Ne.symm hqp)] at h ⊢
          exact h
        · right
          rw [land_append, land_other, h]
          intro w hw
          obtain rfl := mem_singleton.mp hw
          exact fun heq => hqp (CbFile.part.inj heq)

/-- **A sweep that finds a copy that is not held and is not what the device has writes
over it.** -/
theorem sweep_overwrites {env : CbCopyEnv} {force : Bool} {m : CbMedium} (hm : s.place m = some π)
    (hbuf : env.buffer = true) (hb : env.builds p = some plain) (hmac : env.macs p = true)
    (hn : env.nonces p = some nonce) (hw : env.writes m (.part p) = true)
    (hneed : needsPart (sweepRam K env s.mounted s.folder force s.ram m) p (K.hmac plain) = true) :
    (s.next K (.op (.sweep force) env)).files (π, .part p) = some (sealPart K p nonce plain) := by
  have hthere : m.there s.mounted = true := there_iff.mpr ⟨π, hm⟩
  have hns : (env.nonces p).isSome = true := by rw [hn]; rfl
  generalize hacc : sweepParts K env s.mounted s.folder force s.ram = acc
  have hdone : Writes.land (s.folder m) (onMedium m acc.writes) (.part p) =
      some (sealPart K p nonce plain) := by
    have h := foldl_overwrites (K := K) s.mounted (m := m) (s.folder m) hb hn CbPart.all
      ⟨sweepRam K env s.mounted s.folder force s.ram, fun _ => false, []⟩
      (Or.inl hneed)
    rw [← hacc]
    rcases h with h | h
    · rw [foldl_needs hb hmac hns hthere hw (Or.inl (CbPart.mem_all p))] at h
      cases h
    · exact h
  have hcall : s.call K (.sweep force) env =
      ((onMedia s.mounted (finishMedium K env force acc.wrote) acc.ram).1,
        acc.writes ++ (onMedia s.mounted (finishMedium K env force acc.wrote) acc.ram).2) := by
    rw [call, cbSweep, if_neg (not_not.mpr hbuf)]
    simp only [hacc]
  have hfiles : (s.next K (.op (.sweep force) env)).files (π, .part p) =
      Writes.land (s.folder m) (onMedium m (s.call K (.sweep force) env).2) (.part p) :=
    land_folder hm _ _
  rw [hfiles, hcall, onMedium_append, land_append, land_other, hdone]
  intro w hw
  rw [onMedium_onMedia (finishMedium_own K env _ _), if_pos hthere] at hw
  rcases (finishMedium_keeps (K := K) env force acc.wrote m (acc.ram m)).2 with h | h
  · rw [h] at hw
    cases hw
  · rw [h] at hw
    obtain rfl := mem_singleton.mp hw
    exact CbFile.noConfusion

omit [DecidableEq κ] in
theorem begin_unwritten {env : CbCopyEnv} (h : ∀ m, env.writes m .manifest = false) :
    (s.call K .begin env).2 = [] := by
  rw [call]
  split_ifs
  · rw [holdAfterFactoryReset, onMedia, flatMap_eq_nil_iff]
    intro m _
    rw [holdMedium]
    split_ifs
    · rw [writeManifest, h m, if_neg Bool.false_ne_true]
    · rfl
  · rfl

theorem next_begin {env : CbCopyEnv} (h : s.afterReset = false) :
    s.next K (.op .begin env) = { s with started := true } := by
  have hcall : s.call K .begin env = (s.ram, []) := by
    rw [call, h, if_neg Bool.false_ne_true]
  have hstarted : (s.started || CbOp.begin == CbOp.begin) = true := Bool.or_true _
  rw [next]
  simp only [hcall, hstarted]
  rfl

/-- **A hold that was not written is forgotten with the next boot.** -/
theorem hold_forgotten {env env' : CbCopyEnv} (h : ∀ m, env.writes m .manifest = false) :
    ((s.next K (.op .begin env)).next K (.restart false)).next K (.op .begin env') =
      { s with ram := fun _ => .zero, afterReset := false, started := true } := by
  have hfiles : (s.next K (.op .begin env)).files = s.files := by
    rw [next, begin_unwritten h]
    rfl
  have hboot : (s.next K (.op .begin env)).next K (.restart false) =
      { s with ram := fun _ => .zero, afterReset := false, started := false } := by
    have h : (s.next K (.op .begin env)).next K (.restart false) = { s with
          files := (s.next K (.op .begin env)).files
          ram := fun _ => .zero
          afterReset := false
          started := false } := rfl
    rw [h, hfiles]
  rw [hboot, next_begin rfl]

theorem next_place (o : CbOp) (env : CbCopyEnv) (m : CbMedium) :
    (s.next K (.op o env)).place m = s.place m := by
  cases m <;> rfl

theorem begin_ram {env : CbCopyEnv} (h : s.afterReset = true) :
    (s.next K (.op .begin env)).ram = (holdAfterFactoryReset K env s.mounted s.folder s.ram).1 := by
  rw [next, call, if_pos h]

theorem loadManifests_loaded {env : CbCopyEnv} {m : CbMedium} (hthere : m.there sd = true) :
    (loadManifests K env sd folders ram m).loaded = true := by
  rw [loadManifests, if_pos hthere]
  split_ifs with h
  · exact h
  · rw [verifyParts]
    rcases cbCopiesReadManifest_cases K env m (folders m) with h | ⟨mf, _, h⟩
    · rw [h]
    · rw [h]

end CbCopies

/-! A card with the copy from before the reset, where the setting was off; the default
is on. -/

/-- The sealed settings part. -/
noncomputable def undoFile : List UInt8 := sealPart benchVault .settings (benchNonce 2) settingOff

/-- Its manifest. -/
noncomputable def undoManifest : CbManifest where
  loaded := true
  deviceId := "68ee8f5a653d".toList
  fw := "v5.00".toList
  refreshed := 1792100000
  held := false
  heldSince := 0
  parts p :=
    if p = .settings then sealedEntry benchVault .settings (benchNonce 2) settingOff else .zero

theorem asciiBytes_ofList (chars : List Char) :
    asciiBytes (String.ofList chars) = chars.map fun c => c.toNat.toUInt8 := by
  rw [asciiBytes, String.toList_ofList]

/-- The text of the manifest. -/
def undoText : List UInt8 := asciiBytes
  "\x7b\"wican_copy\":1,\"device_id\":\"68ee8f5a653d\",\"fw_version\":\"v5.00\",\"refreshed\":1792100000,\"parts\":\x7b\"settings\":\x7b\"bytes\":19,\"hmac\":\"20c14b3fa98a9953b4bcc9ea0e6507325903c18fa905abceaea34d2913535e06\",\"crc\":1899416065\x7d\x7d\x7d"

set_option maxRecDepth 8192 in
theorem undoPins : JsonCodec.Pins [(cbManifestToJson undoManifest, undoText)] where
  apart := by
    intro p hp q hq _
    rw [mem_singleton.mp hp, mem_singleton.mp hq]
  text := by
    intro p hp
    rw [mem_singleton.mp hp]
    rw [show undoText.head? = _ from congrArg head? (asciiBytes_ofList _)]
    decide

/-- The device, whose key outlives the reset. -/
noncomputable def undoVault : CbVault where
  cj := .pinned _ undoPins
  aead := benchVault.aead
  hmac := benchVault.hmac
  dev := benchVault.dev

/-- The device after the reset: the flash is empty, the card is in. -/
noncomputable def undoStart : CbCopies Unit where
  files x :=
    if x = (.card (), .manifest) then some undoText
    else if x = (.card (), .part .settings) then some undoFile
    else none
  slot := some ()
  ram _ := .zero
  afterReset := true
  started := false

theorem undo_readBack :
    readBack undoVault (undoStart.folderAt (.card ())) = some undoManifest.written := by
  apply readBack_written
  have hprint : undoVault.cj.print (cbManifestToJson undoManifest) = undoText := by
    simp [undoVault, JsonCodec.pinned, JsonCodec.pinnedText]
  rw [hprint]
  rfl

theorem undo_intact : Intact undoVault (undoStart.folderAt (.card ())) :=
  ⟨undoManifest.written, undoFile, undo_readBack, rfl, rfl, by decide +kernel, rfl⟩

theorem undo_after : CbCopies.AfterReset undoStart := ⟨fun _ => rfl, rfl, rfl⟩

set_option maxRecDepth 8192 in
theorem undo_text : ∀ text, undoStart.folderAt (.card ()) .manifest = some text →
    text.length ≤ cbManifestMax := by
  intro text h
  obtain rfl : undoText = text := some.inj h
  rw [show undoText.length = _ from congrArg length (asciiBytes_ofList _), length_map]
  decide

theorem undo_file : ∀ raw, undoStart.folderAt (.card ()) (.part .settings) = some raw →
    raw.length ≤ cbDocMax := by
  intro raw h
  obtain rfl : undoFile = raw := some.inj h
  decide +kernel

/-- The hold, and a sweep with the defaults. -/
def keptEvents : List (CbEvent Unit) :=
  [.op .begin (benchEnv 1 settingOn), .op (.sweep false) (benchEnv 1 settingOn)]

/-- The card keeps the copy. -/
theorem held_copy_kept_card :
    (keptEvents.foldl (CbCopies.next undoVault) undoStart).files (.card (), .part .settings) =
      undoStart.files (.card (), .part .settings) := by
  have hbegin : undoStart.Finds undoVault (.card ()) .begin (benchEnv 1 settingOn) :=
    fun _ _ _ => ⟨⟨rfl, rfl, undo_text⟩, Or.inr ⟨rfl, undo_file⟩⟩
  have hsweep : (undoStart.next undoVault (.op .begin (benchEnv 1 settingOn))).Finds undoVault
      (.card ()) (.sweep false) (benchEnv 1 settingOn) := by
    intro m hm hloaded
    -- the hold has loaded the manifest
    rw [next_place] at hm
    have hthere : m.there undoStart.mounted = true := there_iff.mpr ⟨_, hm⟩
    have hram : ((undoStart.next undoVault (.op .begin (benchEnv 1 settingOn))).ram m).loaded =
        true := by
      rw [begin_ram rfl, holdAfterFactoryReset, onMedia]
      simp only [hthere, if_true]
      rw [holdMedium]
      split_ifs
      · exact loadManifests_loaded hthere
      · exact loadManifests_loaded hthere
    rw [hram] at hloaded
    cases hloaded
  have hrun : Run (fun s e s' => CbCopies.Undisturbed undoVault s e s' ∧
      s.Minds undoVault (.card ()) e) undoStart keptEvents
      (keptEvents.foldl (CbCopies.next undoVault) undoStart) :=
    .cons ⟨⟨⟨rfl, rfl⟩, id⟩, hbegin⟩ <| .cons ⟨⟨⟨rfl, rfl⟩, Bool.false_ne_true⟩, hsweep⟩ <| .nil _
  exact held_copy_kept hrun undo_after undo_intact .settings

/-- The card does not take the manifest of the hold. -/
def tornEnv : CbCopyEnv := { benchEnv 1 settingOn with writes := fun _ _ => false }

/-- The hold, a power cut, and the boot after it with its first sweep. -/
def lostEvents : List (CbEvent Unit) :=
  [.op .begin tornEnv, .restart false, .op .begin (benchEnv 1 settingOn),
    .op (.sweep false) (benchEnv 1 settingOn)]

/-- **A hold that does not reach the medium is gone with the next boot**: its first
sweep writes the defaults over the copy from before the reset. -/
theorem held_copy_overwritten :
    Run (CbCopies.Undisturbed undoVault) undoStart lostEvents
        (lostEvents.foldl (CbCopies.next undoVault) undoStart) ∧
      CbCopies.AfterReset undoStart ∧ Intact undoVault (undoStart.folderAt (.card ())) ∧
      (lostEvents.foldl (CbCopies.next undoVault) undoStart).files (.card (), .part .settings) ≠
        undoStart.files (.card (), .part .settings) := by
  refine ⟨?_, undo_after, undo_intact, ?_⟩
  · exact .cons ⟨⟨rfl, rfl⟩, id⟩ <| .cons ⟨⟨trivial, rfl⟩, trivial⟩ <| .cons ⟨⟨rfl, rfl⟩, id⟩ <|
      .cons ⟨⟨rfl, rfl⟩, Bool.false_ne_true⟩ <| .nil _
  · rw [lostEvents, foldl_cons, foldl_cons, foldl_cons, foldl_cons,
      foldl_nil, hold_forgotten fun _ => rfl]
    generalize hs : ({ undoStart with
      ram := fun _ => .zero, afterReset := false, started := true } : CbCopies Unit) = s
    have hm : s.place .card = some (.card ()) := by
      rw [← hs]
      rfl
    have hfolder : s.folder .card = undoStart.folderAt (.card ()) := by
      rw [← hs]
      rfl
    have hthere : CbMedium.there s.mounted .card = true := there_iff.mpr ⟨_, hm⟩
    have hread : cbCopiesReadManifest undoVault (benchEnv 1 settingOn) .card (s.folder .card) =
        { undoManifest.written with loaded := true } := by
      rw [hfolder]
      exact ManifestRead.eq ⟨rfl, rfl, undo_text⟩ undo_readBack
    have hneed : needsPart (sweepRam undoVault (benchEnv 1 settingOn) s.mounted s.folder false
        s.ram .card) .settings (undoVault.hmac settingOn) = true := by
      have hload : (s.ram .card).loaded = false := by
        rw [← hs]
        rfl
      rw [sweepRam, if_neg Bool.false_ne_true, loadManifests, if_pos hthere, hload,
        if_neg Bool.false_ne_true, hread, hfolder]
      have hsettingsRead : SettingsRead (benchEnv 1 settingOn) .card
          (undoStart.folderAt (.card ())) := ⟨rfl, undo_file⟩
      -- the settings part is verified, and is not what the device has
      have hsettings := hsettingsRead.verified { undoManifest.written with loaded := true } rfl
        (by decide +kernel) rfl
      rw [needsPart, hsettings]
      decide +kernel
    rw [sweep_overwrites hm rfl rfl rfl rfl rfl hneed]
    intro h
    exact absurd (some.inj h) (by decide +kernel)

end Meatpi
