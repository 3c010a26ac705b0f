import Meatpi.ConfigBackup.Copies

/-!
# The copies after a power cut

The parts of a copy are written before the manifest that describes them, and a sweep
decides from the manifest alone what it writes. An entry of a manifest describes the
sealing of a part that a sweep built (`CbCopies.Recorded`), and after a boot the entries
are left whose file has the recorded CRC (`CbVerified`). So one sweep whose writes
succeed makes files and manifest current, wherever the power went (`copies_converge`).
-/

namespace Meatpi

open Function List Option Writes

variable {mf' : CbManifest} {folders : CbMedium → CbFolder}
  {act : CbMedium → CbManifest → CbManifest × List CbWrite}
  {U' : CbPart → List UInt8 → List UInt8 → Prop}

variable {mf : CbManifest} {m : CbMedium} {o : CbOp} {p : CbPart} {ram : CbRam} {acc : CbSweep}
  {nonce plain : List UInt8}

/-! ## What has been written -/

section

variable (K : CbVault) (U : CbPart → List UInt8 → List UInt8 → Prop)

/-- The entries of a manifest are those of parts that were sealed. -/
def CbRecorded (mf : CbManifest) : Prop :=
  ∀ p, (mf.parts p).present = true →
    ∃ nonce plain, U p nonce plain ∧ mf.parts p = sealedEntry K p nonce plain

/-- What a file of a copy may be. -/
def CbFileOf : CbFile → List UInt8 → Prop
  | .manifest, d => ∃ mf, CbRecorded K U mf ∧ d = K.cj.print (cbManifestToJson mf)
  | .part p, d => ∃ nonce plain, U p nonce plain ∧ d = sealPart K p nonce plain

/-- What a folder may have. -/
def CbFolderOf (folder : CbFolder) : Prop := ∀ f d, folder f = some d → CbFileOf K U f d

/-- Everything in the files and in memory is about parts that were sealed. -/
structure CbCopies.Recorded {κ : Type*} (s : CbCopies κ) : Prop where
  files : ∀ x d, s.files x = some d → CbFileOf K U x.2 d
  ram : ∀ m, CbRecorded K U (s.ram m)

end

/-- What the manifest of a folder says. -/
def readBack (K : CbVault) (folder : CbFolder) : Option CbManifest :=
  (folder .manifest).bind fun text => (K.cj.parse text).bind cbManifestFromJson

section

variable {K : CbVault} {env : CbCopyEnv} {sd : Bool} {U : CbPart → List UInt8 → List UInt8 → Prop}

theorem cbRecorded_zero : CbRecorded K U .zero := by
  intro p hp
  cases hp

theorem CbRecorded.of_parts (h : CbRecorded K U mf)
    (hparts : ∀ p, (mf'.parts p).present = true → mf'.parts p = mf.parts p) :
    CbRecorded K U mf' := by
  intro p hp
  have heq := hparts p hp
  rw [heq] at hp ⊢
  exact h p hp

theorem CbRecorded.written (h : CbRecorded K U mf) : CbRecorded K U mf.written := by
  apply h.of_parts
  intro p hp
  cases hpresent : (mf.parts p).present with
  | true => simp [CbManifest.written, hpresent]
  | false =>
    simp [CbManifest.written, hpresent, CbManifestPart.zero] at hp

theorem cbCopiesReadManifest_cases (K : CbVault) (env : CbCopyEnv) (m : CbMedium)
    (folder : CbFolder) :
    cbCopiesReadManifest K env m folder = { CbManifest.zero with loaded := true } ∨
      ∃ mf, readBack K folder = some mf ∧
        cbCopiesReadManifest K env m folder = { mf with loaded := true } := by
  rw [cbCopiesReadManifest]
  cases hread : cbReadFile (env.reads m .manifest) cbManifestMax (folder .manifest) with
  | none => exact Or.inl rfl
  | some text =>
    simp only
    cases hparse : (if env.parses m then K.cj.parse text else none).bind cbManifestFromJson with
    | none => exact Or.inl rfl
    | some mf =>
      refine Or.inr ⟨mf, ?_, rfl⟩
      have hfile : folder .manifest = some text := by
        rw [cbReadFile] at hread
        split_ifs at hread
        exact eq_some_of_filter_eq_some hread
      rw [readBack, hfile]
      split_ifs at hparse with h
      · exact hparse
      · cases hparse

theorem readBack_written {folder : CbFolder}
    (h : folder .manifest = some (K.cj.print (cbManifestToJson mf))) :
    readBack K folder = some mf.written := by
  rw [readBack, h, bind_some, K.cj.parse_print, bind_some, cbManifestFromJson_toJson]

theorem CbFolderOf.readBack {folder : CbFolder} (h : CbFolderOf K U folder)
    (hmf : readBack K folder = some mf) : CbRecorded K U mf := by
  cases hfile : folder .manifest with
  | none =>
    rw [Meatpi.readBack, hfile] at hmf
    cases hmf
  | some text =>
    obtain ⟨mf', hmf', rfl⟩ := h .manifest text hfile
    rw [readBack_written hfile] at hmf
    obtain rfl := Option.some.inj hmf
    exact hmf'.written

theorem verifyParts_parts {folder : CbFolder}
    (hp : ((verifyParts env m folder mf).parts p).present = true) :
    (verifyParts env m folder mf).parts p = mf.parts p ∧
      partMatches env m folder p (mf.parts p) = true := by
  simp only [verifyParts] at hp ⊢
  split_ifs at hp ⊢ with h
  rw [hp, Bool.true_and, Bool.not_eq_true', Bool.not_eq_false] at h
  exact ⟨rfl, h⟩

theorem loadManifests_recorded (env : CbCopyEnv) (sd : Bool)
    (hfolders : ∀ m, CbFolderOf K U (folders m)) (hram : ∀ m, CbRecorded K U (ram m))
    (m : CbMedium) : CbRecorded K U (loadManifests K env sd folders ram m) := by
  rw [loadManifests]
  split_ifs with hthere hloaded
  · exact hram m
  · have hread : CbRecorded K U (cbCopiesReadManifest K env m (folders m)) := by
      rcases cbCopiesReadManifest_cases K env m (folders m) with h | ⟨mf, hmf, h⟩
      · rw [h]
        exact cbRecorded_zero
      · rw [h]
        exact ((hfolders m).readBack hmf).of_parts fun p _ => rfl
    exact hread.of_parts fun p hp => (verifyParts_parts hp).1
  · exact hram m

/-- What is done for a medium keeps its entries and writes at most its manifest. -/
def KeepsParts (K : CbVault) (act : CbMedium → CbManifest → CbManifest × List CbWrite) : Prop :=
  ∀ m mf, (act m mf).1.parts = mf.parts ∧
    (onMedium m (act m mf).2 = [] ∨
      onMedium m (act m mf).2 =
        [(.manifest, K.cj.print (cbManifestToJson (act m mf).1))])

theorem writeManifest_onMedium_cases (m : CbMedium) (mf : CbManifest) :
    onMedium m (writeManifest K env m mf) = [] ∨ onMedium m (writeManifest K env m mf) =
        [(.manifest, K.cj.print (cbManifestToJson mf))] := by
  rw [onMedium_writeManifest]
  split_ifs
  · exact Or.inr rfl
  · exact Or.inl rfl

theorem holdMedium_keeps : KeepsParts K (holdMedium K env) := by
  intro m mf
  rw [holdMedium]
  split_ifs
  · exact ⟨rfl, writeManifest_onMedium_cases m _⟩
  · exact ⟨rfl, Or.inl rfl⟩

theorem releaseMedium_keeps : KeepsParts K (releaseMedium K env) := by
  intro m mf
  rw [releaseMedium]
  split_ifs
  · exact ⟨rfl, writeManifest_onMedium_cases m _⟩
  · exact ⟨rfl, Or.inl rfl⟩

theorem finishMedium_keeps (env : CbCopyEnv) (force : Bool) (wrote : CbMedium → Bool) :
    KeepsParts K (finishMedium K env force wrote) := by
  intro m mf
  rw [finishMedium]
  split_ifs
  · exact ⟨rfl, writeManifest_onMedium_cases m _⟩
  · exact ⟨rfl, Or.inl rfl⟩

/-- What is left in memory and what is written are about parts that were sealed. -/
def RecordedCall (K : CbVault) (U : CbPart → List UInt8 → List UInt8 → Prop)
    (ram : CbRam) (ws : List CbWrite) : Prop :=
  (∀ m, CbRecorded K U (ram m)) ∧ ∀ m f d, (f, d) ∈ onMedium m ws → CbFileOf K U f d

theorem onMedia_recorded (sd : Bool) (hown : OwnWrites act) (hkeeps : KeepsParts K act)
    (hram : ∀ m, CbRecorded K U (ram m)) :
    RecordedCall K U (onMedia sd act ram).1 (onMedia sd act ram).2 := by
  have hact : ∀ m, CbRecorded K U (act m (ram m)).1 := by
    intro m
    apply (hram m).of_parts
    intro p _
    rw [(hkeeps m (ram m)).1]
  constructor
  · intro m
    rw [onMedia]
    simp only
    split_ifs
    · exact hact m
    · exact hram m
  · intro m f d hmem
    rw [onMedium_onMedia hown] at hmem
    split_ifs at hmem
    · rcases (hkeeps m (ram m)).2 with h | h
      · rw [h] at hmem
        cases hmem
      · rw [h] at hmem
        obtain ⟨rfl, rfl⟩ := Prod.mk.inj (mem_singleton.mp hmem)
        exact ⟨_, hact m, rfl⟩
    · cases hmem

theorem sweepPart_recorded (henv : ∀ p nonce plain, env.builds p = some plain →
      env.nonces p = some nonce → U p nonce plain)
    (hacc : RecordedCall K U acc.ram acc.writes) (p : CbPart) :
    RecordedCall K U (sweepPart K env sd acc p).ram (sweepPart K env sd acc p).writes := by
  obtain ⟨hram, hwrites⟩ := hacc
  constructor
  · intro m
    rcases sweepPart_cases K env sd acc p m with ⟨h, _⟩ | ⟨nonce, plain, hb, hn, _, h, _⟩
    · rw [h]
      exact hram m
    · rw [h]
      intro q hq
      simp only at hq ⊢
      by_cases hqp : q = p
      · subst hqp
        exact ⟨nonce, plain, henv q nonce plain hb hn, update_self ..⟩
      · rw [update_of_ne hqp] at hq ⊢
        exact hram m q hq
  · intro m f d hmem
    rcases sweepPart_cases K env sd acc p m with
      ⟨_, _, h⟩ | ⟨nonce, plain, hb, hn, _, _, _, h⟩
    · rw [h] at hmem
      exact hwrites m f d hmem
    · rw [h] at hmem
      rcases mem_append.mp hmem with hmem | hmem
      · exact hwrites m f d hmem
      · obtain ⟨rfl, rfl⟩ := Prod.mk.inj (mem_singleton.mp hmem)
        exact ⟨nonce, plain, henv p nonce plain hb hn, rfl⟩

theorem cbSweep_recorded (henv : ∀ p nonce plain, env.builds p = some plain →
      env.nonces p = some nonce → U p nonce plain)
    (hfolders : ∀ m, CbFolderOf K U (folders m)) (hram : ∀ m, CbRecorded K U (ram m))
    (force : Bool) : RecordedCall K U (cbSweep K env sd folders force ram).1
      (cbSweep K env sd folders force ram).2 := by
  have hstart : ∀ m, CbRecorded K U (sweepRam K env sd folders force ram m) := by
    intro m
    have hload := loadManifests_recorded env sd hfolders hram m
    rw [sweepRam]
    split_ifs
    · exact hload.of_parts fun p _ => rfl
    · exact hload
  have hparts : ∀ (ps : List CbPart) (acc : CbSweep), RecordedCall K U acc.ram acc.writes →
      RecordedCall K U (ps.foldl (sweepPart K env sd) acc).ram
        (ps.foldl (sweepPart K env sd) acc).writes := by
    intro ps
    induction ps with
    | nil => exact fun acc h => h
    | cons p ps ih => exact fun acc h => ih _ (sweepPart_recorded henv h p)
  rw [cbSweep]
  by_cases hbuf : ¬env.buffer
  · rw [if_pos hbuf]
    exact ⟨hstart, fun _ _ _ h => by cases h⟩
  · rw [if_neg hbuf]
    have hacc := hparts CbPart.all ⟨sweepRam K env sd folders force ram, fun _ => false, []⟩
      ⟨hstart, fun _ _ _ h => by cases h⟩
    have hfin := onMedia_recorded sd (finishMedium_own K env force
      (sweepParts K env sd folders force ram).wrote)
      (finishMedium_keeps env force (sweepParts K env sd folders force ram).wrote) hacc.1
    refine ⟨hfin.1, fun m f d hmem => ?_⟩
    simp only [onMedium_append] at hmem
    rcases mem_append.mp hmem with hmem | hmem
    · exact hacc.2 m f d hmem
    · exact hfin.2 m f d hmem

end

/-! ## What a run has written -/

section

variable {κ : Type*} {K : CbVault}

/-- The sweep of an event. -/
def CbEvent.sweepEnv : CbEvent κ → Option CbCopyEnv
  | .op (.sweep _) env | .cut (.sweep _) env _ _ => some env
  | _ => none

/-- A sweep of the run built the part so. -/
def CbBuilt (evs : List (CbEvent κ)) (p : CbPart) (plain : List UInt8) : Prop :=
  ∃ e ∈ evs, ∃ env, e.sweepEnv = some env ∧ env.builds p = some plain

/-- A sweep of the run built the part so and sealed it. -/
def CbSealed (evs : List (CbEvent κ)) (p : CbPart) (nonce plain : List UInt8) : Prop :=
  ∃ e ∈ evs, ∃ env, e.sweepEnv = some env ∧ env.builds p = some plain ∧
    env.nonces p = some nonce

theorem CbSealed.built {evs : List (CbEvent κ)} (h : CbSealed evs p nonce plain) :
    CbBuilt evs p plain := by
  obtain ⟨e, he, env, henv, hb, _⟩ := h
  exact ⟨e, he, env, henv, hb⟩

theorem CbSealed.mono {evs evs' : List (CbEvent κ)} (hsub : evs ⊆ evs')
    (h : CbSealed evs p nonce plain) : CbSealed evs' p nonce plain := by
  obtain ⟨e, he, henv⟩ := h
  exact ⟨e, hsub he, henv⟩

theorem CbFileOf.mono {U : CbPart → List UInt8 → List UInt8 → Prop}
    (hU : ∀ p nonce plain, U p nonce plain → U' p nonce plain) {f : CbFile} {d : List UInt8}
    (h : CbFileOf K U f d) : CbFileOf K U' f d := by
  cases f with
  | manifest =>
    obtain ⟨mf, hmf, hd⟩ := h
    refine ⟨mf, fun p hp => ?_, hd⟩
    obtain ⟨nonce, plain, hu, he⟩ := hmf p hp
    exact ⟨nonce, plain, hU _ _ _ hu, he⟩
  | part p =>
    obtain ⟨nonce, plain, hu, hd⟩ := h
    exact ⟨nonce, plain, hU _ _ _ hu, hd⟩

namespace CbCopies

variable [DecidableEq κ] {s : CbCopies κ} {U : CbPart → List UInt8 → List UInt8 → Prop}

omit [DecidableEq κ] in
theorem Recorded.mono (hU : ∀ p nonce plain, U p nonce plain → U' p nonce plain)
    (h : s.Recorded K U) : s.Recorded K U' := by
  refine ⟨fun x d hd => (h.files x d hd).mono hU, fun m p hp => ?_⟩
  obtain ⟨nonce, plain, hu, he⟩ := h.ram m p hp
  exact ⟨nonce, plain, hU _ _ _ hu, he⟩

omit [DecidableEq κ] in
theorem Recorded.folder (h : s.Recorded K U) (m : CbMedium) : CbFolderOf K U (s.folder m) := by
  intro f d hd
  obtain ⟨π, _, hπ⟩ := bind_eq_some_iff.mp hd
  exact h.files (π, f) d hπ

omit [DecidableEq κ] in
theorem call_recorded (h : s.Recorded K U) {env : CbCopyEnv}
    (henv : ∀ p nonce plain, (∃ force, o = .sweep force) → env.builds p = some plain →
      env.nonces p = some nonce → U p nonce plain) :
    RecordedCall K U (s.call K o env).1 (s.call K o env).2 := by
  have hload := loadManifests_recorded env s.mounted h.folder h.ram
  cases o with
  | begin =>
    rw [call]
    split_ifs
    · exact onMedia_recorded _ (holdMedium_own K env) holdMedium_keeps hload
    · exact ⟨h.ram, fun _ _ _ hmem => by cases hmem⟩
  | sweep force =>
    exact cbSweep_recorded (fun p nonce plain => henv p nonce plain ⟨force, rfl⟩) h.folder h.ram
      force
  | release => exact onMedia_recorded _ (releaseMedium_own K env) releaseMedium_keeps hload

theorem land_recorded (h : s.Recorded K U) {ws : List CbWrite}
    (hws : ∀ w ∈ ws, CbFileOf K U w.1.2 w.2) (x : CbPlace κ × CbFile) (d : List UInt8)
    (hd : s.land ws x = some d) : CbFileOf K U x.2 d := by
  refine land_forall (Q := fun x d => CbFileOf K U x.2 d) h.files ?_ x d hd
  intro w hw
  obtain ⟨w', hw', hl⟩ := mem_filterMap.mp hw
  obtain ⟨π, _, rfl⟩ := map_eq_some_iff.mp hl
  exact hws w' hw'

/-- **What happens keeps the files and the manifests about parts that were sealed.** -/
theorem next_recorded (h : s.Recorded K U) {e : CbEvent κ}
    (henv : ∀ p nonce plain, CbSealed [e] p nonce plain → U p nonce plain) :
    (s.next K e).Recorded K U := by
  have hcall : ∀ (o : CbOp) (env : CbCopyEnv), (∀ force, o = .sweep force → e.sweepEnv = some env) →
      RecordedCall K U (s.call K o env).1 (s.call K o env).2 := by
    intro o env ho
    apply call_recorded h
    rintro p nonce plain ⟨force, hforce⟩ hb hn
    exact henv p nonce plain ⟨e, mem_singleton.mpr rfl, env, ho force hforce, hb, hn⟩
  cases e with
  | op o env =>
    have hrec := hcall o env fun force ho => by
      subst ho
      rfl
    refine ⟨land_recorded h fun w hw => ?_, hrec.1⟩
    exact hrec.2 w.1.1 w.1.2 w.2 (mem_onMedium.mpr hw)
  | cut o env n reset =>
    have hrec := hcall o env fun force ho => by
      subst ho
      rfl
    refine ⟨land_recorded h fun w hw => ?_, fun _ => cbRecorded_zero⟩
    exact hrec.2 w.1.1 w.1.2 w.2 (mem_onMedium.mpr (mem_of_mem_take hw))
  | restart reset => exact ⟨h.files, fun _ => cbRecorded_zero⟩
  | card slot => exact ⟨h.files, h.ram⟩

theorem run_recorded {slot : Option κ} {evs : List (CbEvent κ)}
    (hrun : Run (Step K) (blank slot) evs s) : s.Recorded K (CbSealed evs) := by
  refine hrun.history (I := fun evs s => s.Recorded K (CbSealed evs)) ?_ ?_
  · rintro evs s e _ ⟨_, rfl⟩ h
    apply next_recorded
    · exact h.mono fun p nonce plain => CbSealed.mono (subset_append_left evs [e])
    · exact fun p nonce plain => CbSealed.mono (subset_append_right evs [e])
  · exact ⟨fun x d hd => (by cases hd), fun m => cbRecorded_zero⟩

end CbCopies

end

/-! ## What is verified at a boot -/

/-- Each entry is the one that the manifest of the folder has, and the file of the part
has the CRC that it says. -/
def CbVerified (K : CbVault) (folder : CbFolder) (mf : CbManifest) : Prop :=
  ∀ p, (mf.parts p).present = true →
    (∃ raw, folder (.part p) = some raw ∧ cbCrc32 raw = (mf.parts p).crc) ∧
      ∃ mf', readBack K folder = some mf' ∧ mf'.parts p = mf.parts p

section

variable {K : CbVault} {env : CbCopyEnv} {sd : Bool}

theorem partMatches_file {folder : CbFolder} {e : CbManifestPart}
    (h : partMatches env m folder p e = true) :
    ∃ raw, folder (.part p) = some raw ∧ cbCrc32 raw = e.crc := by
  rw [partMatches] at h
  cases hread : cbReadFile (env.reads m (.part p)) cbDocMax (folder (.part p)) with
  | none =>
    rw [hread] at h
    cases h
  | some raw =>
    rw [hread] at h
    rw [cbReadFile] at hread
    split_ifs at hread
    simp only [Bool.and_eq_true, beq_iff_eq] at h
    exact ⟨raw, eq_some_of_filter_eq_some hread, h.2⟩

/-- **What is loaded is verified.** -/
theorem loadManifests_verified (env : CbCopyEnv) (folders : CbMedium → CbFolder)
    (hthere : m.there sd = true) (hram : (ram m).loaded = true → CbVerified K (folders m) (ram m)) :
    CbVerified K (folders m) (loadManifests K env sd folders ram m) := by
  rw [loadManifests, if_pos hthere]
  by_cases hloaded : (ram m).loaded = true
  · rw [if_pos hloaded]
    exact hram hloaded
  · rw [if_neg hloaded]
    intro p hp
    obtain ⟨heq, hmatch⟩ := verifyParts_parts hp
    rw [heq] at hp ⊢
    refine ⟨partMatches_file hmatch, ?_⟩
    rcases cbCopiesReadManifest_cases K env m (folders m) with h | ⟨mf, hmf, h⟩
    · rw [h] at hp
      cases hp
    · rw [h]
      exact ⟨mf, hmf, rfl⟩

theorem CbVerified.land {folder : CbFolder} (h : CbVerified K folder mf)
    (hparts : mf'.parts = mf.parts) {ws : List (CbFile × List UInt8)}
    (hws : ws = [] ∨ ws = [(.manifest, K.cj.print (cbManifestToJson mf'))]) :
    CbVerified K (Writes.land folder ws) mf' := by
  intro p hp
  rw [hparts] at hp
  obtain ⟨hfile, hback⟩ := h p hp
  rcases hws with rfl | rfl
  · rw [hparts]
    exact ⟨hfile, hback⟩
  · have hmf : Writes.land folder [(.manifest, K.cj.print (cbManifestToJson mf'))] .manifest =
        some (K.cj.print (cbManifestToJson mf')) :=
      land_mid [] fun w hw => (by cases hw)
    refine ⟨?_, mf'.written, readBack_written hmf, ?_⟩
    · rw [hparts]
      obtain ⟨raw, hraw, hcrc⟩ := hfile
      refine ⟨raw, ?_, hcrc⟩
      rw [land_other, hraw]
      intro w hw
      obtain rfl := mem_singleton.mp hw
      exact CbFile.noConfusion
    · rw [CbManifest.written]
      simp only [hparts, hp, if_true]

namespace CbCopies

variable {κ : Type*} [DecidableEq κ] {s : CbCopies κ}

/-- The manifests in memory are verified. -/
def Verified (K : CbVault) (s : CbCopies κ) : Prop :=
  ∀ m π, s.place m = some π → (s.ram m).loaded = true → CbVerified K (s.folder m) (s.ram m)

theorem next_folder {π : CbPlace κ} (hm : s.place m = some π) :
    (s.next K (.op o env)).folder m = Writes.land (s.folder m) (onMedium m (s.call K o env).2) := by
  funext f
  have hm' : (s.next K (.op o env)).place m = some π := hm
  rw [folder_eq hm']
  exact land_folder hm f _

omit [DecidableEq κ] in
theorem onMedia_verified (hown : OwnWrites act) (hkeeps : KeepsParts K act) (hver : s.Verified K)
    {π : CbPlace κ} (hm : s.place m = some π) :
    CbVerified K (Writes.land (s.folder m) (onMedium m
        (onMedia s.mounted act (loadManifests K env s.mounted s.folder s.ram)).2))
      ((onMedia s.mounted act (loadManifests K env s.mounted s.folder s.ram)).1 m) := by
  have hthere : m.there s.mounted = true := there_iff.mpr ⟨π, hm⟩
  have hload := loadManifests_verified (K := K) env s.folder hthere (hver m π hm)
  have hact := hkeeps m (loadManifests K env s.mounted s.folder s.ram m)
  rw [onMedium_onMedia hown, onMedia]
  simp only [hthere, if_true]
  exact hload.land hact.1 hact.2

theorem next_verified (hver : s.Verified K) (ho : ∀ force, o ≠ .sweep force) :
    (s.next K (.op o env)).Verified K := by
  intro m π hm hloaded
  have hm' : s.place m = some π := hm
  rw [next_folder hm']
  cases o with
  | begin =>
    have hram : (s.next K (.op .begin env)).ram = (s.call K .begin env).1 := rfl
    rw [hram] at hloaded ⊢
    rw [call] at hloaded ⊢
    split_ifs at hloaded ⊢ with hreset
    · exact onMedia_verified (holdMedium_own K env) holdMedium_keeps hver hm'
    · exact hver m π hm' hloaded
  | sweep force => exact absurd rfl (ho force)
  | release => exact onMedia_verified (releaseMedium_own K env) releaseMedium_keeps hver hm'

end CbCopies

end

/-! ## The sweep -/

section

variable {K : CbVault} {env : CbCopyEnv} {sd : Bool}

theorem sweepPart_held (K : CbVault) (env : CbCopyEnv) (sd : Bool) (acc : CbSweep) (p : CbPart)
    (m : CbMedium) : ((sweepPart K env sd acc p).ram m).held = (acc.ram m).held := by
  rcases sweepPart_cases K env sd acc p m with ⟨h, _⟩ | ⟨_, _, _, _, _, h, _⟩
  · rw [h]
  · rw [h]

theorem foldl_held (m : CbMedium) (ps : List CbPart) : ∀ acc : CbSweep,
    ((ps.foldl (sweepPart K env sd) acc).ram m).held = (acc.ram m).held := by
  induction ps with
  | nil => exact fun _ => rfl
  | cons p ps ih => exact fun acc => (ih _).trans (sweepPart_held K env sd acc p m)

theorem finishMedium_held (force : Bool) (wrote : CbMedium → Bool) (m : CbMedium)
    (mf : CbManifest) : (finishMedium K env force wrote m mf).1.held = mf.held := by
  rw [finishMedium]
  split_ifs <;> rfl

/-- A sweep on its way, for one medium: a medium that nothing was written to has the
manifest it had, no manifest was written, and an entry describes its file. -/
structure SweepOn (m : CbMedium) (folder : CbFolder) (mf : CbManifest) (acc : CbSweep) : Prop where
  still : acc.wrote m = false → (acc.ram m).parts = mf.parts ∧ onMedium m acc.writes = []
  parts : ∀ w ∈ onMedium m acc.writes, w.1 ≠ .manifest
  files : ∀ p, ((acc.ram m).parts p).present = true →
    ∃ raw, Writes.land folder (onMedium m acc.writes) (.part p) = some raw ∧
      cbCrc32 raw = ((acc.ram m).parts p).crc

theorem SweepOn.step {folder : CbFolder} (h : SweepOn m folder mf acc) (p : CbPart) :
    SweepOn m folder mf (sweepPart K env sd acc p) := by
  rcases sweepPart_cases K env sd acc p m with
    ⟨hram, hwrote, hws⟩ | ⟨nonce, plain, _, _, _, hram, hwrote, hws⟩
  · constructor
    · rw [hwrote, hram, hws]
      exact h.still
    · rw [hws]
      exact h.parts
    · rw [hram, hws]
      exact h.files
  · constructor
    · rw [hwrote]
      exact fun hno => by cases hno
    · rw [hws]
      intro w hw
      rcases mem_append.mp hw with hw | hw
      · exact h.parts w hw
      · obtain rfl := mem_singleton.mp hw
        exact CbFile.noConfusion
    · rw [hram, hws]
      intro q hq
      simp only at hq ⊢
      by_cases hqp : q = p
      · subst hqp
        refine ⟨sealPart K q nonce plain, land_mid _ fun w hw => (by cases hw), ?_⟩
        rw [update_self]
        rfl
      · rw [update_of_ne hqp] at hq ⊢
        rw [land_append, land_other]
        · exact h.files q hq
        · intro w hw
          obtain rfl := mem_singleton.mp hw
          exact fun heq => hqp (CbFile.part.inj heq).symm

theorem SweepOn.foldl {folder : CbFolder} (ps : List CbPart) :
    ∀ {acc : CbSweep}, SweepOn m folder mf acc →
      SweepOn m folder mf (ps.foldl (sweepPart K env sd) acc) := by
  induction ps with
  | nil => exact fun h => h
  | cons p ps ih => exact fun h => ih (h.step p)

theorem sweepPart_needs_of (hb : env.builds p = some plain)
    (h : needsPart (acc.ram m) p (K.hmac plain) = false) (q : CbPart) :
    needsPart ((sweepPart K env sd acc q).ram m) p (K.hmac plain) = false := by
  rcases sweepPart_cases K env sd acc q m with
    ⟨hram, _⟩ | ⟨nonce, plain', hb', _, hneed, hram, _⟩
  · rw [hram]
    exact h
  · by_cases hqp : p = q
    · -- it would not have been written again
      subst hqp
      rw [hb] at hb'
      obtain rfl := Option.some.inj hb'
      rw [h] at hneed
      cases hneed
    · rw [hram]
      simp only [needsPart, update_of_ne hqp] at h ⊢
      exact h

/-- **After the parts of a sweep the medium needs none that can be written.** -/
theorem foldl_needs (hb : env.builds p = some plain) (hmac : env.macs p = true)
    (hn : (env.nonces p).isSome = true) (hm : m.there sd = true)
    (hw : env.writes m (.part p) = true) : ∀ {ps : List CbPart} {acc : CbSweep},
    (p ∈ ps ∨ needsPart (acc.ram m) p (K.hmac plain) = false) →
      needsPart ((ps.foldl (sweepPart K env sd) acc).ram m) p (K.hmac plain) = false := by
  intro ps
  induction ps with
  | nil =>
    rintro acc (h | h)
    · cases h
    · exact h
  | cons q ps ih =>
    rintro acc (h | h)
    · rcases List.mem_cons.mp h with rfl | h
      · exact ih (Or.inr (sweepPart_needs K env hb hmac hn hm hw))
      · exact ih (Or.inl h)
    · exact ih (Or.inr (sweepPart_needs_of hb h q))

end

/-! ## Convergence -/

section

variable {κ : Type*} {K : CbVault}

/-- What the device does between its boot and the first sweep. -/
def CbEvent.Boots : CbEvent κ → Prop
  | .op o _ => ∀ force, o ≠ .sweep force
  | _ => False

/-- The device restarts. -/
def CbEvent.Restarts : CbEvent κ → Prop
  | .cut .. | .restart _ => True
  | _ => False

/-- The sealed files and the contents in a run have checksums and HMACs of their own. -/
structure CbDistinct (K : CbVault) (evs : List (CbEvent κ)) : Prop where
  crc : ∀ p nonce plain nonce' plain', CbSealed evs p nonce plain → CbSealed evs p nonce' plain' →
    cbCrc32 (sealPart K p nonce plain) = cbCrc32 (sealPart K p nonce' plain') →
      sealPart K p nonce plain = sealPart K p nonce' plain'
  hmac : ∀ p plain plain', CbBuilt evs p plain → CbBuilt evs p plain' →
    K.hmac plain = K.hmac plain' → plain = plain'

/-- The copy on a medium has that part: the file is a sealing of it, and the manifest
describes that. -/
def HasPart (K : CbVault) (folder : CbFolder) (p : CbPart) (plain : List UInt8) : Prop :=
  ∃ nonce, folder (.part p) = some (sealPart K p nonce plain) ∧
    ∃ mf, readBack K folder = some mf ∧ mf.parts p = sealedEntry K p nonce plain

namespace CbCopies

variable [DecidableEq κ] {s : CbCopies κ}

/-- **One sweep whose writes succeed makes a copy that is not held the current one**,
whatever the power cuts before left. -/
theorem sweep_converges {env : CbCopyEnv} {force : Bool} {evs : List (CbEvent κ)}
    (hver : s.Verified K) (hrec : (s.next K (.op (.sweep force) env)).Recorded K (CbSealed evs))
    (hdist : CbDistinct K evs) {π : CbPlace κ} (hm : s.place m = some π)
    (hbuf : env.buffer = true) (hwrites : ∀ f, env.writes m f = true)
    (hheld : ((s.next K (.op (.sweep force) env)).ram m).held = false)
    (hbuilt : CbBuilt evs p plain) (hb : env.builds p = some plain) (hmac : env.macs p = true)
    (hn : (env.nonces p).isSome = true) :
    HasPart K ((s.next K (.op (.sweep force) env)).folder m) p plain := by
  have hthere : m.there s.mounted = true := there_iff.mpr ⟨π, hm⟩
  have hload := loadManifests_verified (K := K) env s.folder hthere (hver m π hm)
  generalize hram0 : sweepRam K env s.mounted s.folder force s.ram = ram0
  have hparts0 : (ram0 m).parts = (loadManifests K env s.mounted s.folder s.ram m).parts := by
    rw [← hram0, sweepRam]
    split_ifs <;> rfl
  have hver0 : CbVerified K (s.folder m) (ram0 m) := by
    have h := hload.land hparts0 (Or.inl rfl)
    exact h
  generalize hacc : sweepParts K env s.mounted s.folder force s.ram = acc
  have hon : SweepOn m (s.folder m) (ram0 m) acc := by
    rw [← hacc, sweepParts, hram0]
    refine SweepOn.foldl _ ⟨fun _ => ⟨rfl, rfl⟩, fun w hw => (by cases hw), fun q hq => ?_⟩
    exact (hver0 q hq).1
  have hneed : needsPart (acc.ram m) p (K.hmac plain) = false := by
    rw [← hacc]
    exact foldl_needs hb hmac hn hthere (hwrites _) (Or.inl (CbPart.mem_all p))
  have hcall : s.call K (.sweep force) env =
      ((onMedia s.mounted (finishMedium K env force acc.wrote) acc.ram).1,
        acc.writes ++ (onMedia s.mounted (finishMedium K env force acc.wrote) acc.ram).2) := by
    rw [call, cbSweep, if_neg (not_not.mpr hbuf)]
    simp only [hacc]
  generalize hfin : finishMedium K env force acc.wrote m (acc.ram m) = fin
  have hram : (s.next K (.op (.sweep force) env)).ram m = fin.1 := by
    have h : (s.next K (.op (.sweep force) env)).ram m = (s.call K (.sweep force) env).1 m := rfl
    rw [h, hcall, onMedia]
    simp only [hthere, if_true, hfin]
  have hfolder : (s.next K (.op (.sweep force) env)).folder m =
      Writes.land (s.folder m) (onMedium m acc.writes ++ onMedium m fin.2) := by
    rw [next_folder hm, hcall, onMedium_append, onMedium_onMedia (finishMedium_own K env _ _),
      if_pos hthere, hfin]
  have hkeep := finishMedium_keeps (K := K) env force acc.wrote m (acc.ram m)
  rw [hfin] at hkeep
  obtain ⟨hparts, hws⟩ := hkeep
  -- the entry says what the device has
  have hheld' : (acc.ram m).held = false := by
    rw [← finishMedium_held force acc.wrote m (acc.ram m), hfin, ← hram, hheld]
  have hentry : ((acc.ram m).parts p).present = true ∧
      K.hmac plain = ((acc.ram m).parts p).hmac := by
    rw [needsPart, hheld'] at hneed
    simpa using hneed
  obtain ⟨nonce, plain', hsealed, he⟩ : ∃ nonce plain', CbSealed evs p nonce plain' ∧
      (acc.ram m).parts p = sealedEntry K p nonce plain' := by
    have h := hrec.ram m p
    rw [hram, hparts] at h
    exact h hentry.1
  obtain rfl : plain' = plain := by
    rw [he] at hentry
    exact (hdist.hmac p plain plain' hbuilt hsealed.built hentry.2).symm
  refine ⟨nonce, ?_, ?_⟩
  · -- the file has the checksum of that sealing
    obtain ⟨raw, hraw, hcrc⟩ := hon.files p hentry.1
    have hfile : (s.next K (.op (.sweep force) env)).folder m (.part p) = some raw := by
      rw [hfolder, land_append, land_other, hraw]
      intro w hw
      rcases hws with h | h
      · rw [h] at hw
        cases hw
      · rw [h] at hw
        obtain rfl := mem_singleton.mp hw
        exact CbFile.noConfusion
    obtain ⟨nonce', plain'', hsealed', rfl⟩ := hrec.folder m (.part p) raw hfile
    rw [he] at hcrc
    rw [hfile, hdist.crc p _ _ _ _ hsealed' hsealed hcrc]
  · by_cases hwrote : (acc.wrote m || force) = true
    · -- the manifest was written last
      have hlast : onMedium m fin.2 = [(.manifest, K.cj.print (cbManifestToJson fin.1))] := by
        rw [← hfin, finishMedium, if_pos hwrote, onMedium_writeManifest, if_pos (hwrites _)]
      have hmf : (s.next K (.op (.sweep force) env)).folder m .manifest =
          some (K.cj.print (cbManifestToJson fin.1)) := by
        rw [hfolder, hlast]
        exact land_mid _ fun w hw => (by cases hw)
      refine ⟨fin.1.written, readBack_written hmf, ?_⟩
      rw [CbManifest.written]
      simp only [hparts]
      rw [if_pos hentry.1, he]
    · -- nothing was written, and the manifest says what was verified
      have hno := Bool.or_eq_false_iff.mp (Bool.not_eq_true _ ▸ hwrote)
      obtain ⟨hstill, hnone⟩ := hon.still hno.1
      have hlast : fin.2 = [] := by
        rw [← hfin, finishMedium, if_neg hwrote]
      have hsame : (s.next K (.op (.sweep force) env)).folder m = s.folder m := by
        rw [hfolder, hnone, hlast]
        rfl
      have hp0 : ((ram0 m).parts p).present = true := by
        rw [← hstill]
        exact hentry.1
      obtain ⟨_, mf, hmf, hmfp⟩ := hver0 p hp0
      refine ⟨mf, ?_, ?_⟩
      · rw [hsame]
        exact hmf
      · rw [hmfp, ← hstill, he]

omit [DecidableEq κ] in
theorem boot_verified (s : CbCopies κ) (reset : Bool) : (s.boot reset).Verified K := by
  intro m π _ hloaded
  cases hloaded

theorem run_boots {s s' : CbCopies κ} {evs : List (CbEvent κ)} (hrun : Run (Step K) s evs s')
    (hboots : ∀ e ∈ evs, e.Boots) (hver : s.Verified K) : s'.Verified K := by
  induction hrun with
  | nil s => exact hver
  | @cons s s₁ s₂ e evs hs _ ih =>
    obtain ⟨he, hevs⟩ := forall_mem_cons.mp hboots
    apply ih hevs
    obtain ⟨_, rfl⟩ := hs
    cases e with
    | op o env => exact next_verified hver he
    | cut o env n reset => exact he.elim
    | restart reset => exact he.elim
    | card slot => exact he.elim

end CbCopies

open CbCopies in
/-- **The copies converge after any power cut.** Whatever happened to a device that
had no copies, once it has restarted and one sweep whose writes succeed has come, a
copy that is not held has every part that the sweep could build: the file is a
sealing of it, and the manifest describes that. -/
theorem copies_converge [DecidableEq κ] {slot : Option κ} {evs boot : List (CbEvent κ)}
    {e : CbEvent κ} {force : Bool} {env : CbCopyEnv} {s' : CbCopies κ}
    (hrun : Run (Step K) (blank slot) (evs ++ e :: boot ++ [.op (.sweep force) env]) s')
    (hrestart : e.Restarts) (hboots : ∀ e ∈ boot, e.Boots)
    (hdist : CbDistinct K (evs ++ e :: boot ++ [.op (.sweep force) env])) {m : CbMedium}
    (hm : m.there s'.mounted = true) (hheld : (s'.ram m).held = false) (hbuf : env.buffer = true)
    (hwrites : ∀ f, env.writes m f = true) {p : CbPart} {plain : List UInt8}
    (hb : env.builds p = some plain) (hmac : env.macs p = true)
    (hn : (env.nonces p).isSome = true) : HasPart K (s'.folder m) p plain := by
  have hrec := run_recorded hrun
  have hbuilt : CbBuilt (evs ++ e :: boot ++ [.op (.sweep force) env]) p plain :=
    ⟨_, mem_append_right _ (mem_singleton.mpr rfl), env, rfl, hb⟩
  obtain ⟨s₃, hrun, hsweep⟩ := hrun.split
  obtain ⟨s₀, _, hrun⟩ := hrun.split
  cases hrun with
  | @cons _ s₁ _ _ _ hs hboot =>
    cases hsweep with
    | cons hsweep hnil =>
      cases hnil
      obtain ⟨_, rfl⟩ := hsweep
      have hver : s₁.Verified K := by
        obtain ⟨_, rfl⟩ := hs
        cases e with
        | op o env => exact hrestart.elim
        | cut o env n reset => exact boot_verified _ reset
        | restart reset => exact boot_verified _ reset
        | card slot => exact hrestart.elim
      obtain ⟨π, hπ⟩ := there_iff.mp hm
      exact sweep_converges (run_boots hboot hboots hver) hrec hdist hπ hbuf hwrites hheld hbuilt
        hb hmac hn

theorem CbCopies.refresh_held [DecidableEq κ] (s : CbCopies κ) (env : CbCopyEnv) (m : CbMedium) :
    ((s.next K (.op (.sweep true) env)).ram m).held = false := by
  have hstart : (sweepRam K env s.mounted s.folder true s.ram m).held = false := rfl
  have hram : (s.next K (.op (.sweep true) env)).ram m =
      (cbSweep K env s.mounted s.folder true s.ram).1 m := rfl
  rw [hram, cbSweep]
  by_cases hbuf : ¬env.buffer
  · rw [if_pos hbuf]
    exact hstart
  · rw [if_neg hbuf]
    have hacc : ((sweepParts K env s.mounted s.folder true s.ram).ram m).held = false :=
      (foldl_held m CbPart.all _).trans hstart
    simp only [onMedia]
    split_ifs
    · rw [finishMedium_held, hacc]
    · exact hacc

end

/-! A setting that moves away and back, with a power cut on the way: the part is
written, its manifest is not, and after the boot the device has the first setting
again. -/

/-- Bytes from their hexadecimal text. -/
def hexBytes (s : String) : List UInt8 :=
  (cbHexDecode s.toList (List.replicate (s.toList.length / 2) 0)).2

/-- The settings part, with the setting on and off. -/
def settingOn : List UInt8 := asciiBytes "\x7b\"auto_copy\":true\x7d"
def settingOff : List UInt8 := asciiBytes "\x7b\"auto_copy\":false\x7d"

def benchNonce (n : UInt8) : List UInt8 := List.replicate 12 n

/-- A device with the key 00 01 .. 1f. -/
noncomputable def benchVault : CbVault where
  cj := .pinned [] noPins
  aead _ nonce plain :=
    if nonce = benchNonce 1 ∧ plain = settingOn then
      hexBytes "0ce184401cea3705bb241e3a221320adae13e8e92444d16d85ce512451fb99db90f2"
    else if nonce = benchNonce 2 ∧ plain = settingOff then
      hexBytes "e00a78cecdb66e38a4f5dbda091fbb7f6f8cd2473cb307ffd34bc2d4468eab706a2bf2"
    else if nonce = benchNonce 3 ∧ plain = settingOn then
      hexBytes "95695da37ffd0d75b12d7f5cf7de26727f2bfdd6e5faeef8391b8b7253c580839eec"
    else []
  hmac plain :=
    if plain = settingOn then
      ⟨hexBytes "8ac3bb592e7bcaadc2509afdbd1f39882297290f8530d1150c77dd991f9a5eb0",
        by decide +kernel⟩
    else if plain = settingOff then
      ⟨hexBytes "20c14b3fa98a9953b4bcc9ea0e6507325903c18fa905abceaea34d2913535e06",
        by decide +kernel⟩
    else CbManifestPart.zero.hmac
  dev := "68ee8f5a653d".toList

/-- Everything goes well. -/
def benchEnv (nonce : UInt8) (plain : List UInt8) : CbCopyEnv where
  reads _ _ := true
  parses _ := true
  buffer := true
  builds p := if p = .settings then some plain else none
  macs _ := true
  nonces p := if p = .settings then some (benchNonce nonce) else none
  writes _ _ := true
  now := 1792100000
  fw := "v5.00".toList

/-- What happens to it before the last sweep. -/
def benchEvents : List (CbEvent Unit) :=
  [.op .begin (benchEnv 1 settingOn), .op (.sweep false) (benchEnv 1 settingOn)]

/-- What is sealed meanwhile. -/
def benchSealed : List (List UInt8 × List UInt8) :=
  [(benchNonce 1, settingOn), (benchNonce 2, settingOff), (benchNonce 3, settingOn)]

def benchRun : List (CbEvent Unit) :=
  benchEvents ++ .cut (.sweep false) (benchEnv 2 settingOff) 1 false ::
    [.op .begin (benchEnv 3 settingOn)] ++ [.op (.sweep true) (benchEnv 3 settingOn)]

theorem benchEnv_part {n : UInt8} {x : List UInt8} (hb : (benchEnv n x).builds p = some plain)
    (hn : (benchEnv n x).nonces p = some nonce) :
    p = .settings ∧ nonce = benchNonce n ∧ plain = x := by
  simp only [benchEnv] at hb hn
  split_ifs at hb hn with hp
  exact ⟨hp, (Option.some.inj hn).symm, (Option.some.inj hb).symm⟩

theorem benchRun_sealed (h : CbSealed benchRun p nonce plain) :
    p = .settings ∧ (nonce, plain) ∈ benchSealed := by
  obtain ⟨e, he, env, henv, hb, hn⟩ := h
  simp only [benchRun, benchEvents, List.cons_append, List.nil_append, List.mem_cons,
    List.not_mem_nil, or_false] at he
  rcases he with rfl | rfl | rfl | rfl | rfl
  · cases henv
  · obtain rfl := Option.some.inj henv
    obtain ⟨rfl, rfl, rfl⟩ := benchEnv_part hb hn
    exact ⟨rfl, by decide⟩
  · obtain rfl := Option.some.inj henv
    obtain ⟨rfl, rfl, rfl⟩ := benchEnv_part hb hn
    exact ⟨rfl, by decide⟩
  · cases henv
  · obtain rfl := Option.some.inj henv
    obtain ⟨rfl, rfl, rfl⟩ := benchEnv_part hb hn
    exact ⟨rfl, by decide⟩

theorem benchRun_built (h : CbBuilt benchRun p plain) : plain ∈ [settingOn, settingOff] := by
  obtain ⟨e, he, env, henv, hb⟩ := h
  have hbuilt : ∀ {n : UInt8} {x : List UInt8}, (benchEnv n x).builds p = some plain →
      plain = x := by
    intro n x h
    simp only [benchEnv] at h
    split_ifs at h
    exact (Option.some.inj h).symm
  simp only [benchRun, benchEvents, List.cons_append, List.nil_append, List.mem_cons,
    List.not_mem_nil, or_false] at he
  rcases he with rfl | rfl | rfl | rfl | rfl
  · cases henv
  · obtain rfl := Option.some.inj henv
    rw [hbuilt hb]
    exact List.mem_cons_self
  · obtain rfl := Option.some.inj henv
    rw [hbuilt hb]
    exact List.mem_cons_of_mem _ List.mem_cons_self
  · cases henv
  · obtain rfl := Option.some.inj henv
    rw [hbuilt hb]
    exact List.mem_cons_self

theorem benchRun_distinct : CbDistinct benchVault benchRun := by
  have hcrc : (benchSealed.map fun a => cbCrc32 (sealPart benchVault .settings a.1 a.2)).Nodup := by
    decide +kernel
  have hmac : ([settingOn, settingOff].map benchVault.hmac).Nodup := by
    decide +kernel
  constructor
  · intro p nonce plain nonce' plain' h h'
    obtain ⟨rfl, ha⟩ := benchRun_sealed h
    obtain ⟨_, hb⟩ := benchRun_sealed h'
    exact fun heq => congrArg (fun a => sealPart benchVault .settings a.1 a.2)
      (inj_on_of_nodup_map hcrc ha hb heq)
  · intro p plain plain' h h'
    exact inj_on_of_nodup_map hmac (benchRun_built h) (benchRun_built h')

/-- The setting is on again, and so it is in the copy. -/
theorem copies_converge_back :
    HasPart benchVault ((benchRun.foldl (CbCopies.next benchVault) (.blank none)).folder .flash)
      .settings settingOn := by
  have hrun : Run (CbCopies.Step benchVault) (.blank none)
      (benchEvents ++ .cut (.sweep false) (benchEnv 2 settingOff) 1 false ::
        [.op .begin (benchEnv 3 settingOn)] ++ [.op (.sweep true) (benchEnv 3 settingOn)])
      (benchRun.foldl (CbCopies.next benchVault) (.blank none)) :=
    .cons ⟨rfl, rfl⟩ <| .cons ⟨rfl, rfl⟩ <| .cons ⟨rfl, rfl⟩ <| .cons ⟨rfl, rfl⟩ <|
      .cons ⟨rfl, rfl⟩ <| .nil _
  exact copies_converge hrun trivial
    (fun e he => (by
      obtain rfl := mem_singleton.mp he
      exact fun _ => CbOp.noConfusion))
    benchRun_distinct rfl (CbCopies.refresh_held _ _ _) rfl (fun _ => rfl) rfl rfl rfl

end Meatpi
