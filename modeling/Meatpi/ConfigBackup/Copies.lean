import Meatpi.ConfigBackup.Manifest
import Meatpi.Library.Run
import Meatpi.Library.Writes

/-!
# The copies that the device keeps for itself (`config_backup_copies.c`)

A sweep builds every part and seals and writes those whose HMAC is not the one that
the manifest has, on the flash and on the card if there is one; the manifest is
written last. The boot after a planned factory reset holds the copies it finds, and
a sweep leaves a held copy alone. The files are written one by one, and the power
may go between any two of them.
-/

namespace Meatpi

open Bool Function List Option

variable {d : List UInt8}

/-! ## Folders, manifests and what may fail -/

/-- The folders of the copies, as the worker knows them. -/
inductive CbMedium where
  | flash
  | card
  deriving DecidableEq

/-- A file of a copy. -/
inductive CbFile where
  | manifest
  | part (p : CbPart)
  deriving DecidableEq

/-- A folder with a copy. -/
abbrev CbFolder := CbFile → Option (List UInt8)

/-- A file and what is written to it. -/
abbrev CbWrite := (CbMedium × CbFile) × List UInt8

/-- The manifests that the worker has: `s_mf_int` and `s_mf_sd`. -/
abbrev CbRam := CbMedium → CbManifest

/-- `CB_DOC_MAX`, and the most that a manifest may have -/
def cbDocMax : ℕ := 2 * 1024 * 1024
def cbManifestMax : ℕ := 8192

/-- The device: its key, as far as the crypto library uses it, its name, and the
library that prints and parses documents. -/
structure CbVault where
  cj : JsonCodec
  /-- `psa_aead_encrypt` with the device's key: what is authenticated, the nonce and
  the content -/
  aead : List UInt8 → List UInt8 → List UInt8 → List UInt8
  /-- `cb_hmac` with the device's key -/
  hmac : List UInt8 → CbMac
  /-- `cb_device_id` -/
  dev : List Char

/-- How one call goes. -/
structure CbCopyEnv where
  /-- the file is read, if there is one that is not too long -/
  reads : CbMedium → CbFile → Bool
  /-- memory for the parsed manifest -/
  parses : CbMedium → Bool
  /-- `cb_buf_init` -/
  buffer : Bool
  /-- `cb_doc_part` -/
  builds : CbPart → Option (List UInt8)
  /-- `cb_hmac` succeeds -/
  macs : CbPart → Bool
  /-- the nonce of a part, if it is sealed -/
  nonces : CbPart → Option (List UInt8)
  /-- `filesystem_write` of the file succeeds, and there was memory for its text -/
  writes : CbMedium → CbFile → Bool
  /-- `cb_now_epoch` -/
  now : ℤ
  /-- `cb_fw_version` -/
  fw : List Char

section

variable (K : CbVault) (env : CbCopyEnv) (sd : Bool)

/-- What `seal_part` authenticates. -/
def partAad (p : CbPart) : List UInt8 :=
  charBytes (("wican_copy:1:".toList ++ K.dev ++ ":".toList ++ p.text.toList).take 63)

def sealPart (p : CbPart) (nonce plain : List UInt8) : List UInt8 :=
  asciiBytes "WCBS" ++ [UInt8.ofNat cbCopyVersion] ++ nonce ++ K.aead (partAad K p) nonce plain

def cbReadFile (ok : Bool) (cap : ℕ) (file : Option (List UInt8)) : Option (List UInt8) :=
  if ok then file.filter fun data => data.length ≤ cap else none

/-- `cb_copies_read_manifest`: a manifest that cannot be read is an empty one. -/
def cbCopiesReadManifest (m : CbMedium) (folder : CbFolder) : CbManifest :=
  match cbReadFile (env.reads m .manifest) cbManifestMax (folder .manifest) with
  | none => { CbManifest.zero with loaded := true }
  | some text =>
    match (if env.parses m then K.cj.parse text else none).bind cbManifestFromJson with
    | none => { CbManifest.zero with loaded := true }
    | some mf => { mf with loaded := true }

/-- The file of a part is the one that its entry is about. -/
def partMatches (m : CbMedium) (folder : CbFolder) (p : CbPart) (e : CbManifestPart) : Bool :=
  match cbReadFile (env.reads m (.part p)) cbDocMax (folder (.part p)) with
  | none => false
  | some raw => e.crc ≠ 0 && cbCrc32 raw == e.crc

def verifyParts (m : CbMedium) (folder : CbFolder) (mf : CbManifest) : CbManifest :=
  { mf with
    parts := fun p =>
      if (mf.parts p).present && !partMatches env m folder p (mf.parts p) then
        { mf.parts p with present := false }
      else mf.parts p }

/-! ## The media that are there -/

/-- The medium is there: the card may not be. -/
def CbMedium.there (m : CbMedium) : Bool := m == .flash || sd

/-- The media that are there, in the order of the code. -/
def cbMedia : List CbMedium := [CbMedium.flash, .card].filter (CbMedium.there sd)

/-- Something is done for each medium that is there. -/
def onMedia (act : CbMedium → CbManifest → CbManifest × List CbWrite) (ram : CbRam) :
    CbRam × List CbWrite :=
  (fun m => if m.there sd then (act m (ram m)).1 else ram m,
    (cbMedia sd).flatMap fun m => (act m (ram m)).2)

def writeManifest (m : CbMedium) (mf : CbManifest) : List CbWrite :=
  if env.writes m .manifest then [((m, .manifest), K.cj.print (cbManifestToJson mf))] else []

variable (folders : CbMedium → CbFolder)

def loadManifests (ram : CbRam) : CbRam := fun m =>
  if m.there sd then
    if (ram m).loaded then ram m
    else verifyParts env m (folders m) (cbCopiesReadManifest K env m (folders m))
  else
    -- a card that comes back is read again
    { ram m with loaded := false }

/-! ## The hold and its release -/

/-- A copy with a settings part is held. -/
def holdMedium (m : CbMedium) (mf : CbManifest) : CbManifest × List CbWrite :=
  if (mf.parts .settings).present && !mf.held then
    ({ mf with held := true, heldSince := env.now },
      writeManifest K env m { mf with held := true, heldSince := env.now })
  else (mf, [])

def holdAfterFactoryReset (ram : CbRam) : CbRam × List CbWrite :=
  onMedia sd (holdMedium K env) (loadManifests K env sd folders ram)

/-- A held copy is let go. -/
def releaseMedium (m : CbMedium) (mf : CbManifest) : CbManifest × List CbWrite :=
  if mf.held then
    ({ mf with held := false, heldSince := 0 },
      writeManifest K env m { mf with held := false, heldSince := 0 })
  else (mf, [])

def cbCopiesRelease (ram : CbRam) : CbRam × List CbWrite :=
  onMedia sd (releaseMedium K env) (loadManifests K env sd folders ram)

/-! ## The sweep -/

/-- A sweep on its way: the manifests, the media that a part was written to, and
what was written. -/
structure CbSweep where
  ram : CbRam
  wrote : CbMedium → Bool
  writes : List CbWrite

/-- The part of the copy is not what the device has, and may be written. -/
def needsPart (mf : CbManifest) (p : CbPart) (mac : CbMac) : Bool :=
  (!(mf.parts p).present || mac != (mf.parts p).hmac) && !mf.held

/-- The entry of a part that was written. -/
def sealedEntry (p : CbPart) (nonce plain : List UInt8) : CbManifestPart where
  present := true
  bytes := UInt32.ofNat plain.length
  crc := cbCrc32 (sealPart K p nonce plain)
  hmac := K.hmac plain

/-- A sealed part is written to the media that need it. -/
def putPart (p : CbPart) (nonce plain : List UInt8) (acc : CbSweep) : CbSweep :=
  let puts := fun m : CbMedium =>
    m.there sd && needsPart (acc.ram m) p (K.hmac plain) && env.writes m (.part p)
  { ram := fun m =>
      if puts m then
        { acc.ram m with
          parts := update (acc.ram m).parts p (sealedEntry K p nonce plain) }
      else acc.ram m
    wrote := fun m => acc.wrote m || puts m
    writes := acc.writes ++ ([CbMedium.flash, .card].filter puts).map fun m =>
      ((m, .part p), sealPart K p nonce plain) }

/-- One part of a sweep. -/
def sweepPart (acc : CbSweep) (p : CbPart) : CbSweep :=
  match env.builds p with
  | none => acc
  | some plain =>
    if ¬env.macs p then
      acc
    else if (cbMedia sd).all fun m => !needsPart (acc.ram m) p (K.hmac plain) then
      acc
    else
      match env.nonces p with
      | none => acc
      | some nonce => putPart K env sd p nonce plain acc

/-- The manifest of a medium at the end of a sweep. -/
def stampManifest (mf : CbManifest) : CbManifest :=
  { mf with
    deviceId := K.dev.take (cbIdLen - 1)
    fw := env.fw.take (cbFwLen - 1)
    refreshed := env.now }

/-- The end of a sweep for a medium: the manifest is written if a part was. -/
def finishMedium (force : Bool) (wrote : CbMedium → Bool) (m : CbMedium) (mf : CbManifest) :
    CbManifest × List CbWrite :=
  if wrote m || force then
    (stampManifest K env mf, writeManifest K env m (stampManifest K env mf))
  else (mf, [])

/-- The manifests before the parts of a sweep: a manual refresh lets a held copy go. -/
def sweepRam (force : Bool) (ram : CbRam) : CbRam := fun m =>
  if force then { loadManifests K env sd folders ram m with held := false, heldSince := 0 }
  else loadManifests K env sd folders ram m

/-- The parts of a sweep. -/
def sweepParts (force : Bool) (ram : CbRam) : CbSweep :=
  CbPart.all.foldl (sweepPart K env sd) ⟨sweepRam K env sd folders force ram, fun _ => false, []⟩

/-- `sweep` -/
def cbSweep (force : Bool) (ram : CbRam) : CbRam × List CbWrite :=
  if ¬env.buffer then
    (sweepRam K env sd folders force ram, [])
  else
    let acc := sweepParts K env sd folders force ram
    let fin := onMedia sd (finishMedium K env force acc.wrote) acc.ram
    (fin.1, acc.writes ++ fin.2)

end

/-! ## The device -/

/-- Where a copy is: on the flash, or on one of the cards. -/
inductive CbPlace (κ : Type*) where
  | flash
  | card (k : κ)
  deriving DecidableEq

/-- The device and the cards there are. -/
structure CbCopies (κ : Type*) where
  files : CbPlace κ × CbFile → Option (List UInt8)
  slot : Option κ
  ram : CbRam
  /-- the latest record of the restart tracker is a planned factory reset -/
  afterReset : Bool
  /-- the delay after the boot is over -/
  started : Bool

/-- What the worker does, or a restore of a settings part asks for. -/
inductive CbOp where
  | begin
  | sweep (force : Bool)
  | release
  deriving DecidableEq

/-- What happens to the device. -/
inductive CbEvent (κ : Type*) where
  | op (o : CbOp) (env : CbCopyEnv)
  /-- the device restarts once so many writes of the call have landed -/
  | cut (o : CbOp) (env : CbCopyEnv) (n : ℕ) (reset : Bool)
  | restart (reset : Bool)
  /-- another card is in the slot, or none -/
  | card (slot : Option κ)

namespace CbCopies

variable {κ : Type*} [DecidableEq κ]

/-- Where a medium is. -/
def place (s : CbCopies κ) : CbMedium → Option (CbPlace κ)
  | .flash => some .flash
  | .card => s.slot.map .card

/-- The folder of a medium. -/
def folder (s : CbCopies κ) (m : CbMedium) : CbFolder := fun f =>
  (s.place m).bind fun place => s.files (place, f)

/-- The card is mounted. -/
def mounted (s : CbCopies κ) : Bool := s.slot.isSome

/-- A write and where it goes. -/
def landing (s : CbCopies κ) (w : CbWrite) : Option ((CbPlace κ × CbFile) × List UInt8) :=
  (s.place w.1.1).map fun place => ((place, w.1.2), w.2)

/-- The files once these writes have landed. -/
def land (s : CbCopies κ) (ws : List CbWrite) : CbPlace κ × CbFile → Option (List UInt8) :=
  Writes.land s.files (ws.filterMap s.landing)

/-- `worker`, up to its first sweep and one turn of it, and `cb_copies_release`: what
is left in memory and what is written. -/
def call (K : CbVault) (s : CbCopies κ) (o : CbOp) (env : CbCopyEnv) : CbRam × List CbWrite :=
  match o with
  | .begin =>
    if s.afterReset then holdAfterFactoryReset K env s.mounted s.folder s.ram else (s.ram, [])
  | .sweep force => cbSweep K env s.mounted s.folder force s.ram
  | .release => cbCopiesRelease K env s.mounted s.folder s.ram

/-- The call can come now. -/
def Allows (s : CbCopies κ) : CbOp → Prop
  | .begin => s.started = false
  | .sweep _ => s.started = true
  | .release => True

/-- The device boots. -/
def boot (s : CbCopies κ) (reset : Bool) : CbCopies κ :=
  { s with ram := fun _ => .zero, afterReset := reset, started := false }

/-- One thing happens. -/
def next (K : CbVault) (s : CbCopies κ) : CbEvent κ → CbCopies κ
  | .op o env =>
    { s with
      files := s.land (s.call K o env).2
      ram := (s.call K o env).1
      started := s.started || o == .begin }
  | .cut o env n reset => { s with files := s.land ((s.call K o env).2.take n) }.boot reset
  | .restart reset => s.boot reset
  | .card slot => { s with slot }

/-- One step of the device. -/
def Step (K : CbVault) (s : CbCopies κ) (e : CbEvent κ) (s' : CbCopies κ) : Prop :=
  (match e with
    | .op o _ | .cut o _ _ _ => s.Allows o
    | _ => True) ∧ s' = s.next K e

/-- A device that has no copies yet. -/
def blank (slot : Option κ) : CbCopies κ := ⟨fun _ => none, slot, fun _ => .zero, false, false⟩

end CbCopies

/-! ## One medium at a time -/

/-- What is written to one medium. -/
def onMedium (m : CbMedium) (ws : List CbWrite) : List (CbFile × List UInt8) :=
  ws.filterMap fun w => if w.1.1 = m then some (w.1.2, w.2) else none

theorem onMedium_append (m : CbMedium) (ws ws' : List CbWrite) :
    onMedium m (ws ++ ws') = onMedium m ws ++ onMedium m ws' :=
  filterMap_append ..

theorem mem_onMedium {m : CbMedium} {ws : List CbWrite} {f : CbFile} :
    (f, d) ∈ onMedium m ws ↔ ((m, f), d) ∈ ws := by
  rw [onMedium, mem_filterMap]
  constructor
  · rintro ⟨w, hw, h⟩
    split_ifs at h with hm
    obtain ⟨⟨m', f'⟩, d'⟩ := w
    obtain rfl : m' = m := hm
    obtain ⟨rfl, rfl⟩ := Prod.mk.inj (some.inj h)
    exact hw
  · intro hw
    exact ⟨((m, f), d), hw, if_pos rfl⟩

namespace CbCopies

variable {κ : Type*} [DecidableEq κ] {s : CbCopies κ}

omit [DecidableEq κ] in
theorem place_inj {m m' : CbMedium} {π : CbPlace κ} (h : s.place m = some π)
    (h' : s.place m' = some π) : m = m' := by
  cases m with
  | flash =>
    obtain rfl := some.inj h
    cases m' with
    | flash => rfl
    | card =>
      obtain ⟨k, _, hk⟩ := map_eq_some_iff.mp h'
      cases hk
  | card =>
    obtain ⟨k, _, rfl⟩ := map_eq_some_iff.mp h
    cases m' with
    | flash => cases h'
    | card => rfl

omit [DecidableEq κ] in
theorem there_iff {m : CbMedium} : m.there s.mounted = true ↔ ∃ π, s.place m = some π := by
  cases m with
  | flash => exact ⟨fun _ => ⟨.flash, rfl⟩, fun _ => rfl⟩
  | card =>
    rw [place, mounted]
    cases s.slot with
    | none => simp [CbMedium.there]
    | some k => simp [CbMedium.there]

omit [DecidableEq κ] in
theorem folder_eq {m : CbMedium} {π : CbPlace κ} (hm : s.place m = some π) (f : CbFile) :
    s.folder m f = s.files (π, f) := by
  rw [folder, hm]
  rfl

theorem land_folder {m : CbMedium} {π : CbPlace κ} (hm : s.place m = some π) (f : CbFile)
    (ws : List CbWrite) : s.land ws (π, f) = Writes.land (s.folder m) (onMedium m ws) f := by
  suffices h : ∀ (files : CbPlace κ × CbFile → Option (List UInt8)) (folder : CbFolder),
      (∀ f, files (π, f) = folder f) →
      Writes.land files (ws.filterMap s.landing) (π, f) = Writes.land folder (onMedium m ws) f from
    h s.files (s.folder m) fun f => (folder_eq hm f).symm
  induction ws with
  | nil => exact fun files folder hf => hf f
  | cons w ws ih =>
    intro files folder hf
    obtain ⟨⟨m', f'⟩, d⟩ := w
    by_cases hmm : m' = m
    · subst hmm
      have hl : s.landing ((m', f'), d) = some ((π, f'), d) := by
        rw [landing, hm]
        rfl
      have ho : onMedium m' (((m', f'), d) :: ws) = (f', d) :: onMedium m' ws := by
        simp [onMedium]
      rw [filterMap_cons_some hl, ho]
      refine ih _ _ fun g => ?_
      by_cases hg : g = f'
      · rw [hg, update_self, update_self]
      · have hne : ((π, g) : CbPlace κ × CbFile) ≠ (π, f') := fun h => hg (Prod.mk.inj h).2
        rw [update_of_ne hne, update_of_ne hg, hf]
    · have ho : onMedium m (((m', f'), d) :: ws) = onMedium m ws := by
        simp [onMedium, hmm]
      rw [ho]
      cases hp : s.place m' with
      | none =>
        have hl : s.landing ((m', f'), d) = none := by
          rw [landing, hp]
          rfl
        rw [filterMap_cons_none hl]
        exact ih _ _ hf
      | some π' =>
        have hl : s.landing ((m', f'), d) = some ((π', f'), d) := by
          rw [landing, hp]
          rfl
        rw [filterMap_cons_some hl]
        refine ih _ _ fun g => ?_
        have hne : ((π, g) : CbPlace κ × CbFile) ≠ (π', f') := by
          intro h
          obtain ⟨rfl, _⟩ := Prod.mk.inj h
          exact hmm (place_inj hp hm)
        rw [update_of_ne hne, hf]

end CbCopies

section

variable (K : CbVault) (env : CbCopyEnv) {sd : Bool}

theorem mem_cbMedia {m : CbMedium} : m ∈ cbMedia sd ↔ m.there sd = true := by
  cases m <;> cases sd <;> decide

theorem mem_writeManifest {m m' : CbMedium} {mf : CbManifest} {f : CbFile}
    (h : ((m', f), d) ∈ writeManifest K env m mf) :
    m' = m ∧ f = .manifest ∧ d = K.cj.print (cbManifestToJson mf) := by
  rw [writeManifest] at h
  split_ifs at h with hw
  · obtain ⟨h₁, h₂⟩ := Prod.mk.inj (mem_singleton.mp h)
    obtain ⟨h₁, h₃⟩ := Prod.mk.inj h₁
    exact ⟨h₁, h₃, h₂⟩
  · cases h

theorem onMedium_writeManifest (m : CbMedium) (mf : CbManifest) :
    onMedium m (writeManifest K env m mf) =
      if env.writes m .manifest then [(.manifest, K.cj.print (cbManifestToJson mf))] else [] := by
  rw [writeManifest]
  split_ifs <;> simp [onMedium]

/-- What is done for a medium writes to no other. -/
def OwnWrites (act : CbMedium → CbManifest → CbManifest × List CbWrite) : Prop :=
  ∀ m mf w, w ∈ (act m mf).2 → w.1.1 = m

theorem onMedium_onMedia {act : CbMedium → CbManifest → CbManifest × List CbWrite}
    (hown : OwnWrites act) (ram : CbRam) (m : CbMedium) :
    onMedium m (onMedia sd act ram).2 =
      if m.there sd then onMedium m (act m (ram m)).2 else [] := by
  have hother : ∀ {m m' : CbMedium}, m' ≠ m → onMedium m (act m' (ram m')).2 = [] := by
    intro m m' hne
    rw [onMedium, filterMap_eq_nil_iff]
    intro w hw
    rw [hown m' _ w hw, if_neg hne]
  have hflash := @hother .flash .card (by decide)
  have hcard := @hother .card .flash (by decide)
  cases sd with
  | false =>
    have h : (onMedia false act ram).2 = (act .flash (ram .flash)).2 := append_nil _
    rw [h]
    cases m with
    | flash => rfl
    | card => exact hcard
  | true =>
    have h : (onMedia true act ram).2 = (act .flash (ram .flash)).2 ++ (act .card (ram .card)).2 :=
      congrArg _ (append_nil _)
    rw [h, onMedium_append]
    cases m with
    | flash =>
      rw [hflash, append_nil]
      rfl
    | card =>
      rw [hcard]
      rfl

theorem holdMedium_own : OwnWrites (holdMedium K env) := by
  intro m mf w hw
  rw [holdMedium] at hw
  split_ifs at hw
  · exact (mem_writeManifest K env hw).1
  · cases hw

theorem releaseMedium_own : OwnWrites (releaseMedium K env) := by
  intro m mf w hw
  rw [releaseMedium] at hw
  split_ifs at hw
  · exact (mem_writeManifest K env hw).1
  · cases hw

theorem finishMedium_own (force : Bool) (wrote : CbMedium → Bool) :
    OwnWrites (finishMedium K env force wrote) := by
  intro m mf w hw
  rw [finishMedium] at hw
  split_ifs at hw
  · exact (mem_writeManifest K env hw).1
  · cases hw

theorem putPart_cases (p : CbPart) (nonce plain : List UInt8) (acc : CbSweep) (m : CbMedium) :
    ((putPart K env sd p nonce plain acc).ram m = acc.ram m ∧
      (putPart K env sd p nonce plain acc).wrote m = acc.wrote m ∧
      onMedium m (putPart K env sd p nonce plain acc).writes = onMedium m acc.writes ∧
      (m.there sd && needsPart (acc.ram m) p (K.hmac plain) && env.writes m (.part p)) = false) ∨
    (m.there sd = true ∧ needsPart (acc.ram m) p (K.hmac plain) = true ∧
      (putPart K env sd p nonce plain acc).ram m = { acc.ram m with
          parts := update (acc.ram m).parts p (sealedEntry K p nonce plain) } ∧
      (putPart K env sd p nonce plain acc).wrote m = true ∧
      onMedium m (putPart K env sd p nonce plain acc).writes =
        onMedium m acc.writes ++ [(.part p, sealPart K p nonce plain)]) := by
  have hwrites : ∀ puts : CbMedium → Bool, onMedium m
      (([CbMedium.flash, .card].filter puts).map fun m =>
        ((m, .part p), sealPart K p nonce plain)) =
      if puts m then [(CbFile.part p, sealPart K p nonce plain)] else [] := by
    intro puts
    cases hf : puts .flash <;> cases hc : puts .card <;> cases m <;> simp [onMedium, hf, hc]
  cases hputs : m.there sd && needsPart (acc.ram m) p (K.hmac plain) && env.writes m (.part p) with
  | false =>
    refine Or.inl ⟨?_, ?_, ?_, rfl⟩
    · simp only [putPart, hputs, false_eq_true, if_false]
    · simp only [putPart, hputs, Bool.or_false]
    · rw [putPart, onMedium_append, hwrites]
      simp only [hputs, false_eq_true, if_false, append_nil]
  | true =>
    have h := hputs
    rw [and_eq_true, and_eq_true] at h
    refine Or.inr ⟨h.1.1, h.1.2, ?_, ?_, ?_⟩
    · simp only [putPart, hputs, if_true]
    · simp only [putPart, hputs, Bool.or_true]
    · rw [putPart, onMedium_append, hwrites]
      simp only [hputs, if_true]

/-- **What a part of a sweep does to a medium**: nothing, or the part is built and
sealed, the medium needs it, and it is written there. -/
theorem sweepPart_cases (sd : Bool) (acc : CbSweep) (p : CbPart) (m : CbMedium) :
    ((sweepPart K env sd acc p).ram m = acc.ram m ∧
      (sweepPart K env sd acc p).wrote m = acc.wrote m ∧
      onMedium m (sweepPart K env sd acc p).writes = onMedium m acc.writes) ∨
    ∃ nonce plain, env.builds p = some plain ∧ env.nonces p = some nonce ∧
      needsPart (acc.ram m) p (K.hmac plain) = true ∧
      (sweepPart K env sd acc p).ram m = { acc.ram m with
          parts := update (acc.ram m).parts p (sealedEntry K p nonce plain) } ∧
      (sweepPart K env sd acc p).wrote m = true ∧
      onMedium m (sweepPart K env sd acc p).writes =
        onMedium m acc.writes ++ [(.part p, sealPart K p nonce plain)] := by
  rw [sweepPart]
  cases hb : env.builds p with
  | none => exact Or.inl ⟨rfl, rfl, rfl⟩
  | some plain =>
    simp only
    by_cases hmac : ¬env.macs p
    · rw [if_pos hmac]
      exact Or.inl ⟨rfl, rfl, rfl⟩
    · rw [if_neg hmac]
      by_cases hneed : ((cbMedia sd).all fun m => !needsPart (acc.ram m) p (K.hmac plain)) = true
      · rw [if_pos hneed]
        exact Or.inl ⟨rfl, rfl, rfl⟩
      · rw [if_neg hneed]
        cases hn : env.nonces p with
        | none => exact Or.inl ⟨rfl, rfl, rfl⟩
        | some nonce =>
          rcases putPart_cases K env p nonce plain acc m with ⟨h₁, h₂, h₃, _⟩ | ⟨_, h⟩
          · exact Or.inl ⟨h₁, h₂, h₃⟩
          · exact Or.inr ⟨nonce, plain, rfl, rfl, h⟩

/-- **A part that can be written is**: after it the medium does not need it. -/
theorem sweepPart_needs {acc : CbSweep} {p : CbPart} {plain : List UInt8} {m : CbMedium}
    (hb : env.builds p = some plain) (hmac : env.macs p = true) (hn : (env.nonces p).isSome = true)
    (hm : m.there sd = true) (hw : env.writes m (.part p) = true) :
    needsPart ((sweepPart K env sd acc p).ram m) p (K.hmac plain) = false := by
  rw [sweepPart, hb]
  simp only
  rw [if_neg (not_not.mpr hmac)]
  by_cases hneed : ((cbMedia sd).all fun m => !needsPart (acc.ram m) p (K.hmac plain)) = true
  · rw [if_pos hneed]
    have h := all_eq_true.mp hneed m (mem_cbMedia.mpr hm)
    exact (not_eq_true' _).mp h
  · rw [if_neg hneed]
    obtain ⟨nonce, hnonce⟩ := isSome_iff_exists.mp hn
    rw [hnonce]
    rcases putPart_cases K env p nonce plain acc m with ⟨hram, _, _, hno⟩ | ⟨_, _, hram, _⟩
    · rw [hram]
      rwa [hm, hw, Bool.and_true] at hno
    · rw [hram, needsPart]
      simp [sealedEntry]

end

end Meatpi
