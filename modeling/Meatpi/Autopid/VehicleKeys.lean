import Meatpi.Autopid.VehicleIndex

/-!
# Every car can be stored

A key is fixed at first contact: the VIN, or `fp:` and the fingerprint. As long
as the entry of a key keeps the identity the key was derived from
(`VehEntry.Keyed`), a car that no entry matches has a key that no entry has,
and a detection adds it (`vehicle_storable`). An entry with a VIN key keeps it
always; one with an `fp:` key does until a sighting by VIN replaces its
fingerprint (`VehEvent.KeepsPrint`).
-/

namespace Meatpi

open List Option

variable {vin : List Char} {ecus : List VehEcu} {idx : VehIndex} {s : VehSeen}

/-- The entry has the identity its key was derived from. -/
def VehEntry.Keyed (e : VehEntry) : Prop :=
  (vinValid e.key = true ∧ e.vin = e.key) ∨ (fpValid e.fingerprint = true ∧ e.key = fpKey e.fingerprint)

/-! ## Fingerprints -/

theorem isLowerHex_lowerHexChar : ∀ {d : ℕ}, d < 16 → isLowerHex (lowerHexChar d) = true := by
  decide

theorem fpValid_vehFingerprint (h : ecus ≠ []) : fpValid (vehFingerprint ecus) = true := by
  rw [vehFingerprint, if_neg h, fpValid, lowerHexWord, List.length_map, length_digitsBE,
    Bool.and_eq_true, List.all_eq_true]
  refine ⟨rfl, fun c hc => ?_⟩
  obtain ⟨d, hd, rfl⟩ := List.mem_map.mp hc
  exact isLowerHex_lowerHexChar (lt_of_mem_digitsBE (Nat.succ_pos 15) hd)

theorem ne_nil_of_fpValid {fp : List Char} (h : fpValid fp = true) : fp ≠ [] := by
  rintro rfl
  cases h

theorem ne_nil_of_vinValid (h : vinValid vin = true) : vin ≠ [] := by
  rintro rfl
  cases h

theorem not_vinValid_fpKey (fp : List Char) : vinValid (fpKey fp) = false := by
  rw [vinValid, fpKey, all_cons, isVinChar_f, Bool.false_and, Bool.and_false]

theorem vinValid_nil : vinValid [] = false := rfl

theorem vidxKeyFor_seen (hvin : vin = [] ∨ vinValid vin = true) (hident : vin ≠ [] ∨ ecus ≠ []) :
    (vinValid vin = true ∧ vidxKeyFor vin (vehFingerprint ecus) = vin) ∨
      (vin = [] ∧ fpValid (vehFingerprint ecus) = true ∧
        vidxKeyFor vin (vehFingerprint ecus) = fpKey (vehFingerprint ecus)) := by
  rcases hvin with rfl | hvin
  · have hfp := fpValid_vehFingerprint (hident.resolve_left fun h => h rfl)
    refine .inr ⟨rfl, hfp, ?_⟩
    rw [vidxKeyFor, vinValid_nil, if_neg Bool.false_ne_true, if_pos hfp]
  · exact .inl ⟨hvin, if_pos hvin⟩

/-! ## Events -/

/-- What happens to the store. -/
inductive VehEvent where
  | seen (s : VehSeen) (now : ℤ)
  | detected (s : VehSeen) (now : ℤ)
  | merge (src dst : List Char)
  | delete (key : List Char)
  | activate (key : List Char)

namespace VehEvent

/-- The index after a call that may fail. -/
def orSame {α : Type} (idx : VehIndex) (f : α → VehIndex) : Except VehErr α → VehIndex
  | .ok r => f r
  | .error _ => idx

/-- The index after the event. -/
def apply (idx : VehIndex) : VehEvent → VehIndex
  | seen s now => (vehicleSeen idx s now).1
  | detected s now => orSame idx VehDetected.idx (vehicleDetected idx s now)
  | merge src dst =>
    orSame idx
      (fun r => if r.2 then orSame r.1 id (vehicleActivate r.1 dst) else r.1)
      (vehicleMerge idx src dst)
  | delete key => orSame idx id (vehicleDelete idx key)
  | activate key => orSame idx id (vehicleActivate idx key)

/-- A sighting has a VIN that was read as one, or none. -/
def Read : VehEvent → Prop
  | seen s _ => s.vin = [] ∨ vinValid s.vin = true
  | detected s _ => s.vin = [] ∨ vinValid s.vin = true
  | _ => True

/-- The sighting does not replace the fingerprint of an entry whose key is made of it. -/
def SightingKeepsPrint (idx : VehIndex) (s : VehSeen) : Prop :=
  ∀ i e, vidxMatch idx s.vin s.ecus (vehFingerprint s.ecus) = some i → idx.v[i]? = some e →
    replacesPicture e s (vehFingerprint s.ecus) → e.key ≠ fpKey e.fingerprint

def KeepsPrint (idx : VehIndex) : VehEvent → Prop
  | seen s _ => SightingKeepsPrint idx s
  | detected s _ => SightingKeepsPrint idx s
  | _ => True

end VehEvent

/-- A step of the store that keeps the fingerprints behind the keys. -/
def VehKeyStep (idx : VehIndex) (ev : VehEvent) (idx' : VehIndex) : Prop :=
  ev.Read ∧ ev.KeepsPrint idx ∧ idx' = ev.apply idx

/-! ## One step -/

variable {e : VehEntry}

theorem keyed_refine (h : e.Keyed) (s : VehSeen) (fp : List Char)
    (hkeeps : replacesPicture e s fp → e.key ≠ fpKey e.fingerprint) :
    (vehRefineEntry e s fp).1.Keyed := by
  obtain ⟨hkey, hvin, -, -, hsame⟩ := vehRefineEntry_spec e s fp
  rcases h with ⟨hvalid, hown⟩ | ⟨hvalid, hown⟩
  · have hne : e.vin ≠ [] := hown ▸ ne_nil_of_vinValid hvalid
    rw [if_neg hne] at hvin
    exact .inl ⟨hkey ▸ hvalid, by rw [hkey, hvin, hown]⟩
  · have hprint := hsame fun hrep => hkeeps hrep hown
    exact .inr ⟨hprint ▸ hvalid, by rw [hkey, hprint, hown]⟩

theorem keyed_congr {e' : VehEntry} (hkey : e'.key = e.key) (hvin : e'.vin = e.vin)
    (hprint : e'.fingerprint = e.fingerprint) (h : e.Keyed) : e'.Keyed := by
  rw [VehEntry.Keyed, hkey, hvin, hprint]
  exact h

theorem keyed_mergeInto (src : VehEntry) (h : e.Keyed) : (mergeInto src e).Keyed := by
  have hfaces := foldl_vidxFaceAdd (P := VehEntry.Keyed)
    (fun x fp hx => keyed_congr (vidxFaceAdd_key x fp)
      (by rw [vidxFaceAdd]; split_ifs <;> rfl) (vidxFaceAdd_fingerprint x fp) hx)
    (src.fingerprint :: src.faces) e h
  rw [mergeInto]
  split_ifs with hvin
  · rcases hfaces with ⟨hvalid, hown⟩ | hfp
    · exact absurd (hown ▸ hvin.1) (ne_nil_of_vinValid hvalid)
    · exact .inr hfp
  · exact hfaces

theorem keyed_modify (h : ∀ e ∈ idx.v, e.Keyed) {i : ℕ} {f : VehEntry → VehEntry}
    (hf : ∀ e, idx.v[i]? = some e → e.Keyed → (f e).Keyed) : ∀ e ∈ (idx.modify i f).v, e.Keyed := by
  intro e he
  rcases mem_modify he with he | ⟨y, hy, rfl⟩
  · exact h e he
  · exact hf y hy (h y (mem_of_getElem? hy))

theorem keyed_remove (h : ∀ e ∈ idx.v, e.Keyed) (i : ℕ) : ∀ e ∈ (vidxRemove idx i).v, e.Keyed := by
  intro e he
  rw [vidxRemove] at he
  split_ifs at he
  · exact h e ((eraseIdx_sublist idx.v i).subset he)
  · exact h e he

theorem keyed_activate (h : ∀ e ∈ idx.v, e.Keyed) (key : List Char) :
    ∀ e ∈ (VehEvent.orSame idx id (vehicleActivate idx key)).v, e.Keyed := by
  rw [vehicleActivate]
  cases vidxFindKey idx key with
  | none => exact h
  | some i => exact h

theorem keyed_detectedNew (hvin : s.vin = [] ∨ vinValid s.vin = true)
    (hident : s.vin ≠ [] ∨ s.ecus ≠ []) (now : ℤ) :
    (detectedNew s (vehFingerprint s.ecus) now).Keyed := by
  rcases vidxKeyFor_seen hvin hident with ⟨hvalid, hkey⟩ | ⟨-, hvalid, hkey⟩
  · exact .inl ⟨by rw [detectedNew, hkey]; exact hvalid, hkey.symm⟩
  · exact .inr ⟨hvalid, hkey⟩

theorem vehFingerprint_nil : vehFingerprint [] = [] := rfl

theorem identifies_of_not (h : ¬ (s.vin = [] ∧ vehFingerprint s.ecus = [])) :
    s.vin ≠ [] ∨ s.ecus ≠ [] := by
  by_contra hnone
  rw [not_or, not_not, not_not] at hnone
  exact h ⟨hnone.1, by rw [hnone.2, vehFingerprint_nil]⟩

/-- **One step** that keeps the fingerprints behind the keys keeps the identities. -/
theorem keyed_step {idx' : VehIndex} {ev : VehEvent} (hstep : VehKeyStep idx ev idx')
    (h : ∀ e ∈ idx.v, e.Keyed) : ∀ e ∈ idx'.v, e.Keyed := by
  obtain ⟨hread, hkeeps, rfl⟩ := hstep
  cases ev with
  | seen s now =>
    rw [VehEvent.apply, vehicleSeen]
    split_ifs with hnone
    · exact h
    · cases hmatch : vidxMatch idx s.vin s.ecus (vehFingerprint s.ecus) with
      | none => exact h
      | some i =>
        have hmod : ∀ e ∈ (idx.modify i fun e =>
            (vidxTouch (vehRefineEntry e s (vehFingerprint s.ecus)).1 now).1).v, e.Keyed := by
          refine keyed_modify h fun e he hkeyed => ?_
          obtain ⟨hkey, hvin, -, hprint⟩ :=
            vidxTouch_spec (vehRefineEntry e s (vehFingerprint s.ecus)).1 now
          exact keyed_congr hkey hvin hprint (keyed_refine hkeyed s _ (hkeeps i e hmatch he))
        dsimp only
        split_ifs
        · exact hmod
        · exact hmod
  | detected s now =>
    rw [VehEvent.apply, vehicleDetected]
    split_ifs with hnone
    · exact h
    · cases hmatch : vidxMatch idx s.vin s.ecus (vehFingerprint s.ecus) with
      | some i =>
        refine keyed_modify h fun e he hkeyed => ?_
        exact keyed_congr rfl rfl rfl
          (keyed_refine hkeyed s (vehFingerprint s.ecus) (hkeeps i e hmatch he))
      | none =>
        have hnew := keyed_detectedNew hread (identifies_of_not hnone) now
        have hspec := vidxAdd_spec idx (detectedNew s (vehFingerprint s.ecus) now)
        generalize vidxAdd idx (detectedNew s (vehFingerprint s.ecus) now) = added at hspec
        cases hspec with
        | refused => exact h
        | added =>
          intro e he
          rcases mem_append.mp he with he | he
          · exact h e he
          · rw [mem_singleton.mp he]
            exact hnew
        | evicted =>
          intro e he
          rcases mem_append.mp he with he | he
          · exact h e ((eraseIdx_sublist idx.v _).subset he)
          · rw [mem_singleton.mp he]
            exact hnew
  | merge src dst =>
    rw [VehEvent.apply]
    cases hmerge : vehicleMerge idx src dst with
    | error _ => exact h
    | ok r =>
      obtain ⟨s, d, e, -, -, -, heq, -, -⟩ := vehicleMerge_ok hmerge
      have hmerged : ∀ x ∈ r.1.v, x.Keyed := by
        rw [heq]
        exact keyed_remove (keyed_modify h fun x _ hx => keyed_mergeInto e hx) s
      rw [VehEvent.orSame]
      split_ifs
      · exact keyed_activate hmerged dst
      · exact hmerged
  | delete key =>
    rw [VehEvent.apply, vehicleDelete]
    cases vidxFindKey idx key with
    | none => exact h
    | some i => exact keyed_remove h i
  | activate key => exact keyed_activate h key

/-! ## Storing -/

theorem vidxFindBy_ne_none {t : List Char} {p : VehEntry → Bool} (ht : t ≠ []) (he : e ∈ idx.v)
    (hp : p e = true) : vidxFindBy idx t p ≠ none := by
  intro hnone
  rw [vidxFindBy, if_neg ht, List.findIdx?_eq_none_iff] at hnone
  rw [hnone e he] at hp
  cases hp

theorem key_not_present (h : ∀ e ∈ idx.v, e.Keyed) (hvin : s.vin = [] ∨ vinValid s.vin = true)
    (hident : s.vin ≠ [] ∨ s.ecus ≠ [])
    (hmatch : vidxMatch idx s.vin s.ecus (vehFingerprint s.ecus) = none) :
    vidxKeyFor s.vin (vehFingerprint s.ecus) ≠ [] ∧
      vidxKeyFor s.vin (vehFingerprint s.ecus) ∉ idx.v.map VehEntry.key := by
  rw [vidxMatch] at hmatch
  rcases vidxKeyFor_seen hvin hident with ⟨hvalid, hkey⟩ | ⟨hnone, hvalid, hkey⟩
  · have hne := ne_nil_of_vinValid hvalid
    rw [hkey]
    refine ⟨hne, fun hmem => ?_⟩
    obtain ⟨e, he, heq⟩ := List.mem_map.mp hmem
    rw [if_pos hne, or_eq_none_iff] at hmatch
    -- the entry of a VIN key has that VIN
    have hown : e.vin = s.vin := by
      rcases h e he with ⟨-, hown⟩ | ⟨-, hfp⟩
      · rw [hown, heq]
      · rw [← heq, hfp, not_vinValid_fpKey] at hvalid
        cases hvalid
    exact vidxFindBy_ne_none (p := fun e => e.vin == s.vin) hne he (beq_iff_eq.mpr hown) hmatch.1
  · rw [hkey]
    refine ⟨cons_ne_nil _ _, fun hmem => ?_⟩
    obtain ⟨e, he, heq⟩ := List.mem_map.mp hmem
    rw [if_neg (not_not_intro hnone), or_eq_none_iff, vidxFindFace, or_eq_none_iff] at hmatch
    -- the entry of an `fp:` key has that fingerprint
    have hown : e.fingerprint = vehFingerprint s.ecus := by
      rcases h e he with ⟨hvin', -⟩ | ⟨-, hfp⟩
      · rw [heq, not_vinValid_fpKey] at hvin'
        cases hvin'
      · rw [hfp, fpKey, fpKey] at heq
        simpa using heq
    exact vidxFindBy_ne_none (p := fun e => e.fingerprint == vehFingerprint s.ecus)
      (ne_nil_of_fpValid hvalid) he (beq_iff_eq.mpr hown) hmatch.1.1

/-- **Every identifiable car can be stored.** In every state of a run from the
empty store whose sightings keep the fingerprints behind the keys, a car that no
entry matches gets a key that no entry has, and a detection adds it. -/
theorem vehicle_storable {evs : List VehEvent} {idx : VehIndex}
    (hrun : Run VehKeyStep VehIndex.init evs idx) {s : VehSeen}
    (hvin : s.vin = [] ∨ vinValid s.vin = true) (hident : s.vin ≠ [] ∨ s.ecus ≠ [])
    (hmatch : vidxMatch idx s.vin s.ecus (vehFingerprint s.ecus) = none) (now : ℤ) :
    vidxFindKey idx (vidxKeyFor s.vin (vehFingerprint s.ecus)) = none ∧
      ∃ d, vehicleDetected idx s now = .ok d ∧ d.known = false ∧
        d.idx.v[d.pos]? = some (detectedNew s (vehFingerprint s.ecus) now) := by
  have hkeyed : ∀ e ∈ idx.v, e.Keyed :=
    hrun.inv (I := fun idx => ∀ e ∈ idx.v, e.Keyed) (fun _ _ _ hstep => keyed_step hstep)
      fun _ he => absurd he not_mem_nil
  obtain ⟨hne, hnew⟩ := key_not_present hkeyed hvin hident hmatch
  have hsome : ¬ (s.vin = [] ∧ vehFingerprint s.ecus = []) := by
    rintro ⟨hnovin, hnofp⟩
    have hfp := fpValid_vehFingerprint (hident.resolve_left fun h => h hnovin)
    exact ne_nil_of_fpValid hfp hnofp
  refine ⟨(vidxFindKey_eq_none hne).mpr hnew, ?_⟩
  rw [vehicleDetected]
  rw [if_neg hsome, hmatch]
  have hspec := vidxAdd_spec idx (detectedNew s (vehFingerprint s.ecus) now)
  generalize vidxAdd idx (detectedNew s (vehFingerprint s.ecus) now) = added at hspec
  cases hspec with
  | refused hrefused =>
    rcases hrefused with hkey | hkey
    · exact absurd hkey hne
    · exact absurd hkey hnew
  | added => exact ⟨_, rfl, rfl, List.getElem?_concat_length⟩
  | evicted => exact ⟨_, rfl, rfl, List.getElem?_concat_length⟩

/-! ## A key that outlives its fingerprint -/

/-- A car without a VIN. -/
def seenWithout (ecus : List VehEcu) : VehSeen := { seenByVin ecus with vin := [] }

/-- The car is stored without its VIN, then its VIN answers, then other responders
answer with the VIN. -/
def learnsVin : List VehEvent :=
  [.detected (seenWithout ecusReady) 1759300000, .seen (seenByVin ecusReady) 1759300100,
   .seen (seenByVin ecusAsleep) 1759300200]

theorem vehicle_storable_two :
    ∃ d, vehicleDetected
        ((VehEvent.detected (seenWithout ecusReady) 1759300000).apply VehIndex.init)
        (seenWithout ecusAsleep) 1759300100 = .ok d ∧ d.known = false := by
  have hrun : Run VehKeyStep VehIndex.init [.detected (seenWithout ecusReady) 1759300000]
      ((VehEvent.detected (seenWithout ecusReady) 1759300000).apply VehIndex.init) := by
    refine .cons ⟨.inl rfl, ?_, rfl⟩ (.nil _)
    intro i e _ he
    cases he
  obtain ⟨-, d, hd, hknown, -⟩ := vehicle_storable hrun (s := seenWithout ecusAsleep) (.inl rfl)
    (.inr (cons_ne_nil _ _)) (by decide) 1759300100
  exact ⟨d, hd, hknown⟩

/-- A car without a VIN that answers as the first one did then is unknown, and is
not added: its key is that of the entry whose fingerprint was replaced. -/
theorem vehicle_key_present :
    vidxMatch (learnsVin.foldl VehEvent.apply VehIndex.init) [] ecusReady
        (vehFingerprint ecusReady) = none ∧
      vidxFindKey (learnsVin.foldl VehEvent.apply VehIndex.init)
        (vidxKeyFor [] (vehFingerprint ecusReady)) = some 0 ∧
      (vehicleDetected (learnsVin.foldl VehEvent.apply VehIndex.init) (seenWithout ecusReady)
        1759300300).toOption = none := by
  decide

end Meatpi
