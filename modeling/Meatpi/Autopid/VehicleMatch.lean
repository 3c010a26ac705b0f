import Meatpi.Autopid.VehicleIndex

/-!
# Which entry is this car (`ap_vidx_match`)

A car that is there again has its VIN, its fingerprint or one of its faces; one that is
merely similar has the same responders, as far as they answered. An exact identity is to
win wherever the similar car stands. Without a VIN the array is searched for the exact
identity first; with a VIN that is new, each entry is asked for both at once.
-/

namespace Meatpi

open List

/-- The entry has that fingerprint, as its own or as a face. -/
def hasFingerprint (e : VehEntry) (fp : List Char) : Bool :=
  fp != [] && (e.fingerprint == fp || faceHas e fp)

/-- The loop of `ap_vidx_match` over the entries without a VIN: the entry, and whether it
is the car exactly. -/
def adoptScan (ecus : List VehEcu) (fp : List Char) : List VehEntry → ℕ → Option (ℕ × Bool)
  | [], _ => none
  | e :: es, i =>
    if e.vin ≠ [] then adoptScan ecus fp es (i + 1)
    else if hasFingerprint e fp then some (i, true)
    else if vehEcusSubset e.ecus ecus then some (i, false)
    else adoptScan ecus fp es (i + 1)

/-- `ap_vidx_match`, with `exact`, which is true where there is no match. -/
def vidxMatchExact (idx : VehIndex) (vin : List Char) (ecus : List VehEcu) (fp : List Char) :
    Option ℕ × Bool :=
  let found : Option (ℕ × Bool) :=
    if vin ≠ [] then
      ((vidxFindVin idx vin).map (·, true)).or (adoptScan ecus fp idx.v 0)
    else
      ((vidxFindFace idx fp).map (·, true)).or
        ((idx.v.findIdx? fun e => vehEcusSubset e.ecus ecus).map (·, false))
  (found.map Prod.fst, found.elim true Prod.snd)

/-! ## What is asked -/

/-- An entry that may be this car: any one where no VIN is given, and else one without. -/
def Eligible (vin : List Char) (e : VehEntry) : Prop := vin ≠ [] → e.vin = []

/-- **An exact identity wins**: the entry with the VIN, if there is one, and else an
eligible entry with the fingerprint, if there is one, and it is said to be exact. -/
def ExactWins (idx : VehIndex) (vin : List Char) (ecus : List VehEcu) (fp : List Char) : Prop :=
  (vin ≠ [] → (∃ e ∈ idx.v, e.vin = vin) → ∃ i e,
      vidxMatchExact idx vin ecus fp = (some i, true) ∧ idx.v[i]? = some e ∧ e.vin = vin) ∧
    ((vin ≠ [] → ¬ ∃ e ∈ idx.v, e.vin = vin) →
      (∃ e ∈ idx.v, Eligible vin e ∧ hasFingerprint e fp = true) → ∃ i e,
        vidxMatchExact idx vin ecus fp = (some i, true) ∧ idx.v[i]? = some e ∧
          hasFingerprint e fp = true)

/-- Among the entries without a VIN a merely similar one stands before every one with the
fingerprint, and there is one with the fingerprint. -/
def SimilarFirst (ecus : List VehEcu) (fp : List Char) (v : List VehEntry) : Prop :=
  ∃ before e after, v = before ++ e :: after ∧ e.vin = [] ∧ hasFingerprint e fp = false ∧
    vehEcusSubset e.ecus ecus = true ∧
    (∀ x ∈ before, x.vin = [] → hasFingerprint x fp = false) ∧
    ∃ x ∈ after, x.vin = [] ∧ hasFingerprint x fp = true

/-! ## The scan -/

section Scan

variable {ecus : List VehEcu} {fp : List Char} {e : VehEntry} {v : List VehEntry}

theorem similarFirst_cons (hnot : e.vin = [] → hasFingerprint e fp = false)
    (hpass : e.vin = [] → vehEcusSubset e.ecus ecus = false) :
    SimilarFirst ecus fp (e :: v) ↔ SimilarFirst ecus fp v := by
  constructor
  · rintro ⟨before, x, after, heq, hvin, hno, hsimilar, hbefore, hafter⟩
    rcases before with _ | ⟨y, before⟩
    · obtain ⟨rfl, rfl⟩ := cons.inj heq
      rw [hpass hvin] at hsimilar
      cases hsimilar
    · obtain ⟨rfl, rfl⟩ := cons.inj heq
      exact ⟨before, x, after, rfl, hvin, hno, hsimilar,
        fun y' hy' => hbefore y' (mem_cons_of_mem _ hy'), hafter⟩
  · rintro ⟨before, x, after, rfl, hvin, hno, hsimilar, hbefore, hafter⟩
    refine ⟨e :: before, x, after, rfl, hvin, hno, hsimilar, fun y hy => ?_, hafter⟩
    rcases mem_cons.mp hy with rfl | hy
    · exact hnot
    · exact hbefore y hy

theorem not_similarFirst_cons (hvin : e.vin = []) (hhas : hasFingerprint e fp = true) :
    ¬ SimilarFirst ecus fp (e :: v) := by
  rintro ⟨before, x, after, heq, -, hno, -, hbefore, -⟩
  rcases before with _ | ⟨y, before⟩
  · obtain ⟨rfl, -⟩ := cons.inj heq
    exact Bool.false_ne_true (hno.symm.trans hhas)
  · obtain ⟨rfl, -⟩ := cons.inj heq
    exact Bool.false_ne_true ((hbefore _ mem_cons_self hvin).symm.trans hhas)

/-- **The scan** finds an exact entry, unless a similar one stands first. -/
theorem adoptScan_spec (hsome : ∃ e ∈ v, e.vin = [] ∧ hasFingerprint e fp = true) (k : ℕ) :
    (∃ i e, adoptScan ecus fp v k = some (k + i, true) ∧ v[i]? = some e ∧
        hasFingerprint e fp = true ∧ ¬ SimilarFirst ecus fp v) ∨
      (∃ i, adoptScan ecus fp v k = some (i, false)) ∧ SimilarFirst ecus fp v := by
  induction v generalizing k with
  | nil =>
    obtain ⟨e, he, -⟩ := hsome
    cases he
  | cons e v ih =>
    -- the scan goes on behind an entry that it passes over
    have hnext : (e.vin = [] → hasFingerprint e fp = false) →
        (e.vin = [] → vehEcusSubset e.ecus ecus = false) →
        adoptScan ecus fp (e :: v) k = adoptScan ecus fp v (k + 1) →
        (∃ i x, adoptScan ecus fp (e :: v) k = some (k + i, true) ∧ (e :: v)[i]? = some x ∧
            hasFingerprint x fp = true ∧ ¬ SimilarFirst ecus fp (e :: v)) ∨
          (∃ i, adoptScan ecus fp (e :: v) k = some (i, false)) ∧
            SimilarFirst ecus fp (e :: v) := by
      intro hnot hpass heq
      have hrest : ∃ x ∈ v, x.vin = [] ∧ hasFingerprint x fp = true := by
        obtain ⟨x, hx, hvin, hhas⟩ := hsome
        rcases mem_cons.mp hx with rfl | hx
        · exact absurd ((hnot hvin).symm.trans hhas) Bool.false_ne_true
        · exact ⟨x, hx, hvin, hhas⟩
      rw [heq, similarFirst_cons hnot hpass]
      rcases ih hrest (k + 1) with ⟨i, x, hscan, hx, hhas, hno⟩ | hsimilar
      · refine .inl ⟨i + 1, x, ?_, ?_, hhas, hno⟩
        · rw [hscan, Nat.add_right_comm, Nat.add_assoc]
        · rw [List.getElem?_cons_succ, hx]
      · exact .inr hsimilar
    by_cases hvin : e.vin = []
    · cases hhas : hasFingerprint e fp with
      | true =>
        refine .inl ⟨0, e, ?_, rfl, hhas, not_similarFirst_cons hvin hhas⟩
        rw [adoptScan, if_neg (not_not_intro hvin), if_pos hhas, Nat.add_zero]
      | false =>
        cases hsimilar : vehEcusSubset e.ecus ecus with
        | true =>
          refine .inr ⟨⟨k, ?_⟩, [], e, v, rfl, hvin, hhas, hsimilar, fun x hx => (by cases hx), ?_⟩
          · rw [adoptScan, if_neg (not_not_intro hvin), if_neg (by simp [hhas]), if_pos hsimilar]
          · obtain ⟨x, hx, hxvin, hxhas⟩ := hsome
            rcases mem_cons.mp hx with rfl | hx
            · exact absurd (hhas.symm.trans hxhas) Bool.false_ne_true
            · exact ⟨x, hx, hxvin, hxhas⟩
        | false =>
          refine hnext (fun _ => hhas) (fun _ => hsimilar) ?_
          rw [adoptScan, if_neg (not_not_intro hvin), if_neg (by simp [hhas]),
            if_neg (by simp [hsimilar])]
    · refine hnext (fun hno => absurd hno hvin) (fun hno => absurd hno hvin) ?_
      rw [adoptScan, if_pos hvin]

end Scan

/-! ## The match -/

section Match

variable {idx : VehIndex} {vin fp : List Char} {ecus : List VehEcu}

theorem vidxFindBy_isSome {s : List Char} {p : VehEntry → Bool} (hs : s ≠ [])
    (h : ∃ e ∈ idx.v, p e = true) : ∃ i, vidxFindBy idx s p = some i := by
  rw [vidxFindBy, if_neg hs]
  obtain ⟨e, he, hp⟩ := h
  cases hfind : idx.v.findIdx? p with
  | some i => exact ⟨i, rfl⟩
  | none => exact absurd hp (by simpa using List.findIdx?_eq_none_iff.mp hfind e he)

theorem vidxFindFace_of (h : ∃ e ∈ idx.v, hasFingerprint e fp = true) :
    ∃ i e, vidxFindFace idx fp = some i ∧ idx.v[i]? = some e ∧ hasFingerprint e fp = true := by
  have hhas : ∀ e : VehEntry, fp ≠ [] → e.fingerprint = fp ∨ faceHas e fp = true →
      hasFingerprint e fp = true := by
    intro e hfp hor
    rcases hor with rfl | hface
    · simp [hasFingerprint, hfp]
    · simp [hasFingerprint, hfp, hface]
  obtain ⟨e, he, hfound⟩ := h
  have hfp : fp ≠ [] := by
    rintro rfl
    simp [hasFingerprint] at hfound
  rw [vidxFindFace]
  cases hown : vidxFindFp idx fp with
  | some i =>
    obtain ⟨-, x, hx, hxfp⟩ := vidxFindBy_eq_some hown
    exact ⟨i, x, rfl, hx, hhas x hfp (.inl (beq_iff_eq.mp hxfp))⟩
  | none =>
    have hface : ∃ x ∈ idx.v, faceHas x fp = true := by
      refine ⟨e, he, ?_⟩
      rw [vidxFindFp, vidxFindBy, if_neg hfp, List.findIdx?_eq_none_iff] at hown
      simpa [hasFingerprint, hfp, hown e he] using hfound
    obtain ⟨i, hi⟩ := vidxFindBy_isSome hfp hface
    obtain ⟨-, x, hx, hxface⟩ := vidxFindBy_eq_some hi
    exact ⟨i, x, hi, hx, hhas x hfp (.inr hxface)⟩

theorem vidxMatchExact_vin (hvin : vin ≠ []) (h : ∃ e ∈ idx.v, e.vin = vin) :
    ∃ i e, vidxMatchExact idx vin ecus fp = (some i, true) ∧ idx.v[i]? = some e ∧ e.vin = vin := by
  obtain ⟨e, he, heq⟩ := h
  obtain ⟨i, hi⟩ := @vidxFindBy_isSome idx vin (fun e => e.vin == vin) hvin
    ⟨e, he, beq_iff_eq.mpr heq⟩
  obtain ⟨-, x, hx, hxvin⟩ := vidxFindBy_eq_some hi
  refine ⟨i, x, ?_, hx, beq_iff_eq.mp hxvin⟩
  rw [vidxMatchExact, if_pos hvin, vidxFindVin, hi]
  rfl

theorem vidxMatchExact_scan (hvin : vin ≠ []) (h : ¬ ∃ e ∈ idx.v, e.vin = vin) :
    vidxMatchExact idx vin ecus fp =
      ((adoptScan ecus fp idx.v 0).map Prod.fst, (adoptScan ecus fp idx.v 0).elim true Prod.snd) := by
  have hnone : vidxFindVin idx vin = none := by
    rw [vidxFindVin, vidxFindBy, if_neg hvin, List.findIdx?_eq_none_iff]
    exact fun e he => beq_false_of_ne fun heq => h ⟨e, he, heq⟩
  rw [vidxMatchExact, if_pos hvin, hnone]
  rfl

/-- **When an exact identity wins**: always, but where a VIN is given that is not stored and a
merely similar car without a VIN stands before the car itself. -/
theorem exactWins_iff (idx : VehIndex) (vin : List Char) (ecus : List VehEcu) (fp : List Char) :
    ExactWins idx vin ecus fp ↔
      ¬ (vin ≠ [] ∧ (¬ ∃ e ∈ idx.v, e.vin = vin) ∧ SimilarFirst ecus fp idx.v) := by
  constructor
  · rintro ⟨-, hwins⟩ ⟨hvin, hnew, hfirst⟩
    have hsome : ∃ e ∈ idx.v, e.vin = [] ∧ hasFingerprint e fp = true := by
      obtain ⟨before, e, after, heq, -, -, -, -, x, hx, hxvin, hxhas⟩ := hfirst
      exact ⟨x, by simp [heq, hx], hxvin, hxhas⟩
    obtain ⟨e, he, hevin, hhas⟩ := hsome
    obtain ⟨i, x, hmatch, -⟩ := hwins (fun _ => hnew) ⟨e, he, fun _ => hevin, hhas⟩
    rw [vidxMatchExact_scan hvin hnew] at hmatch
    rcases @adoptScan_spec ecus fp idx.v ⟨e, he, hevin, hhas⟩ 0 with ⟨_, _, -, -, -, hno⟩ | ⟨⟨j, hj⟩, -⟩
    · exact hno hfirst
    · rw [hj] at hmatch
      exact Bool.false_ne_true (Prod.mk.inj hmatch).2
  · intro hclear
    refine ⟨vidxMatchExact_vin, fun hnew hsome => ?_⟩
    by_cases hvin : vin ≠ []
    · obtain ⟨e, he, heligible, hhas⟩ := hsome
      rcases @adoptScan_spec ecus fp idx.v ⟨e, he, heligible hvin, hhas⟩ 0 with
        ⟨i, x, hscan, hx, hxhas, -⟩ | ⟨-, hfirst⟩
      · refine ⟨i, x, ?_, hx, hxhas⟩
        rw [vidxMatchExact_scan hvin (hnew hvin), hscan, Nat.zero_add]
        rfl
      · exact absurd ⟨hvin, hnew hvin, hfirst⟩ hclear
    · obtain ⟨e, he, -, hhas⟩ := hsome
      obtain ⟨i, x, hfind, hx, hxhas⟩ := vidxFindFace_of ⟨e, he, hhas⟩
      refine ⟨i, x, ?_, hx, hxhas⟩
      rw [vidxMatchExact, if_neg hvin, hfind]
      rfl

end Match

/-- An entry without a VIN. -/
def entryOf (ecus : List VehEcu) : VehEntry :=
  detectedNew { seenByVin ecus with vin := [] } (vehFingerprint ecus) 1759300000

/-- All responders of a car, and what is left when one does not answer. -/
def ecusBoth : List VehEcu := [⟨0x7E8, 0xBE3FA813⟩, ⟨0x7E9, 0x98188011⟩]
def ecusOne : List VehEcu := [⟨0x7E8, 0xBE3FA813⟩]

/-- The similar car stands first: with a VIN, it is taken for the car, and not exactly. -/
theorem not_exactWins :
    ¬ ∀ (idx : VehIndex) (vin : List Char) (ecus : List VehEcu) (fp : List Char),
      ExactWins idx vin ecus fp := by
  intro hall
  have hmatch : vidxMatchExact ⟨[entryOf ecusOne, entryOf ecusBoth], none⟩ (seenByVin []).vin
      ecusBoth (vehFingerprint ecusBoth) = (some 0, false) := by
    decide +kernel
  have hwins := hall ⟨[entryOf ecusOne, entryOf ecusBoth], none⟩ (seenByVin []).vin ecusBoth
    (vehFingerprint ecusBoth)
  obtain ⟨i, e, hexact, -⟩ := hwins.2 (fun _ => by decide +kernel)
    ⟨entryOf ecusBoth, by simp, fun _ => rfl, by decide +kernel⟩
  rw [hmatch] at hexact
  exact Bool.false_ne_true (Prod.mk.inj hexact).2

end Meatpi
