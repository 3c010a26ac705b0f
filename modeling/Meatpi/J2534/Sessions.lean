import Meatpi.J2534.Channel

/-!
# The session table

A session of the channel is *open* when its record is in use. What the channel
believes to be open has to be open at the provider under the same
configuration, one session a handle (`Backed`); closing a slot and opening it
keep this. Binding an ECU and changing a padding either leave the table as it
was, or fill one slot; the third outcome is a session that was closed to be
opened again and stayed closed (`Lost`).
-/

namespace Meatpi

open Bool Function Option

/-! ## What is open -/

/-- The ids of a session. -/
def J2534IsoSession.ids (s : J2534IsoSession) : J2534EcuIds where
  txId := s.txId
  rxId := s.rxId
  ext := s.ext

/-- What the channel has open is open at the provider, one session a handle. -/
structure Backed (sessions : SessSlot → Option J2534IsoSession)
    (isotp : IsotpHandle → Option CanIsotpCfg) : Prop where
  held : ∀ i s, sessions i = some s → ∃ h, s.isotp = some h ∧ isotp h = some s.cfg
  once : ∀ i j s t, sessions i = some s → sessions j = some t → s.isotp = t.isotp → i = j

namespace Backed

variable {sessions : SessSlot → Option J2534IsoSession}
  {isotp : IsotpHandle → Option CanIsotpCfg} {i : SessSlot} {s : J2534IsoSession}
  {h : IsotpHandle}

theorem empty (isotp : IsotpHandle → Option CanIsotpCfg) : Backed (fun _ => none) isotp where
  held := by intro i s hs; cases hs
  once := by intro i j s t hs; cases hs

theorem close (hb : Backed sessions isotp) (hi : sessions i = some s) (hh : s.isotp = some h) :
    Backed (update sessions i none) (update isotp h none) where
  held := by
    intro j t ht
    rcases eq_or_ne j i with rfl | hji
    · rw [update_self] at ht
      cases ht
    · rw [update_of_ne hji] at ht
      obtain ⟨h', hh', hheld⟩ := hb.held j t ht
      refine ⟨h', hh', ?_⟩
      have hne : h' ≠ h := by
        rintro rfl
        exact hji (hb.once j i t s ht hi (hh'.trans hh.symm))
      rw [update_of_ne hne]
      exact hheld
  once := by
    intro j k t u ht hu htu
    rcases eq_or_ne j i with rfl | hji
    · rw [update_self] at ht
      cases ht
    · rcases eq_or_ne k i with rfl | hki
      · rw [update_self] at hu
        cases hu
      · rw [update_of_ne hji] at ht
        rw [update_of_ne hki] at hu
        exact hb.once j k t u ht hu htu

theorem fill (hb : Backed sessions isotp) (hi : sessions i = none) (hfresh : isotp h = none)
    (hh : s.isotp = some h) :
    Backed (update sessions i (some s)) (update isotp h (some s.cfg)) := by
  -- the other sessions have other handles
  have hother : ∀ j t, sessions j = some t → t.isotp ≠ some h := by
    intro j t ht hth
    obtain ⟨h', hh', hheld⟩ := hb.held j t ht
    obtain rfl : h = h' := some.inj (hth.symm.trans hh')
    rw [hfresh] at hheld
    cases hheld
  constructor
  · intro j t ht
    rcases eq_or_ne j i with rfl | hji
    · rw [update_self] at ht
      obtain rfl := some.inj ht
      exact ⟨h, hh, update_self ..⟩
    · rw [update_of_ne hji] at ht
      obtain ⟨h', hh', hheld⟩ := hb.held j t ht
      refine ⟨h', hh', ?_⟩
      have hne : h' ≠ h := by
        rintro rfl
        exact hother j t ht hh'
      rw [update_of_ne hne]
      exact hheld
  · intro j k t u ht hu htu
    rcases eq_or_ne j i with rfl | hji
    · rcases eq_or_ne k j with rfl | hki
      · rfl
      · rw [update_self] at ht
        rw [update_of_ne hki] at hu
        obtain rfl := some.inj ht
        exact absurd (htu.symm.trans hh) (hother k u hu)
    · rw [update_of_ne hji] at ht
      rcases eq_or_ne k i with rfl | hki
      · rw [update_self] at hu
        obtain rfl := some.inj hu
        exact absurd (htu.trans hh) (hother j t ht)
      · rw [update_of_ne hki] at hu
        exact hb.once j k t u ht hu htu

end Backed

namespace J2534World

variable {w w' : J2534World} {env : J2534Env} {i : SessSlot} {s : J2534IsoSession}
  {txId rxId : UInt32} {ext pad : Bool}

/-- The session of a slot, when the record is in use. -/
def sessionAt (w : J2534World) (i : SessSlot) : Option J2534IsoSession :=
  if (w.ch.sess i).inUse then some (w.ch.sess i) else none

/-- The ids of the session that is open in a slot. -/
def ecuAt (w : J2534World) (i : SessSlot) : Option J2534EcuIds :=
  (w.sessionAt i).map J2534IsoSession.ids

theorem sessionAt_eq_some :
    w.sessionAt i = some s ↔ (w.ch.sess i).inUse = true ∧ w.ch.sess i = s := by
  rw [sessionAt]
  split <;> simp_all

theorem sessionAt_setSess (w : J2534World) (i : SessSlot) (s : J2534IsoSession) :
    (w.setSess i s).sessionAt = update w.sessionAt i (if s.inUse then some s else none) := by
  funext j
  rcases eq_or_ne j i with rfl | hji
  · simp only [sessionAt, setSess, update_self]
  · simp only [sessionAt, setSess, update_of_ne hji]

theorem sessionAt_sessionClose (w : J2534World) (i : SessSlot) :
    (w.sessionClose i).sessionAt = update w.sessionAt i none :=
  sessionAt_setSess w i {}

theorem ecuAt_update {o : Option J2534IsoSession}
    (h : w'.sessionAt = update w.sessionAt i o) :
    w'.ecuAt = update w.ecuAt i (o.map J2534IsoSession.ids) := by
  funext j
  rw [ecuAt, h]
  rcases eq_or_ne j i with rfl | hji
  · rw [update_self, update_self]
  · rw [update_of_ne hji, update_of_ne hji, ecuAt]

/-- The filters, the ids and the lifecycle of a channel are as they were. -/
def SameRest (w w' : J2534World) : Prop := w'.ch = { w.ch with sess := w'.ch.sess }

namespace SameRest

theorem refl (w : J2534World) : SameRest w w := rfl

theorem trans {w w' w'' : J2534World} (h : SameRest w w') (h' : SameRest w' w'') :
    SameRest w w'' := by
  rw [SameRest] at h h' ⊢
  rw [h', h]

theorem filters (h : SameRest w w') : w'.ch.filters = w.ch.filters := by
  rw [h]

theorem nextFilterId (h : SameRest w w') : w'.ch.nextFilterId = w.ch.nextFilterId := by
  rw [h]

end SameRest

theorem sameRest_sessionClose (w : J2534World) (i : SessSlot) : SameRest w (w.sessionClose i) := rfl

theorem backed_sessionClose (hb : Backed w.sessionAt w.isotp) (i : SessSlot) :
    Backed (w.sessionClose i).sessionAt (w.sessionClose i).isotp := by
  rw [sessionAt_sessionClose]
  cases hs : w.sessionAt i with
  | none =>
    have huse : (w.ch.sess i).inUse = false := by
      rw [sessionAt] at hs
      split at hs
      · cases hs
      · rename_i huse
        exact eq_false_iff.mpr huse
    have hisotp : (w.sessionClose i).isotp = w.isotp := by
      simp only [sessionClose, huse]
    rw [hisotp, ← hs, update_eq_self]
    exact hb
  | some s =>
    obtain ⟨h, hh, -⟩ := hb.held i s hs
    obtain ⟨huse, hrec⟩ := sessionAt_eq_some.mp hs
    have hisotp : (w.sessionClose i).isotp = update w.isotp h none := by
      simp only [sessionClose, huse]
      rw [hrec, hh]
    rw [hisotp]
    exact hb.close hs hh

/-! ## Arming a slot -/

/-- A slot of a table was filled with a session of these ids and this padding. -/
structure Filled (w w' : J2534World) (i : SessSlot) (ids : J2534EcuIds) (pad : Bool) : Prop where
  rest : SameRest w w'
  ecu : w'.ecuAt = update w.ecuAt i (some ids)
  session : ∃ s, w'.sessionAt i = some s ∧ s.pad = pad
  backed : Backed w.sessionAt w.isotp → Backed w'.sessionAt w'.isotp

/-- A session that was open was closed and did not open again. -/
structure Lost (w w' : J2534World) (i : SessSlot) : Prop where
  rest : SameRest w w'
  was : (w.sessionAt i).isSome
  sessions : w'.sessionAt = update w.sessionAt i none

/-- The filters, the sessions and what the provider has open are as they were. -/
structure Untouched (w w' : J2534World) : Prop where
  filters : w'.ch.filters = w.ch.filters
  nextFilterId : w'.ch.nextFilterId = w.ch.nextFilterId
  sessions : w'.sessionAt = w.sessionAt
  isotp : w'.isotp = w.isotp

theorem Untouched.refl (w : J2534World) : Untouched w w := ⟨rfl, rfl, rfl, rfl⟩

/-- The configuration of a session with these ids and this padding. -/
def isotpCfg (ids : J2534EcuIds) (pad : Bool) : CanIsotpCfg :=
  J2534IsoSession.cfg { txId := ids.txId, rxId := ids.rxId, ext := ids.ext, pad := pad }

/-- The record of an open session. -/
def armed (ids : J2534EcuIds) (pad : Bool) (h : IsotpHandle) : J2534IsoSession where
  inUse := true
  txId := ids.txId
  rxId := ids.rxId
  ext := ids.ext
  pad := pad
  isotp := some h

theorem sessionArm_ok {ids : J2534EcuIds} {h : IsotpHandle}
    (hopen : env.provider.openSession w.isotp (isotpCfg ids pad) = .ok h) :
    w.sessionArm env i ids.txId ids.rxId ids.ext pad = ({ w.setSess i (armed ids pad h) with
          isotp := update w.isotp h (some (isotpCfg ids pad)) }, .noerror) := by
  have hcfg : ∀ b o, (J2534IsoSession.mk b ids.txId ids.rxId ids.ext pad o).cfg =
      isotpCfg ids pad := fun _ _ => rfl
  rw [sessionArm, sessionOpen]
  simp only [setSess, update_self, update_idem, hcfg, hopen]
  rfl

theorem sessionArm_error {ids : J2534EcuIds} {e : EspErr}
    (hopen : env.provider.openSession w.isotp (isotpCfg ids pad) = .error e) :
    w.sessionArm env i ids.txId ids.rxId ids.ext pad =
      (w.setSess i ⟨false, ids.txId, ids.rxId, ids.ext, pad, none⟩,
        if e = .noMem then .exceededLimit else .failed) := by
  have hcfg : ∀ b o, (J2534IsoSession.mk b ids.txId ids.rxId ids.ext pad o).cfg =
      isotpCfg ids pad := fun _ _ => rfl
  rw [sessionArm, sessionOpen]
  simp only [setSess, update_self, update_idem, hcfg, hopen]

theorem filled_sessionArm {ids : J2534EcuIds} {h : IsotpHandle} (hi : w.sessionAt i = none)
    (hopen : env.provider.openSession w.isotp (isotpCfg ids pad) = .ok h) :
    Filled w { w.setSess i (armed ids pad h) with
      isotp := update w.isotp h (some (isotpCfg ids pad)) } i ids pad := by
  have hat : ({ w.setSess i (armed ids pad h) with
      isotp := update w.isotp h (some (isotpCfg ids pad)) } : J2534World).sessionAt =
        update w.sessionAt i (some (armed ids pad h)) :=
    sessionAt_setSess w i (armed ids pad h)
  constructor
  · rfl
  · exact ecuAt_update hat
  · exact ⟨armed ids pad h, by rw [hat, update_self], rfl⟩
  · intro hb
    rw [hat]
    exact hb.fill hi (env.provider.fresh _ _ _ hopen) rfl

theorem Filled.after_close {ids : J2534EcuIds} (h : Filled (w.sessionClose i) w' i ids pad) :
    Filled w w' i ids pad where
  rest := (sameRest_sessionClose w i).trans h.rest
  ecu := by
    rw [h.ecu, ecuAt_update (sessionAt_sessionClose w i), update_idem]
  session := h.session
  backed := by
    intro hb
    exact h.backed (backed_sessionClose hb i)

/-! ## Binding an ECU -/

theorem sessionAt_of_findByRx (h : findByRx w.ch rxId ext = some i) :
    w.sessionAt i = some (w.ch.sess i) := by
  have hi := List.find?_some h
  rw [and_eq_true, and_eq_true] at hi
  exact sessionAt_eq_some.mpr ⟨hi.1.1, rfl⟩

theorem sessionAt_of_findByTx (h : findByTx w.ch txId ext = some i) :
    w.sessionAt i = some (w.ch.sess i) := by
  have hi := List.find?_some h
  rw [and_eq_true, and_eq_true] at hi
  exact sessionAt_eq_some.mpr ⟨hi.1.1, rfl⟩

theorem sessionAt_of_findFree (h : findFree w.ch = some i) : w.sessionAt i = none := by
  have hi := List.find?_some h
  rw [not_eq_true'] at hi
  rw [sessionAt, hi]
  rfl

/-- What can come of closing a session and opening it again. -/
inductive Rearmed (w : J2534World) (env : J2534Env) (i : SessSlot) (ids : J2534EcuIds)
    (pad : Bool) : J2534World × J2534Status → Prop
  | filled {w' : J2534World} {h : IsotpHandle}
      (hopen : env.provider.openSession (w.sessionClose i).isotp (isotpCfg ids pad) = .ok h)
      (hfill : Filled w w' i ids pad) : Rearmed w env i ids pad (w', .noerror)
  | lost {w' : J2534World} {st : J2534Status}
      (hfail : ∀ h, env.provider.openSession (w.sessionClose i).isotp (isotpCfg ids pad) ≠ .ok h)
      (hst : st ≠ .noerror) (hlost : Lost w w' i) : Rearmed w env i ids pad (w', st)

theorem open_status_ne (e : EspErr) :
    (if e = .noMem then J2534Status.exceededLimit else .failed) ≠ .noerror := by
  split <;> decide

theorem rearmed_sessionArm (hs : w.sessionAt i = some s) (ids : J2534EcuIds) (pad : Bool) :
    Rearmed w env i ids pad
      ((w.sessionClose i).sessionArm env i ids.txId ids.rxId ids.ext pad) := by
  have hnone : (w.sessionClose i).sessionAt i = none := by
    rw [sessionAt_sessionClose, update_self]
  cases hopen : env.provider.openSession (w.sessionClose i).isotp (isotpCfg ids pad) with
  | ok h =>
    rw [sessionArm_ok hopen]
    exact .filled hopen (filled_sessionArm hnone hopen).after_close
  | error e =>
    rw [sessionArm_error hopen]
    refine .lost ?_ (open_status_ne e) ⟨rfl, ?_, ?_⟩
    · intro h hok
      rw [hopen] at hok
      cases hok
    · rw [hs]
      rfl
    · rw [sessionAt_setSess, sessionAt_sessionClose, update_idem]
      rfl

/-- What can come of binding an ECU. -/
inductive Bound (w : J2534World) (env : J2534Env) (ids : J2534EcuIds) (pad : Bool) :
    J2534World × J2534Status × Option SessSlot → Prop
  | refused {w' : J2534World} {st : J2534Status} {slot : Option SessSlot} (hst : st ≠ .noerror)
      (hsame : Untouched w w') : Bound w env ids pad (w', st, slot)
  | filled {w' : J2534World} {i : SessSlot} (hfill : Filled w w' i ids pad) :
      Bound w env ids pad (w', .noerror, some i)
  | lost {w' : J2534World} {st : J2534Status} {slot : Option SessSlot} {i : SessSlot}
      (hready : env.providerReady = true) (hfind : findByRx w.ch ids.rxId ids.ext = some i)
      (hfail : ∀ h, env.provider.openSession (w.sessionClose i).isotp (isotpCfg ids pad) ≠ .ok h)
      (hst : st ≠ .noerror) (hlost : Lost w w' i) : Bound w env ids pad (w', st, slot)

/-- **Binding an ECU** is refused, fills one slot, or loses the session that
served the ECU. -/
theorem bound_isoBind (w : J2534World) (env : J2534Env) (ids : J2534EcuIds) (pad : Bool) :
    Bound w env ids pad (w.isoBind env ids.txId ids.rxId ids.ext pad) := by
  rw [isoBind]
  cases hready : env.providerReady with
  | false => exact .refused (by decide) (.refl w)
  | true =>
    cases hfind : findByRx w.ch ids.rxId ids.ext with
    | some i =>
      have hr : Rearmed w env i ids pad _ := rearmed_sessionArm (sessionAt_of_findByRx hfind) ids pad
      dsimp only
      generalize (w.sessionClose i).sessionArm env i ids.txId ids.rxId ids.ext pad = r at hr ⊢
      cases hr with
      | filled hopen hfill => exact .filled hfill
      | lost hfail hst hlost => exact .lost hready hfind hfail hst hlost
    | none =>
      cases hfree : findFree w.ch with
      | none => exact .refused (by decide) (.refl w)
      | some i =>
        have hnone := sessionAt_of_findFree hfree
        dsimp only
        cases hopen : env.provider.openSession w.isotp (isotpCfg ids pad) with
        | ok h =>
          rw [sessionArm_ok hopen]
          exact .filled (filled_sessionArm hnone hopen)
        | error e =>
          rw [sessionArm_error hopen]
          refine .refused (open_status_ne e) ⟨rfl, rfl, ?_, rfl⟩
          -- the record of a free slot was written; nothing is open there still
          rw [sessionAt_setSess, if_neg Bool.false_ne_true, ← hnone, update_eq_self]

/-! ## Changing a padding -/

/-- What can come of sending with a padding. -/
inductive Padded (w : J2534World) (env : J2534Env) (i : SessSlot) (pad : Bool) :
    J2534World × Bool → Prop
  | same (hpad : (w.ch.sess i).pad = pad) : Padded w env i pad (w, true)
  | filled {w' : J2534World} (hpad : (w.ch.sess i).pad ≠ pad)
      (hfill : Filled w w' i (w.ch.sess i).ids pad) : Padded w env i pad (w', true)
  | lost {w' : J2534World} (hpad : (w.ch.sess i).pad ≠ pad)
      (hfail : ∀ h, env.provider.openSession (w.sessionClose i).isotp
        (isotpCfg (w.ch.sess i).ids pad) ≠ .ok h)
      (hlost : Lost w w' i) : Padded w env i pad (w', false)

/-- **Changing a padding** leaves the session, opens it again under its own
ids, or loses it. -/
theorem padded_padRebind (hs : w.sessionAt i = some (w.ch.sess i)) (pad : Bool) :
    Padded w env i pad (w.padRebind env i pad) := by
  rw [padRebind]
  rcases eq_or_ne (w.ch.sess i).pad pad with hpad | hpad
  · rw [if_pos hpad]
    exact .same hpad
  · rw [if_neg hpad]
    have hr : Rearmed w env i (w.ch.sess i).ids pad _ := rearmed_sessionArm hs _ pad
    dsimp only
    change Rearmed w env i (w.ch.sess i).ids pad ((w.sessionClose i).sessionArm env i
      (w.ch.sess i).txId (w.ch.sess i).rxId (w.ch.sess i).ext pad) at hr
    generalize (w.sessionClose i).sessionArm env i (w.ch.sess i).txId (w.ch.sess i).rxId
      (w.ch.sess i).ext pad = r at hr ⊢
    cases hr with
    | filled hopen hfill => exact .filled hpad hfill
    | lost hfail hst hlost =>
      rw [decide_eq_false hst]
      exact .lost hpad hfail hlost

end J2534World

end Meatpi
