import Meatpi.Autopid.VehicleCodec
import Meatpi.Library.Run

/-!
# What holds of the index of cars

At most eight entries with distinct valid keys, a current position that is one
of them, and faces that neither repeat nor are the entry's own fingerprint
(`VehIndex.Good`). Every operation on the index keeps it but one: refining an
entry can make the fingerprint one that is among its faces already
(`VidxOp.SparesFaces` says when it does not). Positions move when an entry is
taken out of the array, and the current car's position moves with it
(`vidxRemove_currentKey`).
-/

namespace Meatpi

open List Option VehIndex

variable {item : Json} {α : Type*} {key : List Char} {i : ℕ}

/-- An entry as the store keeps it. -/
structure VehEntry.Good (e : VehEntry) : Prop where
  key_valid : vidxKeyValid e.key = true
  faces_nodup : e.faces.Nodup
  /-- the own fingerprint is not repeated -/
  faces_other : e.fingerprint ∉ e.faces

structure VehIndex.Good (idx : VehIndex) : Prop where
  length_le : idx.v.length ≤ vehMax
  keys_nodup : (idx.v.map VehEntry.key).Nodup
  entry : ∀ e ∈ idx.v, e.Good
  current_lt : ∀ i, idx.current = some i → i < idx.v.length

/-! ## Keys -/

theorem ne_nil_of_vidxKeyValid (h : vidxKeyValid key = true) : key ≠ [] := by
  rintro rfl
  cases h

theorem isVinChar_f : isVinChar 'f' = false := rfl

theorem vidxKeyValid_of_vinValid {vin : List Char} (h : vinValid vin = true) :
    vidxKeyValid vin = true := by
  rw [vidxKeyValid, if_neg]
  · exact h
  · intro hprefix
    obtain ⟨rest, rfl⟩ := isPrefixOf_iff_prefix.mp hprefix
    simp [vinValid, fpKey, isVinChar_f] at h

theorem vidxKeyValid_fpKey {fp : List Char} (h : fpValid fp = true) :
    vidxKeyValid (fpKey fp) = true := by
  rw [vidxKeyValid, if_pos]
  · exact h
  · exact isPrefixOf_iff_prefix.mpr ⟨fp, rfl⟩

theorem vidxKeyFor_valid (vin fp : List Char) :
    vidxKeyFor vin fp = [] ∨ vidxKeyValid (vidxKeyFor vin fp) = true := by
  rw [vidxKeyFor]
  split_ifs with hvin hfp
  · exact .inr (vidxKeyValid_of_vinValid hvin)
  · exact .inr (vidxKeyValid_fpKey hfp)
  · exact .inl rfl

/-! ## Finding -/

theorem vidxFindBy_eq_some {idx : VehIndex} {s : List Char} {p : VehEntry → Bool}
    (h : vidxFindBy idx s p = some i) : s ≠ [] ∧ ∃ e, idx.v[i]? = some e ∧ p e = true := by
  rw [vidxFindBy] at h
  split_ifs at h with hs
  obtain ⟨hlt, hp, -⟩ := List.findIdx?_eq_some_iff_getElem.mp h
  exact ⟨hs, idx.v[i], List.getElem?_eq_getElem hlt, hp⟩

theorem vidxFindKey_eq_some {idx : VehIndex} (h : vidxFindKey idx key = some i) :
    ∃ e, idx.v[i]? = some e ∧ e.key = key := by
  obtain ⟨-, e, he, hkey⟩ := vidxFindBy_eq_some h
  exact ⟨e, he, beq_iff_eq.mp hkey⟩

theorem vidxFindKey_eq_none {idx : VehIndex} (hkey : key ≠ []) :
    vidxFindKey idx key = none ↔ key ∉ idx.v.map VehEntry.key := by
  rw [vidxFindKey, vidxFindBy, if_neg hkey, List.findIdx?_eq_none_iff, List.mem_map]
  constructor
  · rintro h ⟨e, he, rfl⟩
    exact absurd (h e he) (by simp)
  · intro h e he
    exact beq_false_of_ne fun heq => h ⟨e, he, heq⟩

/-! ## Entries -/

theorem vidxFaceAdd_key (e : VehEntry) (fp : List Char) : (vidxFaceAdd e fp).1.key = e.key := by
  rw [vidxFaceAdd]
  split_ifs <;> rfl

theorem vidxFaceAdd_fingerprint (e : VehEntry) (fp : List Char) :
    (vidxFaceAdd e fp).1.fingerprint = e.fingerprint := by
  rw [vidxFaceAdd]
  split_ifs <;> rfl

variable {e : VehEntry}

theorem vidxFaceAdd_good (h : e.Good) (fp : List Char) : (vidxFaceAdd e fp).1.Good := by
  rw [vidxFaceAdd]
  split_ifs with hskip hfull
  · exact h
  all_goals
    simp only [Bool.not_eq_true, Bool.or_eq_false_iff, beq_eq_false_iff_ne, faceHas,
      contains_eq_mem, decide_eq_false_iff_not] at hskip
    obtain ⟨⟨-, hown⟩, hnew⟩ := hskip
  · have hsub := tail_sublist e.faces
    refine ⟨h.key_valid, ?_, ?_⟩
    · exact nodup_append.mpr ⟨h.faces_nodup.sublist hsub, nodup_singleton fp, fun a ha b hb => by
          rw [mem_singleton.mp hb]
          rintro rfl
          exact hnew (hsub.subset ha)⟩
    · intro hmem
      rcases mem_append.mp hmem with hmem | hmem
      · exact h.faces_other (hsub.subset hmem)
      · exact hown (mem_singleton.mp hmem)
  · refine ⟨h.key_valid, ?_, ?_⟩
    · exact nodup_append.mpr ⟨h.faces_nodup, nodup_singleton fp, fun a ha b hb => by
          rw [mem_singleton.mp hb]
          rintro rfl
          exact hnew ha⟩
    · intro hmem
      rcases mem_append.mp hmem with hmem | hmem
      · exact h.faces_other hmem
      · exact hown (mem_singleton.mp hmem)

theorem vidxTouch_spec (e : VehEntry) (now : ℤ) :
    (vidxTouch e now).1.key = e.key ∧ (vidxTouch e now).1.vin = e.vin ∧
      (vidxTouch e now).1.faces = e.faces ∧
      (vidxTouch e now).1.fingerprint = e.fingerprint := by
  rw [vidxTouch]
  split_ifs <;> exact ⟨rfl, rfl, rfl, rfl⟩

/-- A sighting by VIN replaces the responders of the entry. -/
def replacesPicture (e : VehEntry) (seen : VehSeen) (fp : List Char) : Prop :=
  seen.vin ≠ [] ∧ (e.vin = [] ∨ e.vin = seen.vin) ∧ seen.ecus ≠ [] ∧ fp ≠ [] ∧
    e.fingerprint ≠ fp ∧ listenerOnly e seen = false

theorem refineVin_spec (seen : VehSeen) (st : VehEntry × Bool) :
    (refineVin seen st).1 = { st.1 with vin := if st.1.vin = [] then seen.vin else st.1.vin } := by
  rw [refineVin]
  split_ifs with h hvin hvin
  · rfl
  · exact absurd h.2 hvin
  · have hseen : seen.vin = [] := by
      by_contra hne
      exact h ⟨hne, hvin⟩
    rw [hseen, ← hvin]
  · rfl

/-- What refining an entry leaves alone before the responders are looked at. -/
structure SameIdentity (seen : VehSeen) (e e' : VehEntry) : Prop where
  key : e'.key = e.key
  vin : e'.vin = e.vin
  faces : e'.faces = e.faces
  fingerprint : e'.fingerprint = e.fingerprint
  listener : listenerOnly e' seen = listenerOnly e seen

theorem SameIdentity.trans {seen : VehSeen} {e' e'' : VehEntry} (h : SameIdentity seen e e')
    (h' : SameIdentity seen e' e'') : SameIdentity seen e e'' :=
  ⟨h'.key.trans h.key, h'.vin.trans h.vin, h'.faces.trans h.faces,
    h'.fingerprint.trans h.fingerprint, h'.listener.trans h.listener⟩

theorem refineProtocol_same (seen : VehSeen) (st : VehEntry × Bool) :
    SameIdentity seen st.1 (refineProtocol seen st).1 := by
  rw [refineProtocol]
  split_ifs <;> exact ⟨rfl, rfl, rfl, rfl, rfl⟩

theorem refineDialect_same (seen : VehSeen) (st : VehEntry × Bool) :
    SameIdentity seen st.1 (refineDialect seen st).1 := by
  rw [refineDialect]
  split_ifs with h
  · refine ⟨rfl, rfl, rfl, rfl, ?_⟩
    rw [h.2, listenerOnly]
    cases seen.dialect <;> rfl
  · exact ⟨rfl, rfl, rfl, rfl, rfl⟩

theorem refineJ1939_same (seen : VehSeen) (st : VehEntry × Bool) :
    SameIdentity seen st.1 (refineJ1939 seen st).1 := by
  rw [refineJ1939]
  split_ifs <;> exact ⟨rfl, rfl, rfl, rfl, rfl⟩

/-- **Refining** an entry: its key and its faces stay, a VIN that is known
stays, and the fingerprint is the sighting's if that replaces the responders. -/
theorem vehRefineEntry_spec (e : VehEntry) (seen : VehSeen) (fp : List Char) :
    (vehRefineEntry e seen fp).1.key = e.key ∧
      (vehRefineEntry e seen fp).1.vin = (if e.vin = [] then seen.vin else e.vin) ∧
      (vehRefineEntry e seen fp).1.faces = e.faces ∧
      (replacesPicture e seen fp → (vehRefineEntry e seen fp).1.fingerprint = fp) ∧
      (¬ replacesPicture e seen fp → (vehRefineEntry e seen fp).1.fingerprint = e.fingerprint) := by
  have hvin := refineVin_spec seen (e, false)
  have hsame := ((refineProtocol_same seen (refineVin seen (e, false))).trans
    (refineDialect_same seen _)).trans (refineJ1939_same seen _)
  rw [vehRefineEntry]
  generalize refineVin seen (e, false) = st₁ at hvin hsame
  generalize refineJ1939 seen (refineDialect seen (refineProtocol seen st₁)) = st at hsame
  rw [hvin] at hsame
  -- the entry's VIN is the sighting's, when there is one to tell it by
  have hdecides : (seen.vin ≠ [] ∧ st.1.vin = seen.vin ∧ seen.ecus ≠ [] ∧ fp ≠ [] ∧
      st.1.fingerprint ≠ fp ∧ listenerOnly st.1 seen = false) ↔ replacesPicture e seen fp := by
    rw [hsame.vin, hsame.fingerprint, hsame.listener]
    refine and_congr_right fun _ => and_congr ?_ Iff.rfl
    split_ifs with hnone
    · exact iff_of_true rfl (.inl hnone)
    · exact (or_iff_right hnone).symm
  by_cases h : replacesPicture e seen fp
  · rw [refinePicture, if_pos (hdecides.mpr h)]
    exact ⟨hsame.key, hsame.vin, hsame.faces, fun _ => rfl, fun hnot => absurd h hnot⟩
  · rw [refinePicture, if_neg fun hdec => h (hdecides.mp hdec)]
    exact ⟨hsame.key, hsame.vin, hsame.faces, fun hrep => absurd hrep h, fun _ => hsame.fingerprint⟩

/-! ## The array -/

theorem map_modify_of_eq {β : Type*} {f : α → α} {g : α → β} (h : ∀ x, g (f x) = g x) (l : List α)
    (i : ℕ) : (l.modify i f).map g = l.map g := by
  apply ext_getElem?
  intro j
  rw [List.getElem?_map, List.getElem?_map]
  by_cases hij : i = j
  · rw [hij, List.getElem?_modify_eq]
    cases l[j]? with
    | none => rfl
    | some x => exact congrArg some (h x)
  · rw [List.getElem?_modify_ne f l hij]

theorem mem_modify {f : α → α} {l : List α} {x : α} (hx : x ∈ l.modify i f) :
    x ∈ l ∨ ∃ y, l[i]? = some y ∧ x = f y := by
  obtain ⟨j, hj⟩ := List.getElem?_of_mem hx
  by_cases hij : i = j
  · rw [← hij, List.getElem?_modify_eq] at hj
    obtain ⟨y, hy, rfl⟩ := map_eq_some_iff.mp hj
    exact .inr ⟨y, hy, rfl⟩
  · rw [List.getElem?_modify_ne f l hij] at hj
    exact .inl (mem_of_getElem? hj)

namespace VehIndex

variable {idx : VehIndex}

theorem Good.init : VehIndex.init.Good :=
  ⟨Nat.zero_le _, nodup_nil, fun _ he => absurd he not_mem_nil,
    fun _ h => absurd h.symm (some_ne_none _)⟩

theorem Good.modify (h : idx.Good) {f : VehEntry → VehEntry} (hkey : ∀ e, (f e).key = e.key)
    (hf : ∀ e, idx.v[i]? = some e → (f e).Good) : (idx.modify i f).Good := by
  refine ⟨?_, ?_, ?_, ?_⟩
  · rw [VehIndex.modify, length_modify]
    exact h.length_le
  · rw [VehIndex.modify, map_modify_of_eq hkey]
    exact h.keys_nodup
  · intro e he
    rcases mem_modify he with he | ⟨y, hy, rfl⟩
    · exact h.entry e he
    · exact hf y hy
  · intro j hj
    rw [VehIndex.modify, length_modify]
    exact h.current_lt j hj

theorem modify_currentKey {f : VehEntry → VehEntry} (hkey : ∀ e, (f e).key = e.key) :
    (idx.modify i f).currentKey = idx.currentKey := by
  rw [VehIndex.currentKey, VehIndex.currentKey, VehIndex.modify]
  cases idx.current with
  | none => rfl
  | some c =>
    rw [bind_some, bind_some]
    by_cases hic : i = c
    · rw [hic, List.getElem?_modify_eq]
      cases idx.v[c]? with
      | none => rfl
      | some e => exact hkey e
    · rw [List.getElem?_modify_ne f idx.v hic]

/-- **Where the current car is** once another entry was taken out of the array. -/
theorem getElem?_currentWithout {v : List VehEntry} {c : ℕ} (hne : c ≠ i) :
    (currentWithout i c).bind ((v.eraseIdx i)[·]?) = v[c]? := by
  rw [currentWithout, if_neg hne]
  split_ifs with hlt
  · rw [bind_some, List.getElem?_eraseIdx_of_ge (by omega), Nat.sub_add_cancel (by omega)]
  · rw [bind_some, List.getElem?_eraseIdx_of_lt (by omega)]

theorem vidxRemove_current (hlt : i < idx.v.length) :
    vidxRemove idx i = ⟨idx.v.eraseIdx i, idx.current.bind (currentWithout i)⟩ := if_pos hlt

/-- **Removing** another entry leaves the current car the current one. -/
theorem vidxRemove_currentKey (hne : idx.current ≠ some i) :
    (vidxRemove idx i).currentKey = idx.currentKey := by
  by_cases hlt : i < idx.v.length
  · rw [vidxRemove_current hlt, VehIndex.currentKey, VehIndex.currentKey]
    cases hc : idx.current with
    | none => rfl
    | some c =>
      have hci : c ≠ i := fun h => hne (h ▸ hc)
      rw [bind_some, getElem?_currentWithout hci, bind_some]
  · rw [vidxRemove, if_neg hlt]

theorem Good.remove (h : idx.Good) (i : ℕ) : (vidxRemove idx i).Good := by
  by_cases hlt : i < idx.v.length
  · rw [vidxRemove_current hlt]
    have hsub := eraseIdx_sublist idx.v i
    refine ⟨hsub.length_le.trans h.length_le, h.keys_nodup.sublist (hsub.map _), ?_, ?_⟩
    · intro e he
      exact h.entry e (hsub.subset he)
    · intro j hj
      obtain ⟨c, hc, hcj⟩ := bind_eq_some_iff.mp hj
      have hclt := h.current_lt c hc
      rw [length_eraseIdx_of_lt hlt]
      rw [currentWithout] at hcj
      split_ifs at hcj with hci hic
      · rw [← some.inj hcj]
        omega
      · rw [← some.inj hcj]
        omega
  · rw [vidxRemove, if_neg hlt]
    exact h

end VehIndex

/-! ## Eviction -/

/-- The first was seen less recently; ties go to the older car, then to the lower position. -/
def SeenBefore (p q : VehEntry × ℕ) : Prop :=
  p.1.lastSeen < q.1.lastSeen ∨ p.1.lastSeen = q.1.lastSeen ∧
    (p.1.firstSeen < q.1.firstSeen ∨ p.1.firstSeen = q.1.firstSeen ∧ p.2 ≤ q.2)

theorem SeenBefore.refl (p : VehEntry × ℕ) : SeenBefore p p := .inr ⟨rfl, .inr ⟨rfl, le_refl _⟩⟩

theorem SeenBefore.trans {p q r : VehEntry × ℕ} (h : SeenBefore p q) (h' : SeenBefore q r) :
    SeenBefore p r := by
  simp only [SeenBefore] at h h' ⊢
  omega

variable {l : List (VehEntry × ℕ)}

theorem foldl_lruStep {current : Option ℕ} {pick : Option (VehEntry × ℕ)}
    (hl : l.Pairwise fun p q => p.2 < q.2) (hpick : ∀ p, pick = some p → ∀ q ∈ l, p.2 < q.2) :
    (l.foldl (lruStep current) pick = none → pick = none ∧ ∀ q ∈ l, current = some q.2) ∧
    ∀ r, l.foldl (lruStep current) pick = some r →
      (pick = some r ∨ r ∈ l ∧ current ≠ some r.2) ∧ (∀ p, pick = some p → SeenBefore r p) ∧
        ∀ q ∈ l, current ≠ some q.2 → SeenBefore r q := by
  induction l generalizing pick with
  | nil =>
    refine ⟨fun h => ⟨h, fun _ hq => absurd hq not_mem_nil⟩, fun r hr => ⟨.inl hr, ?_, ?_⟩⟩
    · intro p hp
      rw [hp] at hr
      rw [some.inj hr]
      exact .refl r
    · exact fun _ hq => absurd hq not_mem_nil
  | cons e l ih =>
    obtain ⟨he, hl⟩ := pairwise_cons.mp hl
    rw [foldl_cons]
    by_cases hcur : current = some e.2
    · -- the current car never goes
      have hsame : lruStep current pick e = pick := by
        simp only [lruStep, if_pos hcur]
      rw [hsame]
      obtain ⟨hnone, hsome⟩ := ih hl fun p hp q hq => hpick p hp q (mem_cons_of_mem e hq)
      refine ⟨fun h => ⟨(hnone h).1, ?_⟩, fun r hr => ?_⟩
      · intro q hq
        rcases mem_cons.mp hq with rfl | hq
        · exact hcur
        · exact (hnone h).2 q hq
      · obtain ⟨hfrom, hbefore, hall⟩ := hsome r hr
        refine ⟨?_, hbefore, ?_⟩
        · exact hfrom.imp_right fun hr => ⟨mem_cons_of_mem e hr.1, hr.2⟩
        · intro q hq hne
          rcases mem_cons.mp hq with rfl | hq
          · exact absurd hcur hne
          · exact hall q hq hne
    · -- the pick afterwards is this entry or the old pick, and is before both
      obtain ⟨p', hstep, hfrom, hbefore, hbefore'⟩ : ∃ p', lruStep current pick e = some p' ∧
          (p' = e ∨ pick = some p') ∧ SeenBefore p' e ∧
          ∀ p, pick = some p → SeenBefore p' p := by
        cases pick with
        | none =>
          refine ⟨e, ?_, .inl rfl, .refl e, fun p hp => absurd hp.symm (some_ne_none p)⟩
          rw [lruStep, if_neg hcur]
        | some p =>
          have hlt := hpick p rfl e mem_cons_self
          rw [lruStep]
          split_ifs with hless
          · refine ⟨e, rfl, .inl rfl, .refl e, fun p' hp' => ?_⟩
            rw [← some.inj hp', SeenBefore]
            omega
          · refine ⟨p, rfl, .inr rfl, ?_, fun p' hp' => ?_⟩
            · rw [SeenBefore]
              omega
            · rw [← some.inj hp']
              exact .refl p
      rw [hstep]
      have hpick' : ∀ p, some p' = some p → ∀ q ∈ l, p.2 < q.2 := by
        intro p hp q hq
        rw [← some.inj hp]
        rcases hfrom with rfl | hp'
        · exact he q hq
        · exact hpick p' hp' q (mem_cons_of_mem e hq)
      obtain ⟨hnone, hsome⟩ := ih hl hpick'
      refine ⟨fun h => absurd (hnone h).1 (some_ne_none p'), fun r hr => ?_⟩
      obtain ⟨hrfrom, hrbefore, hall⟩ := hsome r hr
      have hrp := hrbefore p' rfl
      refine ⟨?_, fun p hp => hrp.trans (hbefore' p hp), ?_⟩
      · rcases hrfrom with hrp' | hr
        · obtain rfl := some.inj hrp'
          rcases hfrom with rfl | hp'
          · exact .inr ⟨mem_cons_self, hcur⟩
          · exact .inl hp'
        · exact .inr ⟨mem_cons_of_mem e hr.1, hr.2⟩
      · intro q hq hne
        rcases mem_cons.mp hq with rfl | hq
        · exact hrp.trans hbefore
        · exact hall q hq hne

theorem pairwise_zipIdx (v : List VehEntry) : v.zipIdx.Pairwise fun p q => p.2 < q.2 := by
  have hrange := pairwise_lt_range' (s := 0) (n := v.length)
  rwa [← zipIdx_map_snd, pairwise_map] at hrange

theorem none_pick : ∀ p, (none : Option (VehEntry × ℕ)) = some p → ∀ q ∈ l, p.2 < q.2 :=
  fun p hp => absurd hp.symm (some_ne_none p)

/-- **The eviction pick** is an entry that is not the current one, and was seen
the least recently of those. -/
theorem vidxLru_spec {idx : VehIndex} {l : ℕ} (h : vidxLru idx = some l) :
    ∃ x, idx.v[l]? = some x ∧ idx.current ≠ some l ∧
      ∀ j y, idx.v[j]? = some y → idx.current ≠ some j → SeenBefore (x, l) (y, j) := by
  obtain ⟨⟨x, l'⟩, hfold, rfl⟩ := map_eq_some_iff.mp h
  obtain ⟨hfrom, -, hall⟩ := (foldl_lruStep (pairwise_zipIdx idx.v) none_pick).2 _ hfold
  rcases hfrom with hnone | ⟨hmem, hcur⟩
  · cases hnone
  · refine ⟨x, List.mk_mem_zipIdx_iff_getElem?.mp hmem, hcur, fun j y hy hne => ?_⟩
    exact hall (y, j) (List.mk_mem_zipIdx_iff_getElem?.mpr hy) hne

theorem vidxLru_isSome {idx : VehIndex} (h : 2 ≤ idx.v.length) : vidxLru idx ≠ none := by
  intro hnone
  rw [vidxLru, map_eq_none_iff] at hnone
  obtain ⟨-, hall⟩ := (foldl_lruStep (pairwise_zipIdx idx.v) none_pick).1 hnone
  have hcur : ∀ j, j < idx.v.length → idx.current = some j := fun j hj =>
    hall (idx.v[j], j) (List.mk_mem_zipIdx_iff_getElem?.mpr (List.getElem?_eq_getElem hj))
  have hzero := hcur 0 (by omega)
  rw [hcur 1 (by omega)] at hzero
  cases hzero

/-- What `ap_vidx_add` does: it refuses a key it has, appends while there is
room, and otherwise takes out exactly one entry first. -/
inductive VidxAddSpec (idx : VehIndex) (e : VehEntry) : VidxAdded → Prop
  | refused (hkey : e.key = [] ∨ e.key ∈ idx.v.map VehEntry.key) :
      VidxAddSpec idx e ⟨idx, none, none⟩
  | added (hkey : e.key ≠ []) (hnew : e.key ∉ idx.v.map VehEntry.key)
      (hroom : idx.v.length < vehMax) :
      VidxAddSpec idx e ⟨⟨idx.v ++ [e], idx.current⟩, some idx.v.length, none⟩
  | evicted {l : ℕ} {x : VehEntry} (hkey : e.key ≠ []) (hnew : e.key ∉ idx.v.map VehEntry.key)
      (hfull : vehMax ≤ idx.v.length) (hx : idx.v[l]? = some x) (hcurrent : idx.current ≠ some l)
      (hmin : ∀ j y, idx.v[j]? = some y → idx.current ≠ some j → SeenBefore (x, l) (y, j)) :
      VidxAddSpec idx e
        ⟨⟨idx.v.eraseIdx l ++ [e], idx.current.bind (currentWithout l)⟩,
          some (idx.v.eraseIdx l).length, some x⟩

theorem vidxAdd_spec (idx : VehIndex) (e : VehEntry) : VidxAddSpec idx e (vidxAdd idx e) := by
  by_cases hkey : e.key = []
  · rw [vidxAdd, if_pos (.inl hkey)]
    exact .refused (.inl hkey)
  · rw [vidxAdd]
    cases hfind : vidxFindKey idx e.key with
    | some i =>
      rw [if_pos (.inr rfl)]
      have hmem : e.key ∈ idx.v.map VehEntry.key := by
        by_contra hnot
        rw [(vidxFindKey_eq_none hkey).mpr hnot] at hfind
        cases hfind
      exact .refused (.inr hmem)
    | none =>
      have hnew := (vidxFindKey_eq_none hkey).mp hfind
      rw [if_neg (by simp [hkey])]
      by_cases hroom : idx.v.length < vehMax
      · rw [if_pos hroom]
        exact .added hkey hnew hroom
      · rw [if_neg hroom]
        have htwo : 2 ≤ idx.v.length := by
          rw [vehMax] at hroom
          omega
        cases hlru : vidxLru idx with
        | none => exact absurd hlru (vidxLru_isSome htwo)
        | some l =>
          obtain ⟨x, hx, hcur, hmin⟩ := vidxLru_spec hlru
          obtain ⟨hlt, -⟩ := List.getElem?_eq_some_iff.mp hx
          dsimp only
          rw [hx, vidxRemove_current hlt]
          exact .evicted hkey hnew (not_lt.mp hroom) hx hcur hmin

namespace VehIndex

variable {idx : VehIndex}

theorem currentKey_append (h : ∀ i, idx.current = some i → i < idx.v.length) (e : VehEntry) :
    VehIndex.currentKey ⟨idx.v ++ [e], idx.current⟩ = idx.currentKey := by
  rw [VehIndex.currentKey, VehIndex.currentKey]
  cases hc : idx.current with
  | none => rfl
  | some c =>
    rw [bind_some, List.getElem?_append_left (h c hc), bind_some]

theorem Good.append (h : idx.Good) (he : e.Good) (hlen : idx.v.length < vehMax)
    (hnew : e.key ∉ idx.v.map VehEntry.key) : VehIndex.Good ⟨idx.v ++ [e], idx.current⟩ := by
  refine ⟨?_, ?_, ?_, ?_⟩
  · rw [length_append]
    exact hlen
  · rw [map_append, nodup_append]
    refine ⟨h.keys_nodup, nodup_singleton _, fun a ha b hb => ?_⟩
    rw [map_singleton, mem_singleton] at hb
    rintro rfl
    exact hnew (hb ▸ ha)
  · intro x hx
    rcases mem_append.mp hx with hx | hx
    · exact h.entry x hx
    · rw [mem_singleton.mp hx]
      exact he
  · intro i hi
    rw [length_append]
    exact Nat.lt_add_right _ (h.current_lt i hi)

/-- **Adding** keeps the index, and the current car. -/
theorem Good.add (h : idx.Good) (he : e.key ≠ [] → e.Good) :
    (vidxAdd idx e).idx.Good ∧ (vidxAdd idx e).idx.currentKey = idx.currentKey := by
  have hspec := vidxAdd_spec idx e
  generalize vidxAdd idx e = added at hspec
  cases hspec with
  | refused => exact ⟨h, rfl⟩
  | added hkey hnew hroom => exact ⟨h.append (he hkey) hroom hnew, currentKey_append h.current_lt e⟩
  | @evicted l x hkey hnew hfull hx hcur hmin =>
    obtain ⟨hlt, -⟩ := List.getElem?_eq_some_iff.mp hx
    have hremove := h.remove l
    have hsame := vidxRemove_currentKey hcur
    rw [vidxRemove_current hlt] at hremove hsame
    have hlen : (idx.v.eraseIdx l).length < vehMax := by
      rw [length_eraseIdx_of_lt hlt]
      have hmax := h.length_le
      omega
    have hnew' : e.key ∉ (idx.v.eraseIdx l).map VehEntry.key :=
      fun hmem => hnew (((eraseIdx_sublist idx.v l).map _).subset hmem)
    exact ⟨hremove.append (he hkey) hlen hnew', (currentKey_append hremove.current_lt e).trans hsame⟩

end VehIndex

/-! ## Merging, activating, reloading -/

theorem foldl_vidxFaceAdd {P : VehEntry → Prop} (hP : ∀ e fp, P e → P (vidxFaceAdd e fp).1) :
    ∀ (fps : List (List Char)) (e : VehEntry), P e →
      P (fps.foldl (fun e fp => (vidxFaceAdd e fp).1) e) := by
  intro fps
  induction fps with
  | nil => exact fun _ he => he
  | cons fp fps ih => exact fun e he => ih _ (hP e fp he)

theorem mergeInto_key (src e : VehEntry) : (mergeInto src e).key = e.key := by
  have hfaces := foldl_vidxFaceAdd (P := fun x => x.key = e.key)
    (fun x fp hx => (vidxFaceAdd_key x fp).trans hx) (src.fingerprint :: src.faces) e rfl
  rw [mergeInto]
  split_ifs
  · exact hfaces
  · exact hfaces

theorem mergeInto_good (src : VehEntry) (h : e.Good) : (mergeInto src e).Good := by
  have hfaces := foldl_vidxFaceAdd (P := VehEntry.Good) (fun _ fp hx => vidxFaceAdd_good hx fp)
    (src.fingerprint :: src.faces) e h
  rw [mergeInto]
  split_ifs
  · exact ⟨hfaces.key_valid, hfaces.faces_nodup, hfaces.faces_other⟩
  · exact hfaces

theorem vehicleMerge_ok {idx idx' : VehIndex} {src dst : List Char} {was : Bool}
    (h : vehicleMerge idx src dst = .ok (idx', was)) :
    ∃ s d e, vidxFindKey idx src = some s ∧ vidxFindKey idx dst = some d ∧
      idx.v[s]? = some e ∧ idx' = vidxRemove (idx.modify d (mergeInto e)) s ∧ src ≠ dst ∧
      was = decide (idx.current = some s) := by
  rw [vehicleMerge] at h
  split_ifs at h with hne
  cases hs : vidxFindKey idx src with
  | none => simp [hs] at h
  | some s =>
    cases hd : vidxFindKey idx dst with
    | none => simp [hs, hd] at h
    | some d =>
      obtain ⟨e, he, -⟩ := vidxFindKey_eq_some hs
      simp only [hs, hd, he, Except.ok.injEq, Prod.mk.injEq] at h
      exact ⟨s, d, e, rfl, rfl, he, h.1.symm, hne, h.2.symm⟩

theorem facesFromJson_good (h : e.Good) (faces : List Json) : (facesFromJson e faces).Good := by
  induction faces generalizing e with
  | nil => exact h
  | cons f faces ih =>
    apply ih
    cases f with
    | str s => exact vidxFaceAdd_good h s
    | null => exact h
    | bool b => exact h
    | num q => exact h
    | arr items => exact h
    | obj members => exact h

theorem storedKey_valid (h : storedKey item ≠ []) : vidxKeyValid (storedKey item) = true := by
  rw [storedKey] at h ⊢
  split_ifs at h ⊢ with hvalid
  · exact hvalid
  · exact (vidxKeyFor_valid _ _).resolve_left h

theorem entryFromJson_good (h : entryFromJson item = some e) : e.Good := by
  cases item with
  | obj members =>
    rw [entryFromJson] at h
    split_ifs at h with hkey
    rw [← some.inj h]
    exact facesFromJson_good ⟨storedKey_valid hkey, nodup_nil, not_mem_nil⟩ _
  | null => cases h
  | bool b => cases h
  | num q => cases h
  | str s => cases h
  | arr items => cases h

/-- **Reading** a document gives a good index, whatever the document is. -/
theorem vidxFromJson_good (cj : CJson) (text : List Char) : (vidxFromJson cj text).1.Good := by
  have hstep : ∀ (items : List Json) (out : VehIndex), out.Good → out.current = none →
      (items.foldl vidxFromJsonStep out).Good ∧
        (items.foldl vidxFromJsonStep out).current = none := by
    intro items
    induction items with
    | nil => exact fun out h hc => ⟨h, hc⟩
    | cons item items ih =>
      intro out h hc
      rw [foldl_cons, vidxFromJsonStep]
      split_ifs with hfull
      · exact ih out h hc
      · cases he : entryFromJson item with
        | none => exact ih out h hc
        | some e =>
          dsimp only
          have hgood := entryFromJson_good he
          have hne := ne_nil_of_vidxKeyValid hgood.key_valid
          cases hfind : vidxFindKey out e.key with
          | some i => exact ih out h hc
          | none =>
            exact ih _ (h.append hgood (not_le.mp hfull) ((vidxFindKey_eq_none hne).mp hfind)) hc
  have hread : ∀ root, (vidxOfJson root).Good := by
    intro root
    obtain ⟨hgood, -⟩ := hstep (root.childrenOf "vehicles".toList) VehIndex.init .init rfl
    refine ⟨hgood.length_le, hgood.keys_nodup, hgood.entry, fun i hi => ?_⟩
    obtain ⟨e, he, -⟩ := vidxFindKey_eq_some hi
    exact (List.getElem?_eq_some_iff.mp he).1
  rw [vidxFromJson]
  split
  · split_ifs
    · exact hread _
    · exact .init
  · exact .init

/-! ## Runs -/

/-- An operation on the index. -/
inductive VidxOp where
  | add (e : VehEntry)
  | remove (i : ℕ)
  | touch (i : ℕ) (now : ℤ)
  | faceAdd (i : ℕ) (fp : List Char)
  | refine (i : ℕ) (seen : VehSeen)
  | merge (src dst : List Char)
  | activate (key : List Char)
  | reload (text : List Char)

namespace VidxOp

/-- The index after the operation; a call that fails leaves it as it is. -/
def apply (cj : CJson) (idx : VehIndex) : VidxOp → VehIndex
  | add e => (vidxAdd idx e).idx
  | remove i => vidxRemove idx i
  | touch i now => idx.modify i fun e => (vidxTouch e now).1
  | faceAdd i fp => idx.modify i fun e => (vidxFaceAdd e fp).1
  | refine i seen => idx.modify i fun e => (vehRefineEntry e seen (vehFingerprint seen.ecus)).1
  | merge src dst =>
    match vehicleMerge idx src dst with
    | .ok (idx', _) => idx'
    | .error _ => idx
  | activate key =>
    match vehicleActivate idx key with
    | .ok idx' => idx'
    | .error _ => idx
  | reload text => (vidxFromJson cj text).1

/-- An entry that is added is as the callers build it: its key is derived, and
it has no faces yet (`detectedNew_good`). -/
def Called : VidxOp → Prop
  | add e => e.key ≠ [] → e.Good
  | _ => True

/-- No sighting makes an entry's fingerprint one that is among its faces. -/
def SparesFaces (idx : VehIndex) : VidxOp → Prop
  | refine i seen => ∀ e, idx.v[i]? = some e →
      replacesPicture e seen (vehFingerprint seen.ecus) → vehFingerprint seen.ecus ∉ e.faces
  | _ => True

/-- The operation is about other cars than the current one, or takes none away. -/
def OfOthers (idx : VehIndex) : VidxOp → Prop
  | remove i => idx.current ≠ some i
  | merge src _ => idx.currentKey ≠ src
  | activate _ => False
  | reload _ => False
  | _ => True

end VidxOp

theorem detectedNew_good (seen : VehSeen) (fp : List Char) (now : ℤ)
    (h : (detectedNew seen fp now).key ≠ []) : (detectedNew seen fp now).Good :=
  ⟨(vidxKeyFor_valid seen.vin fp).resolve_left h, nodup_nil, not_mem_nil⟩

/-- **Refining** keeps the index exactly when it spares the faces. -/
theorem refine_good_iff {idx : VehIndex} (h : idx.Good) (cj : CJson) (i : ℕ) (seen : VehSeen) :
    ((VidxOp.refine i seen).apply cj idx).Good ↔ (VidxOp.refine i seen).SparesFaces idx := by
  constructor
  · intro hgood e he hrep hmem
    have hmem' : (vehRefineEntry e seen (vehFingerprint seen.ecus)).1 ∈
        ((VidxOp.refine i seen).apply cj idx).v := by
      apply mem_of_getElem? (i := i)
      rw [VidxOp.apply, VehIndex.modify, List.getElem?_modify_eq, he]
      rfl
    obtain ⟨-, -, hfaces, hprint, -⟩ := vehRefineEntry_spec e seen (vehFingerprint seen.ecus)
    have hother := (hgood.entry _ hmem').faces_other
    rw [hfaces, hprint hrep] at hother
    exact hother hmem
  · intro hspares
    refine h.modify (fun e => (vehRefineEntry_spec e seen _).1) fun e he => ?_
    have hold := h.entry e (mem_of_getElem? he)
    obtain ⟨hkey, -, hfaces, hprint, hsame⟩ := vehRefineEntry_spec e seen (vehFingerprint seen.ecus)
    refine ⟨hkey ▸ hold.key_valid, hfaces ▸ hold.faces_nodup, ?_⟩
    rw [hfaces]
    by_cases hrep : replacesPicture e seen (vehFingerprint seen.ecus)
    · rw [hprint hrep]
      exact hspares e he hrep
    · rw [hsame hrep]
      exact hold.faces_other

/-- **One operation** keeps the index exactly when it spares the faces. -/
theorem apply_good_iff {idx : VehIndex} (h : idx.Good) (cj : CJson) {op : VidxOp}
    (hop : op.Called) : (op.apply cj idx).Good ↔ op.SparesFaces idx := by
  cases op with
  | refine i seen => exact refine_good_iff h cj i seen
  | add e => exact iff_of_true (h.add hop).1 trivial
  | remove i => exact iff_of_true (h.remove i) trivial
  | touch i now =>
    refine iff_of_true (h.modify (fun e => (vidxTouch_spec e now).1) fun e he => ?_) trivial
    have hold := h.entry e (mem_of_getElem? he)
    obtain ⟨hkey, -, hfaces, hprint⟩ := vidxTouch_spec e now
    exact ⟨hkey ▸ hold.key_valid, hfaces ▸ hold.faces_nodup, by
      rw [hfaces, hprint]
      exact hold.faces_other⟩
  | faceAdd i fp =>
    refine iff_of_true (h.modify (fun e => vidxFaceAdd_key e fp) fun e he => ?_) trivial
    exact vidxFaceAdd_good (h.entry e (mem_of_getElem? he)) fp
  | merge src dst =>
    refine iff_of_true ?_ trivial
    rw [VidxOp.apply]
    cases hmerge : vehicleMerge idx src dst with
    | error _ => exact h
    | ok r =>
      obtain ⟨s, d, e, -, -, -, heq, -, -⟩ := vehicleMerge_ok hmerge
      dsimp only
      rw [heq]
      refine VehIndex.Good.remove (h.modify (mergeInto_key e) fun x hx => ?_) s
      exact mergeInto_good e (h.entry x (mem_of_getElem? hx))
  | activate key =>
    refine iff_of_true ?_ trivial
    rw [VidxOp.apply, vehicleActivate]
    cases hfind : vidxFindKey idx key with
    | none => exact h
    | some i =>
      obtain ⟨e, he, -⟩ := vidxFindKey_eq_some hfind
      refine ⟨h.length_le, h.keys_nodup, h.entry, fun j hj => ?_⟩
      rw [← some.inj hj]
      exact (List.getElem?_eq_some_iff.mp he).1
  | reload text => exact iff_of_true (vidxFromJson_good cj text) trivial

/-- **One operation** on other cars leaves the current car the current one. -/
theorem apply_currentKey {idx : VehIndex} (h : idx.Good) (cj : CJson) {op : VidxOp}
    (hop : op.Called) (hother : op.OfOthers idx) :
    (op.apply cj idx).currentKey = idx.currentKey := by
  cases op with
  | add e => exact (h.add hop).2
  | remove i => exact vidxRemove_currentKey hother
  | touch i now => exact modify_currentKey fun e => (vidxTouch_spec e now).1
  | faceAdd i fp => exact modify_currentKey fun e => vidxFaceAdd_key e fp
  | refine i seen => exact modify_currentKey fun e => (vehRefineEntry_spec e seen _).1
  | merge src dst =>
    rw [VidxOp.apply]
    cases hmerge : vehicleMerge idx src dst with
    | error _ => rfl
    | ok r =>
      obtain ⟨s, d, e, hs, -, he, heq, -, -⟩ := vehicleMerge_ok hmerge
      dsimp only
      rw [heq]
      have hne : (idx.modify d (mergeInto e)).current ≠ some s := by
        intro hc
        have hc : idx.current = some s := hc
        obtain ⟨e', he', hkey⟩ := vidxFindKey_eq_some hs
        apply hother
        rw [VehIndex.currentKey, hc, bind_some, he']
        exact hkey
      rw [vidxRemove_currentKey hne]
      exact modify_currentKey (mergeInto_key e)
  | activate key => exact hother.elim
  | reload text => exact hother.elim

/-- A step of the index that spares the faces. -/
def VidxStep (cj : CJson) (idx : VehIndex) (op : VidxOp) (idx' : VehIndex) : Prop :=
  op.Called ∧ op.SparesFaces idx ∧ idx' = op.apply cj idx

/-- **The invariant of the index.** In every run from the empty index whose
steps spare the faces, the index is a good one, and stays one with an operation
exactly if that spares the faces too. An operation on other cars leaves the
current car the current one, and adding evicts at most one entry, which is not
the current one and is the least recently seen of the others. -/
theorem vidx_invariant {cj : CJson} {ops : List VidxOp} {idx : VehIndex}
    (hrun : Run (VidxStep cj) VehIndex.init ops idx) :
    idx.Good ∧ ∀ op : VidxOp, op.Called → ((op.apply cj idx).Good ↔ op.SparesFaces idx) ∧
        (op.OfOthers idx → (op.apply cj idx).currentKey = idx.currentKey) ∧
        ∀ e, op = .add e → VidxAddSpec idx e (vidxAdd idx e) := by
  have hgood : idx.Good := by
    refine hrun.inv (I := VehIndex.Good) (fun idx op idx' hstep h => ?_) .init
    obtain ⟨hcalled, hspares, rfl⟩ := hstep
    exact (apply_good_iff h cj hcalled).mpr hspares
  exact ⟨hgood, fun op hop => ⟨apply_good_iff hgood cj hop, apply_currentKey hgood cj hop,
    fun e _ => vidxAdd_spec idx e⟩⟩

/-! ## Two cars that are one -/

/-- A car that is seen with its VIN. -/
def seenByVin (ecus : List VehEcu) : VehSeen where
  protocol := ['6']
  vin := "1WCAN0FW0P0000001".toList
  ecus := ecus
  dialect := .obd2
  j1939 := false
  stdSupported := 0
  confirmedBy := .obd

def ecusReady : List VehEcu := [⟨0x7E8, 0xBE3FA813⟩]
def ecusAsleep : List VehEcu := [⟨0x7E8, 0x98188011⟩]

def twoContacts : List VidxOp :=
  [.add (detectedNew (seenByVin ecusReady) (vehFingerprint ecusReady) 1759300000),
   .add (detectedNew { seenByVin ecusAsleep with vin := [] } (vehFingerprint ecusAsleep) 1759300100)]

def noJson : CJson := ⟨fun _ => none, fun _ => []⟩

theorem vidx_invariant_two :
    ∃ idx, idx = twoContacts.foldl (VidxOp.apply noJson) VehIndex.init ∧ idx.Good ∧
      ((VidxOp.refine 0 (seenByVin ecusAsleep)).apply noJson idx).Good := by
  have hrun : Run (VidxStep noJson) VehIndex.init twoContacts
      (twoContacts.foldl (VidxOp.apply noJson) VehIndex.init) :=
    .cons ⟨detectedNew_good _ _ _, trivial, rfl⟩
      (.cons ⟨detectedNew_good _ _ _, trivial, rfl⟩ (.nil _))
  obtain ⟨hgood, hop⟩ := vidx_invariant hrun
  refine ⟨_, rfl, hgood, (hop (.refine 0 (seenByVin ecusAsleep)) trivial).1.mpr ?_⟩
  intro e he _ hmem
  obtain rfl := some.inj he
  exact absurd hmem not_mem_nil

/-- The second contact is folded into the first car, and the car answers by its
VIN as it did then: its own fingerprint is one of its faces. -/
theorem vidx_face_own :
    ∃ e ∈ ([.merge (fpKey (vehFingerprint ecusAsleep)) (seenByVin ecusReady).vin,
        .refine 0 (seenByVin ecusAsleep)].foldl (VidxOp.apply noJson)
          (twoContacts.foldl (VidxOp.apply noJson) VehIndex.init)).v,
      e.fingerprint ∈ e.faces := by
  decide

end Meatpi
