import Meatpi.Autopid.Config
import Meatpi.Library.Rename

/-!
# Parameter names made unique (`autopid_names.c`)

The repair walks the parameters of the PID rows in document order and renames a
repeat in place. It compares whole names and looks at nothing else than the PID
rows in front; the parser compares the names it keeps, of PID rows and filters.
The bridge between the two are the names of a document (`rowNames`): the repair
renames them as a list (`dedupe_rowNames`), and the parser fills its tables with
them, cut to the table's width (`configTables_names`).
-/

namespace Meatpi

open Json List

/-- The part of a name that a fresh name starts with. -/
def nameStem (name : List Char) : List Char := name.take (apNameLen - 5)

/-- The name that is tried, `%.*s_%d`. -/
def nameSuffixed (stem : List Char) (k : ℕ) : List Char :=
  (stem ++ '_' :: Nat.toDigits 10 k).take (apNameLen - 1)

/-- The suffixes tried, `2` to `99`. -/
def suffixFirst : ℕ := 2
def suffixTries : ℕ := 98

/-- One turn of the parameter loop of `ap_names_dedupe`; the state is what
`name_taken` finds, the names in front as they are now, and the count. -/
def dedupeParam (st : List (List Char) × ℕ) (prm : Json) : Json × List (List Char) × ℕ :=
  match prm.getItem "name".toList with
  | some (.str name) =>
    if name.isEmpty || !st.1.contains name then (prm, st.1 ++ [name], st.2)
    else
      let fresh := freshName nameSuffixed suffixFirst suffixTries st.1 (nameStem name)
      (prm.setItem "name".toList (.str fresh), st.1 ++ [fresh], st.2 + 1)
  | _ => (prm, st)

/-- A loop that changes the elements it runs through. -/
def mapState {σ β : Type} (f : σ → β → β × σ) : σ → List β → List β × σ
  | st, [] => ([], st)
  | st, x :: xs =>
    let (y, st) := f st x
    let (ys, st) := mapState f st xs
    (y :: ys, st)

/-- One turn of the row loop. -/
def dedupeRow (st : List (List Char) × ℕ) (pid : Json) : Json × List (List Char) × ℕ :=
  match pid.getItem "parameters".toList with
  | none => (pid, st)
  | some ps =>
    let (prms, st) := mapState dedupeParam st ps.children
    (pid.setItem "parameters".toList (ps.withChildren prms), st)

/-- `ap_names_dedupe`: the rows afterwards, and how many names were changed. -/
def apNamesDedupe (pids : Json) : Json × ℕ :=
  let (rows, st) := mapState dedupeRow ([], 0) pids.children
  (pids.withChildren rows, st.2)

/-- The document after `ap_names_dedupe` on its PID rows. -/
def dedupedRoot (root : Json) : Json × ℕ :=
  match root.getItem "pids".toList with
  | none => (root, 0)
  | some pids => (root.setItem "pids".toList (apNamesDedupe pids).1, (apNamesDedupe pids).2)

/-- `ap_config_repair_names`: the text, `none` when nothing was renamed, and the
count. -/
def apConfigRepairNames (cj : CJson) (json : List Char) : Option (List Char) × ℕ :=
  match cj.parse json with
  | none => (none, 0)
  | some root =>
    let (root, renamed) := dedupedRoot root
    (if 0 < renamed then some (cj.print root) else none, renamed)

/-! ## The names of a document -/

/-- The name of a parameter, when it is a string. -/
def paramName (prm : Json) : Option (List Char) := (prm.getItem "name".toList).bind Json.asStr

/-- The names of one row. -/
def namesOfRow (row : Json) : List (List Char) :=
  (row.childrenOf "parameters".toList).filterMap paramName

/-- The names of the parameters of rows, in document order. -/
def rowNames (rows : List Json) : List (List Char) := rows.flatMap namesOfRow

def pidNames (root : Json) : List (List Char) := rowNames (root.childrenOf "pids".toList)

def filterNames (root : Json) : List (List Char) := rowNames (root.childrenOf "filters".toList)

/-- The name as the tables keep it. -/
def tableName (name : List Char) : List Char := name.take (apNameLen - 1)

/-! ## The repair, on the names -/

/-- Two parameters that differ in their names only. -/
structure SameParam (p p' : Json) : Prop where
  other : ∀ key, key ≠ "name".toList → p'.getItem key = p.getItem key
  name : ∀ name, paramName p = some name → name ≠ [] → ∃ name', paramName p' = some name' ∧ name' ≠ []

theorem SameParam.refl (p : Json) : SameParam p p :=
  ⟨fun _ _ => rfl, fun name h hne => ⟨name, h, hne⟩⟩

/-- Two rows that differ in the names of their parameters only. -/
structure SameRow (row row' : Json) : Prop where
  other : ∀ key, key ≠ "parameters".toList → row'.getItem key = row.getItem key
  params : List.Forall₂ SameParam (row.childrenOf "parameters".toList)
    (row'.childrenOf "parameters".toList)

theorem SameRow.refl (row : Json) : SameRow row row :=
  ⟨fun _ _ => rfl, forall₂_same.mpr fun p _ => SameParam.refl p⟩

theorem nameSuffixed_ne_nil (stem : List Char) (k : ℕ) : nameSuffixed stem k ≠ [] := by
  simp [nameSuffixed, apNameLen]

theorem paramName_setItem {prm : Json} {w : Json} (h : prm.getItem "name".toList = some w)
    (name : List Char) : paramName (prm.setItem "name".toList (.str name)) = some name := by
  rw [paramName, getItem_setItem _ h]
  rfl

theorem dedupeParam_spec (st : List (List Char) × ℕ) (prm : Json) :
    SameParam prm (dedupeParam st prm).1 ∧
    (dedupeParam st prm).2.1 = st.1 ++ (paramName (dedupeParam st prm).1).toList ∧
    ((∀ name, paramName prm = some name → name ≠ []) → (dedupeParam st prm).2 =
      (paramName prm).toList.foldl
        (renameCount nameStem nameSuffixed suffixFirst suffixTries) st) := by
  obtain ⟨seen, renamed⟩ := st
  have hother : ∀ {j : Json}, prm.getItem "name".toList = some j → (∀ s, j ≠ .str s) →
      dedupeParam (seen, renamed) prm = (prm, seen, renamed) ∧ paramName prm = none := by
    intro j hj hstr
    rw [dedupeParam, paramName, hj]
    cases j with
    | str s => exact absurd rfl (hstr s)
    | _ => exact ⟨rfl, rfl⟩
  rcases hname : prm.getItem "name".toList with _ | j
  · have hnone : paramName prm = none := by rw [paramName, hname]; rfl
    have hsame : dedupeParam (seen, renamed) prm = (prm, seen, renamed) := by
      rw [dedupeParam, hname]
    rw [hsame, hnone]
    exact ⟨SameParam.refl prm, by simp, fun _ => rfl⟩
  · by_cases hstr : ∃ s, j = .str s
    · obtain ⟨name, rfl⟩ := hstr
      have hpn : paramName prm = some name := by rw [paramName, hname]; rfl
      by_cases hkeep : name = [] ∨ name ∉ seen
      · have hstep : dedupeParam (seen, renamed) prm = (prm, seen ++ [name], renamed) := by
          rw [dedupeParam, hname]
          exact if_pos (by simpa using hkeep)
        rw [hstep, hpn]
        refine ⟨SameParam.refl prm, rfl, fun hne => ?_⟩
        have hnew := hkeep.resolve_left (hne name rfl)
        simp [renameCount, renameStep, hnew]
      · rw [not_or] at hkeep
        have hstep : dedupeParam (seen, renamed) prm = (prm.setItem "name".toList
              (.str (freshName nameSuffixed suffixFirst suffixTries seen (nameStem name))),
              seen ++ [freshName nameSuffixed suffixFirst suffixTries seen (nameStem name)],
              renamed + 1) := by
          rw [dedupeParam, hname]
          exact if_neg (by simpa using hkeep)
        rw [hstep, hpn]
        refine ⟨⟨fun key hkey => getItem_setItem_ne hkey _ prm, fun _ _ _ => ?_⟩, ?_, fun _ => ?_⟩
        · exact ⟨_, paramName_setItem hname _, nameSuffixed_ne_nil _ _⟩
        · rw [paramName_setItem hname]
          rfl
        · simp [renameCount, renameStep, hkeep.2]
    · obtain ⟨hsame, hnone⟩ := hother hname fun s hs => hstr ⟨s, hs⟩
      rw [hsame, hnone]
      exact ⟨SameParam.refl prm, by simp, fun _ => rfl⟩

theorem mapState_spec {β : Type} {R : β → β → Prop} {g : β → List (List Char)}
    {f : List (List Char) × ℕ → β → β × List (List Char) × ℕ}
    (hf : ∀ st x,
      R x (f st x).1 ∧ (f st x).2.1 = st.1 ++ g (f st x).1 ∧
        ((∀ name ∈ g x, name ≠ []) →
          (f st x).2 =
            (g x).foldl (renameCount nameStem nameSuffixed suffixFirst suffixTries) st))
    (xs : List β) (st : List (List Char) × ℕ) :
    List.Forall₂ R xs (mapState f st xs).1 ∧
      (mapState f st xs).2.1 = st.1 ++ (mapState f st xs).1.flatMap g ∧
      ((∀ name ∈ xs.flatMap g, name ≠ []) →
        (mapState f st xs).2 =
          (xs.flatMap g).foldl (renameCount nameStem nameSuffixed suffixFirst suffixTries)
            st) := by
  induction xs generalizing st with
  | nil => exact ⟨.nil, by simp [mapState], fun _ => rfl⟩
  | cons x xs ih =>
    obtain ⟨hR, hseen, hfold⟩ := hf st x
    obtain ⟨hRs, hseens, hfolds⟩ := ih (f st x).2
    refine ⟨.cons hR hRs, ?_, fun hne => ?_⟩
    · rw [mapState, flatMap_cons, hseens, hseen, append_assoc]
    · rw [flatMap_cons, forall_mem_append] at hne
      rw [flatMap_cons, foldl_append, ← hfold hne.1]
      exact hfolds hne.2

theorem dedupeRow_spec (st : List (List Char) × ℕ) (row : Json) :
    SameRow row (dedupeRow st row).1 ∧
    (dedupeRow st row).2.1 = st.1 ++ namesOfRow (dedupeRow st row).1 ∧
    ((∀ name ∈ namesOfRow row, name ≠ []) → (dedupeRow st row).2 =
      (namesOfRow row).foldl (renameCount nameStem nameSuffixed suffixFirst suffixTries) st) := by
  rcases hps : row.getItem "parameters".toList with _ | ps
  · have hsame : dedupeRow st row = (row, st) := by rw [dedupeRow, hps]
    have hnone : namesOfRow row = [] := by rw [namesOfRow, Json.childrenOf, hps]; rfl
    rw [hsame, hnone]
    exact ⟨SameRow.refl row, by simp, fun _ => rfl⟩
  · have hturn : ∀ (st : List (List Char) × ℕ) (prm : Json), SameParam prm (dedupeParam st prm).1 ∧
        (dedupeParam st prm).2.1 = st.1 ++ (paramName (dedupeParam st prm).1).toList ∧
        ((∀ name ∈ (paramName prm).toList, name ≠ []) → (dedupeParam st prm).2 =
          (paramName prm).toList.foldl
            (renameCount nameStem nameSuffixed suffixFirst suffixTries) st) := by
      intro st prm
      obtain ⟨hsame, hseen, hfold⟩ := dedupeParam_spec st prm
      exact ⟨hsame, hseen, fun hne => hfold fun name hname => hne name (by simp [hname])⟩
    obtain ⟨hall, hseen, hfold⟩ := mapState_spec (R := SameParam)
      (g := fun prm => (paramName prm).toList) (f := dedupeParam) hturn ps.children st
    have hstep : dedupeRow st row = (row.setItem "parameters".toList
        (ps.withChildren (mapState dedupeParam st ps.children).1),
        (mapState dedupeParam st ps.children).2) := by
      rw [dedupeRow, hps]
    have hold : row.childrenOf "parameters".toList = ps.children := by
      rw [Json.childrenOf, hps]
      rfl
    have hnew : (dedupeRow st row).1.childrenOf "parameters".toList =
        (mapState dedupeParam st ps.children).1 := by
      rw [hstep, Json.childrenOf, getItem_setItem _ hps]
      exact children_withChildren hall.length_eq.symm
    refine ⟨⟨fun key hkey => ?_, ?_⟩, ?_, ?_⟩
    · rw [hstep]
      exact getItem_setItem_ne hkey _ row
    · rw [hnew, hold]
      exact hall
    · rw [namesOfRow, hnew, filterMap_eq_flatMap_toList, ← hseen, hstep]
    · rw [namesOfRow, hold, filterMap_eq_flatMap_toList, hstep]
      exact hfold

/-- **The repair of a document**: it differs in the names of PID parameters
only, and its names are the old ones renamed as a list. -/
theorem dedupedRoot_spec (root : Json) :
    (∀ key, key ≠ "pids".toList → (dedupedRoot root).1.getItem key = root.getItem key) ∧
    List.Forall₂ SameRow (root.childrenOf "pids".toList)
      ((dedupedRoot root).1.childrenOf "pids".toList) ∧
    ((∀ name ∈ pidNames root, name ≠ []) → pidNames (dedupedRoot root).1 =
        renameRepeats nameStem nameSuffixed suffixFirst suffixTries (pidNames root) ∧
      ((dedupedRoot root).2 = 0 ↔ (pidNames root).Nodup)) := by
  rcases hps : root.getItem "pids".toList with _ | ps
  · have hsame : dedupedRoot root = (root, 0) := by rw [dedupedRoot, hps]
    have hnone : pidNames root = [] := by rw [pidNames, Json.childrenOf, hps]; rfl
    rw [hsame, hnone]
    refine ⟨fun _ _ => rfl, forall₂_same.mpr fun row _ => SameRow.refl row, fun _ => ?_⟩
    exact ⟨rfl, by simp⟩
  · obtain ⟨hall, hseen, hfold⟩ := mapState_spec (R := SameRow) (g := namesOfRow)
      (f := dedupeRow) dedupeRow_spec ps.children ([], 0)
    have hstep : dedupedRoot root = (root.setItem "pids".toList
        (ps.withChildren (mapState dedupeRow ([], 0) ps.children).1),
        (mapState dedupeRow ([], 0) ps.children).2.2) := by
      rw [dedupedRoot, hps]
      rfl
    have hold : root.childrenOf "pids".toList = ps.children := by
      rw [Json.childrenOf, hps]
      rfl
    have hnew : (dedupedRoot root).1.childrenOf "pids".toList =
        (mapState dedupeRow ([], 0) ps.children).1 := by
      rw [hstep, Json.childrenOf, getItem_setItem _ hps]
      exact children_withChildren hall.length_eq.symm
    refine ⟨fun key hkey => ?_, ?_, fun hne => ?_⟩
    · rw [hstep]
      exact getItem_setItem_ne hkey _ root
    · rw [hnew, hold]
      exact hall
    · have hnames : pidNames root = ps.children.flatMap namesOfRow := by
        rw [pidNames, hold]
        rfl
      rw [hnames] at hne ⊢
      have hstate := hfold hne
      constructor
      · rw [pidNames, hnew]
        have hgiven := hseen.symm
        rw [hstate, foldl_renameCount_fst] at hgiven
        exact hgiven
      · rw [hstep, ← foldl_renameCount_snd nameStem nameSuffixed suffixFirst suffixTries, ← hstate]

end Meatpi
