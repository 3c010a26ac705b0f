import Meatpi.Autopid.Names

/-!
# The parser and the names

Renaming parameters changes nothing else of what the parser does: with names
that are not empty it accepts the same documents up to the last check, and fills
the same tables but for the names (`configTables_same`). The names it fills in
are those of the document, cut to the table's width (`configTables_names`).
-/

namespace Meatpi

open ApConfig List Option

variable {p : Json} {ps rows : List Json} {count count₁ : ℕ}

variable {cfg cfg' cfg₁ : ApConfig} {j j' root : Json} {key : List Char} {owner : String}

/-- The tables with the parameters' names forgotten. -/
def forgetNames (cfg : ApConfig) : ApConfig :=
  { cfg with params := cfg.params.map fun p => { p with name := [] } }

/-- The names in the pool. -/
def poolNames (cfg : ApConfig) : List (List Char) := cfg.params.map ApParam.name

section Same

variable {α : Type} (env : ConfigEnv α)

theorem copyStr_congr {cap : ℕ} (h : j'.getItem key = j.getItem key) :
    copyStr cap j' key = copyStr cap j key := by
  rw [copyStr, copyStr, h]

theorem getNum_congr {β : Type} {dflt : β} {f : ℚ → β} (h : j'.getItem key = j.getItem key) :
    getNum j' key dflt f = getNum j key dflt f := by
  rw [getNum, getNum, h]

theorem getBool_congr {dflt : Bool} (h : j'.getItem key = j.getItem key) :
    getBool j' key dflt = getBool j key dflt := by
  rw [getBool, getBool, h]

theorem copyStr_name (p : Json) :
    copyStr apNameLen p "name".toList = ((paramName p).map tableName).getD [] := by
  rw [copyStr, paramName]
  rcases p.getItem "name".toList with _ | j
  · rfl
  · cases j <;> rfl

theorem tableName_ne_nil {name : List Char} : tableName name = [] ↔ name = [] := by
  simp [tableName, apNameLen]

theorem forgetNames_eq (h : forgetNames cfg = forgetNames cfg') :
    cfg.groups = cfg'.groups ∧ cfg.pids = cfg'.pids ∧ cfg.filters = cfg'.filters ∧
      cfg.params.length = cfg'.params.length := by
  rw [forgetNames, forgetNames, mk.injEq] at h
  obtain ⟨hg, hp, hf, hparams⟩ := h
  have hlen := congrArg List.length hparams
  rw [length_map, length_map] at hlen
  exact ⟨hg, hp, hf, hlen⟩

theorem parseParam_ok (h : parseParam env owner (cfg, count) p = .ok (cfg₁, count₁)) :
    (∃ name, paramName p = some name ∧ name ≠ []) ∧
    poolNames cfg₁ = poolNames cfg ++ ((paramName p).toList).map tableName := by
  simp only [parseParam] at h
  split_ifs at h with h₁ h₂ h₃ h₄ h₅
  cases h
  rw [copyStr_name] at h₃
  rcases hname : paramName p with _ | name
  · rw [hname] at h₃
    exact absurd rfl h₃
  · rw [hname, map_some, getD_some, tableName_ne_nil] at h₃
    refine ⟨⟨name, rfl, h₃⟩, ?_⟩
    rw [poolNames, map_append, copyStr_name, hname]
    rfl

theorem parseParam_same {p' : Json} (hp : SameParam p p')
    (hcfg : forgetNames cfg = forgetNames cfg')
    (h : parseParam env owner (cfg, count) p = .ok (cfg₁, count₁)) :
    ∃ cfg₁', parseParam env owner (cfg', count) p' = .ok (cfg₁', count₁) ∧
      forgetNames cfg₁ = forgetNames cfg₁' := by
  obtain ⟨name, hname, hne⟩ := (parseParam_ok env h).1
  obtain ⟨name', hname', hne'⟩ := hp.name name hname hne
  obtain ⟨hg, hpids, hf, hlen⟩ := forgetNames_eq hcfg
  have hread : copyStr apNameLen p' "name".toList ≠ [] := by
    rw [copyStr_name, hname', map_some, getD_some, Ne, tableName_ne_nil]
    exact hne'
  have hstr : ∀ cap key, key ≠ "name".toList → copyStr cap p' key = copyStr cap p key :=
    fun cap key hkey => copyStr_congr (hp.other key hkey)
  have hexpr := hstr apExprLen "expression".toList (by decide)
  have hmux := hstr apMuxExprLen "mux_expr".toList (by decide)
  have hunit := hstr apUnitLen "unit".toList (by decide)
  have hclass := hstr apClassLen "class".toList (by decide)
  have hmin := hp.other "min".toList (by decide)
  have hmax := hp.other "max".toList (by decide)
  have hval := hp.other "mux_val".toList (by decide)
  have hen := hp.other "enabled".toList (by decide)
  simp only [parseParam] at h ⊢
  rw [hexpr, hmux, hunit, hclass, getNum_congr hmin, getNum_congr hmax, getNum_congr hval,
    getBool_congr hen, ← hlen]
  split_ifs at h with h₁ h₂ h₃ h₄ h₅
  cases h
  rw [if_neg h₁, if_neg h₂, if_neg hread, if_neg h₄, if_neg h₅]
  refine ⟨_, rfl, ?_⟩
  rw [forgetNames, mk.injEq] at hcfg
  rw [forgetNames, forgetNames, mk.injEq]
  refine ⟨hg, hpids, hf, ?_⟩
  rw [map_append, map_append, hcfg.2.2.2]
  rfl

theorem foldlM_parseParam_ok {cfg cfg₁ : ApConfig}
    (h : ps.foldlM (parseParam env owner) (cfg, count) = .ok (cfg₁, count₁)) :
    (∀ name ∈ ps.filterMap paramName, name ≠ []) ∧
      poolNames cfg₁ = poolNames cfg ++ (ps.filterMap paramName).map tableName := by
  induction ps generalizing cfg cfg₁ count count₁ with
  | nil =>
    cases h
    exact ⟨by simp, by simp⟩
  | cons p ps ih =>
    rw [foldlM_cons] at h
    rcases hp : parseParam env owner (cfg, count) p with e | ⟨cfg₂, count₂⟩
    · rw [hp] at h
      cases h
    · rw [hp] at h
      obtain ⟨hne, hnames⟩ := ih h
      obtain ⟨⟨name, hname, hname_ne⟩, hone⟩ := parseParam_ok env hp
      rw [filterMap_cons_some hname]
      refine ⟨forall_mem_cons.mpr ⟨hname_ne, hne⟩, ?_⟩
      rw [hnames, hone, hname, append_assoc]
      rfl

theorem foldlM_parseParam_same {ps' : List Json} (hps : List.Forall₂ SameParam ps ps') :
    ∀ {cfg cfg' cfg₁ : ApConfig} {count count₁ : ℕ}, forgetNames cfg = forgetNames cfg' →
      ps.foldlM (parseParam env owner) (cfg, count) = .ok (cfg₁, count₁) →
      ∃ cfg₁', ps'.foldlM (parseParam env owner) (cfg', count) = .ok (cfg₁', count₁) ∧
        forgetNames cfg₁ = forgetNames cfg₁' := by
  induction hps with
  | nil =>
    intro cfg cfg' cfg₁ count count₁ hcfg h
    cases h
    exact ⟨cfg', rfl, hcfg⟩
  | @cons p p' ps ps' hp _ ih =>
    intro cfg cfg' cfg₁ count count₁ hcfg h
    rw [foldlM_cons] at h ⊢
    rcases hone : parseParam env owner (cfg, count) p with e | ⟨cfg₂, count₂⟩
    · rw [hone] at h
      cases h
    · rw [hone] at h
      obtain ⟨cfg₂', hone', hcfg₂⟩ := parseParam_same env hp hcfg hone
      rw [hone']
      exact ih hcfg₂ h

/-- What one turn of a row loop does with names: it adds the row's, and does the
same whatever they are. -/
structure RowStep (f : ApConfig → Json → Except String ApConfig) : Prop where
  names : ∀ {cfg cfg₁ row}, f cfg row = .ok cfg₁ → (∀ name ∈ namesOfRow row, name ≠ []) ∧
    poolNames cfg₁ = poolNames cfg ++ (namesOfRow row).map tableName
  same : ∀ {cfg cfg' cfg₁ row row'}, SameRow row row' → forgetNames cfg = forgetNames cfg' →
    f cfg row = .ok cfg₁ → ∃ cfg₁', f cfg' row' = .ok cfg₁' ∧ forgetNames cfg₁ = forgetNames cfg₁'

theorem findGroup_congr (h : cfg.groups = cfg'.groups) (name : List Char) :
    findGroup cfg name = findGroup cfg' name := by
  rw [findGroup, findGroup, h]

theorem rowGroup_congr {row row' : Json} (h : cfg.groups = cfg'.groups) (hrow : SameRow row row') :
    rowGroup cfg row = rowGroup cfg' row' := by
  have hgroup : copyStr apNameLen row' "group".toList = copyStr apNameLen row "group".toList :=
    copyStr_congr (hrow.other _ (by decide))
  simp only [rowGroup, hgroup, findGroup_congr h]

theorem parsePid_rowStep : RowStep (parsePid env) where
  names := by
    intro cfg cfg₁ row h
    simp only [parsePid, parseParams] at h
    split_ifs at h
    rcases hps : (row.childrenOf "parameters".toList).foldlM
        (parseParam env (String.ofList (copyStr apNameLen row "name".toList))) (cfg, 0) with
      e | ⟨cfg₂, count⟩
    · rw [hps] at h
      cases h
    · rw [hps] at h
      cases h
      obtain ⟨hne, hnames⟩ := foldlM_parseParam_ok env hps
      exact ⟨hne, hnames⟩
  same := by
    intro cfg cfg' cfg₁ row row' hrow hcfg h
    obtain ⟨hg, hpids, hf, hlen⟩ := forgetNames_eq hcfg
    have hstr : ∀ cap key, key ≠ "parameters".toList → copyStr cap row' key = copyStr cap row key :=
      fun cap key hkey => copyStr_congr (hrow.other key hkey)
    have hname := hstr apNameLen "name".toList (by decide)
    have hcmd := hstr apCmdLen "cmd".toList (by decide)
    have hinit := hstr apInitLen "init".toList (by decide)
    have hrx := hstr apHdrLen "rxheader".toList (by decide)
    have htype := hstr 16 "type".toList (by decide)
    have hperiod := hrow.other "period_ms".toList (by decide)
    have hen := hrow.other "enabled".toList (by decide)
    simp only [parsePid, parseParams] at h ⊢
    rw [hname, hcmd, hinit, hrx, htype, getNum_congr hperiod, getBool_congr hen, ← hpids, ← hlen,
      ← rowGroup_congr hg hrow]
    split_ifs at h with h₁ h₂ h₃ h₄ h₅ h₆
    rw [if_neg h₁, if_neg h₂, if_neg h₃, if_neg h₄, if_neg h₅, if_neg h₆]
    rcases hps : (row.childrenOf "parameters".toList).foldlM
        (parseParam env (String.ofList (copyStr apNameLen row "name".toList))) (cfg, 0) with
      e | ⟨cfg₂, count⟩
    · rw [hps] at h
      cases h
    · obtain ⟨cfg₂', hps', hcfg₂⟩ := foldlM_parseParam_same env hrow.params hcfg hps
      rw [hps] at h
      rw [hps']
      cases h
      refine ⟨_, rfl, ?_⟩
      rw [forgetNames, forgetNames, mk.injEq] at hcfg₂
      obtain ⟨hg₂, hp₂, hf₂, hparams₂⟩ := hcfg₂
      rw [forgetNames, forgetNames, mk.injEq]
      exact ⟨hg₂, by rw [hp₂], hf₂, hparams₂⟩

theorem parseFilter_rowStep : RowStep (parseFilter env) where
  names := by
    intro cfg cfg₁ row h
    simp only [parseFilter, parseParams] at h
    split_ifs at h
    rcases hps : (row.childrenOf "parameters".toList).foldlM
        (parseParam env ("filter " ++ hexUpper (getNum row "frame_id".toList 0 env.toU32)))
        (cfg, 0) with e | ⟨cfg₂, count⟩
    · rw [hps] at h
      cases h
    · rw [hps] at h
      cases h
      obtain ⟨hne, hnames⟩ := foldlM_parseParam_ok env hps
      exact ⟨hne, hnames⟩
  same := by
    intro cfg cfg' cfg₁ row row' hrow hcfg h
    obtain ⟨hg, hpids, hf, hlen⟩ := forgetNames_eq hcfg
    have hid := hrow.other "frame_id".toList (by decide)
    have hmonitor := hrow.other "monitor_ms".toList (by decide)
    have hperiod := hrow.other "period_ms".toList (by decide)
    have hen := hrow.other "enabled".toList (by decide)
    simp only [parseFilter, parseParams] at h ⊢
    rw [getNum_congr hid, getNum_congr hmonitor, getNum_congr hperiod, getBool_congr hen, ← hf,
      ← hlen, ← rowGroup_congr hg hrow]
    split_ifs at h with h₁ h₂ h₃ h₄
    rw [if_neg h₁, if_neg h₂, if_neg h₃, if_neg h₄]
    rcases hps : (row.childrenOf "parameters".toList).foldlM
        (parseParam env ("filter " ++ hexUpper (getNum row "frame_id".toList 0 env.toU32)))
        (cfg, 0) with e | ⟨cfg₂, count⟩
    · rw [hps] at h
      cases h
    · obtain ⟨cfg₂', hps', hcfg₂⟩ := foldlM_parseParam_same env hrow.params hcfg hps
      rw [hps] at h
      rw [hps']
      cases h
      refine ⟨_, rfl, ?_⟩
      rw [forgetNames, forgetNames, mk.injEq] at hcfg₂
      obtain ⟨hg₂, hp₂, hf₂, hparams₂⟩ := hcfg₂
      rw [forgetNames, forgetNames, mk.injEq]
      exact ⟨hg₂, hp₂, by rw [hf₂], hparams₂⟩

section Rows

variable {f : ApConfig → Json → Except String ApConfig} (hf : RowStep f)

include hf

theorem RowStep.foldlM_names {cfg cfg₁ : ApConfig} (h : rows.foldlM f cfg = .ok cfg₁) :
    (∀ name ∈ rowNames rows, name ≠ []) ∧
      poolNames cfg₁ = poolNames cfg ++ (rowNames rows).map tableName := by
  induction rows generalizing cfg cfg₁ with
  | nil =>
    cases h
    exact ⟨by simp [rowNames], by simp [rowNames]⟩
  | cons row rows ih =>
    rw [foldlM_cons] at h
    rcases hone : f cfg row with e | cfg₂
    · rw [hone] at h
      cases h
    · rw [hone] at h
      obtain ⟨hne, hnames⟩ := ih h
      obtain ⟨hne', hnames'⟩ := hf.names hone
      rw [rowNames, flatMap_cons, forall_mem_append, map_append, hnames, hnames', append_assoc]
      exact ⟨⟨hne', hne⟩, rfl⟩

theorem RowStep.foldlM_same {rows' : List Json} (hrows : List.Forall₂ SameRow rows rows') :
    ∀ {cfg cfg' cfg₁ : ApConfig}, forgetNames cfg = forgetNames cfg' →
      rows.foldlM f cfg = .ok cfg₁ →
      ∃ cfg₁', rows'.foldlM f cfg' = .ok cfg₁' ∧ forgetNames cfg₁ = forgetNames cfg₁' := by
  induction hrows with
  | nil =>
    intro cfg cfg' cfg₁ hcfg h
    cases h
    exact ⟨cfg', rfl, hcfg⟩
  | @cons row row' rows rows' hrow _ ih =>
    intro cfg cfg' cfg₁ hcfg h
    rw [foldlM_cons] at h ⊢
    rcases hone : f cfg row with e | cfg₂
    · rw [hone] at h
      cases h
    · rw [hone] at h
      obtain ⟨cfg₂', hone', hcfg₂⟩ := hf.same hrow hcfg hone
      rw [hone']
      exact ih hcfg₂ h

end Rows

theorem parseGroups_names {items : List Json} {cfg cfg₁ : ApConfig}
    (h : items.foldlM (parseGroup env) cfg = .ok cfg₁) : cfg₁.params = cfg.params := by
  induction items generalizing cfg cfg₁ with
  | nil => cases h; rfl
  | cons item items ih =>
    rw [foldlM_cons] at h
    rcases hone : parseGroup env cfg item with e | cfg₂
    · rw [hone] at h
      cases h
    · rw [hone] at h
      rw [ih h]
      simp only [parseGroup] at hone
      split_ifs at hone
      cases hone
      rfl

theorem defaultGroup_params (h : defaultGroup cfg = .ok cfg₁) : cfg₁.params = cfg.params := by
  rw [defaultGroup] at h
  split_ifs at h <;> cases h <;> rfl

theorem configTables_ok (h : configTables env root = .ok cfg) :
    ∃ cfg₁ cfg₂ cfg₃,
      (root.childrenOf "groups".toList).foldlM (parseGroup env) ApConfig.empty = .ok cfg₁ ∧
        defaultGroup cfg₁ = .ok cfg₂ ∧
        (root.childrenOf "pids".toList).foldlM (parsePid env) cfg₂ = .ok cfg₃ ∧
        (root.childrenOf "filters".toList).foldlM (parseFilter env) cfg₃ = .ok cfg := by
  rw [configTables] at h
  rcases h₁ : (root.childrenOf "groups".toList).foldlM (parseGroup env) ApConfig.empty with e | cfg₁
  · rw [h₁] at h
    cases h
  rw [h₁] at h
  rcases h₂ : defaultGroup cfg₁ with e | cfg₂
  · simp only [bind, Except.bind, h₂] at h
    cases h
  simp only [bind, Except.bind, h₂] at h
  rcases h₃ : (root.childrenOf "pids".toList).foldlM (parsePid env) cfg₂ with e | cfg₃
  · rw [h₃] at h
    cases h
  rw [h₃] at h
  exact ⟨cfg₁, cfg₂, cfg₃, rfl, h₂, h₃, h⟩

/-- **The names in the tables** are those of the document, none of them empty. -/
theorem configTables_names (h : configTables env root = .ok cfg) :
    (∀ name ∈ pidNames root, name ≠ []) ∧
    poolNames cfg = (pidNames root ++ filterNames root).map tableName := by
  obtain ⟨cfg₁, cfg₂, cfg₃, h₁, h₂, h₃, h₄⟩ := configTables_ok env h
  obtain ⟨hne, hpids⟩ := (parsePid_rowStep env).foldlM_names h₃
  obtain ⟨-, hfilters⟩ := (parseFilter_rowStep env).foldlM_names h₄
  have hempty : poolNames cfg₂ = [] := by
    rw [poolNames, defaultGroup_params h₂, parseGroups_names env h₁]
    rfl
  rw [hfilters, hpids, hempty, map_append]
  exact ⟨hne, rfl⟩

/-- **Other names, the same tables.** -/
theorem configTables_same {root' : Json}
    (hother : ∀ key, key ≠ "pids".toList → root'.getItem key = root.getItem key)
    (hrows : List.Forall₂ SameRow (root.childrenOf "pids".toList) (root'.childrenOf "pids".toList))
    (h : configTables env root = .ok cfg) :
    ∃ cfg', configTables env root' = .ok cfg' ∧ forgetNames cfg = forgetNames cfg' := by
  have hchildren : ∀ key, key ≠ "pids".toList → root'.childrenOf key = root.childrenOf key := by
    intro key hkey
    rw [Json.childrenOf, Json.childrenOf, hother key hkey]
  obtain ⟨cfg₁, cfg₂, cfg₃, h₁, h₂, h₃, h₄⟩ := configTables_ok env h
  obtain ⟨cfg₃', h₃', hcfg₃⟩ := (parsePid_rowStep env).foldlM_same hrows rfl h₃
  obtain ⟨cfg', h₄', hcfg⟩ := (parseFilter_rowStep env).foldlM_same
    (forall₂_same.mpr fun row _ => SameRow.refl row) hcfg₃ h₄
  refine ⟨cfg', ?_, hcfg⟩
  simp only [configTables, hchildren "groups".toList (by decide),
    hchildren "filters".toList (by decide), h₁, bind, Except.bind, h₂, h₃', h₄']

end Same

end Meatpi
