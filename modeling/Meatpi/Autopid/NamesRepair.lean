import Meatpi.Autopid.NamesConfig
import Meatpi.Expression.Eval

/-!
# What the repair of names achieves

A document that the parser refuses for its names only (`AcceptedButForNames`) is
repaired when it is accepted afterwards, every first holder has kept its name
and a second repair finds nothing (`NamesRepaired`). The repair does not look at
filters, nor at the width the parser cuts a name to, nor at names further on, and
it gives up after the last suffix; `NamesFit` is what is left for the names to
satisfy, and `apConfigRepairNames_iff` says that it is exactly that.
-/

namespace Meatpi

open List

variable {members : List (List Char × Json)} {y : List Char} {k : ℕ}

/-- The names of a document that the repair makes loadable. -/
structure NamesFit (pids filters : List (List Char)) : Prop where
  /-- no two PID names agree in what the tables keep -/
  cut : ∀ x ∈ pids, ∀ y ∈ pids, tableName x = tableName y → x = y
  /-- the filters' names differ from each other -/
  distinct : (filters.map tableName).Nodup
  /-- and from the PID names -/
  apart : ∀ x ∈ pids, tableName x ∉ filters.map tableName
  /-- and the repeats find a suffix -/
  repeats : RepeatsFit nameStem nameSuffixed suffixFirst suffixTries pids (filters.map tableName)

/-! ## Fresh names -/

theorem toDigits_suffix : ∀ {k : ℕ}, k < suffixFirst + suffixTries →
    (Nat.toDigits 10 k).length ≤ 2 ∧ '_' ∉ Nat.toDigits 10 k := by
  decide

theorem length_nameStem (name : List Char) : (nameStem name).length ≤ 27 := length_take_le _ _

theorem nameSuffixed_eq (name : List Char) (hk : k < suffixFirst + suffixTries) :
    nameSuffixed (nameStem name) k = nameStem name ++ '_' :: Nat.toDigits 10 k := by
  have hstem := length_nameStem name
  have hdigits := (toDigits_suffix hk).1
  rw [nameSuffixed, take_of_length_le]
  rw [length_append, length_cons, apNameLen]
  omega

theorem length_nameSuffixed (name : List Char) (hk : k < suffixFirst + suffixTries) :
    (nameSuffixed (nameStem name) k).length ≤ 30 := by
  have hstem := length_nameStem name
  have hdigits := (toDigits_suffix hk).1
  rw [nameSuffixed_eq name hk, length_append, length_cons]
  omega

theorem nameSuffixed_inj (x : List Char) (k : ℕ) (x' : List Char) (k' : ℕ)
    (hk : k < suffixFirst + suffixTries) (hk' : k' < suffixFirst + suffixTries)
    (h : nameSuffixed (nameStem x) k = nameSuffixed (nameStem x') k') :
    nameStem x = nameStem x' ∧ k = k' := by
  obtain ⟨-, hnot⟩ := toDigits_suffix hk
  obtain ⟨-, hnot'⟩ := toDigits_suffix hk'
  rw [nameSuffixed_eq x hk, nameSuffixed_eq x' hk'] at h
  -- the last underscore is the one in front of the digits
  have hsplit : ∀ {s s' d d' : List Char}, '_' ∉ d → '_' ∉ d' → s ++ '_' :: d = s' ++ '_' :: d' →
      s = s' ∧ d = d' := by
    intro s s' d d' hd hd' heq
    rcases append_eq_append_iff.mp heq with ⟨t, rfl, ht⟩ | ⟨t, rfl, ht⟩
    · rcases t with _ | ⟨c, t⟩
      · exact ⟨(append_nil s).symm, (cons.inj ht).2⟩
      · exact absurd ((cons.inj ht).2 ▸ by simp) hd
    · rcases t with _ | ⟨c, t⟩
      · exact ⟨append_nil s', (cons.inj ht).2.symm⟩
      · exact absurd ((cons.inj ht).2 ▸ by simp) hd'
  obtain ⟨hstem, hdigits⟩ := hsplit hnot hnot' h
  refine ⟨hstem, ?_⟩
  rw [← Nat.ofDigitChars_ten_toDigits (n := k), hdigits, Nat.ofDigitChars_ten_toDigits]

theorem eq_of_tableName_eq {x : List Char} (hy : y.length ≤ 30) (h : tableName x = y) : x = y := by
  rw [← h, tableName, length_take, apNameLen] at hy
  rw [← h, tableName, take_of_length_le]
  rw [apNameLen]
  omega

theorem tableName_eq_self {name : List Char} (h : name.length ≤ 30) : tableName name = name :=
  take_of_length_le (by rw [apNameLen]; omega)

/-! ## The names alone -/

/-- The PID names after the repair. -/
def repairedNames (pids : List (List Char)) : List (List Char) :=
  renameRepeats nameStem nameSuffixed suffixFirst suffixTries pids

theorem mem_repairedNames {pids : List (List Char)} (h : y ∈ repairedNames pids) (hy : y ∉ pids) :
    y.length ≤ 30 := by
  obtain ⟨x, k, hk, rfl⟩ := (mem_renameRepeats _ _ _ _ (by decide) h).resolve_left hy
  exact length_nameSuffixed x hk

/-- **The names of a repaired document** suit the parser, with the first holders
where they were, exactly when the names fit. -/
theorem repairedNames_iff (pids filters : List (List Char)) :
    (((repairedNames pids ++ filters).map tableName).Nodup ∧
      FirstsKept (pids ++ filters) (repairedNames pids ++ filters) ∧
      (repairedNames pids).Nodup) ↔ NamesFit pids filters := by
  have hlen : (repairedNames pids).length = pids.length := length_renameRepeats _ _ _ _ pids
  have hiff := renameRepeats_iff nameSuffixed_inj (by decide : 0 < suffixTries) pids
    (filters.map tableName)
  rw [firstsKept_append hlen, map_append, nodup_append]
  constructor
  · rintro ⟨⟨hpids, hfilters, hapart⟩, hfirst, hnodup⟩
    have hinj := inj_on_of_nodup_map hpids
    refine ⟨fun x hx y hy => hinj (hfirst.mem hx) (hfirst.mem hy), hfilters, fun x hx hmem => ?_,
      hiff.mp ⟨hnodup, hfirst, fun y hy hnot hmem => ?_⟩⟩
    · exact hapart _ (mem_map_of_mem (hfirst.mem hx)) _ hmem rfl
    · refine hapart _ (mem_map_of_mem hy) _ hmem ?_
      exact tableName_eq_self (mem_repairedNames hy hnot)
  · rintro ⟨hcut, hfilters, hapart, hrepeats⟩
    obtain ⟨hnodup, hfirst, hfresh⟩ := hiff.mpr hrepeats
    refine ⟨⟨(nodup_map_iff_inj_on hnodup).mpr fun x hx y hy heq => ?_, hfilters,
      fun t ht t' ht' heq => ?_⟩, hfirst, hnodup⟩
    · by_cases hx' : x ∈ pids
      · by_cases hy' : y ∈ pids
        · exact hcut x hx' y hy' heq
        · have hshort := mem_repairedNames hy hy'
          rw [tableName_eq_self hshort] at heq
          exact eq_of_tableName_eq hshort heq
      · have hshort := mem_repairedNames hx hx'
        rw [tableName_eq_self hshort] at heq
        exact (eq_of_tableName_eq hshort heq.symm).symm
    · obtain ⟨y, hy, rfl⟩ := mem_map.mp ht
      subst heq
      by_cases hy' : y ∈ pids
      · exact hapart y hy' ht'
      · rw [tableName_eq_self (mem_repairedNames hy hy')] at ht'
        exact hfresh y hy hy' ht'

/-! ## The document -/

/-- The parser refuses the document for nothing, or for its names. -/
def AcceptedButForNames {α : Type} (env : ConfigEnv α) (root : Json) : Prop :=
  ∃ members cfg, root = .obj members ∧ configTables env root = .ok cfg

/-- What the repair makes of a text: the text it returns, or the text it was
given. -/
def repairedText (cj : CJson) (json : List Char) : List Char :=
  (apConfigRepairNames cj json).1.getD json

/-- The repaired text is accepted, its names are those of `root` where each
stands first, and a second repair renames nothing. -/
def NamesRepaired {α : Type} (env : ConfigEnv α) (cj : CJson) (root : Json) (json : List Char) :
    Prop :=
  (∃ cfg, apConfigParse env cj (repairedText cj json) = .ok cfg) ∧
  (∀ root', cj.parse (repairedText cj json) = some root' →
    FirstsKept (pidNames root ++ filterNames root) (pidNames root' ++ filterNames root')) ∧
  (apConfigRepairNames cj (repairedText cj json)).2 = 0

theorem dedupedRoot_obj {root : Json} (h : root = .obj members) :
    ∃ members', (dedupedRoot root).1 = .obj members' := by
  subst h
  rw [dedupedRoot]
  split
  · exact ⟨members, rfl⟩
  · exact ⟨_, rfl⟩

theorem apConfigParse_obj {α : Type} (env : ConfigEnv α) {cj : CJson} {json : List Char}
    {root : Json} {cfg : ApConfig} (hparse : cj.parse json = some root) (hobj : root = .obj members)
    (htables : configTables env root = .ok cfg) :
    (∃ cfg, apConfigParse env cj json = .ok cfg) ↔ (poolNames cfg).Nodup := by
  subst hobj
  rw [← duplicateName_eq_none, apConfigParse, hparse]
  simp only [htables, bind, Except.bind]
  rw [poolNames]
  rcases duplicateName (cfg.params.map ApParam.name) with _ | name
  · exact ⟨fun _ => rfl, fun _ => ⟨cfg, rfl⟩⟩
  · constructor
    · rintro ⟨_, h⟩
      cases h
    · intro h
      cases h

section Document

variable {α : Type} (env : ConfigEnv α) {cj : CJson} {json : List Char} {root : Json}

theorem repairedText_root (hparse : cj.parse json = some root)
    (hprint : cj.parse (cj.print (dedupedRoot root).1) = some (dedupedRoot root).1)
    (hroot : AcceptedButForNames env root) :
    ∃ root' members cfg, cj.parse (repairedText cj json) = some root' ∧ root' = .obj members ∧
      configTables env root' = .ok cfg ∧
      pidNames root' = repairedNames (pidNames root) ∧ filterNames root' = filterNames root ∧
      (apConfigRepairNames cj (repairedText cj json)).2 = (dedupedRoot root').2 ∧
      ∀ name ∈ pidNames root', name ≠ [] := by
  obtain ⟨members, cfg, hobj, htables⟩ := hroot
  obtain ⟨hne, -⟩ := configTables_names env htables
  obtain ⟨hother, hrows, hspec⟩ := dedupedRoot_spec root
  obtain ⟨hnames, hzero⟩ := hspec hne
  by_cases hcount : (dedupedRoot root).2 = 0
  · -- nothing renamed, and the text is the one given
    have htext : repairedText cj json = json := by
      rw [repairedText, apConfigRepairNames, hparse]
      simp [hcount]
    have hsame := renameRepeats_of_nodup nameStem nameSuffixed suffixFirst suffixTries
      (hzero.mp hcount)
    refine ⟨root, members, cfg, by rw [htext, hparse], hobj, htables, ?_, rfl, ?_, hne⟩
    · rw [repairedNames, hsame]
    · rw [htext, apConfigRepairNames, hparse]
  · have htext : repairedText cj json = cj.print (dedupedRoot root).1 := by
      rw [repairedText, apConfigRepairNames, hparse]
      simp [Nat.pos_of_ne_zero hcount]
    obtain ⟨members', hobj'⟩ := dedupedRoot_obj hobj
    obtain ⟨cfg', htables', -⟩ := configTables_same env hother hrows htables
    refine ⟨_, members', cfg', by rw [htext, hprint], hobj', htables', hnames, ?_, ?_,
      (configTables_names env htables').1⟩
    · rw [filterNames, filterNames, Json.childrenOf, Json.childrenOf, hother _ (by decide)]
    · rw [htext, apConfigRepairNames, hprint]

/-- **When the repair of names keeps its promise.** -/
theorem apConfigRepairNames_iff (hparse : cj.parse json = some root)
    (hprint : cj.parse (cj.print (dedupedRoot root).1) = some (dedupedRoot root).1)
    (hroot : AcceptedButForNames env root) :
    NamesRepaired env cj root json ↔ NamesFit (pidNames root) (filterNames root) := by
  obtain ⟨root', members, cfg, hparse', hobj, htables, hpids, hfilters, hcount, hne⟩ :=
    repairedText_root env hparse hprint hroot
  have hpool := (configTables_names env htables).2
  have hzero := ((dedupedRoot_spec root').2.2 hne).2
  rw [← hcount] at hzero
  rw [← repairedNames_iff, NamesRepaired, apConfigParse_obj env hparse' hobj htables, hpool, hzero,
    hparse']
  simp only [Option.some.injEq, forall_eq', hpids, hfilters]

end Document

/-! ## On two documents -/

/-- A chip that knows no PGN command and guards nothing. -/
def plainEnv : ConfigEnv ℤ where
  ar := intArith
  pgnCmdParse _ := .notFound
  initSanitize cmd := cmd
  guardBlocked _ := false
  toU32 q := q.floor.toNat

/-- Parameters of these names. -/
def byteParams (names : List String) : Json :=
  .arr (names.map fun name =>
    .obj [("name".toList, .str name.toList), ("expression".toList, .str "B1".toList)])

def byteParamsText (names : List String) : List Char :=
  '[' :: [','].intercalate (names.map fun name =>
    "\x7b\"name\":\"".toList ++ name.toList ++ "\",\"expression\":\"B1\"\x7d".toList) ++ [']']

/-- One PID row and one filter, with parameters of these names. -/
def rowAndFilter (pid filter : List String) : Json :=
  .obj [
    ("pids".toList, .arr [.obj [("name".toList, .str "P".toList), ("cmd".toList, .str "010C".toList),
      ("parameters".toList, byteParams pid)]]),
    ("filters".toList, .arr [.obj [("frame_id".toList, .num 256),
      ("parameters".toList, byteParams filter)]])]

def rowAndFilterText (pid filter : List String) : List Char :=
  "\x7b\"pids\":[\x7b\"name\":\"P\",\"cmd\":\"010C\",\"parameters\":".toList ++
    byteParamsText pid ++
    "\x7d],\"filters\":[\x7b\"frame_id\":256,\"parameters\":".toList ++
    byteParamsText filter ++ "\x7d]\x7d".toList

/-- A library that knows the texts of some documents, the last of which it
prints. -/
def fewTexts (docs : List (List String × List String)) : CJson where
  parse text := (docs.map fun d => (rowAndFilterText d.1 d.2, rowAndFilter d.1 d.2)).lookup text
  print _ := (docs.getLast?.map fun d => rowAndFilterText d.1 d.2).getD []

theorem namesFit_twice : NamesFit [['x'], ['x']] [['y']] where
  cut := by simp
  distinct := by simp
  apart := by simp [tableName, apNameLen]
  repeats := by
    intro pre x post hnames hx
    rcases pre with _ | ⟨c, _ | ⟨d, pre⟩⟩
    · cases hx
    · obtain ⟨rfl, hrest⟩ := cons.inj hnames
      obtain ⟨rfl, -⟩ := cons.inj hrest
      refine ⟨2, rfl, by decide, fun k' hlo hlt => ?_⟩
      exact absurd hlt (Nat.not_lt.mpr hlo)
    · have hlen := congrArg List.length hnames
      rw [length_append] at hlen
      exact absurd hlen (by simp; omega)

/-- A name twice in a PID row: the second becomes `x_2`. -/
theorem apConfigRepairNames_iff_twice :
    NamesRepaired plainEnv (fewTexts [(["x", "x"], ["y"]), (["x", "x_2"], ["y"])])
      (rowAndFilter ["x", "x"] ["y"]) (rowAndFilterText ["x", "x"] ["y"]) :=
  (apConfigRepairNames_iff plainEnv rfl rfl ⟨_, _, rfl, rfl⟩).mpr namesFit_twice

/-- A name in a PID row and in a filter: nothing is renamed, and the parser
refuses the document. -/
theorem apConfigRepairNames_filter :
    AcceptedButForNames plainEnv (rowAndFilter ["a"] ["a"]) ∧
      (fewTexts [(["a"], ["a"])]).parse (rowAndFilterText ["a"] ["a"]) =
        some (rowAndFilter ["a"] ["a"]) ∧
      apConfigRepairNames (fewTexts [(["a"], ["a"])]) (rowAndFilterText ["a"] ["a"]) = (none, 0) ∧
      ¬ NamesRepaired plainEnv (fewTexts [(["a"], ["a"])]) (rowAndFilter ["a"] ["a"])
          (rowAndFilterText ["a"] ["a"]) := by
  refine ⟨⟨_, _, rfl, rfl⟩, rfl, rfl, ?_⟩
  rintro ⟨⟨cfg, hcfg⟩, -⟩
  cases hcfg

end Meatpi
