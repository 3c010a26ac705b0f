import Meatpi.Library.Json
import Meatpi.Library.Utf8

/-!
# The list of bridges (`bridge_manager_config.c`)

The settings' array of bridges is parsed row by row against the registries and the
rows before it. A list stored by the first version gets the Bluetooth bridge
appended when it comes up; the migration looks at the ends its rows use and at
their number.
-/

namespace Meatpi

open List Option

variable {item : Json} {items : List Json}

def bridgeManagerMaxBridges : ℕ := 6

structure BmBridgeCfg where
  enabled : Bool
  name : List Char
  a : List Char
  b : List Char
  translator : List Char
  deriving DecidableEq

/-- The registries as the validation gets them; none is a negative count. -/
structure BmRegistry where
  endpoints : Option (List (List Char × Bool))
  translators : Option (List (List Char))

/-! ## A row -/

/-- `copy_name` into sixteen bytes -/
def copyName (v : Option Json) : Option (List Char) :=
  (v.bind Json.asStr).filter fun s => s ≠ [] ∧ strlen s < 16

/-- The translator of a row, `raw` by default. -/
def bmTranslator (tr : Option Json) : Option (List Char) :=
  if tr.isNone then some "raw".toList else copyName tr

def bmParseBridge (item : Json) : Option BmBridgeCfg := do
  let name ← copyName (item.getItem "name".toList)
  let a ← copyName (item.getItem "a".toList)
  let b ← copyName (item.getItem "b".toList)
  let translator ← bmTranslator (item.getItem "translator".toList)
  let enabled := (item.getItem "enabled".toList).bind Json.asBool == some true
  return { enabled, name, a, b, translator }

def nameIsMulti (name : List Char) (endpoints : List (List Char × Bool)) : Bool :=
  (endpoints.lookup name).getD false

/-! ## The whole list -/

/-- The end of an earlier row that a row may not use as well. -/
def bmSharedEnd (endpoints : List (List Char × Bool)) (d c : BmBridgeCfg) : Option (List Char) :=
  [d.a, d.b].find? fun x => (x = c.a ∨ x = c.b) ∧ ¬ nameIsMulti x endpoints

/-- What the row `c` meets in a row `d` before it. -/
def bmClash (reg : BmRegistry) (c d : BmBridgeCfg) : Option String :=
  if d.name = c.name then
    some ("duplicate bridge name '" ++ String.ofList c.name ++ "'")
  else
    match reg.endpoints with
    | none => none
    | some endpoints =>
      if d.enabled ∧ c.enabled then
        (bmSharedEnd endpoints d c).map fun x =>
          "endpoint '" ++ String.ofList x ++ "' used by two enabled bridges"
      else none

/-- Does the registry know the row's translator? -/
def translatorKnown (reg : BmRegistry) (c : BmBridgeCfg) : Bool :=
  match reg.translators with
  | none => true
  | some list => c.translator = "raw".toList ∨ list.contains c.translator

/-- One round of `bm_validate_bridges`: the rows so far and the next one. -/
def bmValidateRow (reg : BmRegistry) (cfg : List BmBridgeCfg) (item : Json) :
    Except String (List BmBridgeCfg) :=
  if bridgeManagerMaxBridges ≤ cfg.length then .error "more than 6 bridges"
  else
    match bmParseBridge item with
    | none => .error ("bridges[" ++ toString cfg.length ++ "]: bad name/a/b")
    | some c =>
      if c.a = c.b then .error (String.ofList c.name ++ ": a and b are the same endpoint")
      else if ! translatorKnown reg c then
        .error (String.ofList c.name ++ ": unknown translator '" ++
          String.ofList c.translator ++ "'")
      else
        match cfg.findSome? (bmClash reg c) with
        | some e => .error e
        | none => .ok (cfg ++ [c])

/-- `bm_validate_bridges`: the rows it parsed, or the text of its error -/
def bmValidateBridges (reg : BmRegistry) (bridges : Json) : Except String (List BmBridgeCfg) :=
  bridges.children.foldlM (bmValidateRow reg) []

/-! ## The Bluetooth bridge -/

def bmBridgesUseEndpoint (bridges : Json) (endpoint : List Char) : Bool :=
  bridges.children.any fun item =>
    (item.getItem "a".toList).bind Json.asStr == some endpoint ||
      (item.getItem "b".toList).bind Json.asStr == some endpoint

/-- The row that `bm_bridges_add_ble_default` appends. -/
def bleDefaultRow : Json :=
  .obj [("name".toList, .str "br_ble_obd".toList), ("a".toList, .str "obd".toList),
    ("b".toList, .str "ble".toList), ("translator".toList, .str "raw".toList),
    ("enabled".toList, .bool true)]

/-- `bm_bridges_add_ble_default`: whether a row was added, and the array after it -/
def bmBridgesAddBleDefault : Json → Bool × Json
  | .arr items =>
    if bmBridgesUseEndpoint (.arr items) "ble".toList ∨
        bridgeManagerMaxBridges ≤ items.length then
      (false, .arr items)
    else (true, .arr (items ++ [bleDefaultRow]))
  | j => (false, j)

/-- The configuration that the row parses to. -/
def bleDefaultCfg : BmBridgeCfg where
  enabled := true
  name := "br_ble_obd".toList
  a := "obd".toList
  b := "ble".toList
  translator := "raw".toList

theorem bmParseBridge_bleDefaultRow : bmParseBridge bleDefaultRow = some bleDefaultCfg := by
  decide +kernel

/-! ## What an accepted list is -/

variable {reg : BmRegistry}

theorem copyName_eq_some {v : Option Json} {s : List Char} (h : copyName v = some s) :
    v.bind Json.asStr = some s :=
  (filter_eq_some_iff.mp h).1

theorem bmParseBridge_eq_some {c : BmBridgeCfg} (h : bmParseBridge item = some c) :
    (item.getItem "name".toList).bind Json.asStr = some c.name ∧
      (item.getItem "a".toList).bind Json.asStr = some c.a ∧
      (item.getItem "b".toList).bind Json.asStr = some c.b := by
  simp only [bmParseBridge, bind_eq_bind, bind_eq_some_iff] at h
  obtain ⟨name, hname, a, ha, b, hb, translator, -, hc⟩ := h
  cases hc
  exact ⟨copyName_eq_some hname, copyName_eq_some ha, copyName_eq_some hb⟩

/-- What a row must meet to be taken behind the rows before it. -/
structure RowTaken (reg : BmRegistry) (cfg : List BmBridgeCfg) (item : Json) (c : BmBridgeCfg) :
    Prop where
  room : cfg.length < bridgeManagerMaxBridges
  parsed : bmParseBridge item = some c
  ends : c.a ≠ c.b
  known : translatorKnown reg c = true
  clear : ∀ d ∈ cfg, bmClash reg c d = none

theorem bmValidateRow_eq_ok {cfg cfg' : List BmBridgeCfg} :
    bmValidateRow reg cfg item = .ok cfg' ↔ ∃ c, RowTaken reg cfg item c ∧ cfg' = cfg ++ [c] := by
  constructor
  · intro h
    unfold bmValidateRow at h
    split at h
    · cases h
    · rename_i hroom
      split at h
      · cases h
      · rename_i c hc
        split at h
        · cases h
        · rename_i hends
          split at h
          · cases h
          · rename_i hknown
            split at h
            · cases h
            · rename_i hclear
              cases h
              exact ⟨c, ⟨by omega, hc, hends, by simpa using hknown,
                List.findSome?_eq_none_iff.mp hclear⟩, rfl⟩
  · rintro ⟨c, ht, rfl⟩
    have hclear : cfg.findSome? (bmClash reg c) = none := List.findSome?_eq_none_iff.mpr ht.clear
    have hroom : ¬ bridgeManagerMaxBridges ≤ cfg.length := by have := ht.room; omega
    simp [bmValidateRow, hroom, ht.parsed, ht.ends, ht.known, hclear]

theorem foldlM_validateRow_parsed :
    ∀ {cfg cfg' : List BmBridgeCfg}, items.foldlM (bmValidateRow reg) cfg = .ok cfg' →
      ∃ more, cfg' = cfg ++ more ∧ items.map bmParseBridge = more.map some := by
  induction items with
  | nil =>
    intro cfg cfg' h
    cases h
    exact ⟨[], (append_nil _).symm, rfl⟩
  | cons item items ih =>
    intro cfg cfg' h
    rw [foldlM_cons] at h
    cases hrow : bmValidateRow reg cfg item with
    | error e => rw [hrow] at h; cases h
    | ok mid =>
      rw [hrow] at h
      obtain ⟨c, ht, rfl⟩ := bmValidateRow_eq_ok.mp hrow
      obtain ⟨more, rfl, hmore⟩ := ih h
      exact ⟨c :: more, by simp, by rw [map_cons, map_cons, ht.parsed, hmore]⟩

theorem bmValidateBridges_parsed {bridges : Json} {cfg : List BmBridgeCfg}
    (h : bmValidateBridges reg bridges = .ok cfg) :
    bridges.children.map bmParseBridge = cfg.map some := by
  obtain ⟨more, rfl, hmore⟩ := foldlM_validateRow_parsed h
  exact hmore

theorem exists_item {cfg : List BmBridgeCfg} (h : bmValidateBridges reg (.arr items) = .ok cfg)
    {d : BmBridgeCfg} (hd : d ∈ cfg) : ∃ item ∈ items, bmParseBridge item = some d := by
  have hmem : some d ∈ items.map bmParseBridge := by
    rw [show items.map bmParseBridge = cfg.map some from bmValidateBridges_parsed h]
    exact mem_map_of_mem hd
  exact mem_map.mp hmem

theorem exists_row {cfg : List BmBridgeCfg} (h : bmValidateBridges reg (.arr items) = .ok cfg)
    (hitem : item ∈ items) : ∃ d ∈ cfg, bmParseBridge item = some d := by
  have hmem : bmParseBridge item ∈ cfg.map some := by
    rw [← show items.map bmParseBridge = cfg.map some from bmValidateBridges_parsed h]
    exact mem_map_of_mem hitem
  obtain ⟨d, hd, heq⟩ := mem_map.mp hmem
  exact ⟨d, hd, heq.symm⟩

theorem bmValidateBridges_append {cfg : List BmBridgeCfg}
    (h : bmValidateBridges reg (.arr items) = .ok cfg) :
    bmValidateBridges reg (.arr (items ++ [item])) = bmValidateRow reg cfg item := by
  have hrun : items.foldlM (bmValidateRow reg) [] = .ok cfg := h
  show (items ++ [item]).foldlM (bmValidateRow reg) [] = _
  rw [foldlM_append, hrun]
  show bmValidateRow reg cfg item >>= pure = _
  exact bind_pure _

/-! ## The list after the migration -/

/-- `obd` fans out to every subscriber, where the registry is known. -/
def ObdMulti (reg : BmRegistry) : Prop :=
  ∀ endpoints, reg.endpoints = some endpoints → endpoints.lookup "obd".toList = some true

/-- Some row already has the name of the Bluetooth bridge. -/
def NameTaken (items : List Json) : Prop :=
  ∃ item ∈ items, (item.getItem "name".toList).bind Json.asStr = some bleDefaultCfg.name

theorem ends_ne_ble {cfg : List BmBridgeCfg}
    (hused : bmBridgesUseEndpoint (.arr items) "ble".toList = false)
    (h : bmValidateBridges reg (.arr items) = .ok cfg) {d : BmBridgeCfg} (hd : d ∈ cfg) :
    d.a ≠ "ble".toList ∧ d.b ≠ "ble".toList := by
  obtain ⟨item, hitem, hparse⟩ := exists_item h hd
  obtain ⟨-, ha, hb⟩ := bmParseBridge_eq_some hparse
  have hnot : ¬ ((item.getItem "a".toList).bind Json.asStr == some "ble".toList ||
      (item.getItem "b".toList).bind Json.asStr == some "ble".toList) = true :=
    any_eq_false.mp hused item hitem
  rw [ha, hb] at hnot
  constructor
  · intro heq
    exact hnot (by simp [heq])
  · intro heq
    exact hnot (by simp [heq])

theorem bmSharedEnd_bleDefaultCfg {endpoints : List (List Char × Bool)}
    (hobd : endpoints.lookup "obd".toList = some true) {d : BmBridgeCfg}
    (hends : d.a ≠ "ble".toList ∧ d.b ≠ "ble".toList) :
    bmSharedEnd endpoints d bleDefaultCfg = none := by
  rw [bmSharedEnd, List.find?_eq_none]
  intro x hx
  have hmulti : nameIsMulti "obd".toList endpoints = true := by rw [nameIsMulti, hobd]; rfl
  have hble : x ≠ "ble".toList := by
    rcases mem_pair.mp hx with rfl | rfl
    · exact hends.1
    · exact hends.2
  simp only [decide_eq_true_eq, not_and, not_not]
  rintro (rfl | rfl)
  · exact hmulti
  · exact absurd rfl hble

theorem bmClash_bleDefaultCfg (hobd : ObdMulti reg) {d : BmBridgeCfg}
    (hends : d.a ≠ "ble".toList ∧ d.b ≠ "ble".toList) :
    bmClash reg bleDefaultCfg d = none ↔ d.name ≠ bleDefaultCfg.name := by
  unfold bmClash
  split
  · rename_i hname
    simp [hname]
  · rename_i hname
    cases hep : reg.endpoints with
    | none => simp [hname]
    | some endpoints => simp [hname, bmSharedEnd_bleDefaultCfg (hobd endpoints hep) hends]

theorem rowTaken_bleDefaultRow (hobd : ObdMulti reg) {cfg : List BmBridgeCfg}
    (hused : bmBridgesUseEndpoint (.arr items) "ble".toList = false)
    (hroom : items.length < bridgeManagerMaxBridges)
    (h : bmValidateBridges reg (.arr items) = .ok cfg) :
    (∃ c, RowTaken reg cfg bleDefaultRow c) ↔ ¬ NameTaken items := by
  have hfree : (∀ d ∈ cfg, bmClash reg bleDefaultCfg d = none) ↔
      ∀ d ∈ cfg, d.name ≠ bleDefaultCfg.name :=
    forall₂_congr fun d hd => bmClash_bleDefaultCfg hobd (ends_ne_ble hused h hd)
  constructor
  · rintro ⟨c, ht⟩ ⟨item, hitem, hname⟩
    have hc : bleDefaultCfg = c := some.inj (bmParseBridge_bleDefaultRow.symm.trans ht.parsed)
    subst hc
    obtain ⟨d, hd, hparse⟩ := exists_row h hitem
    have hdname := (bmParseBridge_eq_some hparse).1
    exact hfree.mp ht.clear d hd (some.inj (hdname.symm.trans hname))
  · intro hname
    refine ⟨bleDefaultCfg, ⟨?_, bmParseBridge_bleDefaultRow, by decide, ?_, hfree.mpr ?_⟩⟩
    · have hlen := congrArg List.length (bmValidateBridges_parsed h)
      rw [length_map, length_map] at hlen
      exact hlen ▸ hroom
    · cases htr : reg.translators with
      | none => simp [translatorKnown, htr]
      | some list => simp [translatorKnown, htr, bleDefaultCfg]
    · intro d hd heq
      obtain ⟨item, hitem, hparse⟩ := exists_item h hd
      exact hname ⟨item, hitem, by rw [(bmParseBridge_eq_some hparse).1, heq]⟩

theorem bleDefaultRow_uses (items : List Json) :
    bmBridgesUseEndpoint (.arr (items ++ [bleDefaultRow])) "ble".toList = true := by
  have hrow : ((bleDefaultRow.getItem "a".toList).bind Json.asStr == some "ble".toList ||
      (bleDefaultRow.getItem "b".toList).bind Json.asStr == some "ble".toList) = true := by
    decide +kernel
  exact any_eq_true.mpr ⟨bleDefaultRow, by simp [Json.children], hrow⟩

theorem addBleDefault_again (items : List Json) :
    bmBridgesAddBleDefault (bmBridgesAddBleDefault (.arr items)).2 =
      (false, (bmBridgesAddBleDefault (.arr items)).2) := by
  by_cases hkeep : bmBridgesUseEndpoint (.arr items) "ble".toList ∨
      bridgeManagerMaxBridges ≤ items.length
  · simp only [bmBridgesAddBleDefault, if_pos hkeep]
  · simp only [bmBridgesAddBleDefault, if_neg hkeep, bleDefaultRow_uses, true_or, if_true]

/-- **An accepted list stays accepted exactly if it is left alone or its rows do not use
the new row's name.** -/
theorem addBleDefault_accepted (hobd : ObdMulti reg) {items : List Json} {cfg : List BmBridgeCfg}
    (h : bmValidateBridges reg (.arr items) = .ok cfg) :
    ((∃ cfg', bmValidateBridges reg (bmBridgesAddBleDefault (.arr items)).2 = .ok cfg') ∧
        (bmBridgesAddBleDefault (bmBridgesAddBleDefault (.arr items)).2).1 = false) ↔
      bmBridgesUseEndpoint (.arr items) "ble".toList = true ∨
        bridgeManagerMaxBridges ≤ items.length ∨ ¬ NameTaken items := by
  rw [addBleDefault_again]
  simp only [and_true]
  by_cases hkeep : bmBridgesUseEndpoint (.arr items) "ble".toList ∨
      bridgeManagerMaxBridges ≤ items.length
  · have hsame : (bmBridgesAddBleDefault (.arr items)).2 = .arr items := by
      simp only [bmBridgesAddBleDefault, if_pos hkeep]
    rw [hsame]
    exact ⟨fun _ => hkeep.imp_right Or.inl, fun _ => ⟨cfg, h⟩⟩
  · have hnew : (bmBridgesAddBleDefault (.arr items)).2 = .arr (items ++ [bleDefaultRow]) := by
      simp only [bmBridgesAddBleDefault, if_neg hkeep]
    obtain ⟨hused, hroom⟩ := not_or.mp hkeep
    have hiff := rowTaken_bleDefaultRow hobd (by simpa using hused) (by omega) h
    rw [hnew, bmValidateBridges_append h]
    constructor
    · rintro ⟨cfg', hcfg⟩
      obtain ⟨c, ht, -⟩ := bmValidateRow_eq_ok.mp hcfg
      exact Or.inr (Or.inr (hiff.mp ⟨c, ht⟩))
    · rintro (hu | hr | hname)
      · exact absurd hu hused
      · exact absurd hr hroom
      · obtain ⟨c, ht⟩ := hiff.mpr hname
        exact ⟨_, bmValidateRow_eq_ok.mpr ⟨c, ht, rfl⟩⟩

/-- A registry with the chip, a socket and the Bluetooth end. -/
def bmSampleRegistry : BmRegistry where
  endpoints := some [("obd".toList, true), ("tcp0".toList, false), ("ble".toList, false)]
  translators := some ["slcan".toList]

/-- One bridge of that name from the chip to the socket. -/
def bmSampleBridges (name : String) : List Json :=
  [.obj [("name".toList, .str name.toList), ("a".toList, .str "obd".toList),
    ("b".toList, .str "tcp0".toList)]]

theorem bmSampleRegistry_obdMulti : ObdMulti bmSampleRegistry := by
  rintro endpoints ⟨⟩
  rfl

/-- Under another name, the list stays accepted. -/
theorem addBleDefault_accepted_socket :
    ((∃ cfg', bmValidateBridges bmSampleRegistry
          (bmBridgesAddBleDefault (.arr (bmSampleBridges "br_tcp_obd"))).2 = .ok cfg') ∧
        (bmBridgesAddBleDefault
          (bmBridgesAddBleDefault (.arr (bmSampleBridges "br_tcp_obd"))).2).1 = false) := by
  have h : bmValidateBridges bmSampleRegistry (.arr (bmSampleBridges "br_tcp_obd")) =
      .ok [⟨false, "br_tcp_obd".toList, "obd".toList, "tcp0".toList, "raw".toList⟩] := by
    decide +kernel
  have hfree : ¬NameTaken (bmSampleBridges "br_tcp_obd") := by
    rw [NameTaken]
    decide +kernel
  exact (addBleDefault_accepted bmSampleRegistry_obdMulti h).mpr (.inr (.inr hfree))

/-- **A list that uses the name is accepted before the migration, and refused after it.** -/
theorem addBleDefault_duplicate :
    ObdMulti bmSampleRegistry ∧
      bmValidateBridges bmSampleRegistry (.arr (bmSampleBridges "br_ble_obd")) =
        .ok [⟨false, "br_ble_obd".toList, "obd".toList, "tcp0".toList, "raw".toList⟩] ∧
      bmValidateBridges bmSampleRegistry
          (bmBridgesAddBleDefault (.arr (bmSampleBridges "br_ble_obd"))).2 =
        .error "duplicate bridge name 'br_ble_obd'" :=
  ⟨bmSampleRegistry_obdMulti, by decide +kernel, by decide +kernel⟩

end Meatpi
