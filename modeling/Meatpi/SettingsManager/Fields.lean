import Meatpi.Library.Text
import Meatpi.SettingsManager.Schema

/-!
# Field tables (`settings_manager_fields.c`)

A component writes its settings as a table, one row a field, and the manager makes the
schema from it. The defaults of that schema are what a boot falls back to. The generator
checks the table and the largest count of an array's default, and no other bound of a
default: whether the defaults pass the schema is up to the table
(`smSchemaFromFields_defaults`).
-/

namespace Meatpi

open Except List Option

variable {text : List UInt8} {object : Members} {acc : Members × List Json}

/-! ## The table -/

inductive SettingsFieldType where
  | string
  | int
  | bool
  | array
  deriving DecidableEq

structure SettingsField where
  key : Option (List Char)
  type : SettingsFieldType
  min : ℤ
  max : ℤ
  enumCsv : Option (List Char)
  defStr : Option (List Char)
  defInt : ℤ
  defBool : Bool
  required : Bool
  fmt : Option (List Char)
  items : Option (List SettingsField)
  defJson : Option (List UInt8)

/-! ## The generator -/

/-- The pieces of `enum_csv`, read from its front; `piece` is what is read of one. -/
def enumPieces (piece : List Char) : List Char → Option (List (List Char))
  | [] => if piece = [] then some [] else some [piece]
  | c :: csv =>
    if c = ',' then
      if piece = [] then none else (enumPieces [] csv).map (piece :: ·)
    else
      enumPieces (piece ++ [c]) csv

/-- `add_enum`: the options. -/
def addEnum (csv : List Char) : Except SmErr (List (List Char)) :=
  match enumPieces [] csv with
  | none => .error .invalidArg
  | some [] => .error .invalidArg
  | some pieces => .ok pieces

/-- A member that is there or not. -/
def memberIf (there : Bool) (key : String) (value : Json) : Members :=
  if there then [(key.toList, value)] else []

/-- A string row. -/
def stringProp (f : SettingsField) : Except SmErr Members :=
  let prop (options : Members) : Members :=
    [("type".toList, .str "string".toList)] ++
      memberIf (decide (0 < f.min)) "minLength" (.num f.min) ++
      memberIf (decide (0 < f.max)) "maxLength" (.num f.max) ++ options ++
      [("default".toList, .str (f.defStr.getD []))] ++
      memberIf f.fmt.isSome "format" (.str (f.fmt.getD []))
  match f.enumCsv with
  | none => .ok (prop [])
  | some csv =>
    (addEnum csv).map fun pieces => prop [("enum".toList, .arr (pieces.map Json.str))]

/-- An integer row. -/
def intProp (f : SettingsField) : Members :=
  [("type".toList, .str "integer".toList)] ++
    memberIf (!(decide (f.min = 0) && decide (f.max = 0))) "minimum" (.num f.min) ++
    memberIf (!(decide (f.min = 0) && decide (f.max = 0))) "maximum" (.num f.max) ++
    [("default".toList, .num f.defInt)]

/-- A truth row. -/
def boolProp (f : SettingsField) : Members :=
  [("type".toList, .str "boolean".toList), ("default".toList, .bool f.defBool)]

/-- The property of a row; `addArray` is for the rows of a document, and `none` for those
of an array's items. -/
def fieldProp (addArray : Option (SettingsField → Except SmErr Members)) (f : SettingsField) :
    Except SmErr Members :=
  match f.type with
  | .string => stringProp f
  | .int => .ok (intProp f)
  | .bool => .ok (boolProp f)
  | .array =>
    match addArray with
    | none => .error .invalidArg
    | some addArray => (addArray f).map fun prop => ("type".toList, .str "array".toList) :: prop

def addField (addArray : Option (SettingsField → Except SmErr Members))
    (acc : Members × List Json) (f : SettingsField) : Except SmErr (Members × List Json) :=
  match f.key with
  | none => .error .invalidArg
  | some key =>
    if key = [] ∨ (acc.1.lookup key).isSome then
      .error .invalidArg
    else if f.enumCsv.isSome ∧ f.type ≠ .string then
      .error .invalidArg
    else if f.type ≠ .array ∧ (f.items.isSome ∨ f.defJson.isSome) then
      .error .invalidArg
    else
      (fieldProp addArray f).map fun prop =>
        (acc.1 ++ [(key, .obj prop)], acc.2 ++ if f.required then [.str key] else [])

/-- `add_object_fields`: the members that the node gets. -/
def addObjectFields (addArray : Option (SettingsField → Except SmErr Members))
    (fields : List SettingsField) : Except SmErr Members :=
  if fields = [] then
    .error .invalidArg
  else
    (fields.foldlM (addField addArray) ([], [])).map fun acc =>
      ("properties".toList, .obj acc.1) ::
        memberIf (!acc.2.isEmpty) "required" (.arr acc.2)

def smFieldsArrayMax : ℤ := 16

variable (cj : JsonCodec)

/-- The default of an array row. -/
def arrayDefault (f : SettingsField) : Option Json :=
  match f.defJson with
  | some text => cj.parse text
  | none => some (.arr [])

/-- The members of an array's `items` after its type. -/
def itemsObject (f : SettingsField) : Except SmErr Members :=
  match f.items with
  | none => .ok []
  | some rows => addObjectFields none rows

def addArray (f : SettingsField) : Except SmErr Members :=
  if f.max < 1 ∨ smFieldsArrayMax < f.max then
    .error .invalidArg
  else
    match itemsObject f with
    | .error err => .error err
    | .ok object =>
      match arrayDefault cj f with
      | some (.arr elements) =>
        if f.max < elements.length then
          .error .invalidArg
        else
          .ok (memberIf (decide (0 < f.min)) "minItems" (.num f.min) ++
            [("maxItems".toList, .num f.max),
              ("items".toList, .obj (("type".toList, .str "object".toList) :: object)),
              ("default".toList, .arr elements)])
      | _ => .error .invalidArg

def smSchemaFromFields (fields : List SettingsField) : Except SmErr (List UInt8) :=
  if fields = [] then
    .error .invalidArg
  else
    (addObjectFields (some (addArray cj)) fields).map fun object =>
      cj.print (.obj (("type".toList, .str "object".toList) :: object))

/-! ## What a row asks of a value -/

/-- The key of a row. -/
def SettingsField.name (f : SettingsField) : List Char := f.key.getD []

/-- The default of a row. -/
def SettingsField.default (f : SettingsField) : Json :=
  match f.type with
  | .string => .str (f.defStr.getD [])
  | .int => .num f.defInt
  | .bool => .bool f.defBool
  | .array => (arrayDefault cj f).getD (.arr [])

/-- A value within what a string, integer or truth row says. -/
def SettingsField.HoldsScalar (f : SettingsField) (value : Json) : Prop :=
  match f.type with
  | .string => ∃ s, value = .str s ∧ (0 < f.min → f.min ≤ strlen s) ∧
      (0 < f.max → strlen s ≤ f.max) ∧
      ∀ csv, f.enumCsv = some csv → ∃ pieces, addEnum csv = .ok pieces ∧ s ∈ pieces
  | .int => ∃ q, value = .num q ∧ q.den = 1 ∧
      (f.min = 0 ∧ f.max = 0 ∨ (f.min : ℚ) ≤ q ∧ q ≤ f.max)
  | .bool => ∃ b, value = .bool b
  | .array => False

/-- An object within what the rows of a table say. -/
structure RowsHold (rows : List SettingsField) (members : Members) : Prop where
  required : ∀ r ∈ rows, r.required = true → (members.lookup r.name).isSome = true
  described : ∀ r ∈ rows, ∀ m ∈ members, m.1 = r.name → r.HoldsScalar m.2

/-- A value within what a row says: for an array its bounds, and each element an object
within what the rows of the items say. -/
def SettingsField.Holds (f : SettingsField) (value : Json) : Prop :=
  match f.type with
  | .array => ∃ elements, value = .arr elements ∧ (0 < f.min → f.min ≤ elements.length) ∧
      elements.length ≤ f.max ∧
      ∀ element ∈ elements, ∃ members, element = .obj members ∧
        ∀ rows, f.items = some rows → RowsHold rows members
  | _ => f.HoldsScalar value

/-! ## The members of a property -/

theorem lookup_memberIf (there : Bool) (key key' : String) (value : Json) :
    (memberIf there key value).lookup key'.toList =
      if there ∧ key' = key then some value else none := by
  cases there with
  | false => simp [memberIf]
  | true =>
    by_cases hkey : key' = key
    · simp [memberIf, hkey]
    · have hne : (key'.toList == key.toList) = false := by
        rw [beq_eq_false_iff_ne]
        intro h
        exact hkey (String.toList_inj.mp h)
      simp [memberIf, lookup_cons, hne, hkey]

theorem numSize_intCast (z : ℤ) : numSize (z : ℚ) = z.toNat := by
  rw [numSize, Rat.num_intCast, Rat.den_intCast, Nat.div_one]

variable {cj} {compare : Json → Json → Bool} {fileExists : Option (List Char → Bool)}

section

variable {f : SettingsField} {prop : Members}

theorem stringProp_eq (h : stringProp f = .ok prop) :
    ∃ there options, prop = memberIf true "type" (.str "string".toList) ++
        memberIf (decide (0 < f.min)) "minLength" (.num f.min) ++
        memberIf (decide (0 < f.max)) "maxLength" (.num f.max) ++
        memberIf there "enum" (.arr options) ++
        memberIf true "default" (.str (f.defStr.getD [])) ++
        memberIf f.fmt.isSome "format" (.str (f.fmt.getD [])) ∧
      (there = true ∧ (∃ csv pieces, f.enumCsv = some csv ∧ addEnum csv = .ok pieces ∧
          options = pieces.map Json.str) ∨ there = false ∧ f.enumCsv = none) := by
  rw [stringProp] at h
  cases hcsv : f.enumCsv with
  | none =>
    rw [hcsv] at h
    exact ⟨false, [], (ok.inj h).symm, .inr ⟨rfl, rfl⟩⟩
  | some csv =>
    rw [hcsv] at h
    dsimp only at h
    cases hadd : addEnum csv with
    | error err =>
      rw [hadd] at h
      cases h
    | ok pieces =>
      rw [hadd] at h
      exact ⟨true, pieces.map Json.str, (ok.inj h).symm, .inl ⟨rfl, csv, pieces, rfl, hadd, rfl⟩⟩

theorem stringProp_members (h : stringProp f = .ok prop) :
    (Json.obj prop).getItem "type".toList = some (.str "string".toList) ∧
      (Json.obj prop).getNumber "minLength".toList =
        (if 0 < f.min then some (f.min : ℚ) else none) ∧
      (Json.obj prop).getNumber "maxLength".toList =
        (if 0 < f.max then some (f.max : ℚ) else none) ∧
      (Json.obj prop).getItem "default".toList = some (.str (f.defStr.getD [])) ∧
      (∀ options, (Json.obj prop).getItem "enum".toList = some (.arr options) ↔
        ∃ csv pieces, f.enumCsv = some csv ∧ addEnum csv = .ok pieces ∧
          options = pieces.map Json.str) := by
  obtain ⟨there, options, rfl, hoptions⟩ := stringProp_eq h
  refine ⟨?_, ?_, ?_, ?_, ?_⟩
  · simp only [Json.getItem, lookup_append, lookup_memberIf]
    simp
  · simp only [Json.getNumber, Json.getItem, lookup_append, lookup_memberIf]
    by_cases hmin : 0 < f.min <;> simp [hmin]
  · simp only [Json.getNumber, Json.getItem, lookup_append, lookup_memberIf]
    by_cases hmax : 0 < f.max <;> simp [hmax]
  · simp only [Json.getItem, lookup_append, lookup_memberIf]
    simp
  · intro options'
    simp only [Json.getItem, lookup_append, lookup_memberIf]
    rcases hoptions with ⟨rfl, csv, pieces, hcsv, hadd, rfl⟩ | ⟨rfl, hcsv⟩
    · simp [hcsv, hadd]
      exact eq_comm
    · simp [hcsv]

theorem intProp_members (f : SettingsField) :
    (Json.obj (intProp f)).getItem "type".toList = some (.str "integer".toList) ∧
      (Json.obj (intProp f)).getNumber "minimum".toList =
        (if f.min = 0 ∧ f.max = 0 then none else some (f.min : ℚ)) ∧
      (Json.obj (intProp f)).getNumber "maximum".toList =
        (if f.min = 0 ∧ f.max = 0 then none else some (f.max : ℚ)) ∧
      (Json.obj (intProp f)).getItem "default".toList = some (.num f.defInt) ∧
      (Json.obj (intProp f)).getItem "enum".toList = none := by
  have hshape : intProp f = memberIf true "type" (.str "integer".toList) ++
      memberIf (!(decide (f.min = 0) && decide (f.max = 0))) "minimum" (.num f.min) ++
      memberIf (!(decide (f.min = 0) && decide (f.max = 0))) "maximum" (.num f.max) ++
      memberIf true "default" (.num f.defInt) := rfl
  rw [hshape]
  simp only [Json.getNumber, Json.getItem, lookup_append, lookup_memberIf]
  by_cases hnone : f.min = 0 ∧ f.max = 0
  · simp [hnone]
  · have hsome : (decide (f.min = 0) && decide (f.max = 0)) = false := by
      simpa using hnone
    simp [hnone, hsome]

end

/-! ## What the validator makes of a row -/

/-- `cJSON_Compare` of two strings. -/
def ComparesStrings (compare : Json → Json → Bool) : Prop :=
  ∀ s t, compare (.str s) (.str t) = true ↔ s = t

/-- Every file is there, or nobody looks. -/
def FilesThere (fileExists : Option (List Char → Bool)) : Prop :=
  ∀ exist : List Char → Bool, fileExists = some exist → ∀ name, exist name = true

section

variable {f : SettingsField} {prop : Members} {key : SmKey} {value : Json}

theorem check_stringProp (hcompare : ComparesStrings compare) (hfiles : FilesThere fileExists)
    (h : stringProp f = .ok prop) (htype : f.type = .string) :
    checkProperty compare fileExists key (.obj prop) value = .ok () ↔ f.HoldsScalar value := by
  obtain ⟨hprop, hmin, hmax, _, henum⟩ := stringProp_members h
  rw [checkProperty_string hprop, checkEnum_ok, checkString_ok, SettingsField.HoldsScalar, htype,
    hmin, hmax]
  constructor
  · rintro ⟨hopts, s, rfl, hlo, hhi, _⟩
    refine ⟨s, rfl, fun hpos => ?_, fun hpos => ?_, fun csv hcsv => ?_⟩
    · have hle := hlo f.min (if_pos hpos)
      rw [numSize_intCast] at hle
      omega
    · have hle := hhi f.max (if_pos hpos)
      rw [numSize_intCast] at hle
      omega
    · obtain ⟨_, _, _, hoptions⟩ := stringProp_eq h
      rcases hoptions with ⟨_, csv', pieces, hf, hadd, _⟩ | ⟨_, hf⟩
      · obtain rfl := some.inj (hcsv.symm.trans hf)
        obtain ⟨opt, hopt, heq⟩ := hopts _ ((henum _).mpr ⟨csv, pieces, hcsv, hadd, rfl⟩)
        obtain ⟨t, ht, rfl⟩ := mem_map.mp hopt
        obtain rfl := (hcompare t s).mp heq
        exact ⟨pieces, hadd, ht⟩
      · rw [hcsv] at hf
        cases hf
  · rintro ⟨s, rfl, hlo, hhi, hcsv⟩
    refine ⟨fun options hoptions => ?_, s, rfl, fun n hn => ?_, fun n hn => ?_,
      checkFormat_ok fun exist hexist => hfiles exist hexist s⟩
    · obtain ⟨csv, pieces, hf, hadd, rfl⟩ := (henum options).mp hoptions
      obtain ⟨pieces', hadd', hmem⟩ := hcsv csv hf
      rw [hadd] at hadd'
      obtain rfl := ok.inj hadd'
      exact ⟨.str s, List.mem_map_of_mem hmem, (hcompare s s).mpr rfl⟩
    · rw [ite_none_right_eq_some] at hn
      obtain ⟨hpos, hn⟩ := hn
      obtain rfl := some.inj hn
      rw [numSize_intCast]
      omega
    · rw [ite_none_right_eq_some] at hn
      obtain ⟨hpos, hn⟩ := hn
      obtain rfl := some.inj hn
      rw [numSize_intCast]
      omega

theorem check_intProp (htype : f.type = .int) :
    checkProperty compare fileExists key (.obj (intProp f)) value = .ok () ↔
      f.HoldsScalar value := by
  obtain ⟨hprop, hmin, hmax, _, henum⟩ := intProp_members f
  rw [checkProperty_integer hprop, checkEnum_ok, checkNumber_ok, SettingsField.HoldsScalar, htype,
    hmin, hmax, henum]
  by_cases hnone : f.min = 0 ∧ f.max = 0
  · simp only [if_pos hnone]
    constructor
    · rintro ⟨_, q, rfl, hq, _⟩
      exact ⟨q, rfl, hq, .inl hnone⟩
    · rintro ⟨q, rfl, hq, _⟩
      exact ⟨fun _ h => (by cases h), q, rfl, hq, fun _ h => (by cases h), fun _ h => (by cases h)⟩
  · simp only [if_neg hnone]
    constructor
    · rintro ⟨_, q, rfl, hq, hlo, hhi⟩
      exact ⟨q, rfl, hq, .inr ⟨hlo _ rfl, hhi _ rfl⟩⟩
    · rintro ⟨q, rfl, hq, hbounds⟩
      obtain ⟨hlo, hhi⟩ := hbounds.resolve_left hnone
      refine ⟨fun _ h => (by cases h), q, rfl, hq, ?_, ?_⟩
      · rintro _ ⟨⟩
        exact hlo
      · rintro _ ⟨⟩
        exact hhi

theorem check_boolProp (htype : f.type = .bool) :
    checkProperty compare fileExists key (.obj (boolProp f)) value = .ok () ↔
      f.HoldsScalar value := by
  rw [checkProperty_boolean rfl, checkEnum_ok, SettingsField.HoldsScalar, htype]
  constructor
  · rintro ⟨_, hbool⟩
    cases value with
    | bool b => exact ⟨b, rfl⟩
    | _ => cases hbool
  · rintro ⟨b, rfl⟩
    exact ⟨fun _ h => (by cases h), rfl⟩

/-- **A scalar row**: the validator asks of a value what the row says. -/
theorem check_scalar {addArray : Option (SettingsField → Except SmErr Members)}
    (hcompare : ComparesStrings compare) (hfiles : FilesThere fileExists)
    (h : fieldProp addArray f = .ok prop) (hscalar : f.type ≠ .array) :
    checkProperty compare fileExists key (.obj prop) value = .ok () ↔ f.HoldsScalar value := by
  rw [fieldProp.eq_def] at h
  cases htype : f.type with
  | string =>
    rw [htype] at h
    exact check_stringProp hcompare hfiles h htype
  | int =>
    rw [htype] at h
    obtain rfl := ok.inj h
    exact check_intProp htype
  | bool =>
    rw [htype] at h
    obtain rfl := ok.inj h
    exact check_boolProp htype
  | array => exact absurd htype hscalar

end

/-! ## A table's object -/

/-- The property that is made of a row. -/
def rowProp (addArray : Option (SettingsField → Except SmErr Members)) (f : SettingsField) :
    Members :=
  match fieldProp addArray f with
  | .ok prop => prop
  | .error _ => []

/-- What the rows of a table have come to. -/
structure RowsMade (addArray : Option (SettingsField → Except SmErr Members))
    (rows : List SettingsField) (acc : Members × List Json) : Prop where
  keyed : ∀ f ∈ rows, f.key = some f.name
  made : ∀ f ∈ rows, fieldProp addArray f = .ok (rowProp addArray f)
  properties : acc.1 = rows.map fun f => (f.name, .obj (rowProp addArray f))
  distinct : (rows.map SettingsField.name).Nodup
  required : acc.2 = (rows.filter SettingsField.required).map fun f => .str f.name

section

variable {addArray : Option (SettingsField → Except SmErr Members)}

theorem addField_ok {acc' : Members × List Json} {f : SettingsField}
    (h : addField addArray acc f = .ok acc') :
    f.key = some f.name ∧ acc.1.lookup f.name = none ∧
      fieldProp addArray f = .ok (rowProp addArray f) ∧
      acc' = (acc.1 ++ [(f.name, .obj (rowProp addArray f))],
        acc.2 ++ if f.required then [.str f.name] else []) := by
  rw [addField] at h
  cases hkey : f.key with
  | none =>
    rw [hkey] at h
    cases h
  | some key =>
    have hname : f.name = key := by
      rw [SettingsField.name, hkey]
      rfl
    rw [hkey] at h
    dsimp only at h
    by_cases hdup : key = [] ∨ (acc.1.lookup key).isSome = true
    · rw [if_pos hdup] at h
      cases h
    by_cases henum : f.enumCsv.isSome = true ∧ f.type ≠ .string
    · rw [if_neg hdup, if_pos henum] at h
      cases h
    by_cases hitems : f.type ≠ .array ∧ (f.items.isSome = true ∨ f.defJson.isSome = true)
    · rw [if_neg hdup, if_neg henum, if_pos hitems] at h
      cases h
    rw [if_neg hdup, if_neg henum, if_neg hitems] at h
    rw [rowProp]
    cases hprop : fieldProp addArray f with
    | error err =>
      rw [hprop] at h
      cases h
    | ok prop =>
      rw [hprop] at h
      obtain rfl := ok.inj h
      rw [not_or, Bool.not_eq_true, isSome_eq_false_iff, isNone_iff_eq_none] at hdup
      rw [hname]
      exact ⟨rfl, hdup.2, rfl, rfl⟩

/-- **The rows of a table that is accepted.** -/
theorem rowsMade {rows : List SettingsField}
    (h : rows.foldlM (addField addArray) ([], []) = .ok acc) : RowsMade addArray rows acc := by
  induction rows using List.reverseRecOn generalizing acc with
  | nil =>
    obtain rfl := ok.inj h
    refine ⟨?_, ?_, rfl, nodup_nil, rfl⟩
    · intro f hf
      cases hf
    · intro f hf
      cases hf
  | append_singleton rows f ih =>
    rw [foldlM_append] at h
    cases hrows : rows.foldlM (addField addArray) ([], []) with
    | error err =>
      rw [hrows] at h
      cases h
    | ok before =>
      have hlast : addField addArray before f = .ok acc := by
        rw [hrows] at h
        change (addField addArray before f >>= fun s => pure s) = .ok acc at h
        rwa [bind_pure] at h
      have hbefore := ih hrows
      obtain ⟨hkey, hnew, hprop, rfl⟩ := addField_ok hlast
      refine ⟨?_, ?_, ?_, ?_, ?_⟩
      · intro g hg
        rcases mem_append.mp hg with hg | hg
        · exact hbefore.keyed g hg
        · obtain rfl := mem_singleton.mp hg
          exact hkey
      · intro g hg
        rcases mem_append.mp hg with hg | hg
        · exact hbefore.made g hg
        · obtain rfl := mem_singleton.mp hg
          exact hprop
      · rw [hbefore.properties, map_append]
        rfl
      · rw [map_append, map_singleton]
        refine hbefore.distinct.append (nodup_singleton _) ?_
        rw [disjoint_singleton]
        intro hmem
        obtain ⟨g, hg, hname⟩ := mem_map.mp hmem
        rw [hbefore.properties, lookup_eq_none_iff] at hnew
        have hne := hnew _ (List.mem_map_of_mem hg)
        rw [hname, bne_self_eq_false] at hne
        cases hne
      · rw [hbefore.required, filter_append, map_append, filter_singleton]
        cases f.required <;> rfl

theorem RowsMade.lookup {rows : List SettingsField} (h : RowsMade addArray rows acc)
    {r : SettingsField} (hr : r ∈ rows) :
    acc.1.lookup r.name = some (.obj (rowProp addArray r)) := by
  have hdistinct : (acc.1.map Prod.fst).Nodup := by
    rw [h.properties, List.map_map]
    exact h.distinct
  have hmem : (r.name, Json.obj (rowProp addArray r)) ∈ acc.1 := by
    rw [h.properties]
    exact List.mem_map_of_mem hr
  exact lookup_of_nodup hdistinct _ hmem

theorem RowsMade.of_lookup {rows : List SettingsField} (h : RowsMade addArray rows acc)
    {key : List Char} {prop : Json} (hprop : acc.1.lookup key = some prop) :
    ∃ r ∈ rows, r.name = key ∧ prop = .obj (rowProp addArray r) := by
  obtain ⟨before, after, hsplit, _⟩ := lookup_eq_some_iff.mp hprop
  have hmem : (key, prop) ∈ acc.1 := by
    rw [hsplit]
    exact mem_append_right _ mem_cons_self
  rw [h.properties] at hmem
  obtain ⟨r, hr, heq⟩ := mem_map.mp hmem
  exact ⟨r, hr, congrArg Prod.fst heq, (congrArg Prod.snd heq).symm⟩

theorem RowsMade.check {rows : List SettingsField} (h : RowsMade addArray rows acc)
    (members : Members) (type : Json) :
    checkObjectNode compare fileExists
        (.obj (("type".toList, type) :: ("properties".toList, .obj acc.1) ::
          memberIf (!acc.2.isEmpty) "required" (.arr acc.2))) members = .ok () ↔
      (∀ r ∈ rows, r.required = true → (members.lookup r.name).isSome = true) ∧
        ∀ r ∈ rows, ∀ m ∈ members, m.1 = r.name →
          checkProperty compare fileExists (.key m.1) (.obj (rowProp addArray r)) m.2 = .ok () := by
  have hreq : ∀ required, (Json.obj (("type".toList, type) :: ("properties".toList, .obj acc.1) ::
      memberIf (!acc.2.isEmpty) "required" (.arr acc.2))).getItem "required".toList =
      some (.arr required) ↔ acc.2 ≠ [] ∧ acc.2 = required := by
    intro required
    change (memberIf true "type" type ++ (memberIf true "properties" (.obj acc.1) ++
      memberIf (!acc.2.isEmpty) "required" (.arr acc.2))).lookup "required".toList = _ ↔ _
    simp only [lookup_append, lookup_memberIf]
    simp
  rw [checkObjectNode_ok]
  refine and_congr ?_ ?_
  · constructor
    · intro hall r hr hrequired
      have hmem : .str r.name ∈ acc.2 := by
        rw [h.required]
        exact mem_map.mpr ⟨r, mem_filter.mpr ⟨hr, hrequired⟩, rfl⟩
      exact hall acc.2 ((hreq acc.2).mpr ⟨ne_nil_of_mem hmem, rfl⟩) r.name hmem
    · intro hall required hrequired key hkey
      obtain ⟨_, rfl⟩ := (hreq required).mp hrequired
      rw [h.required] at hkey
      obtain ⟨r, hr, heq⟩ := mem_map.mp hkey
      obtain ⟨hmem, hflag⟩ := mem_filter.mp hr
      obtain rfl := Json.str.inj heq
      exact hall r hmem hflag
  · constructor
    · intro hall r hr m hm hkey
      refine hall acc.1 rfl m hm _ ?_
      rw [hkey]
      exact h.lookup hr
    · rintro hall _ ⟨⟩ m hm prop hprop
      obtain ⟨r, hr, hname, rfl⟩ := h.of_lookup hprop
      exact hall r hr m hm hname.symm

theorem addObjectFields_ok {rows : List SettingsField}
    (h : addObjectFields addArray rows = .ok object) :
    ∃ acc, RowsMade addArray rows acc ∧ object = ("properties".toList, .obj acc.1) ::
      memberIf (!acc.2.isEmpty) "required" (.arr acc.2) := by
  rw [addObjectFields] at h
  by_cases hempty : rows = []
  · rw [if_pos hempty] at h
    cases h
  · rw [if_neg hempty] at h
    cases hfold : rows.foldlM (addField addArray) ([], []) with
    | error err =>
      rw [hfold] at h
      cases h
    | ok acc =>
      rw [hfold] at h
      exact ⟨acc, rowsMade hfold, (ok.inj h).symm⟩

end

/-! ## An array's row -/

section

variable {f : SettingsField} {key : SmKey} {value : Json}

theorem check_itemsObject (hcompare : ComparesStrings compare) (hfiles : FilesThere fileExists)
    {members : Members} (h : itemsObject f = .ok object) :
    checkObjectNode compare fileExists (.obj (("type".toList, .str "object".toList) :: object))
        members = .ok () ↔ ∀ rows, f.items = some rows → RowsHold rows members := by
  rw [itemsObject] at h
  cases hitems : f.items with
  | none =>
    rw [hitems] at h
    obtain rfl := ok.inj h
    rw [checkObjectNode_ok]
    constructor
    · intro _ rows hrows
      cases hrows
    · intro _
      exact ⟨fun _ h => (by cases h), fun _ h => (by cases h)⟩
  | some rows =>
    rw [hitems] at h
    obtain ⟨acc, hmade, rfl⟩ := addObjectFields_ok h
    rw [hmade.check]
    have hscalar : ∀ r ∈ rows, r.type ≠ .array := by
      intro r hr htype
      have hprop := hmade.made r hr
      rw [fieldProp.eq_def, htype] at hprop
      cases hprop
    have hrow : ∀ r ∈ rows, ∀ m : List Char × Json,
        checkProperty compare fileExists (.key m.1) (.obj (rowProp none r)) m.2 = .ok () ↔
          r.HoldsScalar m.2 := by
      intro r hr m
      exact check_scalar hcompare hfiles (hmade.made r hr) (hscalar r hr)
    constructor
    · rintro ⟨hreq, hdesc⟩ _ ⟨⟩
      exact ⟨hreq, fun r hr m hm hkey => (hrow r hr m).mp (hdesc r hr m hm hkey)⟩
    · intro hall
      obtain ⟨hreq, hdesc⟩ := hall rows rfl
      exact ⟨hreq, fun r hr m hm hkey => (hrow r hr m).mpr (hdesc r hr m hm hkey)⟩

theorem addArray_ok {prop : Members} (h : addArray cj f = .ok prop) :
    (1 ≤ f.max ∧ f.max ≤ smFieldsArrayMax) ∧
      ∃ object elements, itemsObject f = .ok object ∧ arrayDefault cj f = some (.arr elements) ∧
        elements.length ≤ f.max ∧
        prop = memberIf (decide (0 < f.min)) "minItems" (.num f.min) ++
          [("maxItems".toList, .num f.max),
            ("items".toList, .obj (("type".toList, .str "object".toList) :: object)),
            ("default".toList, .arr elements)] := by
  rw [addArray] at h
  by_cases hmax : f.max < 1 ∨ smFieldsArrayMax < f.max
  · rw [if_pos hmax] at h
    cases h
  rw [if_neg hmax] at h
  cases hobject : itemsObject f with
  | error err =>
    rw [hobject] at h
    cases h
  | ok object =>
    rw [hobject] at h
    dsimp only at h
    split at h
    · rename_i elements helements
      by_cases hlen : f.max < elements.length
      · rw [if_pos hlen] at h
        cases h
      · rw [if_neg hlen] at h
        exact ⟨by omega, object, elements, rfl, helements, by omega, (ok.inj h).symm⟩
    · cases h

/-- The property of an array's row. -/
def arrayProp (f : SettingsField) (object : Members) (elements : List Json) : Members :=
  memberIf true "type" (.str "array".toList) ++
    (memberIf (decide (0 < f.min)) "minItems" (.num f.min) ++
      (memberIf true "maxItems" (.num f.max) ++
        (memberIf true "items" (.obj (("type".toList, .str "object".toList) :: object)) ++
          memberIf true "default" (.arr elements))))

theorem arrayProp_members (f : SettingsField) (object : Members) (elements : List Json) :
    (Json.obj (arrayProp f object elements)).getItem "type".toList = some (.str "array".toList) ∧
      (Json.obj (arrayProp f object elements)).getNumber "minItems".toList =
        (if 0 < f.min then some (f.min : ℚ) else none) ∧
      (Json.obj (arrayProp f object elements)).getNumber "maxItems".toList = some (f.max : ℚ) ∧
      (Json.obj (arrayProp f object elements)).getItem "items".toList =
        some (.obj (("type".toList, .str "object".toList) :: object)) ∧
      (Json.obj (arrayProp f object elements)).getItem "default".toList = some (.arr elements) ∧
      (Json.obj (arrayProp f object elements)).getItem "enum".toList = none := by
  rw [arrayProp]
  simp only [Json.getNumber, Json.getItem, lookup_append, lookup_memberIf]
  by_cases hmin : 0 < f.min <;> simp [hmin]

theorem check_arrayCount {elements : List Json} {count : ℕ} (hlow : 1 ≤ f.max)
    (hhigh : f.max ≤ smFieldsArrayMax) :
    checkCount key (.obj (arrayProp f object elements)) count = .ok () ↔
      (0 < f.min → f.min ≤ count) ∧ count ≤ f.max := by
  obtain ⟨_, hmin, hmax, _⟩ := arrayProp_members f object elements
  rw [checkCount_ok, hmin, hmax]
  constructor
  · rintro ⟨_, ⟨⟩, _, hle, hge⟩
    rw [numSize_intCast] at hle
    refine ⟨fun hpos => ?_, by omega⟩
    have hcount := hge f.min (if_pos hpos)
    rw [numSize_intCast] at hcount
    omega
  · rintro ⟨hge, hle⟩
    refine ⟨f.max, rfl, ⟨by exact_mod_cast hlow, ?_⟩, ?_, ?_⟩
    · exact_mod_cast hhigh
    · rw [numSize_intCast]
      omega
    · intro k hk
      rw [ite_none_right_eq_some] at hk
      obtain ⟨hpos, hk⟩ := hk
      obtain rfl := some.inj hk
      rw [numSize_intCast]
      omega

/-- **An array's row**: the validator asks of a value what the row says. -/
theorem check_addArray (hcompare : ComparesStrings compare) (hfiles : FilesThere fileExists)
    {prop : Members} (h : addArray cj f = .ok prop) (htype : f.type = .array) :
    checkProperty compare fileExists key (.obj (("type".toList, .str "array".toList) :: prop))
        value = .ok () ↔ f.Holds value := by
  obtain ⟨⟨hlow, hhigh⟩, object, elements, hobject, _, _, rfl⟩ := addArray_ok h
  change checkProperty compare fileExists key (.obj (arrayProp f object elements)) value =
    .ok () ↔ _
  obtain ⟨hprop, _, _, hitems, _, henum⟩ := arrayProp_members f object elements
  rw [checkProperty_array hprop hitems rfl, checkEnum_ok, henum, SettingsField.Holds, htype]
  constructor
  · rintro ⟨_, elements', rfl, hcount, helems⟩
    obtain ⟨hge, hle⟩ := (check_arrayCount hlow hhigh).mp hcount
    refine ⟨elements', rfl, hge, hle, fun element helement => ?_⟩
    obtain ⟨members, rfl, hcheck⟩ := helems element helement
    exact ⟨members, rfl, (check_itemsObject hcompare hfiles hobject).mp hcheck⟩
  · rintro ⟨elements', rfl, hge, hle, helems⟩
    refine ⟨fun _ h => (by cases h), elements', rfl,
      (check_arrayCount hlow hhigh).mpr ⟨hge, hle⟩, fun element helement => ?_⟩
    obtain ⟨members, rfl, hrows⟩ := helems element helement
    exact ⟨members, rfl, (check_itemsObject hcompare hfiles hobject).mpr hrows⟩

/-- **A row**: the validator asks of a value what the row says. -/
theorem check_row (hcompare : ComparesStrings compare) (hfiles : FilesThere fileExists)
    {prop : Members} (h : fieldProp (some (addArray cj)) f = .ok prop) :
    checkProperty compare fileExists key (.obj prop) value = .ok () ↔ f.Holds value := by
  by_cases htype : f.type = .array
  · rw [fieldProp.eq_def, htype] at h
    dsimp only at h
    cases hadd : addArray cj f with
    | error err =>
      rw [hadd] at h
      cases h
    | ok prop' =>
      rw [hadd] at h
      obtain rfl := ok.inj h
      exact check_addArray hcompare hfiles hadd htype
  · rw [check_scalar hcompare hfiles h htype, SettingsField.Holds]
    cases hscalar : f.type with
    | array => exact absurd hscalar htype
    | _ => rfl

theorem fieldProp_default {prop : Members} (h : fieldProp (some (addArray cj)) f = .ok prop) :
    (Json.obj prop).getItem "default".toList = some (f.default cj) := by
  rw [fieldProp.eq_def] at h
  rw [SettingsField.default.eq_def]
  cases htype : f.type with
  | string =>
    rw [htype] at h
    exact (stringProp_members h).2.2.2.1
  | int =>
    rw [htype] at h
    obtain rfl := ok.inj h
    exact (intProp_members f).2.2.2.1
  | bool =>
    rw [htype] at h
    obtain rfl := ok.inj h
    rfl
  | array =>
    rw [htype] at h
    dsimp only at h
    cases hadd : addArray cj f with
    | error err =>
      rw [hadd] at h
      cases h
    | ok prop' =>
      rw [hadd] at h
      obtain rfl := ok.inj h
      obtain ⟨_, object, elements, _, hdefault, _, rfl⟩ := addArray_ok hadd
      rw [hdefault]
      exact (arrayProp_members f object elements).2.2.2.2.1

end

/-! ## The defaults of a table -/

theorem smCollectDefaults_table {fields : List SettingsField}
    (hmade : RowsMade (some (addArray cj)) fields acc) {type : Json}
    (htext : cj.parse text = some (.obj (("type".toList, type) ::
      ("properties".toList, .obj acc.1) :: memberIf (!acc.2.isEmpty) "required" (.arr acc.2)))) :
    smCollectDefaults cj text = fields.map fun f => (f.name, f.default cj) := by
  have hprops : (cj.parse text).bind (Json.getItem "properties".toList) = some (.obj acc.1) := by
    rw [htext]
    rfl
  rw [smCollectDefaults, hprops]
  dsimp only
  rw [hmade.properties, filterMap_map, ← filterMap_eq_map]
  refine filterMap_congr fun f hf => ?_
  simp only [Function.comp_apply, fieldProp_default (hmade.made f hf), map_some]

theorem smSchemaFromFields_ok {fields : List SettingsField}
    (h : smSchemaFromFields cj fields = .ok text) :
    ∃ acc, RowsMade (some (addArray cj)) fields acc ∧
      cj.parse text = some (.obj (("type".toList, .str "object".toList) ::
        ("properties".toList, .obj acc.1) ::
          memberIf (!acc.2.isEmpty) "required" (.arr acc.2))) := by
  rw [smSchemaFromFields] at h
  by_cases hempty : fields = []
  · rw [if_pos hempty] at h
    cases h
  · rw [if_neg hempty] at h
    cases hadd : addObjectFields (some (addArray cj)) fields with
    | error err =>
      rw [hadd] at h
      cases h
    | ok object =>
      rw [hadd] at h
      obtain rfl := ok.inj h
      obtain ⟨acc, hmade, rfl⟩ := addObjectFields_ok hadd
      exact ⟨acc, hmade, cj.parse_print _⟩

theorem RowsMade.default {fields : List SettingsField}
    (h : RowsMade (some (addArray cj)) fields acc) {f : SettingsField} (hf : f ∈ fields) :
    (fields.map fun f => (f.name, f.default cj)).lookup f.name = some (f.default cj) := by
  have hdistinct : ((fields.map fun f => (f.name, f.default cj)).map Prod.fst).Nodup := by
    rw [List.map_map]
    exact h.distinct
  exact lookup_of_nodup hdistinct _ (List.mem_map_of_mem hf)

theorem defaults_checked {fields : List SettingsField}
    (h : smSchemaFromFields cj fields = .ok text) :
    smSchemaValidate compare fileExists cj text (.obj (smCollectDefaults cj text)) = .ok () ↔
      ∀ f ∈ fields, fieldProp (some (addArray cj)) f = .ok (rowProp (some (addArray cj)) f) ∧
        checkProperty compare fileExists (.key f.name)
          (.obj (rowProp (some (addArray cj)) f)) (f.default cj) = .ok () := by
  obtain ⟨acc, hmade, htext⟩ := smSchemaFromFields_ok h
  rw [smSchemaValidate, smCollectDefaults_table hmade htext, htext]
  rw [hmade.check]
  constructor
  · rintro ⟨_, hall⟩ f hf
    exact ⟨hmade.made f hf, hall f hf (f.name, f.default cj) (List.mem_map_of_mem hf) rfl⟩
  · intro hall
    refine ⟨fun f hf _ => ?_, ?_⟩
    · rw [hmade.default hf]
      rfl
    · intro r hr m hm hkey
      obtain ⟨f, hf, rfl⟩ := mem_map.mp hm
      -- the keys are distinct: the member is the row's own default
      have hsame : f.default cj = r.default cj := by
        have hr' := hmade.default hr
        rw [← hkey] at hr'
        exact some.inj ((hmade.default hf).symm.trans hr')
      rw [hsame, hkey]
      exact (hall r hr).2

/-- **The defaults of a table that is accepted pass its schema exactly if every row's
default is within what the row says.** -/
theorem smSchemaFromFields_defaults (cj : JsonCodec) (hcompare : ComparesStrings compare)
    (hfiles : FilesThere fileExists) {fields : List SettingsField} {text : List UInt8}
    (h : smSchemaFromFields cj fields = .ok text) :
    smSchemaValidate compare fileExists cj text (.obj (smCollectDefaults cj text)) = .ok () ↔
      ∀ f ∈ fields, f.Holds (f.default cj) := by
  rw [defaults_checked h]
  obtain ⟨acc, hmade, _⟩ := smSchemaFromFields_ok h
  refine forall₂_congr fun f hf => ?_
  rw [check_row hcompare hfiles (hmade.made f hf), and_iff_right (hmade.made f hf)]

/-! ## Two tables -/

def settingsStrEnum (key csv dflt : String) : SettingsField :=
  ⟨some key.toList, .string, 0, 0, some csv.toList, some dflt.toList, 0, false, false, none, none,
    none⟩

def settingsInt (key : String) (mn mx dflt : ℤ) : SettingsField :=
  ⟨some key.toList, .int, mn, mx, none, none, dflt, false, false, none, none, none⟩

/-- `cJSON_Compare`, of strings. -/
def compareTexts : Json → Json → Bool
  | .str s, .str t => decide (s = t)
  | _, _ => false

/-- The rows of an access point. -/
def apFields (channel : ℤ) : List SettingsField :=
  [settingsStrEnum "mode" "off,sta" "sta", settingsInt "ap_channel" 1 13 channel]

/-- Their schema. -/
def apSchema (channel : ℤ) : Json :=
  .obj [("type".toList, .str "object".toList), ("properties".toList, .obj
    [("mode".toList, .obj [("type".toList, .str "string".toList),
      ("enum".toList, .arr [.str "off".toList, .str "sta".toList]),
      ("default".toList, .str "sta".toList)]),
    ("ap_channel".toList, .obj [("type".toList, .str "integer".toList),
      ("minimum".toList, .num 1), ("maximum".toList, .num 13),
      ("default".toList, .num channel)])])]

theorem apFields_schema (channel : ℤ) :
    smSchemaFromFields cj (apFields channel) = .ok (cj.print (apSchema channel)) := rfl

/-- The schema as a text. -/
def apText (channel : String) : List UInt8 :=
  asciiBytes ("\x7b\"type\":\"object\",\"properties\":\x7b" ++
    "\"mode\":\x7b\"type\":\"string\",\"enum\":[\"off\",\"sta\"],\"default\":\"sta\"\x7d," ++
    "\"ap_channel\":\x7b\"type\":\"integer\",\"minimum\":1,\"maximum\":13,\"default\":" ++
    channel ++ "\x7d\x7d\x7d")

theorem apPins_pins : JsonCodec.Pins [(apSchema 6, apText "6"), (apSchema 0, apText "0")] where
  apart := by
    intro p hp q hq heq
    simp only [mem_cons, not_mem_nil, or_false] at hp hq
    rcases hp with rfl | rfl <;> rcases hq with rfl | rfl
    · rfl
    · exact absurd heq (by decide +kernel)
    · exact absurd heq (by decide +kernel)
    · rfl
  text := by
    intro p hp
    simp only [mem_cons, not_mem_nil, or_false] at hp
    rcases hp with rfl | rfl <;> decide +kernel

/-- A library that prints it. -/
noncomputable def apCodec : JsonCodec := JsonCodec.pinned _ apPins_pins

/-- Defaults within the bounds. -/
theorem smSchemaFromFields_defaults_ap :
    smSchemaValidate compareTexts none apCodec (apCodec.print (apSchema 6))
      (.obj (smCollectDefaults apCodec (apCodec.print (apSchema 6)))) = .ok () := by
  have hcompare : ComparesStrings compareTexts := fun s t => decide_eq_true_iff
  refine (smSchemaFromFields_defaults apCodec hcompare (fun _ h => (by cases h))
    (apFields_schema 6)).mpr ?_
  intro f hf
  rw [apFields, mem_cons, mem_singleton] at hf
  rcases hf with rfl | rfl
  · refine ⟨"sta".toList, rfl, fun h => absurd h (by decide), fun h => absurd h (by decide), ?_⟩
    rintro _ ⟨⟩
    exact ⟨["off".toList, "sta".toList], rfl, by decide⟩
  · exact ⟨6, rfl, rfl, .inr ⟨by decide, by decide⟩⟩

/-- A default under its row's minimum: the table is accepted, and its own defaults are
rejected. -/
theorem defaults_rejected :
    smSchemaFromFields apCodec (apFields 0) = .ok (apCodec.print (apSchema 0)) ∧
      smSchemaValidate compareTexts none apCodec (apCodec.print (apSchema 0))
        (.obj (smCollectDefaults apCodec (apCodec.print (apSchema 0)))) ≠ .ok () := by
  refine ⟨apFields_schema 0, fun hok => ?_⟩
  obtain ⟨_, hcheck⟩ := (defaults_checked (apFields_schema 0)).mp hok
    (settingsInt "ap_channel" 1 13 0) (mem_cons_of_mem _ mem_cons_self)
  obtain ⟨q, hq, _, hbounds⟩ := (check_intProp rfl).mp hcheck
  obtain rfl := Json.num.inj hq
  rcases hbounds with ⟨hmin, _⟩ | ⟨hmin, _⟩
  · exact absurd hmin (by decide)
  · exact absurd hmin (by decide)

end Meatpi
