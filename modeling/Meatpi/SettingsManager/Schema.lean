import Meatpi.Library.Utf8
import Meatpi.SettingsManager.Store

/-!
# The schema validator (`settings_manager_schema.c`)

A settings object is checked against a schema, a small part of JSON Schema: the keys
that are required, and for each member its type, its bounds and its options. The
elements of an array are checked against a schema of their own. The defaults of a
schema are those of its properties.
-/

namespace Meatpi

open List Option

variable {data : Members} {α : Type}

/-! ## Errors -/

/-- A member, or an element of an array: `"%s[%d]"`. -/
inductive SmKey where
  | key (key : List Char)
  | at (key : SmKey) (idx : ℕ)

/-- What `fail` is given. -/
inductive SmFail where
  /-- `"settings must be a JSON object"` -/
  | notObject
  /-- `"internal: schema is not valid JSON"` -/
  | badSchema
  /-- `"missing required field '%s'"` -/
  | missing (key : List Char)
  /-- `"%s: value not one of the allowed options"` -/
  | option (key : SmKey)
  /-- `"%s: expected %s"` -/
  | expected (key : SmKey) (type : String)
  /-- `"%s: shorter than minLength %d"` -/
  | minLength (key : SmKey) (bound : ℚ)
  /-- `"%s: longer than maxLength %d"` -/
  | maxLength (key : SmKey) (bound : ℚ)
  /-- `"%s: file '%s' not found"` -/
  | noFile (key : SmKey) (file : List Char)
  /-- `"%s: below minimum %g"` -/
  | minimum (key : SmKey) (bound : ℚ)
  /-- `"%s: above maximum %g"` -/
  | maximum (key : SmKey) (bound : ℚ)
  /-- `"%s: schema error - array needs maxItems 1..%d"` -/
  | unbounded (key : SmKey)
  /-- `"%s: more than maxItems %d entries"` -/
  | maxItems (key : SmKey) (bound : ℚ)
  /-- `"%s: fewer than minItems %d entries"` -/
  | minItems (key : SmKey) (bound : ℚ)
  /-- `"%s: unknown schema type '%s'"` -/
  | unknownType (key : SmKey) (type : List Char)
  /-- `"%s: %s"`: an element and what is wrong in it -/
  | inElement (key : SmKey) (inner : SmFail)

/-- A check that fails where something is bad. -/
def failIf (bad : Bool) (err : SmFail) : Except SmFail Unit := if bad then .error err else .ok ()

/-- A check against a bound, if there is one. -/
def failBound (bound : Option ℚ) (bad : ℚ → Bool) (err : ℚ → SmFail) : Except SmFail Unit :=
  match bound with
  | some n => failIf (bad n) (err n)
  | none => .ok ()

/-! ## The validator -/

/-- A member that is a number. -/
def Json.getNumber (key : List Char) (j : Json) : Option ℚ :=
  match j.getItem key with
  | some (.num q) => some q
  | _ => none

/-- `(size_t)` of a number that is not negative. -/
def numSize (q : ℚ) : ℕ := q.num.toNat / q.den

def smArrayMaxItems : ℕ := 16

/-- A schema of that type. -/
def Json.isType (type : String) (schema : Json) : Bool :=
  (schema.getItem "type".toList).any fun j => j.asStr == some type.toList

variable (compare : Json → Json → Bool) (fileExists : Option (List Char → Bool))

/-- `check_enum`, where the property has options. -/
def checkEnum (key : SmKey) (schema value : Json) : Except SmFail Unit :=
  match schema.getItem "enum".toList with
  | some (.arr options) => failIf (!options.any fun opt => compare opt value) (.option key)
  | _ => .ok ()

/-- The file that a string names. -/
def checkFormat (key : SmKey) (schema : Json) (s : List Char) : Except SmFail Unit :=
  match schema.getItem "format".toList with
  | some (.str fmt) =>
    failIf (decide (fmt = "file".toList) && fileExists.any fun exist => !exist s) (.noFile key s)
  | _ => .ok ()

/-- A string. -/
def checkString (key : SmKey) (schema value : Json) : Except SmFail Unit :=
  match value with
  | .str s => do
    failBound (schema.getNumber "minLength".toList) (fun n => decide (strlen s < numSize n))
      (.minLength key)
    failBound (schema.getNumber "maxLength".toList) (fun n => decide (numSize n < strlen s))
      (.maxLength key)
    checkFormat fileExists key schema s
  | _ => .error (.expected key "string")

/-- A number. -/
def checkNumber (key : SmKey) (integer : Bool) (schema value : Json) : Except SmFail Unit :=
  match value with
  | .num q => do
    failIf (integer && decide (q.den ≠ 1)) (.expected key "integer")
    failBound (schema.getNumber "minimum".toList) (fun n => decide (q < n)) (.minimum key)
    failBound (schema.getNumber "maximum".toList) (fun n => decide (n < q)) (.maximum key)
  | _ => .error (.expected key (if integer then "integer" else "number"))

/-- The bounds of an array. -/
def checkCount (key : SmKey) (schema : Json) (count : ℕ) : Except SmFail Unit :=
  match schema.getNumber "maxItems".toList with
  | none => .error (.unbounded key)
  | some n => do
    failIf (decide ((smArrayMaxItems : ℚ) < n) || decide (n < 1)) (.unbounded key)
    failIf (decide (numSize n < count)) (.maxItems key n)
    failBound (schema.getNumber "minItems".toList) (fun n => decide (count < numSize n))
      (.minItems key)

/-- One entry of the keys that are required. -/
def checkEntry (data : Members) : Json → Except SmFail Unit
  | .str key => failIf (data.lookup key).isNone (.missing key)
  | _ => .ok ()

/-- The keys that are required. -/
def checkRequired (node : Json) (data : Members) : Except SmFail Unit :=
  match node.getItem "required".toList with
  | some (.arr required) => required.forM (checkEntry data)
  | _ => .ok ()

variable {v : Json}

theorem Json.sizeOf_lookup {key : List Char} {members : List (List Char × Json)}
    (h : members.lookup key = some v) : sizeOf v < sizeOf members := by
  induction members with
  | nil => cases h
  | cons m members ih =>
    obtain ⟨k, w⟩ := m
    rw [lookup_cons] at h
    cases hk : key == k with
    | true =>
      rw [hk] at h
      obtain rfl := some.inj h
      simp only [cons.sizeOf_spec, Prod.mk.sizeOf_spec]
      omega
    | false =>
      rw [hk] at h
      have hlt := ih h
      simp only [cons.sizeOf_spec]
      omega

theorem Json.sizeOf_getItem {key : List Char} {j : Json} (h : j.getItem key = some v) :
    sizeOf v < sizeOf j := by
  cases j with
  | obj members =>
    have hlt : sizeOf v < sizeOf members := Json.sizeOf_lookup h
    simp only [Json.obj.sizeOf_spec]
    omega
  | _ => cases h

mutual

def checkProperty (key : SmKey) (schema value : Json) : Except SmFail Unit := do
  checkEnum compare key schema value
  match schema.getItem "type".toList with
  | some (.str type) =>
    if type = "string".toList then
      checkString fileExists key schema value
    else if type = "integer".toList then
      checkNumber key true schema value
    else if type = "number".toList then
      checkNumber key false schema value
    else if type = "boolean".toList then
      failIf value.asBool.isNone (.expected key "boolean")
    else if type = "object".toList then
      failIf (!isObject value) (.expected key "object")
    else if type = "array".toList then
      match value with
      | .arr elements => do
        checkCount key schema elements.length
        match _hitems : schema.getItem "items".toList with
        | some (.obj items) =>
          elements.zipIdx.forM fun p =>
            if (Json.obj items).isType "object" then
              match p.1 with
              | .obj members =>
                (checkObjectNode (.obj items) members).mapError (.inElement (.at key p.2))
              | _ => .error (.expected (.at key p.2) "object")
            else
              checkProperty (.at key p.2) (.obj items) p.1
        | _ => .ok ()
      | _ => .error (.expected key "array")
    else
      .error (.unknownType key type)
  | _ => .ok ()
termination_by sizeOf schema
decreasing_by all_goals exact Json.sizeOf_getItem _hitems

def checkObjectNode (node : Json) (data : Members) : Except SmFail Unit := do
  checkRequired node data
  match _hprops : node.getItem "properties".toList with
  | some (.obj properties) =>
    data.forM fun m =>
      match _hprop : properties.lookup m.1 with
      | some prop => checkProperty (.key m.1) prop m.2
      | none => .ok ()
  | _ => .ok ()
termination_by sizeOf node
decreasing_by
  have houter := Json.sizeOf_getItem _hprops
  have hinner := Json.sizeOf_lookup _hprop
  simp only [Json.obj.sizeOf_spec] at houter
  omega

end

def smSchemaValidate (cj : JsonCodec) (schemaJson : List UInt8) (data : Json) :
    Except SmFail Unit :=
  match data with
  | .obj members =>
    match cj.parse schemaJson with
    | some schema => checkObjectNode compare fileExists schema members
    | none => .error .badSchema
  | _ => .error .notObject

/-- `sm_schema_collect_defaults` -/
def smCollectDefaults (cj : JsonCodec) (schemaJson : List UInt8) : Members :=
  match (cj.parse schemaJson).bind (Json.getItem "properties".toList) with
  | some (.obj properties) =>
    properties.filterMap fun p => (p.2.getItem "default".toList).map fun dflt => (p.1, dflt)
  | _ => []

/-! ## When a check passes -/

variable {node : Json}

section

variable {compare : Json → Json → Bool} {fileExists : Option (List Char → Bool)}

theorem failIf_ok {bad : Bool} {err : SmFail} : failIf bad err = .ok () ↔ bad = false := by
  cases bad with
  | true => exact ⟨fun h => (by cases h), fun h => (by cases h)⟩
  | false => exact ⟨fun _ => rfl, fun _ => rfl⟩

theorem failBound_ok {bound : Option ℚ} {bad : ℚ → Bool} {err : ℚ → SmFail} :
    failBound bound bad err = .ok () ↔ ∀ n, bound = some n → bad n = false := by
  cases bound with
  | none => exact ⟨fun _ _ h => (by cases h), fun _ => rfl⟩
  | some n =>
    rw [failBound, failIf_ok]
    constructor
    · rintro h n' ⟨⟩
      exact h
    · intro h
      exact h n rfl

theorem bind_ok {a b : Except SmFail Unit} :
    (a >>= fun _ => b) = .ok () ↔ a = .ok () ∧ b = .ok () := by
  cases a with
  | error err => exact ⟨fun h => (by cases h), fun h => (by cases h.1)⟩
  | ok u => exact ⟨fun h => ⟨rfl, h⟩, fun h => h.2⟩

theorem forM_ok {check : α → Except SmFail Unit} {xs : List α} :
    xs.forM check = .ok () ↔ ∀ x ∈ xs, check x = .ok () := by
  induction xs with
  | nil => exact ⟨fun _ _ h => absurd h not_mem_nil, fun _ => rfl⟩
  | cons x xs ih =>
    have hcons : (x :: xs).forM check = (check x >>= fun _ => xs.forM check) := rfl
    rw [hcons, bind_ok, ih, forall_mem_cons]

theorem forall_mem_zipIdx {xs : List α} {P : α × ℕ → Prop} {Q : α → Prop}
    (h : ∀ x i, P (x, i) ↔ Q x) : (∀ p ∈ xs.zipIdx, P p) ↔ ∀ x ∈ xs, Q x := by
  constructor
  · intro hp x hx
    obtain ⟨i, hi⟩ := mem_iff_getElem?.mp hx
    exact (h x i).mp (hp (x, i) (List.mk_mem_zipIdx_iff_getElem?.mpr hi))
  · rintro hq ⟨x, i⟩ hp
    exact (h x i).mpr (hq x (mem_of_getElem? (List.mk_mem_zipIdx_iff_getElem?.mp hp)))

theorem mapError_ok {a : Except SmFail Unit} {f : SmFail → SmFail} :
    a.mapError f = .ok () ↔ a = .ok () := by
  cases a with
  | error err => exact ⟨fun h => (by cases h), fun h => (by cases h)⟩
  | ok u => exact Iff.rfl

theorem checkRequired_ok : checkRequired node data = .ok () ↔
    ∀ required, node.getItem "required".toList = some (.arr required) →
      ∀ key, .str key ∈ required → (data.lookup key).isSome = true := by
  rw [checkRequired]
  match node.getItem "required".toList with
  | some (.arr required) =>
    rw [forM_ok]
    constructor
    · rintro h _ ⟨⟩ key hkey
      have hentry := h (.str key) hkey
      rwa [checkEntry, failIf_ok, isNone_eq_false_iff] at hentry
    · intro h req hreq
      cases req with
      | str key =>
        rw [checkEntry, failIf_ok, isNone_eq_false_iff]
        exact h required rfl key hreq
      | _ => rfl
  | none | some .null | some (.bool _) | some (.num _) | some (.str _) | some (.obj _) =>
    exact ⟨fun _ _ h => (by cases h), fun _ => rfl⟩

theorem checkObjectNode_ok :
    checkObjectNode compare fileExists node data = .ok () ↔
      (∀ required, node.getItem "required".toList = some (.arr required) →
        ∀ key, .str key ∈ required → (data.lookup key).isSome = true) ∧
      ∀ properties, node.getItem "properties".toList = some (.obj properties) →
        ∀ m ∈ data, ∀ prop, properties.lookup m.1 = some prop →
          checkProperty compare fileExists (.key m.1) prop m.2 = .ok () := by
  rw [checkObjectNode, bind_ok, checkRequired_ok]
  refine and_congr Iff.rfl ?_
  split
  · rename_i properties hproperties
    rw [hproperties, forM_ok]
    constructor
    · rintro h _ ⟨⟩ m hm prop hprop
      have hcheck := h m hm
      split at hcheck
      · rename_i prop' hprop'
        obtain rfl := some.inj (hprop.symm.trans hprop')
        exact hcheck
      · rename_i hnone
        rw [hprop] at hnone
        cases hnone
    · intro h m hm
      split
      · rename_i prop hprop
        exact h properties rfl m hm prop hprop
      · rfl
  · rename_i hnot
    refine ⟨fun _ properties hproperties => ?_, fun _ => rfl⟩
    exact absurd hproperties (hnot properties)

/-! ### The checks of a property -/

theorem checkEnum_ok {key : SmKey} {schema value : Json} :
    checkEnum compare key schema value = .ok () ↔
      ∀ options, schema.getItem "enum".toList = some (.arr options) →
        ∃ opt ∈ options, compare opt value = true := by
  rw [checkEnum]
  match schema.getItem "enum".toList with
  | some (.arr options) =>
    rw [failIf_ok, Bool.not_eq_false', List.any_eq_true]
    constructor
    · rintro h _ ⟨⟩
      exact h
    · intro h
      exact h options rfl
  | none | some .null | some (.bool _) | some (.num _) | some (.str _) | some (.obj _) =>
    exact ⟨fun _ _ h => (by cases h), fun _ => rfl⟩

theorem checkFormat_ok {key : SmKey} {schema : Json} {s : List Char}
    (hfiles : ∀ exist : List Char → Bool, fileExists = some exist → exist s = true) :
    checkFormat fileExists key schema s = .ok () := by
  have hthere : (fileExists.any fun exist => !exist s) = false := by
    cases fileExists with
    | none => rfl
    | some exist => simp [hfiles exist rfl]
  rw [checkFormat]
  split
  · rw [failIf_ok, hthere, Bool.and_false]
  · rfl

theorem checkString_ok {key : SmKey} {schema value : Json} :
    checkString fileExists key schema value = .ok () ↔ ∃ s, value = .str s ∧
        (∀ n, schema.getNumber "minLength".toList = some n → numSize n ≤ strlen s) ∧
        (∀ n, schema.getNumber "maxLength".toList = some n → strlen s ≤ numSize n) ∧
        checkFormat fileExists key schema s = .ok () := by
  cases value with
  | str s =>
    rw [checkString, bind_ok, bind_ok, failBound_ok, failBound_ok]
    simp only [decide_eq_false_iff_not, not_lt]
    constructor
    · intro h
      exact ⟨s, rfl, h⟩
    · rintro ⟨_, ⟨⟩, h⟩
      exact h
  | _ =>
    refine ⟨fun h => (by cases h), ?_⟩
    rintro ⟨s, hs, _⟩
    cases hs

theorem checkNumber_ok {key : SmKey} {schema value : Json} :
    checkNumber key true schema value = .ok () ↔ ∃ q, value = .num q ∧ q.den = 1 ∧
        (∀ n, schema.getNumber "minimum".toList = some n → n ≤ q) ∧
        (∀ n, schema.getNumber "maximum".toList = some n → q ≤ n) := by
  cases value with
  | num q =>
    rw [checkNumber, bind_ok, bind_ok, failIf_ok, failBound_ok, failBound_ok]
    simp only [Bool.true_and, decide_eq_false_iff_not, not_not, not_lt, ne_eq]
    constructor
    · intro h
      exact ⟨q, rfl, h⟩
    · rintro ⟨_, ⟨⟩, h⟩
      exact h
  | _ =>
    refine ⟨fun h => (by cases h), ?_⟩
    rintro ⟨q, hq, _⟩
    cases hq

theorem checkCount_ok {key : SmKey} {schema : Json} {count : ℕ} :
    checkCount key schema count = .ok () ↔
      ∃ n, schema.getNumber "maxItems".toList = some n ∧ (1 ≤ n ∧ n ≤ smArrayMaxItems) ∧
        count ≤ numSize n ∧
        ∀ k, schema.getNumber "minItems".toList = some k → numSize k ≤ count := by
  rw [checkCount]
  cases schema.getNumber "maxItems".toList with
  | none => exact ⟨fun h => (by cases h), fun ⟨_, h, _⟩ => (by cases h)⟩
  | some n =>
    rw [bind_ok, bind_ok, failIf_ok, failIf_ok, failBound_ok]
    simp only [Bool.or_eq_false_iff, decide_eq_false_iff_not, not_lt]
    constructor
    · rintro ⟨⟨hle, hge⟩, h⟩
      exact ⟨n, rfl, ⟨hge, hle⟩, h⟩
    · rintro ⟨_, ⟨⟩, ⟨hge, hle⟩, h⟩
      exact ⟨⟨hle, hge⟩, h⟩

section

variable {key : SmKey} {schema value : Json}

theorem checkProperty_string (htype : schema.getItem "type".toList = some (.str "string".toList)) :
    checkProperty compare fileExists key schema value = .ok () ↔
      checkEnum compare key schema value = .ok () ∧
        checkString fileExists key schema value = .ok () := by
  rw [checkProperty.eq_def, bind_ok, htype]
  dsimp only
  rw [if_pos rfl]

theorem checkProperty_integer
    (htype : schema.getItem "type".toList = some (.str "integer".toList)) :
    checkProperty compare fileExists key schema value = .ok () ↔
      checkEnum compare key schema value = .ok () ∧ checkNumber key true schema value = .ok () := by
  rw [checkProperty.eq_def, bind_ok, htype]
  dsimp only
  rw [if_neg (by decide), if_pos rfl]

theorem checkProperty_boolean
    (htype : schema.getItem "type".toList = some (.str "boolean".toList)) :
    checkProperty compare fileExists key schema value = .ok () ↔
      checkEnum compare key schema value = .ok () ∧ value.asBool.isSome = true := by
  rw [checkProperty.eq_def, bind_ok, htype]
  dsimp only
  rw [if_neg (by decide), if_neg (by decide), if_neg (by decide), if_pos rfl, failIf_ok,
    isNone_eq_false_iff]

theorem checkProperty_array {items : Members}
    (htype : schema.getItem "type".toList = some (.str "array".toList))
    (hitems : schema.getItem "items".toList = some (.obj items))
    (hobject : (Json.obj items).isType "object" = true) :
    checkProperty compare fileExists key schema value = .ok () ↔
      checkEnum compare key schema value = .ok () ∧
        ∃ elements, value = .arr elements ∧ checkCount key schema elements.length = .ok () ∧
          ∀ element ∈ elements, ∃ members, element = .obj members ∧
            checkObjectNode compare fileExists (.obj items) members = .ok () := by
  rw [checkProperty.eq_def, bind_ok, htype]
  dsimp only
  rw [if_neg (by decide), if_neg (by decide), if_neg (by decide), if_neg (by decide),
    if_neg (by decide), if_pos rfl]
  refine and_congr Iff.rfl ?_
  cases value with
  | arr elements =>
    rw [bind_ok]
    have helem : (∃ elements', Json.arr elements = .arr elements' ∧
        checkCount key schema elements'.length = .ok () ∧
        ∀ element ∈ elements', ∃ members, element = .obj members ∧
          checkObjectNode compare fileExists (.obj items) members = .ok ()) ↔
        checkCount key schema elements.length = .ok () ∧
          ∀ element ∈ elements, ∃ members, element = .obj members ∧
            checkObjectNode compare fileExists (.obj items) members = .ok () := by
      constructor
      · rintro ⟨_, ⟨⟩, h⟩
        exact h
      · intro h
        exact ⟨elements, rfl, h⟩
    rw [helem]
    refine and_congr Iff.rfl ?_
    split
    · rename_i items' hitems'
      obtain rfl := Json.obj.inj (some.inj (hitems'.symm.trans hitems))
      rw [forM_ok]
      refine forall_mem_zipIdx fun element i => ?_
      rw [if_pos hobject]
      cases element with
      | obj members =>
        rw [mapError_ok]
        constructor
        · intro h
          exact ⟨members, rfl, h⟩
        · rintro ⟨_, ⟨⟩, h⟩
          exact h
      | _ =>
        refine ⟨fun h => (by cases h), ?_⟩
        rintro ⟨members, hmembers, _⟩
        cases hmembers
    · rename_i hnot
      exact absurd hitems (hnot items)
  | _ =>
    refine ⟨fun h => (by cases h), ?_⟩
    rintro ⟨elements, helements, _⟩
    cases helements

end

end

end Meatpi
