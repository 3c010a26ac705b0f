import Meatpi.ConfigBackup.Merge

/-!
# Leaving the secrets out, and filling them in (`config_backup_codec.c`)

A backup without its secrets has an empty string at each secret key. What that hides
is stated exactly: two settings parts give the same redacted part if and only if they
differ in secret strings at most. Filling in takes the strings the device has; it is
compared with a filling that takes the elements of a list by their own names only.
-/

namespace Meatpi

open Json List Option Prod

/-! ## Redaction -/

section

variable (component : List Char)

mutual

/-- `redact_value`, over the members of an object -/
def redactMembers : Members → Members
  | [] => []
  | (key, item) :: members => (key, redactMember key item) :: redactMembers members

/-- One member of that loop. -/
def redactMember (key : List Char) : Json → Json
  | .obj members => .obj (redactMembers members)
  | .arr items => .arr (redactElements items)
  | .str text => .str (if cbKeyIsSecret component key then [] else text)
  | item => item

/-- `redact_value`, over the elements of a list: they have no key. -/
def redactElements : List Json → List Json
  | [] => []
  | .obj members :: items => .obj (redactMembers members) :: redactElements items
  | .arr nested :: items => .arr (redactElements nested) :: redactElements items
  | item :: items => item :: redactElements items

end

/-- `redact_value`, if the value is an object -/
def redactObject : Json → Json
  | .obj data => .obj (redactMembers component data)
  | other => other

/-- The first `data` member of a component's entry is redacted. -/
def redactData : Members → Members
  | [] => []
  | (key, item) :: members =>
    if key = "data".toList then (key, redactObject component item) :: members
    else (key, item) :: redactData members

/-- A component's entry. -/
def redactEntry : Json → Json
  | .obj entry => .obj (redactData component entry)
  | other => other

end

/-- `cb_redact_settings`: a part is an object with an entry for each component. -/
def cbRedactSettings (part : Members) : Members :=
  part.map fun comp => (comp.1, redactEntry comp.1 comp.2)

/-! ## What redaction hides -/

section

variable (component : List Char)

mutual

/-- Members that differ in secret strings at most. -/
def AgreeMembers : Members → Members → Prop
  | [], [] => True
  | (key, a) :: as, (key', b) :: bs => key = key' ∧ AgreeMember key a b ∧ AgreeMembers as bs
  | _, _ => False

/-- The values at a key, which are two strings if they differ and the key is secret. -/
def AgreeMember (key : List Char) : Json → Json → Prop
  | .obj as, .obj bs => AgreeMembers as bs
  | .arr as, .arr bs => AgreeElements as bs
  | .str a, .str b => cbKeyIsSecret component key = true ∨ a = b
  | a, b => a = b

/-- Elements that differ in secret strings at most. -/
def AgreeElements : List Json → List Json → Prop
  | [], [] => True
  | .obj as :: items, .obj bs :: items' => AgreeMembers as bs ∧ AgreeElements items items'
  | .arr as :: items, .arr bs :: items' => AgreeElements as bs ∧ AgreeElements items items'
  | a :: items, b :: items' => a = b ∧ AgreeElements items items'
  | _, _ => False

end

mutual

theorem redactMembers_eq_iff : ∀ as bs : Members,
    redactMembers component as = redactMembers component bs ↔ AgreeMembers component as bs
  | [], [] => by simp [redactMembers, AgreeMembers]
  | [], b :: bs => by simp [redactMembers, AgreeMembers]
  | a :: as, [] => by simp [redactMembers, AgreeMembers]
  | (key, a) :: as, (key', b) :: bs => by
    rw [redactMembers, redactMembers, AgreeMembers, cons.injEq, mk.injEq,
      redactMembers_eq_iff as bs, and_assoc]
    refine and_congr_right fun hkey => and_congr_left fun _ => ?_
    rw [← hkey]
    exact redactMember_eq_iff key a b

theorem redactMember_eq_iff (key : List Char) : ∀ a b : Json,
    redactMember component key a = redactMember component key b ↔ AgreeMember component key a b
  | .obj as, b => by
    cases b with
    | obj bs =>
      rw [redactMember, redactMember, AgreeMember, obj.injEq, redactMembers_eq_iff as bs]
    | _ => simp [redactMember, AgreeMember]
  | .arr as, b => by
    cases b with
    | arr bs =>
      rw [redactMember, redactMember, AgreeMember, arr.injEq, redactElements_eq_iff as bs]
    | _ => simp [redactMember, AgreeMember]
  | .str a, b => by
    cases b with
    | str b =>
      rw [redactMember, redactMember, AgreeMember, str.injEq]
      cases cbKeyIsSecret component key <;> simp
    | _ => simp [redactMember, AgreeMember]
  | .null, b => by cases b <;> simp [redactMember, AgreeMember]
  | .bool a, b => by cases b <;> simp [redactMember, AgreeMember]
  | .num a, b => by cases b <;> simp [redactMember, AgreeMember]

theorem redactElements_eq_iff : ∀ as bs : List Json,
    redactElements component as = redactElements component bs ↔ AgreeElements component as bs
  | [], [] => by simp [redactElements, AgreeElements]
  | [], b :: bs => by cases b <;> simp [redactElements, AgreeElements]
  | a :: as, [] => by cases a <;> simp [redactElements, AgreeElements]
  | .obj as :: items, b :: items' => by
    cases b with
    | obj bs =>
      rw [redactElements, redactElements, AgreeElements, cons.injEq, obj.injEq,
        redactMembers_eq_iff as bs, redactElements_eq_iff items items']
    | _ => simp [redactElements, AgreeElements]
  | .arr as :: items, b :: items' => by
    cases b with
    | arr bs =>
      rw [redactElements, redactElements, AgreeElements, cons.injEq, arr.injEq,
        redactElements_eq_iff as bs, redactElements_eq_iff items items']
    | _ => simp [redactElements, AgreeElements]
  | .str a :: items, b :: items' => by
    cases b <;> simp [redactElements, AgreeElements, redactElements_eq_iff items items']
  | .null :: items, b :: items' => by
    cases b <;> simp [redactElements, AgreeElements, redactElements_eq_iff items items']
  | .bool a :: items, b :: items' => by
    cases b <;> simp [redactElements, AgreeElements, redactElements_eq_iff items items']
  | .num a :: items, b :: items' => by
    cases b <;> simp [redactElements, AgreeElements, redactElements_eq_iff items items']

end

/-- Two values of `data`. -/
def AgreeObject : Json → Json → Prop
  | .obj as, .obj bs => AgreeMembers component as bs
  | a, b => a = b

/-- Two entries that differ in the secret strings of their `data` at most. -/
def AgreeData : Members → Members → Prop
  | [], [] => True
  | (key, a) :: as, (key', b) :: bs =>
    key = key' ∧
      if key = "data".toList then AgreeObject component a b ∧ as = bs else a = b ∧ AgreeData as bs
  | _, _ => False

/-- Two entries of a part. -/
def AgreeEntry : Json → Json → Prop
  | .obj as, .obj bs => AgreeData component as bs
  | a, b => a = b

theorem redactObject_eq_iff (a b : Json) :
    redactObject component a = redactObject component b ↔ AgreeObject component a b := by
  cases a with
  | obj as =>
    cases b with
    | obj bs => rw [redactObject, redactObject, AgreeObject, obj.injEq, redactMembers_eq_iff]
    | _ => simp [redactObject, AgreeObject]
  | _ => cases b <;> simp [redactObject, AgreeObject]

theorem redactData_eq_iff (as bs : Members) :
    redactData component as = redactData component bs ↔ AgreeData component as bs := by
  induction as generalizing bs with
  | nil =>
    cases bs with
    | nil => simp [redactData, AgreeData]
    | cons b bs =>
      rw [redactData, redactData]
      refine iff_of_false (fun h => ?_) fun h => by simp [AgreeData] at h
      split_ifs at h
  | cons a as ih =>
    obtain ⟨key, a⟩ := a
    cases bs with
    | nil =>
      rw [redactData, redactData]
      refine iff_of_false (fun h => ?_) fun h => by simp [AgreeData] at h
      split_ifs at h
    | cons b bs =>
      obtain ⟨key', b⟩ := b
      rw [redactData, redactData, AgreeData]
      by_cases hkey : key = key'
      · subst hkey
        by_cases hdata : key = "data".toList
        · rw [if_pos hdata, if_pos hdata, if_pos hdata, cons.injEq, mk.injEq,
            redactObject_eq_iff, and_assoc]
        · rw [if_neg hdata, if_neg hdata, if_neg hdata, cons.injEq, mk.injEq, ih, and_assoc]
      · refine iff_of_false (fun h => hkey ?_) fun h => hkey h.1
        split_ifs at h <;> exact (mk.inj (cons.inj h).1).1

theorem redactEntry_eq_iff (a b : Json) :
    redactEntry component a = redactEntry component b ↔ AgreeEntry component a b := by
  cases a with
  | obj as =>
    cases b with
    | obj bs => rw [redactEntry, redactEntry, AgreeEntry, obj.injEq, redactData_eq_iff]
    | _ => simp [redactEntry, AgreeEntry]
  | _ => cases b <;> simp [redactEntry, AgreeEntry]

end

/-- Two settings parts that differ only in string values of secret keys. -/
def AgreePart (as bs : Members) : Prop :=
  List.Forall₂ (fun a b => a.1 = b.1 ∧ AgreeEntry a.1 a.2 b.2) as bs

/-- **What redaction hides**: the strings of secret keys, and nothing else. -/
theorem cbRedactSettings_eq_iff (as bs : Members) :
    cbRedactSettings as = cbRedactSettings bs ↔ AgreePart as bs := by
  rw [cbRedactSettings, cbRedactSettings, AgreePart, ← forall₂_eq_eq_eq,
    forall₂_map_left_iff, forall₂_map_right_iff]
  have hentry : ∀ a b : List Char × Json,
      ((a.1, redactEntry a.1 a.2) = (b.1, redactEntry b.1 b.2)) =
        (a.1 = b.1 ∧ AgreeEntry a.1 a.2 b.2) := by
    intro a b
    rw [mk.injEq, eq_iff_iff]
    refine and_congr_right fun hkey => ?_
    rw [← hkey, redactEntry_eq_iff]
  simp only [hentry]

/-! ## What filling in restores -/

section

variable (component : List Char)

mutual

/-- No secret key has a string but the empty one. -/
def NoSecrets : Members → Prop
  | [] => True
  | (key, item) :: members => NoSecretAt key item ∧ NoSecrets members

/-- The same of the value at a key. -/
def NoSecretAt (key : List Char) : Json → Prop
  | .obj members => NoSecrets members
  | .arr items => NoSecretIn items
  | .str text => cbKeyIsSecret component key = true → text = []
  | _ => True

/-- The same of the elements of a list. -/
def NoSecretIn : List Json → Prop
  | [] => True
  | .obj members :: items => NoSecrets members ∧ NoSecretIn items
  | .arr nested :: items => NoSecretIn nested ∧ NoSecretIn items
  | _ :: items => NoSecretIn items

end

mutual

/-- No list that is an element of a list holds a secret. -/
def SecretsShallow : Members → Prop
  | [] => True
  | (_, item) :: members => ShallowAt item ∧ SecretsShallow members

/-- The same of a value. -/
def ShallowAt : Json → Prop
  | .obj members => SecretsShallow members
  | .arr items => ShallowIn items
  | _ => True

/-- The same of the elements of a list. -/
def ShallowIn : List Json → Prop
  | [] => True
  | .obj members :: items => SecretsShallow members ∧ ShallowIn items
  | .arr nested :: items => NoSecretIn component nested ∧ ShallowIn items
  | _ :: items => ShallowIn items

end

mutual

/-- Below these members every object has distinct keys, and the elements of every list
distinct names. -/
def DistinctBelow : Members → Prop
  | [] => True
  | (_, item) :: members => DistinctAt item ∧ DistinctBelow members

/-- The same of a value. -/
def DistinctAt : Json → Prop
  | .obj members => (members.map Prod.fst).Nodup ∧ DistinctBelow members
  | .arr items => (items.filterMap nameOf).Nodup ∧ DistinctIn items
  | _ => True

/-- The same of the elements of a list. -/
def DistinctIn : List Json → Prop
  | [] => True
  | .obj members :: items =>
    ((members.map Prod.fst).Nodup ∧ DistinctBelow members) ∧ DistinctIn items
  | _ :: items => DistinctIn items

end

mutual

theorem redactMembers_eq_self_iff : ∀ members : Members,
    redactMembers component members = members ↔ NoSecrets component members
  | [] => by simp [redactMembers, NoSecrets]
  | (key, item) :: members => by
    rw [redactMembers, NoSecrets, cons.injEq, mk.injEq,
      redactMembers_eq_self_iff members, redactMember_eq_self_iff key item]
    simp only [true_and]

theorem redactMember_eq_self_iff (key : List Char) : ∀ item : Json,
    redactMember component key item = item ↔ NoSecretAt component key item
  | .obj members => by
    rw [redactMember, NoSecretAt, obj.injEq, redactMembers_eq_self_iff members]
  | .arr items => by rw [redactMember, NoSecretAt, arr.injEq, redactElements_eq_self_iff items]
  | .str text => by
    rw [redactMember, NoSecretAt, str.injEq]
    cases cbKeyIsSecret component key with
    | true => simp [eq_comm]
    | false => simp
  | .null => by simp [redactMember, NoSecretAt]
  | .bool b => by simp [redactMember, NoSecretAt]
  | .num q => by simp [redactMember, NoSecretAt]

theorem redactElements_eq_self_iff : ∀ items : List Json,
    redactElements component items = items ↔ NoSecretIn component items
  | [] => by simp [redactElements, NoSecretIn]
  | .obj members :: items => by
    rw [redactElements, NoSecretIn, cons.injEq, obj.injEq,
      redactMembers_eq_self_iff members, redactElements_eq_self_iff items]
  | .arr nested :: items => by
    rw [redactElements, NoSecretIn, cons.injEq, arr.injEq,
      redactElements_eq_self_iff nested, redactElements_eq_self_iff items]
  | .str text :: items => by simp [redactElements, NoSecretIn, redactElements_eq_self_iff items]
  | .null :: items => by simp [redactElements, NoSecretIn, redactElements_eq_self_iff items]
  | .bool b :: items => by simp [redactElements, NoSecretIn, redactElements_eq_self_iff items]
  | .num q :: items => by simp [redactElements, NoSecretIn, redactElements_eq_self_iff items]

end

theorem not_secret_name : cbKeyIsSecret component "name".toList = false := by
  have hsuffix : (secretSuffixes.any fun suffix => suffix.isSuffixOf "name".toList) = false := by
    decide
  rw [cbKeyIsSecret, hsuffix, Bool.false_or, ← Bool.not_eq_true, contains_iff_mem]
  intro hmem
  have hkey : "name".toList ∈ secretExtra.map Prod.snd := mem_map_of_mem hmem
  revert hkey
  decide

theorem lookup_redactMembers (key : List Char) (members : Members) :
    (redactMembers component members).lookup key =
      (members.lookup key).map (redactMember component key) := by
  induction members with
  | nil => simp [redactMembers]
  | cons m members ih =>
    obtain ⟨k, item⟩ := m
    rw [redactMembers, lookup_cons, lookup_cons]
    by_cases hk : key = k
    · subst hk
      simp
    · have hne : (key == k) = false := by simpa using hk
      rw [hne]
      exact ih

theorem nameOf_redacted (members : Members) :
    nameOf (.obj (redactMembers component members)) = nameOf (.obj members) := by
  rw [nameOf, nameOf, Json.getItem, Json.getItem, lookup_redactMembers]
  cases members.lookup "name".toList with
  | none => rfl
  | some item =>
    cases item with
    | str text =>
      simp only [map_some, bind_some, redactMember, not_secret_name, Bool.false_eq_true, if_false]
    | _ => rfl

theorem find?_nameOf {stored : List Json} {el : Json} {name : List Char}
    (hnodup : (stored.filterMap nameOf).Nodup) (hmem : el ∈ stored)
    (hname : nameOf el = some name) : (stored.find? fun s => nameOf s == some name) = some el := by
  induction stored with
  | nil => exact absurd hmem not_mem_nil
  | cons s stored ih =>
    rcases mem_cons.mp hmem with rfl | hold
    · rw [List.find?_cons_of_pos]
      rw [hname]
      exact beq_self_eq_true _
    · cases hs : nameOf s with
      | none =>
        rw [filterMap_cons, hs] at hnodup
        rw [List.find?_cons_of_neg]
        · exact ih hnodup hold
        · rw [hs]
          simp
      | some other =>
        rw [filterMap_cons, hs] at hnodup
        have hne : other ≠ name := by
          rintro rfl
          exact (nodup_cons.mp hnodup).1 (mem_filterMap.mpr ⟨el, hold, hname⟩)
        rw [List.find?_cons_of_neg]
        · exact ih (nodup_cons.mp hnodup).2 hold
        · rw [hs]
          simpa using hne

theorem storedElement_redacted {pre items : List Json} {members : Members}
    (hnodup : ((pre ++ .obj members :: items).filterMap nameOf).Nodup) :
    storedElement (pre ++ .obj members :: items) (.obj (redactMembers component members))
      pre.length = some (.obj members) := by
  have hplace : (pre ++ .obj members :: items)[pre.length]? = some (.obj members) := by
    rw [List.getElem?_append_right le_rfl, Nat.sub_self, List.getElem?_cons_zero]
  rw [storedElement, nameOf_redacted]
  cases hname : nameOf (.obj members) with
  | none => exact hplace
  | some name =>
    have hmem : Json.obj members ∈ pre ++ .obj members :: items := mem_append_right _ mem_cons_self
    simp only [find?_nameOf hnodup hmem hname]

end

/-- Memory for every string. -/
def growsAll : List Char → Bool := fun _ => true

section

variable (component : List Char)

mutual

theorem unredactMembers_redacted : ∀ members stored : Members,
    (∀ m ∈ members, stored.lookup m.1 = some m.2) → DistinctBelow members →
      (unredactMembers growsAll component (redactMembers component members) stored = members ↔
        SecretsShallow component members)
  | [], _, _, _ => by simp [redactMembers, unredactMembers, SecretsShallow]
  | (key, item) :: members, stored, hstored, hdistinct => by
    have hitem : stored.lookup key = some item := hstored (key, item) mem_cons_self
    rw [redactMembers, unredactMembers, SecretsShallow, cons.injEq, mk.injEq, hitem,
      unredactItem_redacted key item hdistinct.1,
      unredactMembers_redacted members stored
        (fun m hm => hstored m (mem_cons_of_mem _ hm)) hdistinct.2]
    simp only [true_and]

theorem unredactItem_redacted (key : List Char) : ∀ item : Json, DistinctAt item →
    (unredactItem growsAll component key (redactMember component key item) (some item) = item ↔
      ShallowAt component item)
  | .obj members, hdistinct => by
    rw [redactMember, unredactItem, ShallowAt, obj.injEq,
      unredactMembers_redacted members members (lookup_of_nodup hdistinct.1) hdistinct.2]
  | .arr items, hdistinct => by
    have helements := unredactElements_redacted items [] hdistinct.1 hdistinct.2
    rw [nil_append, length_nil] at helements
    rw [redactMember, unredactItem, ShallowAt, arr.injEq, helements]
  | .str text, _ => by
    simp only [redactMember, ShallowAt, iff_true]
    cases hsecret : cbKeyIsSecret component key with
    | true =>
      simp only [if_true, unredactItem, hsecret, growsAll, true_and, and_true]
      by_cases htext : text = []
      · simp [htext]
      · simp [htext]
    | false =>
      cases text with
      | nil => simp [unredactItem, hsecret]
      | cons c text => simp [unredactItem]
  | .null, _ => by simp [redactMember, unredactItem, ShallowAt]
  | .bool b, _ => by simp [redactMember, unredactItem, ShallowAt]
  | .num q, _ => by simp [redactMember, unredactItem, ShallowAt]

theorem unredactElements_redacted : ∀ items pre : List Json,
    ((pre ++ items).filterMap nameOf).Nodup → DistinctIn items →
      (unredactElements growsAll component (redactElements component items) (pre ++ items)
        pre.length = items ↔ ShallowIn component items)
  | [], _, _, _ => by simp [redactElements, unredactElements, ShallowIn]
  | item :: items, pre, hnodup, hdistinct => by
    have hrest : pre ++ item :: items = (pre ++ [item]) ++ items := by
      rw [append_assoc, singleton_append]
    have hlength : pre.length + 1 = (pre ++ [item]).length := by
      rw [length_append, length_singleton]
    cases item with
    | obj members =>
      rw [redactElements, unredactElements, ShallowIn,
        storedElement_redacted component hnodup, cons.injEq]
      simp only
      rw [obj.injEq, unredactMembers_redacted members members
        (lookup_of_nodup hdistinct.1.1) hdistinct.1.2]
      refine and_congr_right fun _ => ?_
      rw [hrest] at hnodup ⊢
      rw [hlength]
      exact unredactElements_redacted items _ hnodup hdistinct.2
    | arr nested =>
      rw [redactElements, unredactElements, ShallowIn, cons.injEq, arr.injEq,
        redactElements_eq_self_iff]
      · refine and_congr_right fun _ => ?_
        rw [hrest] at hnodup ⊢
        rw [hlength]
        exact unredactElements_redacted items _ hnodup hdistinct
      · simp
    | _ =>
      rw [hrest] at hnodup
      simp only [redactElements, unredactElements, ShallowIn, cons.injEq, true_and, hrest, hlength]
      exact unredactElements_redacted items _ hnodup hdistinct

end

end

/-! ## Whose secret it is -/

/-- The stored element of the same name; one without a name goes by its place. -/
def sameNamed (stored : List Json) (el : Json) (idx : ℕ) : Option Json :=
  match nameOf el with
  | none => stored[idx]?
  | some name => stored.find? fun s => nameOf s == some name

section

variable (component : List Char)

mutual

/-- Filling in from the same member, and from the stored element of the same name. -/
def fillOwn : Members → Members → Members
  | [], _ => []
  | (key, item) :: members, stored =>
    (key, fillOwnAt key item (stored.lookup key)) :: fillOwn members stored

/-- The value at a key. -/
def fillOwnAt (key : List Char) : Json → Option Json → Json
  | .obj members, some (.obj stored) => .obj (fillOwn members stored)
  | .arr items, some (.arr stored) => .arr (fillOwnIn items stored 0)
  | .str [], some (.str was) =>
    if cbKeyIsSecret component key = true then .str was else .str []
  | item, _ => item

/-- The elements of a list. -/
def fillOwnIn : List Json → List Json → ℕ → List Json
  | [], _, _ => []
  | .obj members :: items, stored, idx =>
    (match sameNamed stored (.obj members) idx with
      | some (.obj was) => .obj (fillOwn members was)
      | _ => .obj members) :: fillOwnIn items stored (idx + 1)
  | item :: items, stored, idx => item :: fillOwnIn items stored (idx + 1)

end

mutual

/-- The stored members have a string for no blank secret. -/
def OffersNone : Members → Members → Prop
  | [], _ => True
  | (key, item) :: members, stored =>
    OffersNoneAt key item (stored.lookup key) ∧ OffersNone members stored

/-- The same of the value at a key. -/
def OffersNoneAt (key : List Char) : Json → Option Json → Prop
  | .obj members, some (.obj stored) => OffersNone members stored
  | .arr items, some (.arr stored) => OffersNoneIn items stored 0
  | .str [], some (.str was) => cbKeyIsSecret component key = true → was = []
  | _, _ => True

/-- The same of the elements of a list. -/
def OffersNoneIn : List Json → List Json → ℕ → Prop
  | [], _, _ => True
  | .obj members :: items, stored, idx =>
    (match storedElement stored (.obj members) idx with
      | some (.obj was) => OffersNone members was
      | _ => True) ∧ OffersNoneIn items stored (idx + 1)
  | _ :: items, stored, idx => OffersNoneIn items stored (idx + 1)

end

mutual

/-- Where a named element has no stored element of its name, the one at its place has
a string for none of its blank secrets. -/
def NamesFound : Members → Members → Prop
  | [], _ => True
  | (key, item) :: members, stored =>
    NamesFoundAt item (stored.lookup key) ∧ NamesFound members stored

/-- The same of a value. -/
def NamesFoundAt : Json → Option Json → Prop
  | .obj members, some (.obj stored) => NamesFound members stored
  | .arr items, some (.arr stored) => NamesFoundIn items stored 0
  | _, _ => True

/-- The same of the elements of a list. -/
def NamesFoundIn : List Json → List Json → ℕ → Prop
  | [], _, _ => True
  | .obj members :: items, stored, idx =>
    (match sameNamed stored (.obj members) idx, stored[idx]? with
      | some (.obj was), _ => NamesFound members was
      | none, some (.obj other) => OffersNone component members other
      | _, _ => True) ∧ NamesFoundIn items stored (idx + 1)
  | _ :: items, stored, idx => NamesFoundIn items stored (idx + 1)

end

mutual

theorem unredactMembers_eq_self_iff : ∀ members stored : Members,
    unredactMembers growsAll component members stored = members ↔
      OffersNone component members stored
  | [], _ => by simp [unredactMembers, OffersNone]
  | (key, item) :: members, stored => by
    rw [unredactMembers, OffersNone, cons.injEq, mk.injEq,
      unredactItem_eq_self_iff key item, unredactMembers_eq_self_iff members stored]
    simp only [true_and]

theorem unredactItem_eq_self_iff (key : List Char) : ∀ (item : Json) (was : Option Json),
    unredactItem growsAll component key item was = item ↔ OffersNoneAt component key item was
  | .obj members, was => by
    cases was with
    | none => simp [unredactItem, OffersNoneAt]
    | some was =>
      cases was with
      | obj stored =>
        rw [unredactItem, OffersNoneAt, obj.injEq, unredactMembers_eq_self_iff members stored]
      | _ => simp [unredactItem, OffersNoneAt]
  | .arr items, was => by
    cases was with
    | none => simp [unredactItem, OffersNoneAt]
    | some was =>
      cases was with
      | arr stored =>
        rw [unredactItem, OffersNoneAt, arr.injEq, unredactElements_eq_self_iff items stored]
      | _ => simp [unredactItem, OffersNoneAt]
  | .str [], was => by
    cases was with
    | none => simp [unredactItem, OffersNoneAt]
    | some was =>
      cases was with
      | str was =>
        rw [unredactItem, OffersNoneAt]
        cases cbKeyIsSecret component key with
        | true => by_cases hwas : was = [] <;> simp [growsAll, hwas]
        | false => simp
      | _ => simp [unredactItem, OffersNoneAt]
  | .str (c :: text), was => by simp [unredactItem, OffersNoneAt]
  | .null, was => by simp [unredactItem, OffersNoneAt]
  | .bool b, was => by simp [unredactItem, OffersNoneAt]
  | .num q, was => by simp [unredactItem, OffersNoneAt]

theorem unredactElements_eq_self_iff : ∀ (items stored : List Json) (idx : ℕ),
    unredactElements growsAll component items stored idx = items ↔
      OffersNoneIn component items stored idx
  | [], _, _ => by simp [unredactElements, OffersNoneIn]
  | .obj members :: items, stored, idx => by
    rw [unredactElements, OffersNoneIn, cons.injEq,
      unredactElements_eq_self_iff items stored (idx + 1)]
    refine and_congr_left fun _ => ?_
    cases storedElement stored (.obj members) idx with
    | none => simp
    | some was =>
      cases was with
      | obj was => simp only [obj.injEq, unredactMembers_eq_self_iff members was]
      | _ => simp
  | .arr nested :: items, stored, idx => by
    simp [unredactElements, OffersNoneIn, unredactElements_eq_self_iff items stored (idx + 1)]
  | .str text :: items, stored, idx => by
    simp [unredactElements, OffersNoneIn, unredactElements_eq_self_iff items stored (idx + 1)]
  | .null :: items, stored, idx => by
    simp [unredactElements, OffersNoneIn, unredactElements_eq_self_iff items stored (idx + 1)]
  | .bool b :: items, stored, idx => by
    simp [unredactElements, OffersNoneIn, unredactElements_eq_self_iff items stored (idx + 1)]
  | .num q :: items, stored, idx => by
    simp [unredactElements, OffersNoneIn, unredactElements_eq_self_iff items stored (idx + 1)]

end

theorem storedElement_eq (stored : List Json) (el : Json) (idx : ℕ) :
    storedElement stored el idx = (sameNamed stored el idx).or stored[idx]? := by
  rw [storedElement, sameNamed]
  cases nameOf el with
  | none => simp
  | some name =>
    simp only
    cases stored.find? fun s => nameOf s == some name <;> rfl

mutual

theorem unredactMembers_eq_fillOwn_iff : ∀ members stored : Members,
    unredactMembers growsAll component members stored = fillOwn component members stored ↔
      NamesFound component members stored
  | [], _ => by simp [unredactMembers, fillOwn, NamesFound]
  | (key, item) :: members, stored => by
    rw [unredactMembers, fillOwn, NamesFound, cons.injEq, mk.injEq,
      unredactItem_eq_fillOwn_iff key item, unredactMembers_eq_fillOwn_iff members stored]
    simp only [true_and]

theorem unredactItem_eq_fillOwn_iff (key : List Char) : ∀ (item : Json) (was : Option Json),
    unredactItem growsAll component key item was = fillOwnAt component key item was ↔
      NamesFoundAt component item was
  | .obj members, was => by
    cases was with
    | none => simp [unredactItem, fillOwnAt, NamesFoundAt]
    | some was =>
      cases was with
      | obj stored =>
        rw [unredactItem, fillOwnAt, NamesFoundAt, obj.injEq,
          unredactMembers_eq_fillOwn_iff members stored]
      | _ => simp [unredactItem, fillOwnAt, NamesFoundAt]
  | .arr items, was => by
    cases was with
    | none => simp [unredactItem, fillOwnAt, NamesFoundAt]
    | some was =>
      cases was with
      | arr stored =>
        rw [unredactItem, fillOwnAt, NamesFoundAt, arr.injEq,
          unredactElements_eq_fillOwnIn_iff items stored]
      | _ => simp [unredactItem, fillOwnAt, NamesFoundAt]
  | .str [], was => by
    cases was with
    | none => simp [unredactItem, fillOwnAt, NamesFoundAt]
    | some was =>
      cases was with
      | str was =>
        simp only [unredactItem, fillOwnAt, NamesFoundAt, iff_true]
        cases cbKeyIsSecret component key with
        | true => by_cases hwas : was = [] <;> simp [growsAll, hwas]
        | false => simp
      | _ => simp [unredactItem, fillOwnAt, NamesFoundAt]
  | .str (c :: text), was => by simp [unredactItem, fillOwnAt, NamesFoundAt]
  | .null, was => by simp [unredactItem, fillOwnAt, NamesFoundAt]
  | .bool b, was => by simp [unredactItem, fillOwnAt, NamesFoundAt]
  | .num q, was => by simp [unredactItem, fillOwnAt, NamesFoundAt]

theorem unredactElements_eq_fillOwnIn_iff : ∀ (items stored : List Json) (idx : ℕ),
    unredactElements growsAll component items stored idx = fillOwnIn component items stored idx ↔
      NamesFoundIn component items stored idx
  | [], _, _ => by simp [unredactElements, fillOwnIn, NamesFoundIn]
  | .obj members :: items, stored, idx => by
    rw [unredactElements, fillOwnIn, NamesFoundIn, cons.injEq,
      unredactElements_eq_fillOwnIn_iff items stored (idx + 1), storedElement_eq]
    refine and_congr_left fun _ => ?_
    cases sameNamed stored (.obj members) idx with
    | none =>
      -- the name was not found: the element at the place is asked all the same
      rw [none_or]
      cases stored[idx]? with
      | none => simp
      | some other =>
        cases other with
        | obj other => simp only [obj.injEq, unredactMembers_eq_self_iff]
        | _ => simp
    | some was =>
      rw [some_or]
      cases was with
      | obj was => simp only [obj.injEq, unredactMembers_eq_fillOwn_iff members was]
      | _ => simp
  | .arr nested :: items, stored, idx => by
    simp [unredactElements, fillOwnIn, NamesFoundIn,
      unredactElements_eq_fillOwnIn_iff items stored (idx + 1)]
  | .str text :: items, stored, idx => by
    simp [unredactElements, fillOwnIn, NamesFoundIn,
      unredactElements_eq_fillOwnIn_iff items stored (idx + 1)]
  | .null :: items, stored, idx => by
    simp [unredactElements, fillOwnIn, NamesFoundIn,
      unredactElements_eq_fillOwnIn_iff items stored (idx + 1)]
  | .bool b :: items, stored, idx => by
    simp [unredactElements, fillOwnIn, NamesFoundIn,
      unredactElements_eq_fillOwnIn_iff items stored (idx + 1)]
  | .num q :: items, stored, idx => by
    simp [unredactElements, fillOwnIn, NamesFoundIn,
      unredactElements_eq_fillOwnIn_iff items stored (idx + 1)]

end

end

/-- **Redaction and its inverse.** Two settings parts give the same redacted part
exactly if they differ in string values of secret keys at most. Filling a redacted
object in from the original gives the original back exactly if no list directly inside
a list holds a secret, for distinct keys and distinct names. And a blank secret is
filled in from the element of its own name exactly if, wherever a name is not found,
the element at the place has nothing to fill in. -/
theorem redaction_exact (component : List Char) :
    (∀ as bs : Members, cbRedactSettings as = cbRedactSettings bs ↔ AgreePart as bs) ∧
      (∀ members : Members, DistinctAt (.obj members) →
        (cbUnredact growsAll component (.obj (redactMembers component members)) (.obj members) =
            .obj members ↔
          SecretsShallow component members)) ∧
      (∀ members stored : Members, cbUnredact growsAll component (.obj members) (.obj stored) =
            .obj (fillOwn component members stored) ↔
          NamesFound component members stored) := by
  refine ⟨cbRedactSettings_eq_iff, fun members hdistinct => ?_, fun members stored => ?_⟩
  · rw [cbUnredact, obj.injEq]
    exact unredactMembers_redacted component members members (lookup_of_nodup hdistinct.1)
      hdistinct.2
  · rw [cbUnredact, obj.injEq]
    exact unredactMembers_eq_fillOwn_iff component members stored

/-- A table of destinations with one entry. -/
def oneDestination (name token : String) : Members :=
  [("destinations".toList, .arr [.obj [("name".toList, .str name.toList),
    ("auth_token".toList, .str token.toList)]])]

/-- **Somebody else's token.** The backup has a destination the device does not know;
its blank token is filled in with that of the device's only destination. -/
theorem token_of_another :
    cbUnredact growsAll "data_destinations".toList (.obj (oneDestination "new" ""))
        (.obj (oneDestination "old" "secret")) = .obj (oneDestination "new" "secret") ∧
      fillOwn "data_destinations".toList (oneDestination "new" "")
        (oneDestination "old" "secret") = oneDestination "new" "" ∧
      oneDestination "new" "secret" ≠ oneDestination "new" "" := by
  refine ⟨?_, ?_, ?_⟩
  · have hfilled : unredactItem growsAll "data_destinations".toList "auth_token".toList
        (.str []) (some (.str "secret".toList)) = .str "secret".toList := by
      rw [unredactItem, if_pos]
      exact ⟨rfl, by decide, rfl⟩
    simp [cbUnredact, oneDestination, unredactMembers, unredactItem, unredactElements,
      storedElement, nameOf, Json.getItem, Json.asStr]
    exact hfilled
  · simp [oneDestination, fillOwn, fillOwnAt, fillOwnIn, sameNamed, nameOf, Json.getItem,
      Json.asStr]
  · simp [oneDestination]

end Meatpi
