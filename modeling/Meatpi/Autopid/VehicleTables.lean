import Meatpi.Autopid.VehicleSwitch

/-!
# Copying a car's tables when calls fail (`autopid_vehicle_switch.c`)

`read_whole` answers NULL for a file that is missing or empty, for one whose
size or bytes could not be read, and when no buffer was left.
`ap_veh_copy_tables` takes each of these for a missing source and writes the
empty tables, so a read that fails once replaces the tables that a car switch
was about to keep (`copyTables_keeps_iff`).
-/

namespace Meatpi

open Option

variable {text : List Char}

/-- Which of the calls inside `read_whole` succeed: `filesystem_size`,
`heap_caps_malloc` and `filesystem_read`. -/
structure ReadCalls where
  size : Bool
  alloc : Bool
  read : Bool

/-- All three calls succeed. -/
def ReadCalls.Succeed (calls : ReadCalls) : Prop :=
  calls.size = true ∧ calls.alloc = true ∧ calls.read = true

instance (calls : ReadCalls) : Decidable calls.Succeed := by
  unfold ReadCalls.Succeed
  infer_instance

/-- `read_whole`, over the bytes of the file at the path. A read of less than
the whole file is one that failed. -/
def readWhole (calls : ReadCalls) (file : Option (List Char)) : Option (List Char) :=
  match file with
  | none => none
  | some text =>
    if calls.size = false ∨ text.length = 0 then none
    else if calls.alloc = false then none
    else if calls.read = false then none
    else some text

/-- `ap_veh_write_guarded`: the result (`ESP_OK` or not) and the file after it.
`filesystem_write` renames a complete file into place or leaves the old one. -/
def vehWriteGuarded (calls : ReadCalls) (writes : Bool) (file : Option (List Char))
    (json : List Char) : Bool × Option (List Char) :=
  if readWhole calls file = some json then (true, file)
  else if writes then (true, some json)
  else (false, file)

/-- How the calls of one copy end. -/
structure CopyCalls where
  src : ReadCalls
  dst : ReadCalls
  writes : Bool

/-- `ap_veh_copy_tables`: the result and the destination after it. -/
def copyTables (calls : CopyCalls) (src dst : Option (List Char)) : Bool × Option (List Char) :=
  vehWriteGuarded calls.dst calls.writes dst ((readWhole calls.src src).getD vehEmptyConfig)

/-! ## The calls one by one -/

theorem readWhole_eq_some_iff {calls : ReadCalls} {file : Option (List Char)} :
    readWhole calls file = some text ↔ calls.Succeed ∧ text ≠ [] ∧ file = some text := by
  cases file with
  | none => simp [readWhole]
  | some t =>
    simp only [readWhole, ReadCalls.Succeed, List.length_eq_zero_iff]
    split_ifs with hsize halloc hread
    · rcases hsize with hsize | rfl
      · simp [hsize]
      · simp only [some.injEq, false_iff, not_and]
        intro _ hne heq
        exact hne heq.symm
    · simp [halloc]
    · simp [hread]
    · simp only [not_or, Bool.not_eq_false] at hsize halloc hread
      simp only [some.injEq, hsize.1, halloc, hread, and_self, true_and]
      constructor
      · rintro rfl
        exact ⟨hsize.2, rfl⟩
      · intro h
        exact h.2

theorem readWhole_some (calls : ReadCalls) (htext : text ≠ []) :
    readWhole calls (some text) = if calls.Succeed then some text else none := by
  split_ifs with hcalls
  · exact readWhole_eq_some_iff.mpr ⟨hcalls, htext, rfl⟩
  · rw [eq_none_iff_forall_not_mem]
    intro t ht
    exact hcalls (readWhole_eq_some_iff.mp ht).1

theorem vehWriteGuarded_file (calls : ReadCalls) (writes : Bool) (file : Option (List Char))
    (json : List Char) :
    (vehWriteGuarded calls writes file json).2 = if writes then some json else file := by
  unfold vehWriteGuarded
  split_ifs with hsame hwrites
  · exact (readWhole_eq_some_iff.mp hsame).2.2
  · rfl
  · rfl
  · rfl

theorem copyTables_file (calls : CopyCalls) (src dst : Option (List Char)) :
    (copyTables calls src dst).2 =
      if calls.writes then some ((readWhole calls.src src).getD vehEmptyConfig) else dst :=
  vehWriteGuarded_file ..

theorem copyTables_unread {calls : CopyCalls} (hsrc : ¬ calls.src.Succeed)
    (hwrites : calls.writes = true) (htext : text ≠ []) (dst : Option (List Char)) :
    copyTables calls (some text) dst = (true, some vehEmptyConfig) := by
  have hread : readWhole calls.src (some text) = none := by
    rw [readWhole_some _ htext, if_neg hsrc]
  unfold copyTables vehWriteGuarded
  rw [hread, getD_none]
  split_ifs with hsame
  · rw [(readWhole_eq_some_iff.mp hsame).2.2]
  · rfl

/-- **When a copy keeps a car's tables**: the destination of a source that holds
tables is unchanged or equal to it exactly when the source was read, nothing was
written, or one of the two held the empty tables already. -/
theorem copyTables_keeps_iff (calls : CopyCalls) (text : List Char) (dst : Option (List Char))
    (htext : text ≠ []) :
    ((copyTables calls (some text) dst).2 = dst ∨
        (copyTables calls (some text) dst).2 = some text) ↔
      calls.src.Succeed ∨ calls.writes = false ∨ text = vehEmptyConfig ∨
        dst = some vehEmptyConfig := by
  by_cases hsrc : calls.src.Succeed
  · have hsame : readWhole calls.src (some text) = some text :=
      readWhole_eq_some_iff.mpr ⟨hsrc, htext, rfl⟩
    simp only [hsrc, true_or, iff_true, copyTables_file, hsame, getD_some]
    cases calls.writes with
    | true => exact Or.inr rfl
    | false => exact Or.inl rfl
  · cases hwrites : calls.writes with
    | false => simp [copyTables_file, hwrites]
    | true =>
      rw [copyTables_unread hsrc hwrites htext]
      simp only [hsrc, false_or, some.injEq, reduceCtorEq]
      constructor
      · rintro (h | h)
        · exact Or.inr h.symm
        · exact Or.inl h.symm
      · rintro (h | h)
        · exact Or.inr h.symm
        · exact Or.inl h.symm

/-- A `config.json` with one filter, as the app saves it. -/
def editedConfig : List Char :=
  "\x7b\"groups\":[],\"pids\":[],\"filters\":[\x7b\"id\":1\x7d]\x7d".toList

theorem copyTables_keeps_iff_edited :
    (copyTables ⟨⟨true, true, true⟩, ⟨true, true, true⟩, true⟩ (some editedConfig) none).2 = none ∨
      (copyTables ⟨⟨true, true, true⟩, ⟨true, true, true⟩, true⟩ (some editedConfig) none).2 =
        some editedConfig :=
  (copyTables_keeps_iff _ editedConfig none (by decide)).mpr (Or.inl ⟨rfl, rfl, rfl⟩)

/-- With no memory for the buffer the snapshot replaces a car's tables by the
empty ones, and reports success. -/
theorem not_copyTables_keeps :
    ¬ ∀ (calls : CopyCalls) (text : List Char) (dst : Option (List Char)), text ≠ [] →
      (copyTables calls (some text) dst).2 = dst ∨
        (copyTables calls (some text) dst).2 = some text := by
  intro h
  have hlost := h ⟨⟨true, false, true⟩, ⟨true, true, true⟩, true⟩ editedConfig
    (some editedConfig) (by decide)
  revert hlost
  decide

end Meatpi
