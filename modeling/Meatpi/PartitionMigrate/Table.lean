import Mathlib.Data.List.Basic
import Meatpi.Library.Numeral

/-!
# Migrating the partition table (`partition_migrate_core.c`, `partition_migrate.c`)

A boot compares the partition table in flash with the one its build carries. If they
differ only in data partitions that neither the bootloader nor the radio reads, it
writes its own over it and restarts. Anything else is left alone.
-/

namespace Meatpi

open List

variable {flash ours pad : List UInt8}

/-! ## Parsing a table -/

/-- `PM_ENTRY_LEN`, `PM_TABLE_MAX_LEN`, `PM_MAX_ENTRIES` -/
def pmEntryLen : ℕ := 32
def pmTableMaxLen : ℕ := 0xC00
def pmMaxEntries : ℕ := 16

/-- `PM_MAGIC`, `PM_MAGIC_MD5` -/
def pmMagic : ℕ := 0x50AA
def pmMagicMd5 : ℕ := 0xEBEB

/-- `pm_entry_t`; the label's sixteen bytes as the table has them -/
structure PmEntry where
  type : UInt8
  subtype : UInt8
  offset : ℕ
  size : ℕ
  flags : ℕ
  label : List UInt8
  deriving DecidableEq

/-- `rd16`, `rd32` at an offset -/
def rd16 (e : List UInt8) (off : ℕ) : ℕ := ofLeBytes ((e.drop off).take 2)
def rd32 (e : List UInt8) (off : ℕ) : ℕ := ofLeBytes ((e.drop off).take 4)

/-- The entry at the front of some bytes. -/
def pmEntryAt (e : List UInt8) : PmEntry where
  type := e.getD 2 0
  subtype := e.getD 3 0
  offset := rd32 e 4
  size := rd32 e 8
  flags := rd32 e 28
  label := (e.drop 12).take 16

/-- The loop of `pm_table_parse`, with so many entries to go before the end of the
longest table. -/
def pmTableLoop : ℕ → List UInt8 → List PmEntry → List PmEntry
  | 0, _, out => out
  | rounds + 1, buf, out =>
    if buf.length < pmEntryLen then out
    -- the MD5 entry or the blank terminator
    else if rd16 buf 0 = pmMagicMd5 ∨ rd16 buf 0 = 0xFFFF then out
    else if rd16 buf 0 ≠ pmMagic ∨ pmMaxEntries ≤ out.length ∨ rd32 buf 8 = 0 then []
    else pmTableLoop rounds (buf.drop pmEntryLen) (out ++ [pmEntryAt buf])

/-- `pm_table_parse`, with room for `PM_MAX_ENTRIES`; no entries if it returns 0 -/
def pmTableParse (buf : List UInt8) : List PmEntry :=
  pmTableLoop (pmTableMaxLen / pmEntryLen) buf []

/-! ## Comparing two tables -/

/-- `PM_TYPE_APP`, `PM_TYPE_DATA`, `PM_DATA_OTA`, `PM_DATA_PHY`, `PM_DATA_NVS` -/
def pmTypeApp : UInt8 := 0x00
def pmTypeData : UInt8 := 0x01
def pmDataOta : UInt8 := 0x00
def pmDataPhy : UInt8 := 0x01
def pmDataNvs : UInt8 := 0x02

def PmEntry.isAnchored (e : PmEntry) : Bool :=
  e.type = pmTypeApp ∨
    e.type = pmTypeData ∧
      (e.subtype = pmDataOta ∨ e.subtype = pmDataPhy ∨ e.subtype = pmDataNvs)

/-- An entry as the comparison sees it: the label ends at its first NUL. -/
def PmEntry.seen (e : PmEntry) : PmEntry := { e with label := e.label.takeWhile (· ≠ 0) }

/-- `same_entry`, with its `strcmp` -/
def sameEntry (a b : PmEntry) : Bool :=
  a.type = b.type ∧ a.subtype = b.subtype ∧ a.offset = b.offset ∧ a.size = b.size ∧
    a.flags = b.flags ∧ a.label.takeWhile (· ≠ 0) = b.label.takeWhile (· ≠ 0)

def hasEntry (list : List PmEntry) (e : PmEntry) : Bool := list.any fun x => sameEntry x e

inductive PmVerdict where
  | same
  | migrate
  | foreign
  deriving DecidableEq

/-- The entries agree, one by one. -/
def sameEntries (f o : List PmEntry) : Bool :=
  f.length = o.length ∧ (f.zip o).all fun p => sameEntry p.1 p.2

/-- Every anchored entry of one list is in the other. -/
def anchorsIn (f o : List PmEntry) : Bool := f.all fun e => ! e.isAnchored || hasEntry o e

def pmTableCompare (flash ours : List UInt8) : PmVerdict :=
  let o := pmTableParse ours
  let f := pmTableParse flash
  if o = [] then .foreign
  else if f = [] then .foreign
  else if sameEntries f o then .same
  else if ! anchorsIn f o then .foreign
  else if ! anchorsIn o f then .foreign
  else .migrate

/-! ## A boot -/

/-- `partition_migrate_result_t` -/
inductive PmResult where
  | ours
  | rewritten
  | needed
  | foreign
  | failed
  deriving DecidableEq

/-- The table's place in flash. -/
structure PmFlash where
  bytes : List UInt8
  length_eq : bytes.length = pmTableMaxLen

/-- What a boot meets: the caller's and the build's permission, memory for the buffer, what
the flash driver returns, and what the flash holds once it has erased and written. -/
structure PmBoot where
  allowRewrite : Bool
  dangerousWrite : Bool
  memory : Bool
  read : Option ℤ
  erase : Option ℤ
  write : Option ℤ
  readBack : Option ℤ
  left : PmFlash

/-- `verify` -/
def pmVerify (flash ours : List UInt8) : Bool :=
  ¬ flash.length < ours.length ∧ flash.take ours.length = ours ∧
    (flash.drop ours.length).all fun b => b = 0xFF

/-- `rewrite`: its error, and the flash after it -/
def pmRewrite (ours : List UInt8) (env : PmBoot) : Option ℤ × PmFlash :=
  match env.erase with
  | some err => (some err, env.left)
  | none =>
    match env.write with
    | some err => (some err, env.left)
    | none =>
      match env.readBack with
      | some err => (some err, env.left)
      | none => (if pmVerify env.left.bytes ours then none else some (-1), env.left)

/-- `partition_migrate_run`: the result, the error, and the flash after it -/
def partitionMigrateRun (ours : List UInt8) (env : PmBoot) (flash : PmFlash) :
    PmResult × Option ℤ × PmFlash :=
  if ours.length = 0 ∨ pmTableMaxLen < ours.length then (.failed, some 0x104, flash)
  else if ! env.memory then (.failed, some 0x101, flash)
  else
    match env.read with
    | some err => (.failed, some err, flash)
    | none =>
      match pmTableCompare flash.bytes ours with
      | .same => (.ours, none, flash)
      | .foreign => (.foreign, none, flash)
      | .migrate =>
        if ! env.allowRewrite then (.needed, none, flash)
        else if ! env.dangerousWrite then (.needed, none, flash)
        else
          let r := pmRewrite ours env
          (if r.1.isNone then .rewritten else .failed, r.1, r.2)

/-- Boot after boot of one build: their results, and the flash at the end. -/
def pmBoots (ours : List UInt8) : List PmBoot → PmFlash → List PmResult × PmFlash
  | [], flash => ([], flash)
  | env :: boots, flash =>
    let r := partitionMigrateRun ours env flash
    let rest := pmBoots ours boots r.2.2
    (r.1 :: rest.1, rest.2)

/-! ## What the verdicts mean -/

theorem sameEntry_iff {a b : PmEntry} : sameEntry a b = true ↔ a.seen = b.seen := by
  simp [sameEntry, PmEntry.seen]

theorem hasEntry_iff {list : List PmEntry} {e : PmEntry} :
    hasEntry list e = true ↔ e.seen ∈ list.map PmEntry.seen := by
  rw [hasEntry, any_eq_true, mem_map]
  simp only [sameEntry_iff]

theorem sameEntries_iff {f : List PmEntry} :
    ∀ {o : List PmEntry}, sameEntries f o = true ↔ f.map PmEntry.seen = o.map PmEntry.seen := by
  induction f with
  | nil =>
    intro o
    cases o <;> simp [sameEntries]
  | cons a f ih =>
    intro o
    cases o with
    | nil => simp [sameEntries]
    | cons b o =>
      have hrest := @ih o
      simp only [sameEntries, zip_cons_cons, all_cons, length_cons,
        Bool.and_eq_true, decide_eq_true_eq, Nat.add_right_cancel_iff, sameEntry_iff,
        map_cons, cons.injEq] at hrest ⊢
      rw [← hrest]
      exact and_left_comm

/-- The anchored entries of a table, as the comparison sees them. -/
def pmAnchors (buf : List UInt8) : List PmEntry :=
  ((pmTableParse buf).filter PmEntry.isAnchored).map PmEntry.seen

theorem mem_anchors {f : List PmEntry} {e : PmEntry} :
    e ∈ (f.filter PmEntry.isAnchored).map PmEntry.seen ↔
      e ∈ f.map PmEntry.seen ∧ e.isAnchored = true := by
  simp only [mem_map, mem_filter]
  constructor
  · rintro ⟨x, ⟨hx, hanchor⟩, rfl⟩
    exact ⟨⟨x, hx, rfl⟩, hanchor⟩
  · rintro ⟨⟨x, hx, rfl⟩, hanchor⟩
    exact ⟨x, ⟨hx, hanchor⟩, rfl⟩

theorem anchorsIn_subset {f o : List PmEntry} (h : anchorsIn f o = true) {e : PmEntry}
    (he : e ∈ (f.filter PmEntry.isAnchored).map PmEntry.seen) :
    e ∈ (o.filter PmEntry.isAnchored).map PmEntry.seen := by
  obtain ⟨x, hx, rfl⟩ := mem_map.mp he
  obtain ⟨hmem, hanchor⟩ := mem_filter.mp hx
  have hin := all_eq_true.mp h x hmem
  rw [hanchor] at hin
  exact mem_anchors.mpr ⟨hasEntry_iff.mp hin, hanchor⟩

/-- **A table to migrate has the same anchors**, both ways. -/
theorem anchors_of_migrate (h : pmTableCompare flash ours = .migrate) (e : PmEntry) :
    e ∈ pmAnchors flash ↔ e ∈ pmAnchors ours := by
  unfold pmTableCompare at h
  dsimp only at h
  split_ifs at h with ho hf hsame hfo hof
  exact ⟨anchorsIn_subset (by simpa using hfo), anchorsIn_subset (by simpa using hof)⟩

theorem ours_of_migrate (h : pmTableCompare flash ours = .migrate) : pmTableParse ours ≠ [] := by
  intro hnil
  unfold pmTableCompare at h
  rw [if_pos hnil] at h
  cases h

/-- **Two tables are the same** exactly if the build's parses and the entries agree. -/
theorem compare_same_iff :
    pmTableCompare flash ours = .same ↔ pmTableParse ours ≠ [] ∧
      (pmTableParse flash).map PmEntry.seen = (pmTableParse ours).map PmEntry.seen := by
  unfold pmTableCompare
  dsimp only
  constructor
  · intro h
    split_ifs at h with ho hf hsame
    exact ⟨ho, sameEntries_iff.mp hsame⟩
  · rintro ⟨ho, heq⟩
    have hf : pmTableParse flash ≠ [] := by
      intro hnil
      rw [hnil] at heq
      exact ho (map_eq_nil_iff.mp heq.symm)
    rw [if_neg ho, if_neg hf, if_pos (sameEntries_iff.mpr heq)]

/-! ## The rewritten table -/

theorem rd16_blank (h : ∀ b ∈ pad, b = 0xFF) (hlong : 2 ≤ pad.length) : rd16 pad 0 = 0xFFFF := by
  obtain ⟨a, pad, rfl⟩ := exists_cons_of_length_pos (Nat.lt_of_lt_of_le Nat.zero_lt_two hlong)
  obtain ⟨b, pad, rfl⟩ := exists_cons_of_length_pos (Nat.le_of_succ_le_succ hlong)
  rw [h a mem_cons_self, h b (mem_cons_of_mem _ mem_cons_self)]
  have hbytes : ofLeBytes [0xFF, 0xFF] = 0xFFFF := by decide
  exact hbytes

theorem pmTableLoop_blank (rounds : ℕ) (h : ∀ b ∈ pad, b = 0xFF) (out : List PmEntry) :
    pmTableLoop rounds pad out = out := by
  cases rounds with
  | zero => rfl
  | succ rounds =>
    rw [pmTableLoop]
    by_cases hshort : pad.length < pmEntryLen
    · rw [if_pos hshort]
    · have hlong : 2 ≤ pad.length := Nat.le_trans (by decide) (Nat.le_of_not_lt hshort)
      rw [if_neg hshort, if_pos (Or.inr (rd16_blank h hlong))]

theorem rd16_append {e : List UInt8} (h : pmEntryLen ≤ e.length) (pad : List UInt8) :
    rd16 (e ++ pad) 0 = rd16 e 0 := by
  rw [rd16, rd16, drop_zero, drop_zero, take_append_of_le_length (Nat.le_trans (by decide) h)]

theorem rd32_append {e : List UInt8} {off : ℕ} (hoff : off + 4 ≤ pmEntryLen)
    (h : pmEntryLen ≤ e.length) (pad : List UInt8) : rd32 (e ++ pad) off = rd32 e off := by
  rw [rd32, rd32, drop_append_of_le_length (by omega), take_append_of_le_length]
  rw [length_drop]
  omega

theorem pmEntryAt_append {e : List UInt8} (h : pmEntryLen ≤ e.length) (pad : List UInt8) :
    pmEntryAt (e ++ pad) = pmEntryAt e := by
  have hlen : pmEntryLen = 32 := rfl
  have hget : ∀ i, i < 32 → (e ++ pad).getD i 0 = e.getD i 0 := by
    intro i hi
    rw [getD_eq_getElem?_getD, List.getElem?_append_left (by omega), ← getD_eq_getElem?_getD]
  have hlabel : ((e ++ pad).drop 12).take 16 = (e.drop 12).take 16 := by
    rw [drop_append_of_le_length (by omega), take_append_of_le_length]
    rw [length_drop]
    omega
  rw [pmEntryAt, pmEntryAt, hget 2 (by omega), hget 3 (by omega), rd32_append (by decide) h,
    rd32_append (by decide) h, rd32_append (by decide) h, hlabel]

theorem pmTableLoop_append (hpad : ∀ b ∈ pad, b = 0xFF) (rounds : ℕ) :
    ∀ {buf : List UInt8} (out : List PmEntry), pmEntryLen ∣ buf.length →
      pmTableLoop rounds (buf ++ pad) out = pmTableLoop rounds buf out := by
  induction rounds with
  | zero => intros; rfl
  | succ rounds ih =>
    intro buf out hwhole
    by_cases hshort : buf.length < pmEntryLen
    · have hnil : buf = [] := eq_nil_of_length_eq_zero (Nat.eq_zero_of_dvd_of_lt hwhole hshort)
      rw [hnil, nil_append, pmTableLoop_blank _ hpad]
      rfl
    · have hlong : pmEntryLen ≤ buf.length := Nat.le_of_not_lt hshort
      have hmore : ¬ (buf ++ pad).length < pmEntryLen := by
        rw [length_append]
        omega
      have hdrop : pmEntryLen ∣ (buf.drop pmEntryLen).length := by
        rw [length_drop]
        exact Nat.dvd_sub hwhole (Nat.dvd_refl _)
      rw [pmTableLoop, pmTableLoop, if_neg hshort, if_neg hmore, rd16_append hlong,
        rd32_append (by decide) hlong, pmEntryAt_append hlong,
        drop_append_of_le_length hlong, ih _ hdrop]

/-- **The rewritten table parses like the build's own.** -/
theorem pmTableParse_append (hpad : ∀ b ∈ pad, b = 0xFF) (hwhole : pmEntryLen ∣ ours.length) :
    pmTableParse (ours ++ pad) = pmTableParse ours :=
  pmTableLoop_append hpad _ [] hwhole

theorem compare_rewritten (hpad : ∀ b ∈ pad, b = 0xFF) (hwhole : pmEntryLen ∣ ours.length)
    (hours : pmTableParse ours ≠ []) : pmTableCompare (ours ++ pad) ours = .same :=
  compare_same_iff.mpr ⟨hours, by rw [pmTableParse_append hpad hwhole]⟩

/-! ## Boot after boot -/

theorem pmVerify_eq_true (h : pmVerify flash ours = true) :
    ∃ pad, flash = ours ++ pad ∧ ∀ b ∈ pad, b = 0xFF := by
  obtain ⟨-, hours, hpad⟩ := of_decide_eq_true h
  refine ⟨flash.drop ours.length, ?_, fun b hb => ?_⟩
  · nth_rewrite 1 [← take_append_drop ours.length flash]
    rw [hours]
  · exact of_decide_eq_true (all_eq_true.mp hpad b hb)

theorem pmRewrite_eq_none {env : PmBoot} (h : (pmRewrite ours env).1 = none) :
    ∃ pad, (pmRewrite ours env).2.bytes = ours ++ pad ∧ ∀ b ∈ pad, b = 0xFF := by
  unfold pmRewrite at h ⊢
  cases herase : env.erase with
  | some err =>
    rw [herase] at h
    cases h
  | none =>
    rw [herase] at h
    cases hwrite : env.write with
    | some err =>
      rw [hwrite] at h
      cases h
    | none =>
      rw [hwrite] at h
      cases hread : env.readBack with
      | some err =>
        rw [hread] at h
        cases h
      | none =>
        rw [hread] at h
        by_cases hverify : pmVerify env.left.bytes ours
        · exact pmVerify_eq_true hverify
        · rw [if_neg hverify] at h
          cases h

theorem run_cases (ours : List UInt8) (env : PmBoot) (flash : PmFlash) :
    (partitionMigrateRun ours env flash).1 ≠ .rewritten ∧
        (partitionMigrateRun ours env flash).2.2 = flash ∨
      pmTableCompare flash.bytes ours = .migrate ∧ partitionMigrateRun ours env flash =
          (if (pmRewrite ours env).1.isNone then .rewritten else .failed, pmRewrite ours env) := by
  unfold partitionMigrateRun
  by_cases hlen : ours.length = 0 ∨ pmTableMaxLen < ours.length
  · rw [if_pos hlen]
    exact Or.inl ⟨PmResult.noConfusion, rfl⟩
  rw [if_neg hlen]
  by_cases hmem : (! env.memory) = true
  · rw [if_pos hmem]
    exact Or.inl ⟨PmResult.noConfusion, rfl⟩
  rw [if_neg hmem]
  cases env.read with
  | some err => exact Or.inl ⟨PmResult.noConfusion, rfl⟩
  | none =>
    cases hverdict : pmTableCompare flash.bytes ours with
    | same => exact Or.inl ⟨PmResult.noConfusion, rfl⟩
    | foreign => exact Or.inl ⟨PmResult.noConfusion, rfl⟩
    | migrate =>
      by_cases hallow : (! env.allowRewrite) = true
      · rw [if_pos hallow]
        exact Or.inl ⟨PmResult.noConfusion, rfl⟩
      rw [if_neg hallow]
      by_cases hdanger : (! env.dangerousWrite) = true
      · rw [if_pos hdanger]
        exact Or.inl ⟨PmResult.noConfusion, rfl⟩
      · rw [if_neg hdanger]
        exact Or.inr ⟨rfl, rfl⟩

theorem compare_of_rewritten (hwhole : pmEntryLen ∣ ours.length) {env : PmBoot} {flash : PmFlash}
    (h : (partitionMigrateRun ours env flash).1 = .rewritten) :
    pmTableCompare (partitionMigrateRun ours env flash).2.2.bytes ours = .same := by
  rcases run_cases ours env flash with ⟨hne, -⟩ | ⟨hverdict, hrun⟩
  · exact absurd h hne
  · rw [hrun] at h ⊢
    have hnone : (pmRewrite ours env).1 = none := by
      by_contra hsome
      rw [if_neg fun hnone => hsome (Option.isNone_iff_eq_none.mp hnone)] at h
      cases h
    obtain ⟨pad, hbytes, hpad⟩ := pmRewrite_eq_none hnone
    rw [hbytes]
    exact compare_rewritten hpad hwhole (ours_of_migrate hverdict)

theorem run_of_same (env : PmBoot) {flash : PmFlash} (h : pmTableCompare flash.bytes ours = .same) :
    (partitionMigrateRun ours env flash).1 ≠ .rewritten ∧
      (partitionMigrateRun ours env flash).2.2 = flash := by
  rcases run_cases ours env flash with hkeep | ⟨hverdict, -⟩
  · exact hkeep
  · rw [h] at hverdict
    cases hverdict

theorem pmBoots_of_same {flash : PmFlash} (h : pmTableCompare flash.bytes ours = .same)
    (boots : List PmBoot) :
    (pmBoots ours boots flash).1.count .rewritten = 0 ∧ (pmBoots ours boots flash).2 = flash := by
  induction boots with
  | nil => exact ⟨rfl, rfl⟩
  | cons env boots ih =>
    obtain ⟨hresult, hflash⟩ := run_of_same env h
    rw [pmBoots, hflash]
    refine ⟨?_, ih.2⟩
    rw [count_cons_of_ne hresult, ih.1]

/-- **No build rewrites the table twice.** -/
theorem pmBoots_once (hwhole : pmEntryLen ∣ ours.length) (boots : List PmBoot) :
    ∀ flash, (pmBoots ours boots flash).1.count .rewritten ≤ 1 := by
  induction boots with
  | nil => exact fun _ => Nat.zero_le _
  | cons env boots ih =>
    intro flash
    rw [pmBoots]
    by_cases hresult : (partitionMigrateRun ours env flash).1 = .rewritten
    · have hsame := compare_of_rewritten hwhole hresult
      rw [hresult, count_cons_self, (pmBoots_of_same hsame boots).1]
    · rw [count_cons_of_ne hresult]
      exact ih _

/-- **The migration is safe and happens once.** -/
theorem pm_migration {ours : List UInt8} (hwhole : pmEntryLen ∣ ours.length) :
    (∀ flash, pmTableCompare flash ours = .migrate →
        ∀ e, e ∈ pmAnchors flash ↔ e ∈ pmAnchors ours) ∧
      (∀ flash, pmTableCompare flash ours = .same ↔ pmTableParse ours ≠ [] ∧
        (pmTableParse flash).map PmEntry.seen = (pmTableParse ours).map PmEntry.seen) ∧
      (pmTableParse ours ≠ [] → ∀ n, pmTableCompare (ours ++ List.replicate n 0xFF) ours = .same) ∧
      ∀ boots flash, (pmBoots ours boots flash).1.count .rewritten ≤ 1 :=
  ⟨fun _ => anchors_of_migrate, fun _ => compare_same_iff,
    fun hours _ => compare_rewritten (fun _ => eq_of_mem_replicate) hwhole hours,
    fun boots => pmBoots_once hwhole boots⟩

/-- An entry of that type and subtype, of one sector at 0x10000. -/
def pmSampleEntry (type subtype : UInt8) : List UInt8 :=
  [0xAA, 0x50, type, subtype, 0, 0, 1, 0, 0, 0x10, 0, 0] ++ List.replicate 16 0x61 ++ [0, 0, 0, 0]

/-- A table of those entries. -/
def pmSampleTable (entries : List (UInt8 × UInt8)) : List UInt8 :=
  (entries.flatMap fun e => pmSampleEntry e.1 e.2) ++ List.replicate 32 0xFF

/-- A build with an app slot and a file system, on a device that has the app slot only. -/
theorem pm_migration_sample :
    (pmTableCompare (pmSampleTable [(0, 0x10), (1, 0x82)] ++ List.replicate 2976 0xFF)
        (pmSampleTable [(0, 0x10), (1, 0x82)]) = .same) ∧
      ∀ e, e ∈ pmAnchors (pmSampleTable [(0, 0x10)]) ↔
        e ∈ pmAnchors (pmSampleTable [(0, 0x10), (1, 0x82)]) := by
  have hwhole : pmEntryLen ∣ (pmSampleTable [(0, 0x10), (1, 0x82)]).length := by decide
  have h := pm_migration hwhole
  exact ⟨h.2.2.1 (by decide +kernel) _, h.1 (pmSampleTable [(0, 0x10)]) (by decide +kernel)⟩

/-- Two tables without an entry parse alike, and neither is the other's own. -/
theorem compare_empty :
    pmEntryLen ∣ (List.replicate 32 (0xFF : UInt8)).length ∧
      pmTableParse (List.replicate 32 0xFF) = [] ∧
      pmTableCompare (List.replicate 32 0xFF) (List.replicate 32 0xFF) = .foreign ∧
      pmTableCompare (List.replicate 32 0xFF ++ List.replicate 64 0xFF) (List.replicate 32 0xFF) =
        .foreign := by
  decide +kernel

end Meatpi
