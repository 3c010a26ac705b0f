import Meatpi.Autopid.DtcCodec
import Mathlib.Data.Nat.Digits.Defs

/-!
# The active codes of a J1939 network (`autopid_dtc_j1939.c`, `j1939_dm_core.c`)

The controllers' latest DM1 messages are the network: `heard` says which source
addresses sent frames, `dm1` what the message cache holds of each. The codes of
all of them go through a table of sources and two code tables, each of a fixed
size (`presentCodes_eq`).
-/

namespace Meatpi

open List

def dmSourcesMax : ℕ := 16

def j1939AddrNull : ℕ := 254

def spnNa : ℕ := 0x7FFFF
def fmiNa : ℕ := 31

def j1939DtcTextLen : ℕ := 16

structure J1939Dtc where
  spn : ℕ
  fmi : ℕ
  oc : ℕ
  cm : Bool

/-- One record of a DM1 message. -/
def dmRecord (p0 p1 p2 p3 : UInt8) : J1939Dtc where
  spn := p0.toNat + 256 * p1.toNat + 65536 * (p2.toNat / 32)
  fmi := p2.toNat % 32
  oc := p3.toNat % 128
  cm := decide (128 ≤ p3.toNat)

/-- The record loop of `j1939_dm_parse`: whole records only. -/
def dmRecords : List UInt8 → List J1939Dtc
  | p0 :: p1 :: p2 :: p3 :: rest =>
    let d := dmRecord p0 p1 p2 p3
    if d.spn = 0 ∧ d.fmi = 0 ∧ d.oc = 0 ∧ d.cm = false then dmRecords rest -- no trouble code
    else if d.spn = spnNa ∧ d.fmi = fmiNa then dmRecords rest -- filler
    else d :: dmRecords rest
  | _ => []

/-- The codes of a message, behind the two lamp bytes. -/
def dmCodes (p : List UInt8) : List J1939Dtc := if p.length < 2 then [] else dmRecords (p.drop 2)

/-- `j1939_dm_parse` without the lamps: the first `max` codes, and how many
there are. -/
def j1939DmParse (p : List UInt8) (max : ℕ) : List J1939Dtc × ℕ :=
  ((dmCodes p).take max, (dmCodes p).length)

def j1939DtcText (spn fmi cap : ℕ) : List Char :=
  (['S', 'P', 'N'] ++ Nat.toDigits 10 (spn % (spnNa + 1)) ++ '-' :: Nat.toDigits 10 (fmi % 32)).take
    (cap - 1)

/-- `j1939_sources`: who sent a frame, by address. -/
def j1939Sources (heard : ℕ → Bool) (max : ℕ) : List ℕ := ((List.range 256).filter heard).take max

/-- `controllers`: the sources heard, below the null address. -/
def controllers (heard : ℕ → Bool) (max : ℕ) : List ℕ :=
  (j1939Sources heard max).filter (· < j1939AddrNull)

def presentCodes (heard : ℕ → Bool) (dm1 : ℕ → Option (List UInt8)) : List (List Char) :=
  (controllers heard dmSourcesMax).foldl
    (fun out sa =>
      if apDtcMax ≤ out.length then out
      else
        match dm1 sa with
        | none => out
        | some p =>
          let (codes, count) := j1939DmParse p apDtcMax
          (codes.take count).foldl
            (fun out d =>
              let text := j1939DtcText d.spn d.fmi j1939DtcTextLen
              if apDtcMax ≤ out.length then out
              else if out.contains text then out
              else out ++ [text])
            out)
    []

/-! ## What is reported, and what is kept of it -/

/-- The texts of the codes of one controller. -/
def dm1Texts (dm1 : ℕ → Option (List UInt8)) (sa : ℕ) : List (List Char) :=
  (((dm1 sa).map dmCodes).getD []).map fun d => j1939DtcText d.spn d.fmi j1939DtcTextLen

/-- The controllers on the network, by address. -/
def dm1Controllers (heard : ℕ → Bool) : List ℕ := (List.range j1939AddrNull).filter heard

/-- Every active code of the network. -/
def reportedDm1 (heard : ℕ → Bool) (dm1 : ℕ → Option (List UInt8)) : List (List Char) :=
  (dm1Controllers heard).flatMap (dm1Texts dm1)

/-- **The codes kept**: of the controllers, the lowest addresses; of each, its
first codes; of these, the first distinct ones. -/
def keptDm1 (heard : ℕ → Bool) (dm1 : ℕ → Option (List UInt8)) : List (List Char) :=
  (((dm1Controllers heard).take dmSourcesMax).flatMap
    fun sa => (dm1Texts dm1 sa).take apDtcMax).eraseDups.take apDtcMax

theorem controllers_eq (heard : ℕ → Bool) (max : ℕ) :
    controllers heard max = (dm1Controllers heard).take max := by
  have hrange : List.range 256 = List.range j1939AddrNull ++ [254, 255] := by
    rw [range_succ, range_succ, append_assoc]
    rfl
  have hlow : ∀ sa ∈ ((List.range j1939AddrNull).filter heard).take max,
      decide (sa < j1939AddrNull) = true := by
    intro sa hsa
    simpa using (mem_filter.mp (mem_of_mem_take hsa)).1
  have hhigh : ∀ {n : ℕ}, (([254, 255].filter heard).take n).filter (· < j1939AddrNull) = [] := by
    intro n
    rw [filter_eq_nil_iff]
    intro sa hsa
    have hmem := (mem_filter.mp (mem_of_mem_take hsa)).1
    simp only [mem_cons, not_mem_nil, or_false] at hmem
    rcases hmem with rfl | rfl <;> decide
  rw [controllers, j1939Sources, hrange, filter_append, take_append, filter_append,
    filter_eq_self.mpr hlow, hhigh, append_nil, dm1Controllers]

/-- **The codes that get through.** -/
theorem presentCodes_eq (heard : ℕ → Bool) (dm1 : ℕ → Option (List UInt8)) :
    presentCodes heard dm1 = keptDm1 heard dm1 := by
  have hadd : ∀ (out : List (List Char)) (text : List Char),
      (if apDtcMax ≤ out.length then out else if out.contains text then out else out ++ [text]) =
        addDistinct apDtcMax out text := by
    intro out text
    rw [addDistinct]
    by_cases hfull : apDtcMax ≤ out.length
    · rw [if_pos hfull, if_neg (fun h => absurd h.2 (Nat.not_lt.mpr hfull))]
    · rw [if_neg hfull]
      by_cases hmem : text ∈ out
      · rw [if_pos (contains_iff_mem.mpr hmem), if_neg (fun h => absurd hmem h.1)]
      · rw [if_neg (mt contains_iff_mem.mp hmem), if_pos ⟨hmem, Nat.not_le.mp hfull⟩]
  have hstep : ∀ (out : List (List Char)) (sa : ℕ), (if apDtcMax ≤ out.length then out else
        match dm1 sa with
        | none => out
        | some p =>
          let (codes, count) := j1939DmParse p apDtcMax
          (codes.take count).foldl
            (fun out d =>
              let text := j1939DtcText d.spn d.fmi j1939DtcTextLen
              if apDtcMax ≤ out.length then out
              else if out.contains text then out
              else out ++ [text])
            out) =
        ((dm1Texts dm1 sa).take apDtcMax).foldl (addDistinct apDtcMax) out := by
    intro out sa
    split_ifs with hfull
    · rw [foldl_addDistinct_full hfull]
    · cases hp : dm1 sa with
      | none => simp [dm1Texts, hp]
      | some p =>
        simp only [j1939DmParse, dm1Texts, hp, hadd, Option.map_some, Option.getD_some,
          ← map_take, foldl_map]
        rw [take_of_length_le (length_take_le' _ _)]
  rw [presentCodes, controllers_eq]
  simp only [hstep]
  rw [← foldl_flatMap]
  exact foldl_addDistinct apDtcMax _ ([] : List (List Char))

/-! ## The texts -/

theorem isDigit_code {c : Char} (h : c.isDigit = true) : isCodeSep c = false ∧ c.toUpper = c := by
  have hrange : 48 ≤ c.toNat ∧ c.toNat ≤ 57 := by
    simpa [Char.isDigit, UInt32.le_iff_toNat_le] using h
  have hall : ∀ n < 10, isCodeSep (Char.ofNat (48 + n)) = false ∧
      (Char.ofNat (48 + n)).toUpper = Char.ofNat (48 + n) := by decide
  have hc := hall (c.toNat - 48) (by omega)
  rwa [Nat.add_sub_cancel' hrange.1, Char.ofNat_toNat] at hc

theorem j1939DtcText_isCode (spn fmi : ℕ) : IsCode (j1939DtcText spn fmi j1939DtcTextLen) := by
  apply isCode_of_all
  · simp [j1939DtcText, j1939DtcTextLen]
  · intro c hc
    have hmem := mem_of_mem_take hc
    have hdigit : ∀ {n : ℕ}, c ∈ Nat.toDigits 10 n → isCodeSep c = false ∧ c.toUpper = c :=
      fun hn => isDigit_code (Nat.isDigit_of_mem_toDigits (by decide) (by decide) hn)
    simp only [mem_append, mem_cons, not_mem_nil, or_false] at hmem
    rcases hmem with ((rfl | rfl | rfl) | hn) | rfl | hn
    · decide
    · decide
    · decide
    · exact hdigit hn
    · decide
    · exact hdigit hn

end Meatpi
