import Mathlib.Algebra.Order.Field.Rat
import Meatpi.Library.Numeral

/-!
# The values of J1939-71

The built-in value table and its decode. A value is a run of bits, the least
significant byte first, and is `raw * scale + offset`; the top of the raw range is
not data. Scale and offset are exact numbers.
-/

namespace Meatpi

/-- `j1939_spn_t`: where a value lies and what it is decoded by. -/
structure J1939Spn where
  name : String
  /-- the first data byte, from 0 -/
  byte : ℕ
  /-- the first bit in that byte, 0 the least significant -/
  bit : ℕ
  /-- the length -/
  bits : ℕ
  scale : ℚ
  offset : ℚ
  byte_lt : byte < 2 ^ 8 := by decide
  bit_lt : bit < 2 ^ 8 := by decide
  bits_lt : bits < 2 ^ 8 := by decide

inductive J1939Raw where
  | valid
  | specific
  | reserved
  | error
  | notAvailable
  | short
  deriving DecidableEq

def j1939RawClass (raw bits : ℕ) : J1939Raw :=
  if 8 ≤ bits ∧ bits ≤ 32 then
    let top := raw / 2 ^ (bits - 8) % 2 ^ 8
    if top = 0xFF then .notAvailable
    else if top = 0xFE then .error
    else if top = 0xFD ∨ top = 0xFC then .reserved
    else if top = 0xFB then .specific
    else .valid
  else if 2 ≤ bits ∧ bits < 8 then
    let ones := 2 ^ bits - 1
    if raw % 2 ^ bits = ones then .notAvailable
    else if raw % 2 ^ bits = ones - 1 then .error
    else .valid
  else .valid

/-- `j1939_spn_decode`, with the value when it is one. -/
def j1939SpnDecode (spn : J1939Spn) (data : List UInt8) : J1939Raw × Option ℚ :=
  if spn.bits = 0 ∨ 32 < spn.bits then (.short, none)
  else
    let first := spn.byte * 8 + spn.bit
    let bytes := (first + spn.bits + 7) / 8 -- payload bytes needed
    if data.length < bytes then (.short, none)
    else
      -- least significant byte first: gather, shift, mask (a shift by 64 and more is undefined)
      let acc := ofLeBytes ((data.take bytes).drop spn.byte) % 2 ^ 64
      let raw := acc / 2 ^ spn.bit % 2 ^ spn.bits
      let cls := j1939RawClass raw spn.bits
      (cls, if cls = .valid then some (raw * spn.scale + spn.offset) else none)

/-! ## The built-in table -/

def spn8 (name : String) (b : ℕ) (scale off : ℚ) (h : b < 2 ^ 8 := by decide) : J1939Spn :=
  ⟨name, b, 0, 8, scale, off, h, by decide, by decide⟩

def spn16 (name : String) (b : ℕ) (scale off : ℚ) (h : b < 2 ^ 8 := by decide) : J1939Spn :=
  ⟨name, b, 0, 16, scale, off, h, by decide, by decide⟩

def spn32 (name : String) (b : ℕ) (scale off : ℚ) (h : b < 2 ^ 8 := by decide) : J1939Spn :=
  ⟨name, b, 0, 32, scale, off, h, by decide, by decide⟩

/-- `TABLE` -/
def spnTable : List J1939Spn := [
  spn16 "EngineSpeed" 3 0.125 0,
  spn8 "ActualEnginePercentTorque" 2 1 (-125),
  spn8 "AccelPedalPosition1" 1 0.4 0,
  spn8 "EnginePercentLoad" 2 1 0,
  spn8 "TransCurrentGear" 3 1 (-125),
  spn16 "WheelBasedVehicleSpeed" 1 (1 / 256) 0,
  spn8 "EngineCoolantTemperature" 0 1 (-40),
  spn16 "EngineOilTemperature" 2 0.03125 (-273),
  spn8 "EngineOilPressure" 3 4 0,
  spn8 "IntakeManifoldPressure" 1 2 0,
  spn8 "IntakeManifoldTemperature" 2 1 (-40),
  spn8 "BarometricPressure" 0 0.5 0,
  spn16 "AmbientAirTemperature" 3 0.03125 (-273),
  spn16 "BatteryPotential" 4 0.05 0,
  spn16 "FuelRate" 0 0.05 0,
  spn8 "FuelLevel1" 1 0.4 0,
  spn8 "DEFTankLevel" 0 0.4 0,
  spn32 "TotalVehicleDistanceHR" 0 0.005 0,
  spn32 "TotalVehicleDistance" 4 0.125 0,
  spn32 "EngineTotalHours" 0 0.05 0,
  spn32 "EngineTotalFuelUsed" 4 0.5 0]

/-! ## What is data -/

theorem j1939RawClass_least {raw : ℕ} (h : raw < 2) (bits : ℕ) :
    j1939RawClass raw bits = .valid := by
  rw [j1939RawClass]
  split_ifs with hwide hnarrow
  · have htop : raw / 2 ^ (bits - 8) % 2 ^ 8 < 2 :=
      (Nat.mod_le _ _).trans_lt ((Nat.div_le_self _ _).trans_lt h)
    dsimp only
    split_ifs <;> first | rfl | omega
  · have hones : 2 ^ 2 ≤ 2 ^ bits := Nat.pow_le_pow_right (by decide) hnarrow.1
    have hraw : raw % 2 ^ bits < 2 := (Nat.mod_le _ _).trans_lt h
    dsimp only
    split_ifs <;> first | rfl | omega
  · rfl

/-- The payload bytes a value needs, and its raw value there. -/
def spnBytes (spn : J1939Spn) : ℕ := (spn.byte * 8 + spn.bit + spn.bits + 7) / 8

def spnRaw (spn : J1939Spn) (data : List UInt8) : ℕ :=
  ofLeBytes ((data.take (spnBytes spn)).drop spn.byte) % 2 ^ 64 / 2 ^ spn.bit % 2 ^ spn.bits

/-- **A payload holds a value** when it is long enough and the raw value is data. -/
theorem j1939SpnDecode_valid_iff {spn : J1939Spn} (hpos : spn.bits ≠ 0) (hle : spn.bits ≤ 32)
    {data : List UInt8} {value : ℚ} : j1939SpnDecode spn data = (.valid, some value) ↔
      spnBytes spn ≤ data.length ∧ j1939RawClass (spnRaw spn data) spn.bits = .valid ∧
        spnRaw spn data * spn.scale + spn.offset = value := by
  have hdecode : j1939SpnDecode spn data = if data.length < spnBytes spn then (.short, none)
      else (j1939RawClass (spnRaw spn data) spn.bits,
        if j1939RawClass (spnRaw spn data) spn.bits = .valid then
          some (spnRaw spn data * spn.scale + spn.offset) else none) := by
    rw [j1939SpnDecode, if_neg (by omega)]
    rfl
  rw [hdecode]
  split_ifs with hshort hvalid
  · simp [Nat.not_le.mpr hshort]
  · simp [hvalid, Nat.not_lt.mp hshort]
  · simp [hvalid]

end Meatpi
