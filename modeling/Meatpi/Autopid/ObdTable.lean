import Meatpi.Library.Decimal

/-!
# The standard parameters of OBD-II

The table of `obd2_standard_pids.h`: what the answer to a PID holds. A value lies in
whole bytes behind a start bit, counted in the frame as the chip prints it
(PCI, mode, PID, A, B, ..), and is `raw * scale + offset`. The numbers are the values
of the `float`s.
-/

namespace Meatpi

structure StdParameter where
  name : String
  unit : String
  scale : ℚ
  offset : ℚ
  min : ℚ
  max : ℚ
  bitStart : ℕ
  bitLength : ℕ
  deriving DecidableEq

/-- A row as it is written: every number is a `float` literal. -/
def stdRow (name unit : String) (scale offset min max : ℚ) (bitStart bitLength : ℕ) :
    StdParameter :=
  ⟨name, unit, floatOf scale, floatOf offset, floatOf min, floatOf max, bitStart, bitLength⟩

/-- `pid_array`, the entries with a name. -/
def pidArray : List (UInt8 × List StdParameter) := [
  (0x00, [stdRow "PIDsSupported_01_20" "Encoded" 1 0 0 0 31 32]),
  (0x01, [stdRow "MonitorStatus" "Encoded" 1 0 0 0 31 32]),
  (0x02, [stdRow "FreezeDTC" "Encoded" 1 0 0 0 31 16]),
  (0x03, [stdRow "FuelSystemStatus" "Encoded" 1 0 0 0 31 16]),
  (0x04, [stdRow "CalcEngineLoad" "%" 0.3921568627 0 0 100 31 8]),
  (0x05, [stdRow "EngineCoolantTemp" "degC" 1 (-40) (-40) 215 31 8]),
  (0x06, [stdRow "ShortFuelTrimBank1" "%" 0.78125 (-100) (-100) 99.21875 31 8]),
  (0x07, [stdRow "LongFuelTrimBank1" "%" 0.78125 (-100) (-100) 99.21875 31 8]),
  (0x08, [stdRow "ShortFuelTrimBank2" "%" 0.78125 (-100) (-100) 99.21875 31 8]),
  (0x09, [stdRow "LongFuelTrimBank2" "%" 0.78125 (-100) (-100) 99.21875 31 8]),
  (0x0A, [stdRow "FuelPressure" "kPa" 3 0 0 765 31 8]),
  (0x0B, [stdRow "IntakeManiAbsPress" "kPa" 1 0 0 255 31 8]),
  (0x0C, [stdRow "EngineRPM" "rpm" 0.25 0 0 16384 31 16]),
  (0x0D, [stdRow "VehicleSpeed" "km/h" 1 0 0 255 31 8]),
  (0x0E, [stdRow "TimingAdvance" "deg" 0.5 (-64) (-64) 64 31 8]),
  (0x0F, [stdRow "IntakeAirTemperature" "degC" 1 (-40) (-40) 215 31 8]),
  (0x10, [stdRow "MAFAirFlowRate" "grams/sec" 0.01 0 0 655.35 31 16]),
  (0x11, [stdRow "ThrottlePosition" "%" 0.3921568627 0 0 100 31 8]),
  (0x12, [stdRow "CmdSecAirStatus" "Encoded" 1 0 0 0 31 8]),
  (0x13, [stdRow "OxySensorsPresent_2Banks" "none" 1 0 0 0 0 0]),
  (0x14, [
    stdRow "OxySensor1_Volt" "volts" 0.005 0 0 1.275 31 8,
    stdRow "OxySensor1_STFT" "%" 0.78125 (-100) (-100) 99.21875 39 8]),
  (0x15, [
    stdRow "OxySensor2_Volt" "volts" 0.005 0 0 1.275 31 8,
    stdRow "OxySensor2_STFT" "%" 0.78125 (-100) (-100) 99.21875 39 8]),
  (0x16, [
    stdRow "OxySensor3_Volt" "volts" 0.005 0 0 1.275 31 8,
    stdRow "OxySensor3_STFT" "%" 0.78125 (-100) (-100) 99.21875 39 8]),
  (0x17, [
    stdRow "OxySensor4_Volt" "volts" 0.005 0 0 1.275 31 8,
    stdRow "OxySensor4_STFT" "%" 0.78125 (-100) (-100) 99.21875 39 8]),
  (0x18, [
    stdRow "OxySensor5_Volt" "volts" 0.005 0 0 1.275 31 8,
    stdRow "OxySensor5_STFT" "%" 0.78125 (-100) (-100) 99.21875 39 8]),
  (0x19, [
    stdRow "OxySensor6_Volt" "volts" 0.005 0 0 1.275 31 8,
    stdRow "OxySensor6_STFT" "%" 0.78125 (-100) (-100) 99.21875 39 8]),
  (0x1A, [
    stdRow "OxySensor7_Volt" "volts" 0.005 0 0 1.275 31 8,
    stdRow "OxySensor7_STFT" "%" 0.78125 (-100) (-100) 99.21875 39 8]),
  (0x1B, [
    stdRow "OxySensor8_Volt" "volts" 0.005 0 0 1.275 31 8,
    stdRow "OxySensor8_STFT" "%" 0.78125 (-100) (-100) 99.21875 39 8]),
  (0x1C, [stdRow "OBDStandard" "Encoded" 1 0 0 0 31 8]),
  (0x1D, [stdRow "OxySensorsPresent_4Banks" "none" 1 0 0 0 0 0]),
  (0x1E, [stdRow "AuxiliaryInputStatus" "none" 1 0 0 0 0 0]),
  (0x1F, [stdRow "TimeSinceEngStart" "seconds" 1 0 0 65535 31 16]),
  (0x20, [stdRow "PIDsSupported_21_40" "Encoded" 1 0 0 0 31 32]),
  (0x21, [stdRow "DistanceMILOn" "km" 1 0 0 65535 31 16]),
  (0x22, [stdRow "FuelRailPres" "kPa" 0.079 0 0 5177.265 31 16]),
  (0x23, [stdRow "FuelRailGaug" "kPa" 10 0 0 655350 31 16]),
  (0x24, [
    stdRow "OxySensor1_WR_FAER" "ratio" 3.051757813e-05 0 0 2 31 16,
    stdRow "OxySensor1_WR_Volt" "volts" 0.0001220703125 0 0 8 47 16]),
  (0x25, [
    stdRow "OxySensor2_WR_FAER" "ratio" 3.051757813e-05 0 0 2 31 16,
    stdRow "OxySensor2_WR_Volt" "volts" 0.0001220703125 0 0 8 47 16]),
  (0x26, [
    stdRow "OxySensor3_WR_FAER" "ratio" 3.051757813e-05 0 0 2 31 16,
    stdRow "OxySensor3_WR_Volt" "volts" 0.0001220703125 0 0 8 47 16]),
  (0x27, [
    stdRow "OxySensor4_WR_FAER" "ratio" 3.051757813e-05 0 0 2 31 16,
    stdRow "OxySensor4_WR_Volt" "volts" 0.0001220703125 0 0 8 47 16]),
  (0x28, [
    stdRow "OxySensor5_WR_FAER" "ratio" 3.051757813e-05 0 0 2 31 16,
    stdRow "OxySensor5_WR_Volt" "volts" 0.0001220703125 0 0 8 47 16]),
  (0x29, [
    stdRow "OxySensor6_WR_FAER" "ratio" 3.051757813e-05 0 0 2 31 16,
    stdRow "OxySensor6_WR_Volt" "volts" 0.0001220703125 0 0 8 47 16]),
  (0x2A, [
    stdRow "OxySensor7_WR_FAER" "ratio" 3.051757813e-05 0 0 2 31 16,
    stdRow "OxySensor7_WR_Volt" "volts" 0.0001220703125 0 0 8 47 16]),
  (0x2B, [
    stdRow "OxySensor8_WR_FAER" "ratio" 3.051757813e-05 0 0 2 31 16,
    stdRow "OxySensor8_WR_Volt" "volts" 0.0001220703125 0 0 8 47 16]),
  (0x2C, [stdRow "CmdEGR" "%" 0.3921568627 0 0 100 31 8]),
  (0x2D, [stdRow "EGRError" "%" 0.78125 (-100) (-100) 99.21875 31 8]),
  (0x2E, [stdRow "CmdEvapPurge" "%" 0.3921568627 0 0 100 31 8]),
  (0x2F, [stdRow "FuelTankLevel" "%" 0.3921568627 0 0 100 31 8]),
  (0x30, [stdRow "WarmUpsSinceCodeClear" "count" 1 0 0 255 31 8]),
  (0x31, [stdRow "DistanceSinceCodeClear" "km" 1 0 0 65535 31 16]),
  (0x32, [stdRow "EvapSysVaporPres" "Pa" 0.25 0 (-8192) 8192 31 16]),
  (0x33, [stdRow "AbsBaroPres" "kPa" 1 0 0 255 31 8]),
  (0x34, [
    stdRow "OxySensor1_WRC_FAER" "ratio" 3.051757813e-05 0 0 2 31 16,
    stdRow "OxySensor1_Crnt" "mA" 0.00390625 (-128) (-128) 128 47 16]),
  (0x35, [
    stdRow "OxySensor2_WRC_FAER" "ratio" 3.051757813e-05 0 0 2 31 16,
    stdRow "OxySensor2_Crnt" "mA" 0.00390625 (-128) (-128) 128 47 16]),
  (0x36, [
    stdRow "OxySensor3_WRC_FAER" "ratio" 3.051757813e-05 0 0 2 31 16,
    stdRow "OxySensor3_Crnt" "mA" 0.00390625 (-128) (-128) 128 47 16]),
  (0x37, [
    stdRow "OxySensor4_WRC_FAER" "ratio" 3.051757813e-05 0 0 2 31 16,
    stdRow "OxySensor4_Crnt" "mA" 0.00390625 (-128) (-128) 128 47 16]),
  (0x38, [
    stdRow "OxySensor5_WRC_FAER" "ratio" 3.051757813e-05 0 0 2 31 16,
    stdRow "OxySensor5_Crnt" "mA" 0.00390625 (-128) (-128) 128 47 16]),
  (0x39, [
    stdRow "OxySensor6_WRC_FAER" "ratio" 3.051757813e-05 0 0 2 31 16,
    stdRow "OxySensor6_Crnt" "mA" 0.00390625 (-128) (-128) 128 47 16]),
  (0x3A, [
    stdRow "OxySensor7_WRC_FAER" "ratio" 3.051757813e-05 0 0 2 31 16,
    stdRow "OxySensor7_Crnt" "mA" 0.00390625 (-128) (-128) 128 47 16]),
  (0x3B, [
    stdRow "OxySensor8_WRC_FAER" "ratio" 3.051757813e-05 0 0 2 31 16,
    stdRow "OxySensor8_Crnt" "mA" 0.00390625 (-128) (-128) 128 47 16]),
  (0x3C, [stdRow "CatTempBank1Sens1" "degC" 0.1 (-40) (-40) 6514 31 16]),
  (0x3D, [stdRow "CatTempBank2Sens1" "degC" 0.1 (-40) (-40) 6514 31 16]),
  (0x3E, [stdRow "CatTempBank1Sens2" "degC" 0.1 (-40) (-40) 6514 31 16]),
  (0x3F, [stdRow "CatTempBank2Sens2" "degC" 0.1 (-40) (-40) 6514 31 16]),
  (0x40, [stdRow "PIDsSupported_41_60" "Encoded" 1 0 0 0 31 32]),
  (0x41, [stdRow "MonStatusDriveCycle" "Encoded" 1 0 0 0 31 32]),
  (0x42, [stdRow "ControlModuleVolt" "V" 0.001 0 0 66 31 16]),
  (0x43, [stdRow "AbsLoadValue" "%" 0.3921568627 0 0 25700 31 16]),
  (0x44, [stdRow "FuelAirCmdEquiv" "ratio" 3.051757813e-05 0 0 2 31 16]),
  (0x45, [stdRow "RelThrottlePos" "%" 0.3921568627 0 0 100 31 8]),
  (0x46, [stdRow "AmbientAirTemp" "degC" 1 (-40) (-40) 215 31 8]),
  (0x47, [stdRow "AbsThrottlePosB" "%" 0.3921568627 0 0 100 31 8]),
  (0x48, [stdRow "AbsThrottlePosC" "%" 0.3921568627 0 0 100 31 8]),
  (0x49, [stdRow "AbsThrottlePosD" "%" 0.3921568627 0 0 100 31 8]),
  (0x4A, [stdRow "AbsThrottlePosE" "%" 0.3921568627 0 0 100 31 8]),
  (0x4B, [stdRow "AbsThrottlePosF" "%" 0.3921568627 0 0 100 31 8]),
  (0x4C, [stdRow "CmdThrottleAct" "%" 0.3921568627 0 0 100 31 8]),
  (0x4D, [stdRow "TimeRunMILOn" "minutes" 1 0 0 65535 31 16]),
  (0x4E, [stdRow "TimeSinceCodeClear" "minutes" 1 0 0 65535 31 16]),
  (0x4F, [
    stdRow "Max_FAER" "ratio" 1 0 0 255 31 8,
    stdRow "Max_OxySensVol" "V" 1 0 0 255 39 8,
    stdRow "Max_OxySensCrnt" "mA" 1 0 0 255 47 8,
    stdRow "Max_IntManiAbsPres" "kPa" 10 0 0 2550 55 8]),
  (0x50, [stdRow "Max_AirFlowMAF" "g/s" 10 0 0 2550 31 8]),
  (0x51, [stdRow "FuelType" "Encoded" 1 0 0 0 31 8]),
  (0x52, [stdRow "EthanolFuelPct" "%" 0.3921568627 0 0 100 31 8]),
  (0x53, [stdRow "AbsEvapSysVapPres" "kPa" 0.005 0 0 328 31 16]),
  (0x54, [stdRow "EvapSysVapPres" "Pa" 1 (-32767) (-32767) 32768 31 16]),
  (0x55, [
    stdRow "ShortSecOxyTrimBank1" "%" 0.78125 (-100) (-100) 99.21875 31 8,
    stdRow "ShortSecOxyTrimBank3" "%" 0.78125 (-100) (-100) 99.21875 39 8]),
  (0x56, [
    stdRow "LongSecOxyTrimBank1" "%" 0.78125 (-100) (-100) 99.21875 31 8,
    stdRow "LongSecOxyTrimBank3" "%" 0.78125 (-100) (-100) 99.21875 39 8]),
  (0x57, [
    stdRow "ShortSecOxyTrimBank2" "%" 0.78125 (-100) (-100) 99.21875 31 8,
    stdRow "ShortSecOxyTrimBank4" "%" 0.78125 (-100) (-100) 99.21875 39 8]),
  (0x58, [
    stdRow "LongSecOxyTrimBank2" "%" 0.78125 (-100) (-100) 99.21875 31 8,
    stdRow "LongSecOxyTrimBank4" "%" 0.78125 (-100) (-100) 99.21875 39 8]),
  (0x59, [stdRow "FuelRailAbsPres" "kPa" 10 0 0 655350 31 16]),
  (0x5A, [stdRow "RelAccelPedalPos" "%" 0.3921568627 0 0 100 31 8]),
  (0x5B, [stdRow "HybrBatPackRemLife" "%" 0.3921568627 0 0 100 31 8]),
  (0x5C, [stdRow "EngineOilTemp" "degC" 1 (-40) (-40) 215 31 8]),
  (0x5D, [stdRow "FuelInjectionTiming" "deg" 0.0078125 (-210) (-210) 302 31 16]),
  (0x5E, [stdRow "EngineFuelRate" "L/h" 0.05 0 0 3277 31 16]),
  (0x5F, [stdRow "EmissionReq" "Encoded" 1 0 0 0 31 8]),
  (0x60, [stdRow "PIDsSupported_61_80" "Encoded" 1 0 0 0 31 32]),
  (0x61, [stdRow "DemandEngTorqPct" "%" 1 (-125) (-125) 130 31 8]),
  (0x62, [stdRow "ActualEngTorqPct" "%" 1 (-125) (-125) 130 31 8]),
  (0x63, [stdRow "EngRefTorq" "Nm" 1 0 0 65535 31 16]),
  (0x64, [
    stdRow "EngPctTorq_Idle" "%" 1 (-125) (-125) 130 31 8,
    stdRow "EngPctTorq_EP1" "%" 1 (-125) (-125) 130 39 8,
    stdRow "EngPctTorq_EP2" "%" 1 (-125) (-125) 130 47 8,
    stdRow "EngPctTorq_EP3" "%" 1 (-125) (-125) 130 55 8,
    stdRow "EngPctTorq_EP4" "%" 1 (-125) (-125) 130 63 8]),
  (0x65, [stdRow "AuxInputOutput" "Encoded" 1 0 0 0 31 8]),
  (0x66, [
    stdRow "MAFSensorA" "grams/sec" 0.03125 0 0 2048 39 16,
    stdRow "MAFSensorB" "grams/sec" 0.03125 0 0 2048 55 16]),
  (0x67, [
    stdRow "EngineCoolantTemp1" "degC" 1 (-40) (-40) 215 39 8,
    stdRow "EngineCoolantTemp2" "degC" 1 (-40) (-40) 215 47 8]),
  (0x68, [
    stdRow "IntakeAirTempSens1" "degC" 1 (-40) (-40) 215 39 8,
    stdRow "IntakeAirTempSens2" "degC" 1 (-40) (-40) 215 47 8]),
  (0x69, [stdRow "CmdEGR_EGRError" "none" 1 0 0 0 0 0]),
  (0x6A, [stdRow "CmdDieselIntAir" "none" 1 0 0 0 0 0]),
  (0x6B, [stdRow "ExhaustGasTemp" "none" 1 0 0 0 0 0]),
  (0x6C, [stdRow "CmdThrottleActRel" "none" 1 0 0 0 0 0]),
  (0x6D, [stdRow "FuelPresContrSys" "none" 1 0 0 0 0 0]),
  (0x6E, [stdRow "InjPresContrSys" "none" 1 0 0 0 0 0]),
  (0x6F, [stdRow "TurboComprPres" "none" 1 0 0 0 0 0]),
  (0x70, [stdRow "BoostPresCntrl" "none" 1 0 0 0 0 0]),
  (0x71, [stdRow "VariableGeoTurboVGTCtr" "none" 1 0 0 0 0 0]),
  (0x72, [stdRow "WastegateControl" "none" 1 0 0 0 0 0]),
  (0x73, [stdRow "ExhaustPressure" "none" 1 0 0 0 0 0]),
  (0x74, [stdRow "TurbochargerRpm" "none" 1 0 0 0 0 0]),
  (0x75, [stdRow "TurbochargerTemperature" "none" 1 0 0 0 0 0]),
  (0x76, [stdRow "TurbochargerB_Temperature" "none" 1 0 0 0 0 0]),
  (0x77, [stdRow "ChargeAirCoolerTemperature" "none" 1 0 0 0 0 0]),
  (0x78, [stdRow "EGT_Bank1" "none" 1 0 0 0 0 0]),
  (0x79, [stdRow "EGT_Bank2" "none" 1 0 0 0 0 0]),
  (0x7A, [stdRow "DPF_DifferentialPressure" "none" 1 0 0 0 0 0]),
  (0x7B, [stdRow "DPF" "none" 1 0 0 0 0 0]),
  (0x7C, [stdRow "DPF_Temperature" "degC" 0.1 (-40) (-40) 6514 31 16]),
  (0x7D, [stdRow "NOx_NTE_ControlAreaStatus" "none" 1 0 0 0 0 0]),
  (0x7E, [stdRow "PM_NTE_ControlAreaStatus" "none" 1 0 0 0 0 0]),
  (0x7F, [stdRow "EngineRunTime" "seconds" 1 0 0 0 0 0]),
  (0x80, [stdRow "PIDsSupported_81_A0" "Encoded" 1 0 0 0 31 32]),
  (0x81, [stdRow "EngineRunTime_AECD" "none" 1 0 0 0 0 0]),
  (0x82, [stdRow "EngineRunTime_AECD_6_10" "none" 1 0 0 0 0 0]),
  (0x83, [stdRow "NOxSensor" "none" 1 0 0 0 0 0]),
  (0x84, [stdRow "ManifoldSurfaceTemperature" "none" 1 0 0 0 0 0]),
  (0x85, [stdRow "NOxReagentSystem" "none" 1 0 0 0 0 0]),
  (0x86, [stdRow "PM_Sensor" "none" 1 0 0 0 0 0]),
  (0x87, [stdRow "IntakeManifoldAbsolutePressure" "none" 1 0 0 0 0 0]),
  (0x88, [stdRow "SCR_InduceSystem" "none" 1 0 0 0 0 0]),
  (0x89, [stdRow "RunTimeForAECD_11_15" "none" 1 0 0 0 0 0]),
  (0x8A, [stdRow "RunTimeForAECD_16_20" "none" 1 0 0 0 0 0]),
  (0x8B, [stdRow "DieselAftertreatment" "none" 1 0 0 0 0 0]),
  (0x8C, [stdRow "O2Sensor_WideRange" "none" 1 0 0 0 0 0]),
  (0x8D, [stdRow "ThrottlePositionG" "%" 0.3921568627 0 0 100 31 8]),
  (0x8E, [stdRow "EngineFrictionPercentTorque" "%" 1 (-125) (-125) 130 31 8]),
  (0x8F, [stdRow "PMSensorBank1_2" "none" 1 0 0 0 0 0]),
  (0x90, [stdRow "WWH_OBD_SysInfo" "hours" 1 0 0 0 0 0]),
  (0x91, [stdRow "WWH_OBD_SysInfo_2" "hours" 1 0 0 0 0 0]),
  (0x92, [stdRow "FuelSystemControl" "none" 1 0 0 0 0 0]),
  (0x93, [stdRow "WWH_OBD_CtrSupport" "hours" 1 0 0 0 0 0]),
  (0x94, [stdRow "NOxWarningInducementSys" "none" 1 0 0 0 0 0]),
  (0x98, [stdRow "EGT_Sensor" "none" 1 0 0 0 0 0]),
  (0x99, [stdRow "EGT_Sensor_Bank2" "none" 1 0 0 0 0 0]),
  (0x9A, [stdRow "Hybrid_EV_System" "none" 1 0 0 0 0 0]),
  (0x9B, [stdRow "DieselExhaustFluidSensorData" "%" 0.3921 0 0 100 55 8]),
  (0x9C, [stdRow "O2SensorData" "none" 1 0 0 0 0 0]),
  (0x9D, [stdRow "EngineFuelRate_gs" "g/s" 1 0 0 0 0 0]),
  (0x9E, [stdRow "EngineExhaustFlowRate" "kg/h" 1 0 0 0 0 0]),
  (0x9F, [stdRow "FuelSystemPercentageUse" "none" 1 0 0 0 0 0]),
  (0xA0, [stdRow "PIDsSupported_A1_C0" "Encoded" 1 0 0 0 31 32]),
  (0xA1, [stdRow "NOxSensorCorrectedData" "ppm" 1 0 0 0 0 0]),
  (0xA2, [stdRow "CylinderFuelRate" "mg/stroke" 0.03125 0 0 2048 31 16]),
  (0xA3, [stdRow "EvapSystemVaporPressure" "none" 1 0 0 0 0 0]),
  (0xA4, [stdRow "TransmissionActualGear" "ratio" 0.001 0 0 66 47 16]),
  (0xA5, [stdRow "ComDieselExhaustFluidDosing" "%" 0.5 0 0 128 39 8]),
  (0xA6, [stdRow "Odometer" "km" 0.1 0 0 429496729.5 31 32]),
  (0xA7, [stdRow "NOxSensorConc3_4" "none" 1 0 0 0 0 0]),
  (0xA8, [stdRow "NOxSensorCorrectConc3_4" "none" 1 0 0 0 0 0]),
  (0xC0, [stdRow "PIDsSupported_C1_E0" "Encoded" 1 0 0 0 31 32])]

/-- `get_pid`: the parameters of an entry with a name. -/
def getPid (pidNumber : UInt8) : Option (List StdParameter) := pidArray.lookup pidNumber

/-- The rows of the table. -/
def stdTable : List StdParameter := pidArray.flatMap Prod.snd

theorem mem_stdTable {pid : UInt8} {params : List StdParameter} (h : getPid pid = some params)
    {prm : StdParameter} (hprm : prm ∈ params) : prm ∈ stdTable := by
  obtain ⟨before, after, harray, -⟩ := List.lookup_eq_some_iff.1 h
  exact List.mem_flatMap.2 ⟨(pid, params), by rw [harray]; simp, hprm⟩

end Meatpi
