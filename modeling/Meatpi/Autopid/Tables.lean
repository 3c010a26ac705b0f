import Mathlib.Data.Rat.Defs

/-!
# The loaded config tables (`autopid_private.h`)

`ap_config_t`: the groups, the PID rows, the filters and the pooled
parameters, as `autopid_config.c` fills them and the scheduler reads them. A
fixed pool with its count (`pids`, `n_pids`) is a list here; a C string of
bounded width is a list of characters, and who fills it truncates it.
-/

namespace Meatpi

inductive ApPidType where
  | std
  | custom
  | specific
  deriving DecidableEq

/-- `ap_row_class_t`: the scheduling class of a row. -/
inductive ApRowClass where
  /-- a request through the OBD chip (filters too) -/
  | chip
  /-- a PGN row: read from the listener's store -/
  | passive
  /-- a PGN row with `?`: a request on the native bus -/
  | busTx
  deriving DecidableEq

/-- The value of the C enumerator. -/
def ApRowClass.toNat : ApRowClass → ℕ
  | .chip => 0
  | .passive => 1
  | .busTx => 2

/-- `AP_CLASS_BIT(c)` -/
def ApRowClass.bit (c : ApRowClass) : ℕ := 1 <<< c.toNat

/-- `ap_param_t`; a bound that is absent (`NAN`) is `none`. -/
structure ApParam where
  name : List Char
  expression : List Char
  muxExpr : List Char
  unit : List Char
  className : List Char
  enabled : Bool
  min : Option ℚ
  max : Option ℚ
  muxVal : ℚ

/-- `ap_pid_t`; `periodMs = 0` inherits the group's. -/
structure ApPid where
  name : List Char
  type : ApPidType
  cmd : List Char
  init : List Char
  rxheader : List Char
  group : ℤ
  periodMs : ℕ
  enabled : Bool
  paramStart : ℕ
  paramCount : ℕ
  j1939 : Bool
  j1939Request : Bool
  j1939Sa : ℤ
  pgn : ℕ

structure ApFilter where
  frameId : ℕ
  isExtended : Bool
  monitorMs : ℕ
  group : ℤ
  periodMs : ℕ
  enabled : Bool
  paramStart : ℕ
  paramCount : ℕ

structure ApGroup where
  name : List Char
  enabledDefault : Bool
  periodMs : ℕ

structure ApConfig where
  groups : List ApGroup
  pids : List ApPid
  filters : List ApFilter
  params : List ApParam

/-- `memset(cfg, 0, sizeof(*cfg))`: the empty tables. -/
def ApConfig.empty : ApConfig := ⟨[], [], [], []⟩

/-- `ap_row_class`: a PGN row is passive, or asks for its group with `?`. -/
def apRowClass (pid : ApPid) : ApRowClass :=
  if !pid.j1939 then .chip
  else if pid.j1939Request then .busTx else .passive

end Meatpi
