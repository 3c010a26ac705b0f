import Meatpi.Autopid.Tables
import Meatpi.Expression.Parser
import Meatpi.Library.Json

/-!
# The config parser (`autopid_config.c`)

A JSON document becomes the tables, or the first error. What the parser asks of
other components about a command (a PGN command, the chip's EEPROM guard) and
the arithmetic of the expression check are a parameter (`ConfigEnv`), and so is
the JSON library (`CJson`). A fixed pool and its count are a list, so every
bound is one on a length.
-/

namespace Meatpi

def apMaxGroups : ℕ := 32
def apMaxPids : ℕ := 512
def apMaxFilters : ℕ := 128
def apMaxParams : ℕ := 2048
def apParamsPer : ℕ := 256
def apNameLen : ℕ := 32
def apCmdLen : ℕ := 24
def apInitLen : ℕ := 96
def apHdrLen : ℕ := 16
def apExprLen : ℕ := 96
def apMuxExprLen : ℕ := 48
def apUnitLen : ℕ := 16
def apClassLen : ℕ := 24

/-- What `ap_pgn_cmd_parse` says of a command. -/
inductive PgnCmd where
  | ok (pgn : ℕ) (sa : ℤ) (request : Bool)
  /-- `ESP_ERR_NOT_FOUND`: a chip request -/
  | notFound
  | bad
  deriving DecidableEq

def PgnCmd.isPgn : PgnCmd → Bool
  | .ok _ _ _ => true
  | _ => false

def PgnCmd.pgn : PgnCmd → ℕ
  | .ok pgn _ _ => pgn
  | _ => 0

def PgnCmd.sa : PgnCmd → ℤ
  | .ok _ sa _ => sa
  | _ => 0

def PgnCmd.request : PgnCmd → Bool
  | .ok _ _ request => request
  | _ => false

/-- What the parser calls. -/
structure ConfigEnv (α : Type) where
  /-- the arithmetic of `expression_parser_check` -/
  ar : Arith α
  /-- `ap_pgn_cmd_parse` -/
  pgnCmdParse : List Char → PgnCmd
  /-- `ap_init_sanitize` -/
  initSanitize : List Char → List Char
  /-- `obd_chip_guard_check` is `OBD_GUARD_BLOCKED` -/
  guardBlocked : List Char → Bool
  /-- a `double` as a `uint32_t` -/
  toU32 : ℚ → ℕ

/-- `cJSON_Parse` and `cJSON_PrintUnformatted`. -/
structure CJson where
  parse : List Char → Option Json
  print : Json → List Char

/-! ## Reading members -/

/-- `copy_str` into `cap` characters. -/
def copyStr (cap : ℕ) (obj : Json) (key : List Char) : List Char :=
  match obj.getItem key with
  | some (.str s) => s.take (cap - 1)
  | _ => []

/-- `get_num`; a default of `NAN` is `none`. -/
def getNum {β : Type} (obj : Json) (key : List Char) (dflt : β) (f : ℚ → β) : β :=
  match obj.getItem key with
  | some (.num q) => f q
  | _ => dflt

def getBool (obj : Json) (key : List Char) (dflt : Bool) : Bool :=
  match obj.getItem key with
  | some (.bool b) => b
  | _ => dflt

/-- `find_group`: an index, or `-1`. -/
def findGroup (cfg : ApConfig) (name : List Char) : ℤ :=
  match cfg.groups.findIdx? (·.name == name) with
  | some g => g
  | none => -1

section Parse

variable {α : Type} (env : ConfigEnv α)

/-- `expression_parser_check(s) != ESP_OK` -/
def badExpression (s : List Char) : Bool :=
  match expressionParserCheck env.ar s with
  | .ok _ => false
  | .error _ => true

/-- One turn of `parse_params`: the tables, and the parameters of this owner. -/
def parseParam (owner : String) (st : ApConfig × ℕ) (p : Json) : Except String (ApConfig × ℕ) :=
  let (cfg, count) := st
  if apParamsPer ≤ count then
    .error (owner ++ ": more than " ++ toString apParamsPer ++ " parameters")
  else if apMaxParams ≤ cfg.params.length then
    .error ("parameter pool full (" ++ toString apMaxParams ++ ")")
  else
    let out : ApParam :=
      { name := copyStr apNameLen p "name".toList
        expression := copyStr apExprLen p "expression".toList
        muxExpr := copyStr apMuxExprLen p "mux_expr".toList
        unit := copyStr apUnitLen p "unit".toList
        className := copyStr apClassLen p "class".toList
        enabled := getBool p "enabled".toList true
        min := getNum p "min".toList none some
        max := getNum p "max".toList none some
        muxVal := getNum p "mux_val".toList 0 id }
    if out.name = [] then
      .error (owner ++ ": parameter " ++ toString count ++ " has no name")
    else if out.expression = [] ∨ badExpression env out.expression then
      .error (owner ++ ": bad expression (param " ++ toString count ++ ")")
    else if out.muxExpr ≠ [] ∧ badExpression env out.muxExpr then
      .error (owner ++ ": bad mux expression (param " ++ toString count ++ ")")
    else .ok ({ cfg with params := cfg.params ++ [out] }, count + 1)

/-- `parse_params`: the tables and the count; the slice starts where the pool
ended. -/
def parseParams (cfg : ApConfig) (arr : List Json) (owner : String) :
    Except String (ApConfig × ℕ) :=
  arr.foldlM (parseParam env owner) (cfg, 0)

/-- One turn of the group loop. -/
def parseGroup (cfg : ApConfig) (item : Json) : Except String ApConfig :=
  if apMaxGroups ≤ cfg.groups.length then
    .error ("more than " ++ toString apMaxGroups ++ " groups")
  else
    let g : ApGroup :=
      { name := copyStr apNameLen item "name".toList
        enabledDefault := getBool item "enabled".toList true
        periodMs := getNum item "period_ms".toList 1000 env.toU32 }
    if g.name = [] ∨ 0 ≤ findGroup cfg g.name then
      .error ("group " ++ toString cfg.groups.length ++ ": empty or duplicate name")
    else .ok { cfg with groups := cfg.groups ++ [g] }

/-- A `default` group exists even when absent. -/
def defaultGroup (cfg : ApConfig) : Except String ApConfig :=
  if findGroup cfg "default".toList < 0 then
    if apMaxGroups ≤ cfg.groups.length then
      .error ("more than " ++ toString apMaxGroups ++ " groups")
    else .ok { cfg with groups := cfg.groups ++ [⟨"default".toList, true, 1000⟩] }
  else .ok cfg

/-- The group a row names. -/
def rowGroup (cfg : ApConfig) (item : Json) : ℤ :=
  let group := copyStr apNameLen item "group".toList
  findGroup cfg (if group = [] then "default".toList else group)

/-- `ap_pid_type_t` by its name. -/
def pidType (name : List Char) : ApPidType :=
  if name = "std".toList then .std
  else if name = "specific".toList then .specific
  else .custom

/-- One turn of the PID loop. -/
def parsePid (cfg : ApConfig) (item : Json) : Except String ApConfig :=
  let row := "pid " ++ toString cfg.pids.length
  if apMaxPids ≤ cfg.pids.length then .error ("more than " ++ toString apMaxPids ++ " pids")
  else
    let name := copyStr apNameLen item "name".toList
    let cmd := copyStr apCmdLen item "cmd".toList
    let init := copyStr apInitLen item "init".toList
    let rxheader := copyStr apHdrLen item "rxheader".toList
    let pgnRc := env.pgnCmdParse cmd
    if pgnRc.isPgn ∧ (init ≠ [] ∨ rxheader ≠ []) then
      .error (row ++ ": init and rxheader do not apply to a PGN row")
    else if pgnRc = .bad then
      .error (row ++ ": bad PGN command, expected PGN:<hex>[@<source>][?]")
    else
      let cmd := env.initSanitize cmd
      let init := env.initSanitize init
      if env.guardBlocked cmd ∨ env.guardBlocked init then
        .error (row ++ ": cmd/init would write the chip's EEPROM (ATPP/ATSD/ATCV/STWBR)")
      else if name = [] ∨ cmd = [] then .error (row ++ ": name and cmd are required")
      else
        let group := rowGroup cfg item
        if group < 0 then .error ("pid " ++ String.ofList name ++ ": unknown group")
        else do
          let (cfg', count) ←
            parseParams env cfg (item.childrenOf "parameters".toList) (String.ofList name)
          let pid : ApPid :=
            { name := name
              type := pidType (copyStr 16 item "type".toList)
              cmd := cmd
              init := init
              rxheader := rxheader
              group := group
              periodMs := getNum item "period_ms".toList 0 env.toU32
              enabled := getBool item "enabled".toList true
              paramStart := cfg.params.length
              paramCount := count
              j1939 := pgnRc.isPgn
              j1939Request := pgnRc.request
              j1939Sa := pgnRc.sa
              pgn := pgnRc.pgn }
          .ok { cfg' with pids := cfg'.pids ++ [pid] }

/-- `%X` -/
def hexUpper (n : ℕ) : String := String.ofList ((Nat.toDigits 16 n).map Char.toUpper)

/-- One turn of the filter loop. -/
def parseFilter (cfg : ApConfig) (item : Json) : Except String ApConfig :=
  if apMaxFilters ≤ cfg.filters.length then
    .error ("more than " ++ toString apMaxFilters ++ " filters")
  else
    let frameId := getNum item "frame_id".toList 0 env.toU32
    let monitorMs := getNum item "monitor_ms".toList 1000 env.toU32
    let owner := "filter " ++ hexUpper frameId
    if frameId = 0 then
      .error ("filter " ++ toString cfg.filters.length ++ ": frame_id required")
    else if monitorMs < 50 ∨ 60000 < monitorMs then .error (owner ++ ": monitor_ms 50..60000")
    else
      let group := rowGroup cfg item
      if group < 0 then .error ("filter " ++ owner ++ ": unknown group")
      else do
        let (cfg', count) ← parseParams env cfg (item.childrenOf "parameters".toList) owner
        let filter : ApFilter :=
          { frameId := frameId
            isExtended := decide (0x7FF < frameId)
            monitorMs := monitorMs
            group := group
            periodMs := getNum item "period_ms".toList 0 env.toU32
            enabled := getBool item "enabled".toList true
            paramStart := cfg.params.length
            paramCount := count }
        .ok { cfg' with filters := cfg'.filters ++ [filter] }

/-- `ap_config_parse` up to the check of the names: the tables of a document. -/
def configTables (root : Json) : Except String ApConfig := do
  let cfg ← (root.childrenOf "groups".toList).foldlM (parseGroup env) ApConfig.empty
  let cfg ← defaultGroup cfg
  let cfg ← (root.childrenOf "pids".toList).foldlM (parsePid env) cfg
  (root.childrenOf "filters".toList).foldlM (parseFilter env) cfg

/-- The first name that another parameter has too. -/
def duplicateName : List (List Char) → Option (List Char)
  | [] => none
  | name :: names => if names.contains name then some name else duplicateName names

def apConfigParse (cj : CJson) (json : List Char) : Except String ApConfig :=
  match cj.parse json with
  | some (.obj members) => do
    let cfg ← configTables env (.obj members)
    match duplicateName (cfg.params.map ApParam.name) with
    | some name => .error ("duplicate parameter name '" ++ String.ofList name ++ "'")
    | none => .ok cfg
  | _ => .error "not a JSON object"

end Parse

theorem duplicateName_eq_none {names : List (List Char)} :
    duplicateName names = none ↔ names.Nodup := by
  induction names with
  | nil => simp [duplicateName]
  | cons name names ih =>
    rw [duplicateName]
    simp only [List.contains_iff_mem]
    split_ifs with h
    · simp [h]
    · rw [ih]
      simp [h]

end Meatpi
