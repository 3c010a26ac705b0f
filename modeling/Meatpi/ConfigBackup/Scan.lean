import Meatpi.Library.Text
import Meatpi.Library.Walk
import Meatpi.SettingsManager.Codec

/-!
# The document scanner and the names (`config_backup_core.c`)

A backup holds files of any size, so that it is walked without being parsed: the
scanner hands the raw text of each member to a callback, and finds out that the
text is malformed only when it comes to that place.
-/

namespace Meatpi

open List Nat

variable {rest : List UInt8}

/-! ## The scanner -/

/-- The blanks of `skip_ws`. -/
def isWsByte (c : UInt8) : Bool := c == 0x20 || c == 0x09 || c == 0x0D || c == 0x0A

theorem isWsByte_iff {b : UInt8} :
    isWsByte b = true ↔ b = 0x20 ∨ b = 0x09 ∨ b = 0x0A ∨ b = 0x0D := by
  simp only [isWsByte, Bool.or_eq_true, beq_iff_eq]
  exact or_right_comm.trans (or_assoc.trans or_assoc)

/-- `skip_ws`: the text from the first character on that is no blank. -/
def skipWs (text : List UInt8) : List UInt8 := text.dropWhile isWsByte

theorem skipWs_suffix (text : List UInt8) : skipWs text <:+ text := dropWhile_suffix isWsByte

/-- `scan_string`: the text past the closing quote, from past the opening one. -/
def scanString : List UInt8 → Option (List UInt8)
  | [] => none
  | c :: rest =>
    if c = 0x5C then  -- a backslash
      match rest with
      | [] => none
      | _ :: rest' => scanString rest'
    else if c = 0x22 then
      some rest
    else
      scanString rest

theorem scanString_suffix {text : List UInt8} (h : scanString text = some rest) :
    rest <:+ text ∧ rest.length < text.length := by
  fun_induction scanString text with
  | case1 => cases h
  | case2 => cases h
  | case3 d rest' ih =>
    obtain ⟨hsuf, hlen⟩ := ih h
    refine ⟨(hsuf.trans (suffix_cons d rest')).trans (suffix_cons _ _), ?_⟩
    simp only [length_cons]
    omega
  | case4 rest' hq =>
    cases h
    exact ⟨suffix_cons _ rest, lt_succ_self _⟩
  | case5 c rest' hc hq ih =>
    obtain ⟨hsuf, hlen⟩ := ih h
    exact ⟨hsuf.trans (suffix_cons c rest'), lt_succ_of_lt hlen⟩

/-- The loop of `scan_value` over an object or a list: the text past its end. -/
def scanNested (depth : ℕ) : List UInt8 → Option (List UInt8)
  | [] => none
  | c :: rest =>
    if c = 0x22 then
      match _h : scanString rest with
      | none => none
      | some rest' => scanNested depth rest'
    else if c = 0x7B ∨ c = 0x5B then  -- an opening brace or bracket
      scanNested (depth + 1) rest
    else if c = 0x7D ∨ c = 0x5D then
      if depth - 1 = 0 then some rest else scanNested (depth - 1) rest
    else
      scanNested depth rest
termination_by text => text.length
decreasing_by
  · have hlen := (scanString_suffix _h).2
    simp only [List.length_cons]
    omega
  all_goals exact Nat.lt_succ_self _

/-- The characters that end a number or a word. -/
def endsWord (c : UInt8) : Bool := c == 0x2C || c == 0x7D || c == 0x5D || isWsByte c

/-- `scan_value`: the text past the value. -/
def scanValue : List UInt8 → Option (List UInt8)
  | [] => none
  | c :: rest =>
    if c = 0x22 then
      scanString rest
    else if c = 0x7B ∨ c = 0x5B then
      scanNested 0 (c :: rest)
    else if endsWord c then
      none
    else
      some (rest.dropWhile fun c => !endsWord c)

theorem scanNested_suffix {depth : ℕ} {text : List UInt8} (h : scanNested depth text = some rest) :
    rest <:+ text ∧ rest.length < text.length := by
  fun_induction scanNested depth text with
  | case1 => cases h
  | case2 => cases h
  | case3 depth rest₁ rest₂ hscan ih =>
    obtain ⟨hsuf, hlen⟩ := ih h
    obtain ⟨hsuf', hlen'⟩ := scanString_suffix hscan
    exact ⟨(hsuf.trans hsuf').trans (suffix_cons _ _), lt_succ_of_lt (hlen.trans hlen')⟩
  | case4 depth c rest₁ _ _ ih =>
    obtain ⟨hsuf, hlen⟩ := ih h
    exact ⟨hsuf.trans (suffix_cons c rest₁), lt_succ_of_lt hlen⟩
  | case5 depth c rest₁ _ _ _ _ =>
    cases h
    exact ⟨suffix_cons c rest, lt_succ_self _⟩
  | case6 depth c rest₁ _ _ _ _ ih =>
    obtain ⟨hsuf, hlen⟩ := ih h
    exact ⟨hsuf.trans (suffix_cons c rest₁), lt_succ_of_lt hlen⟩
  | case7 depth c rest₁ _ _ _ ih =>
    obtain ⟨hsuf, hlen⟩ := ih h
    exact ⟨hsuf.trans (suffix_cons c rest₁), lt_succ_of_lt hlen⟩

theorem scanValue_suffix {text : List UInt8} (h : scanValue text = some rest) :
    rest <:+ text ∧ rest.length < text.length := by
  cases text with
  | nil => cases h
  | cons c tail =>
    rw [scanValue] at h
    split_ifs at h with hq hb hend
    · obtain ⟨hsuf, hlen⟩ := scanString_suffix h
      exact ⟨hsuf.trans (suffix_cons c tail), lt_succ_of_lt hlen⟩
    · exact scanNested_suffix h
    · cases h
      have hsuf := dropWhile_suffix (l := tail) fun c => !endsWord c
      exact ⟨hsuf.trans (suffix_cons c tail), lt_succ_of_le hsuf.length_le⟩

/-- `cb_member_t`: the key without its quotes, and the text of the value. -/
structure CbMember where
  key : List UInt8
  val : List UInt8

/-- What stands between two places of a text. -/
def upTo (text rest : List UInt8) : List UInt8 := text.take (text.length - rest.length)

/-- The loop of `cb_json_members`: the members that the callback is given, and
whether the text ends as an object does. -/
def scanMembers : List UInt8 → List CbMember × Bool
  | [] => ([], false)
  | c :: text =>
    if c ≠ 0x22 then
      ([], false)
    else
      match _hkey : scanString text with
      | none => ([], false)
      | some afterKey =>
        match _hcolon : skipWs afterKey with
        | [] => ([], false)
        | c :: afterColon =>
          if c ≠ 0x3A then
            ([], false)
          else
            match _hval : scanValue (skipWs afterColon) with
            | none => ([], false)
            | some afterVal =>
              match _hnext : skipWs afterVal with
              | [] => ([⟨(upTo text afterKey).dropLast, upTo (skipWs afterColon) afterVal⟩], false)
              | c :: more =>
                if c = 0x2C then
                  (⟨(upTo text afterKey).dropLast, upTo (skipWs afterColon) afterVal⟩ ::
                    (scanMembers (skipWs more)).1, (scanMembers (skipWs more)).2)
                else
                  ([⟨(upTo text afterKey).dropLast, upTo (skipWs afterColon) afterVal⟩], c == 0x7D)
termination_by text => text.length
decreasing_by
  all_goals
    have h1 := (scanString_suffix _hkey).2
    have h2 := (skipWs_suffix afterKey).length_le
    have h3 := (skipWs_suffix afterColon).length_le
    have h4 := (scanValue_suffix _hval).2
    have h5 := (skipWs_suffix afterVal).length_le
    have h6 := (skipWs_suffix more).length_le
    rw [_hcolon] at h2
    rw [_hnext] at h5
    simp only [List.length_cons] at *
    omega

/-- The members of the object that a text is, and whether it is one. -/
def cbMembers (text : List UInt8) : List CbMember × Bool :=
  match skipWs text with
  | [] => ([], false)
  | c :: rest =>
    if c ≠ 0x7B then ([], false)
    else if (skipWs rest).head? = some 0x7D then ([], true)
    else scanMembers (skipWs rest)

/-- `cb_json_members`: the callback on each member, until it fails or the text
turns out to be malformed. -/
def cbJsonMembers {S : Type*} (cb : S → CbMember → Except SmErr Unit × S) (s : S)
    (text : List UInt8) : Except SmErr Unit × S :=
  match walk cb s (cbMembers text).1 with
  | (.error err, s') => (.error err, s')
  | (.ok (), s') => (if (cbMembers text).2 then .ok () else .error .invalidArg, s')

section

variable {S : Type*} {cb : S → CbMember → Except SmErr Unit × S} {s : S} {text : List UInt8}

theorem cbJsonMembers_snd (cb : S → CbMember → Except SmErr Unit × S) (s : S) (text : List UInt8) :
    (cbJsonMembers cb s text).2 = (walk cb s (cbMembers text).1).2 := by
  rw [cbJsonMembers]
  rcases walk cb s (cbMembers text).1 with ⟨_ | _, _⟩
  · rfl
  · rfl

theorem cbJsonMembers_ok_iff :
    (cbJsonMembers cb s text).1 = .ok () ↔
      (cbMembers text).2 = true ∧ (walk cb s (cbMembers text).1).1 = .ok () := by
  rw [cbJsonMembers]
  rcases walk cb s (cbMembers text).1 with ⟨_ | _, _⟩
  · simp
  · simp

end

/-- `cb_json_valid`: one value, and blanks around it. -/
def cbJsonValid (text : List UInt8) : Bool :=
  match scanValue (skipWs text) with
  | none => false
  | some rest => (skipWs rest).isEmpty

/-- `cb_json_find`: the first member of that name, also of a text that is malformed
further on. -/
def cbJsonFind (text key : List UInt8) : Option (List UInt8) :=
  ((cbMembers text).1.find? fun m => m.key == key).map CbMember.val

def cbJsonIsNull (text : List UInt8) : Bool := text == asciiBytes "null"

/-! ## Parts and names -/

inductive CbPart where
  | settings
  | vehicles
  | databases
  | scripts
  | dashboard
  | certs
  deriving DecidableEq

/-- The parts in their order. -/
def CbPart.all : List CbPart := [settings, vehicles, databases, scripts, dashboard, certs]

/-- `CB_PART_NAMES` -/
def CbPart.text : CbPart → String
  | settings => "settings"
  | vehicles => "vehicles"
  | databases => "databases"
  | scripts => "scripts"
  | dashboard => "dashboard"
  | certs => "certs"

def cbPartFromName (name : List UInt8) : Option CbPart :=
  CbPart.all.find? fun part => asciiBytes part.text == name

/-- `CB_FILE_MAX`, `CB_PEM_MAX`, `CB_NAME_MAX` and `CB_LIST_MAX` -/
def cbFileMax : ℕ := 512 * 1024
def cbPemMax : ℕ := 8192
def cbNameMax : ℕ := 48
def cbListMax : ℕ := 128

/-- `cb_name_ok`: a name the filesystem takes. -/
def cbNameOk (name : List Char) : Bool :=
  name ≠ [] && name.length < cbNameMax && name ≠ ".".toList && name ≠ "..".toList &&
    name.all fun c => ' ' ≤ c && c ≤ '~' && c ≠ '/' && c ≠ '\\'

def cbSetNameOk (name : List Char) : Bool :=
  name ≠ [] && name.length ≤ 24 &&
    name.all fun c => c.isLower || c.isDigit || c == '_' || c == '-'

def cbVehicleKeyOk (name : List Char) : Bool :=
  name ≠ [] && name.length ≤ 40 &&
    name.all fun c => c.isLower || c.isUpper || c.isDigit || c == '_' || c == ':' || c == '.' ||
      c == '-'

end Meatpi
