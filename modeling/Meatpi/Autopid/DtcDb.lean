import Mathlib.Data.List.Lex
import Meatpi.Autopid.DtcCodec
import Meatpi.Library.LastOfRuns
import Meatpi.Library.Numeral
import Mathlib.Data.Char

/-!
# Trouble code databases (`autopid_dtc_db_codec.c`)

An upload is sniffed for one of four shapes (a JSON object, a JSON array of objects,
delimited lines, plain lines), and one emitter checks, cleans and appends every entry
it holds. What came in is sorted by code, the last entry of each code stays, and the
result is written as the stored text:

    #dtcdb1 <count>
    CODE<TAB>DESCRIPTION

A character stands for a byte. The readers are functions from what is left of the input.
-/

namespace Meatpi

/-! ## Codes -/

/-- A digit of a code, in either case. -/
def dtcNibble (c : Char) : Option ℕ := if c.isHexDigit then some (hexVal c) else none

def dtcLetter (c : Char) : Option ℕ :=
  match c.toUpper with
  | 'P' => some 0
  | 'C' => some 1
  | 'B' => some 2
  | 'U' => some 3
  | _ => none

def apDtcUnformat : List Char → Option (UInt8 × UInt8)
  | [l, d, c₀, c₁, c₂] =>
    (dtcLetter l).bind fun letter =>
      if d.toNat < 48 ∨ 51 < d.toNat then none
      else
        (dtcNibble c₀).bind fun n₀ => (dtcNibble c₁).bind fun n₁ => (dtcNibble c₂).map fun n₂ =>
          (UInt8.ofNat (letter * 64 + (d.toNat - 48) * 16 + n₀), UInt8.ofNat (n₁ * 16 + n₂))
  | _ => none

/-! ## The emitter -/

def apDtcDescMax : ℕ := 95

/-- `ap_dtc_db_item_t`: the description is `len` bytes of the scratch buffer. -/
structure DbItem where
  code : List Char
  off : ℕ
  seq : ℕ
  len : ℕ
  deriving DecidableEq

/-- What the caller provides: `scratch_cap` and `items_cap`. -/
structure DbCaps where
  scratch : ℕ
  items : ℕ

/-- `db_parse_t`; the used part of the scratch buffer, whose length is `used`. -/
structure DbParse where
  scratch : List Char
  items : List DbItem
  rejected : ℕ
  firstReject : List Char

def DbParse.init : DbParse := ⟨[], [], 0, []⟩

/-- The copy loop of `emit_entry`, with `w` bytes written: a tab is a blank,
what is below 0x20 is left out. -/
def dbDescChars (w : ℕ) : List Char → List Char
  | [] => []
  | c :: rest =>
    if apDtcDescMax ≤ w then []
    else if c = '\t' then ' ' :: dbDescChars (w + 1) rest
    else if 32 ≤ c.toNat then c :: dbDescChars (w + 1) rest
    else dbDescChars w rest

/-- The description that is stored. -/
def dbDesc (desc : List Char) : List Char := (dbDescChars 0 desc).rdropWhile (· = ' ')

/-- A sub-type suffix behind the fifth character goes. -/
def dbBase (code : List Char) : List Char :=
  if 5 < code.length ∧ (code[5]? = some '-' ∨ code[5]? = some ' ' ∨ code[5]? = some ':') then
    code.take 5
  else code

namespace DbParse

/-- The `reject` branch of `emit_entry`; `first_reject` is a C string of 47
characters. -/
def reject (p : DbParse) (code : List Char) : DbParse :=
  { p with
    rejected := p.rejected + 1
    firstReject := if p.firstReject = [] then (code.take 47).takeWhile (· ≠ '\x00')
      else p.firstReject }

/-- `emit_entry` -/
def emit (caps : DbCaps) (p : DbParse) (entry : List Char × List Char) : DbParse :=
  match apDtcUnformat (dbBase entry.1) with
  | none => p.reject (dbBase entry.1)
  | some b =>
    if caps.items ≤ p.items.length ∨ caps.scratch < p.scratch.length + apDtcDescMax + 2 then
      { p with rejected := p.rejected + 1 }
    else
      { p with
        scratch := p.scratch ++ dbDesc entry.2
        items := p.items ++
          [⟨apDtcFormat b.1 b.2, p.scratch.length, p.items.length, (dbDesc entry.2).length⟩] }

end DbParse

/-! ## The JSON readers -/

def isDbWs (c : Char) : Bool := c = ' ' || c = '\t' || c = '\r' || c = '\n'

/-- `json_ws` -/
def dbWs (q : List Char) : List Char := q.dropWhile isDbWs

/-- A unicode escape: what is no ASCII character reads as a question mark. -/
def dbUnicode (h : List Char) : Char :=
  if h.all Char.isHexDigit ∧ 32 ≤ hexNum h ∧ hexNum h < 127 then Char.ofNat (hexNum h) else '?'

/-- The other escapes; white space reads as a blank. -/
def dbEscape (c : Char) : Char :=
  if c = 'n' ∨ c = 't' ∨ c = 'r' ∨ c = 'b' ∨ c = 'f' then ' ' else c

/-- One more character of a string that goes on. -/
def dbPut (c : Char) (s : Option (List Char × List Char)) : Option (List Char × List Char) :=
  s.map fun s => (c :: s.1, s.2)

/-- The loop of `json_string` behind the opening quote: the text, and what is
left behind the closing quote. -/
def dbStringLoop : List Char → Option (List Char × List Char)
  | [] => none
  | c :: rest =>
    if c = '"' then some ([], rest)
    else if c = '\\' then
      match rest with
      | [] => none
      | e :: rest =>
        if e = 'u' then
          match rest with
          | h₁ :: h₂ :: h₃ :: h₄ :: rest => dbPut (dbUnicode [h₁, h₂, h₃, h₄]) (dbStringLoop rest)
          -- an escape that the input ends in keeps its backslash
          | rest => dbPut '\\' (dbStringLoop rest)
        else dbPut (dbEscape e) (dbStringLoop rest)
    else dbPut c (dbStringLoop rest)

/-- `json_string`; `out` holds `out_cap - 1` characters, the others are dropped. -/
def dbString (cap : ℕ) (q : List Char) : Option (List Char × List Char) :=
  if q.head? = some '"' then (dbStringLoop q.tail).map fun s => (s.1.take (cap - 1), s.2)
  else none

/-- What ends a number, `true`, `false` or `null`. -/
def isDbScalarEnd (c : Char) : Bool := c = ',' || c = '\x7d' || c = ']' || isDbWs c

/-- Behind a value: blanks, and a comma with the blanks after it. -/
def dbComma (q : List Char) : List Char :=
  let q := dbWs q
  if q.head? = some ',' then dbWs q.tail else q

/-- The end of a turn of `json_skip`: the loop goes on at a positive depth. -/
def dbSkipNext (loop : List Char → Option (List Char)) (depth : ℤ) (q : List Char) :
    Option (List Char) :=
  if 0 < depth then loop (dbComma q) else some (dbWs q)

/-- The loop of `json_skip`; `depth` is a C `int` and may fall below zero. Every
turn at a positive depth takes a character, so the input's length is fuel enough. -/
def dbSkipLoop : ℕ → ℤ → List Char → Option (List Char)
  | 0, _, _ => none
  | fuel + 1, depth, q =>
    if q = [] then none
    else if q.head? = some '"' then
      (dbString 2 q).bind fun s => dbSkipNext (dbSkipLoop fuel depth) depth s.2
    else if q.head? = some '\x7b' ∨ q.head? = some '[' then
      dbSkipNext (dbSkipLoop fuel (depth + 1)) (depth + 1) q.tail
    else if q.head? = some '\x7d' ∨ q.head? = some ']' then
      dbSkipNext (dbSkipLoop fuel (depth - 1)) (depth - 1) q.tail
    else dbSkipNext (dbSkipLoop fuel depth) depth (q.dropWhile fun c => !isDbScalarEnd c)

/-- `json_skip` -/
def dbSkip (q : List Char) : Option (List Char) := dbSkipLoop (q.length + 1) 0 (dbWs q)

/-- A member of an object, as both readers take it: the key, the value when it
is a string, and what is left behind the comma. -/
def dbMember (q : List Char) : Option (List Char × Option (List Char) × List Char) :=
  (dbString 32 q).bind fun key =>
    let q := dbWs key.2
    if q.head? ≠ some ':' then none
    else
      let q := dbWs q.tail
      if q.head? = some '"' then
        (dbString (apDtcDescMax + 32) q).map fun val => (key.1, some val.1, dbComma val.2)
      else (dbSkip q).map fun rest => (key.1, none, dbComma rest)

/-- The loop of `parse_json_map`: the entries it emits, `none` for `false`. -/
def dbMapLoop : ℕ → List Char → Option (List (List Char × List Char))
  | 0, _ => none
  | fuel + 1, q =>
    if q = [] then none
    else if q.head? = some '\x7d' then some []
    else
      (dbMember q).bind fun m =>
        (dbMapLoop fuel m.2.2).map fun entries =>
          (m.2.1.map fun val => (m.1, val)).toList ++ entries

/-- `parse_json_map`, on an input that begins with a brace. -/
def dbJsonMap (input : List Char) : Option (List (List Char × List Char)) :=
  dbMapLoop (input.length + 1) (dbWs (dbWs input).tail)

/-- `strcasecmp` of a key buffer with a word in lower case. -/
def sameKey (key : List Char) (word : String) : Bool :=
  (key.takeWhile (· ≠ '\x00')).map Char.toLower = word.toList

def keyIsCode (key : List Char) : Bool := sameKey key "code" || sameKey key "dtc" || sameKey key "id"

def keyIsDesc (key : List Char) : Bool :=
  sameKey key "description" || sameKey key "desc" || sameKey key "text" ||
    sameKey key "meaning" || sameKey key "title"

/-- What a member does to the code and the description of its object. -/
def dbSetField (entry : List Char × List Char) (key : List Char) :
    Option (List Char) → List Char × List Char
  | none => entry
  | some val =>
    if keyIsCode key then (val.take 31, entry.2)
    else if keyIsDesc key then (entry.1, val.take (apDtcDescMax + 31))
    else entry

/-- The members of one object of the array: its entry, and what is left behind
the brace. -/
def dbObjectLoop : ℕ → List Char × List Char → List Char →
    Option ((List Char × List Char) × List Char)
  | 0, _, _ => none
  | fuel + 1, entry, q =>
    if q = [] then none
    else if q.head? = some '\x7d' then some (entry, q.tail)
    else (dbMember q).bind fun m => dbObjectLoop fuel (dbSetField entry m.1 m.2.1) m.2.2

/-- The loop of `parse_json_array`. -/
def dbArrayLoop : ℕ → List Char → Option (List (List Char × List Char))
  | 0, _ => none
  | fuel + 1, q =>
    if q = [] then none
    else if q.head? = some ']' then some []
    else if q.head? ≠ some '\x7b' then
      (dbSkip q).bind fun rest => dbArrayLoop fuel (dbComma rest)
    else
      (dbObjectLoop (q.length + 1) ([], []) (dbWs q.tail)).bind fun o =>
        (dbArrayLoop fuel (dbComma o.2)).map fun entries =>
          if 0 < o.1.1.length then o.1 :: entries else entries

/-- `parse_json_array`, on an input that begins with a bracket. -/
def dbJsonArray (input : List Char) : Option (List (List Char × List Char)) :=
  dbArrayLoop (input.length + 1) (dbWs (dbWs input).tail)

/-! ## The text reader -/

def isDbBlank (c : Char) : Bool := c = ' ' || c = '\r'

/-- The unquoting loop of `field_content`, over the rest of the field and its
closing quote. -/
def dbUnquote (cap : ℕ) (out : List Char) : List Char → List Char
  | c :: d :: rest =>
    if cap - 1 ≤ out.length then out
    else if c = '"' ∧ d = '"' then dbUnquote cap (out ++ ['"']) rest
    else dbUnquote cap (out ++ [c]) (d :: rest)
  | _ => out

/-- `field_content`; `cap` is the size of the buffer for a quoted field. -/
def dbField (cap : ℕ) (field : List Char) : List Char :=
  let f := (field.dropWhile isDbBlank).rdropWhile isDbBlank
  if 2 ≤ f.length ∧ f.head? = some '"' ∧ f.getLast? = some '"' then dbUnquote cap [] f.tail else f

/-- The first TAB, ';' or ',' outside quotes: what is before it, it, and what is
behind it. -/
def dbSplit (inQuotes : Bool) : List Char → Option (List Char × Char × List Char)
  | [] => none
  | c :: rest =>
    if c = '"' then (dbSplit (!inQuotes) rest).map fun s => (c :: s.1, s.2)
    else if inQuotes = false ∧ (c = '\t' ∨ c = ';' ∨ c = ',') then some ([], c, rest)
    else (dbSplit inQuotes rest).map fun s => (c :: s.1, s.2)

/-- `parse_line` up to its entry, with the delimiter. -/
def dbLine (line : List Char) : Option ((List Char × List Char) × Option Char) :=
  let line := line.dropWhile isDbBlank
  if line = [] ∨ line.head? = some '#' then none
  else
    match dbSplit false line with
    | some s => some ((dbField 40 s.1, dbField (apDtcDescMax + 8) s.2.2), some s.2.1)
    | none =>
      if ' ' ∈ line then
        some ((dbField 40 (line.takeWhile (· ≠ ' ')),
          dbField (apDtcDescMax + 8) ((line.dropWhile (· ≠ ' ')).dropWhile (· = ' '))), some ' ')
      else some ((dbField 40 line, []), none)

/-- `parse_line`, with `delim_seen`. -/
def dbParseLine (caps : DbCaps) (s : DbParse × Option Char) (line : List Char) :
    DbParse × Option Char :=
  match dbLine line with
  | none => s
  | some (entry, d) =>
    let p := s.1.emit caps entry
    (p, if s.1.items.length < p.items.length ∧ s.2 = none then some (d.getD ' ') else s.2)

/-! ## The importer -/

/-- The order of `item_cmp`: by code, then by arrival. -/
def DbItem.Before (a b : DbItem) : Prop := a.code < b.code ∨ a.code = b.code ∧ a.seq ≤ b.seq

instance : DecidableRel DbItem.Before := fun a b => by
  unfold DbItem.Before
  infer_instance

/-- The pass behind the sort: of equal neighbours the last stays. -/
def dbDedup (items : List DbItem) : List DbItem := lastOfRuns DbItem.code items

/-- What an import leaves: the sniffed format, the scratch buffer and the items. -/
structure DbImport where
  fmt : String
  scratch : List Char
  items : List DbItem
  deriving DecidableEq

def dbFmt : Option Char → String
  | some '\t' => "tsv"
  | some ';' => "semicolon"
  | some ',' => "csv"
  | _ => "text"

/-- The parsed input, with its format. -/
def dbParse (caps : DbCaps) (input : List Char) : Except String (DbParse × String) :=
  let q := dbWs input
  if q.head? = some '\x7b' then
    match dbJsonMap input with
    | none => .error "malformed JSON object"
    | some entries => .ok (entries.foldl (DbParse.emit caps) .init, "json-map")
  else if q.head? = some '[' then
    match dbJsonArray input with
    | none => .error "malformed JSON array"
    | some entries => .ok (entries.foldl (DbParse.emit caps) .init, "json-array")
  else
    let s := (input.splitOn '\n').foldl (dbParseLine caps) (.init, none)
    .ok (s.1, dbFmt s.2)

/-- The message of an import without entries. -/
def dbNoEntries (p : DbParse) : String :=
  "no valid entries (" ++ toString p.rejected ++ " rejected" ++
    (if p.firstReject = [] then "" else ", first: ") ++ String.ofList p.firstReject ++ ")"

/-- `ap_dtc_db_import`; the error is the text for the caller. -/
def apDtcDbImport (caps : DbCaps) (input : List Char) : Except String DbImport :=
  if input.length = 0 then .error "empty file"
  else
    match dbParse caps input with
    | .error e => .error e
    | .ok (p, fmt) =>
      if p.items.length = 0 then .error (dbNoEntries p)
      else .ok ⟨fmt, p.scratch, dbDedup (p.items.insertionSort DbItem.Before)⟩

/-! ## The stored text -/

/-- The description of an item. -/
def DbItem.desc (scratch : List Char) (it : DbItem) : List Char := (scratch.drop it.off).take it.len

/-- The codes and descriptions, in the order of the items. -/
def DbImport.entries (r : DbImport) : List (List Char × List Char) :=
  r.items.map fun it => (it.code, it.desc r.scratch)

/-- The loop of `ap_dtc_db_serialize`; `none` when the buffer is too small. -/
def dbSerializeLoop (scratch : List Char) (cap : ℕ) (out : List Char) :
    List DbItem → Option (List Char)
  | [] => some out
  | it :: items =>
    if cap ≤ out.length + (5 + 1 + it.len + 1) then none
    else dbSerializeLoop scratch cap (out ++ it.code ++ '\t' :: it.desc scratch ++ ['\n']) items

/-- The first line of a stored text. -/
def dbHeader (n : ℕ) : List Char := "#dtcdb1 ".toList ++ Nat.toDigits 10 n ++ ['\n']

def apDtcDbSerialize (r : DbImport) (cap : ℕ) : Option (List Char) :=
  dbSerializeLoop r.scratch cap (dbHeader r.items.length) r.items

end Meatpi
