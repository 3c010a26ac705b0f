import Mathlib.Data.Prod.Lex
import Meatpi.Library.Numeral

/-!
# Versions, channels and URLs (`fw_update_version.c`)

The strict grammar of the manifest, the tolerant one of what a device reports, and the
order: the numbers first, then a release over any prerelease of the same numbers, beta
over alfa, and the prerelease's number. A build's tail takes no part in the order.
-/

namespace Meatpi

/-! ## Numbers -/

/-- `FWU_PRE_*` -/
inductive FwuPre where
  | none
  | alfa
  | beta
  deriving DecidableEq

structure FwuVersion where
  major : ℕ
  minor : ℕ
  patch : ℕ
  pre : FwuPre
  preN : ℕ
  /-- a git describe tail or `-dirty` -/
  dev : Bool
  deriving DecidableEq

/-- `read_num`: decimal digits of a number below 65536, and what follows them. -/
def readNum (strict : Bool) (s : List Char) : Option (ℕ × List Char) :=
  let digits := s.takeWhile Char.isDigit
  let v := ofDigitsBE 10 (digits.map fun c => c.toNat - 48)
  if digits = [] ∨ 65535 < v ∨ (strict ∧ 1 < digits.length ∧ digits.head? = some '0') then none
  else some (v, s.drop digits.length)

def isSep (c : Char) : Bool := c == '-' || c == '_' || c == '.'

/-- The text after a first character that is as asked for. -/
def skipChar (p : Char → Bool) : List Char → Option (List Char)
  | [] => none
  | c :: s => if p c then some s else none

/-- `read_pre`: the prerelease's word, and what follows it. -/
def readPre (strict : Bool) (s : List Char) : Option (FwuPre × List Char) :=
  if "alfa".toList.isPrefixOf s then some (.alfa, s.drop 4)
  else if "beta".toList.isPrefixOf s then some (.beta, s.drop 4)
  else if !strict && "alpha".toList.isPrefixOf s then some (.alfa, s.drop 5)
  else none

/-! ## The grammars -/

def fwuVersionParseStrict (s : List Char) : Option FwuVersion := do
  let (major, s) ← readNum true s
  let s ← skipChar (· == '.') s
  let (minor, s) ← readNum true s
  let s ← skipChar (· == '.') s
  let (patch, s) ← readNum true s
  match s with
  | [] => some ⟨major, minor, patch, .none, 0, false⟩
  | c :: s =>
    if c = '-' then do
      let (pre, s) ← readPre true s
      let s ← skipChar (· == '.') s
      let (preN, s) ← readNum true s
      if s = [] then some ⟨major, minor, patch, pre, preN, false⟩ else none
    else none

def isBuildTail (s : List Char) : Bool :=
  if s = "-dirty".toList ∨ s = [] then true
  else match skipChar (· == '-') s with
    | none => false
    | some s =>
      if (s.takeWhile Char.isDigit).isEmpty then false
      else match skipChar (· == '-') (s.dropWhile Char.isDigit) with
        | some ('g' :: s) =>
          !(s.takeWhile Char.isHexDigit).isEmpty &&
            -- the version is cut at 31 characters
            (s.dropWhile Char.isHexDigit).isPrefixOf "-dirty".toList
        | _ => false

/-- The prerelease of a reported version, if one can be read. -/
def tolerantPre (s : List Char) : Option (FwuPre × ℕ × List Char) := do
  let s ← skipChar isSep s
  let (pre, s) ← readPre false s
  let s ← skipChar isSep s
  let (preN, s) ← readNum false s
  some (pre, preN, s)

def fwuVersionParseTolerant (s : List Char) : Option FwuVersion := do
  let s := (skipChar (fun c => c == 'v' || c == 'V') s).getD s
  let (major, s) ← readNum false s
  let s ← skipChar (· == '.') s
  let (minor, s) ← readNum false s
  let (patch, s) := match s with
    | '.' :: c :: s =>
      -- a number too large is left standing, and no tail
      if c.isDigit then (readNum false (c :: s)).getD (0, c :: s) else (0, '.' :: c :: s)
    | s => (0, s)
  let s := (skipChar (fun c => c == 'p' || c == 'u') s).getD s
  let (pre, preN, s) := (tolerantPre s).getD (.none, 0, s)
  if s = [] then some ⟨major, minor, patch, pre, preN, false⟩
  else if isBuildTail s then some ⟨major, minor, patch, pre, preN, true⟩
  else none

/-! ## The order -/

/-- The rank of a prerelease among the versions of the same numbers. -/
def FwuPre.rank : FwuPre → ℕ
  | .none => 2
  | .alfa => 0
  | .beta => 1

def fwuVersionCmp (a b : FwuVersion) : Ordering :=
  if a.major ≠ b.major then if a.major < b.major then .lt else .gt
  else if a.minor ≠ b.minor then if a.minor < b.minor then .lt else .gt
  else if a.patch ≠ b.patch then if a.patch < b.patch then .lt else .gt
  else if (a.pre = .none) ≠ (b.pre = .none) then if a.pre = .none then .gt else .lt
  -- alfa below beta
  else if a.pre ≠ b.pre then if a.pre = .alfa then .lt else .gt
  else if a.preN ≠ b.preN then if a.preN < b.preN then .lt else .gt
  else .eq

/-- Where a version stands in the order. -/
def FwuVersion.key (v : FwuVersion) : ℕ ×ₗ ℕ ×ₗ ℕ ×ₗ ℕ ×ₗ ℕ :=
  toLex (v.major, toLex (v.minor, toLex (v.patch, toLex (v.pre.rank, v.preN))))

theorem cmp_then (x y : ℕ) (o : Ordering) :
    (if x ≠ y then if x < y then .lt else .gt else o) = (compare x y).then o := by
  rcases lt_trichotomy x y with h | h | h
  · rw [if_pos h.ne, if_pos h, compare_lt_iff_lt.mpr h]
    rfl
  · rw [if_neg (not_not.mpr h), compare_eq_iff_eq.mpr h]
    rfl
  · rw [if_pos h.ne', if_neg h.not_gt, compare_gt_iff_gt.mpr h]
    rfl

theorem fwuVersionCmp_eq (a b : FwuVersion) : fwuVersionCmp a b = compare a.key b.key := by
  have hkey : compare a.key b.key = (compare a.major b.major).then
      ((compare a.minor b.minor).then ((compare a.patch b.patch).then
        ((compare a.pre.rank b.pre.rank).then (compare a.preN b.preN)))) := rfl
  rw [hkey, fwuVersionCmp, cmp_then, cmp_then, cmp_then]
  congr 3
  have hn := cmp_then a.preN b.preN .eq
  rw [Ordering.then_eq] at hn
  rw [hn]
  cases a.pre <;> cases b.pre <;> rfl

theorem fwuVersionCmp_lt {a b : FwuVersion} : fwuVersionCmp a b = .lt ↔ a.key < b.key := by
  rw [fwuVersionCmp_eq, compare_lt_iff_lt]

theorem fwuVersionCmp_gt {a b : FwuVersion} : fwuVersionCmp a b = .gt ↔ b.key < a.key := by
  rw [fwuVersionCmp_eq, compare_gt_iff_gt]

/-! ## Channels -/

def fwuChannelFromStr (s : List Char) : Option ℕ :=
  if s = "stable".toList then some 0
  else if s = "beta".toList then some 1
  else if s = "alfa".toList then some 2
  else none

def fwuChannelVisible (deviceChannel releaseChannel : ℕ) : Bool :=
  decide (releaseChannel ≤ deviceChannel)

/-! ## URLs -/

/-- `fwu_base_url_valid`: whether the URL is plain http, if it is one. -/
def fwuBaseUrlValid (url : List Char) : Option Bool :=
  let scheme := if "https://".toList.isPrefixOf url then some false
    else if "http://".toList.isPrefixOf url then some true
    else none
  match scheme with
  | none => none
  | some http =>
    if url.length < (if http then 9 else 10) ∨ url.getLast? ≠ some '/' then none
    else if url.any fun c => decide (c.toNat ≤ 0x20) || decide (0x7F ≤ c.toNat) || c.toNat == 0x22 ||
        c.toNat == 0x5C then none
    else some http

end Meatpi
