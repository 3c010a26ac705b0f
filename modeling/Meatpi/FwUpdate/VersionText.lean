import Mathlib.Data.List.TakeWhile
import Meatpi.FwUpdate.Version
import Meatpi.Library.DecText

/-!
# The text of a version

`fwu_version_str` prints what the strict grammar reads, and nothing else is read
(`fwuVersionParseStrict_eq_some`). The tolerant grammar reads the same versions, and a
git describe tail behind one, however it is cut, makes it a development build of that
version or nothing.
-/

namespace Meatpi

open List Nat Option Prod

variable {major minor patch preN : ℕ}

variable {c : Char} {p : Char → Bool} {pre : FwuPre} {rest s t vee : List Char} {n : ℕ}

def fwuVersionStr (v : FwuVersion) : List Char :=
  decText v.major ++ '.' :: (decText v.minor ++ '.' :: (decText v.patch ++
    if v.pre = .none then []
    else '-' :: ((if v.pre = .beta then "beta".toList else "alfa".toList) ++
      '.' :: decText v.preN)))

/-- A version without a tail: the numbers fit their sixteen bits, and the one of a
prerelease is zero without one. -/
structure FwuVersion.Plain (v : FwuVersion) : Prop where
  major : v.major < 65536
  minor : v.minor < 65536
  patch : v.patch < 65536
  preN : v.preN < 65536
  preN_none : v.pre = .none → v.preN = 0
  dev : v.dev = false

/-! ## Numbers -/

/-- What follows a number. -/
def NoDigit (rest : List Char) : Prop := ∀ c ∈ rest.head?, c.isDigit = false

theorem noDigit_nil : NoDigit [] := fun _ h => nomatch h

theorem noDigit_cons (h : c.isDigit = false) (rest : List Char) : NoDigit (c :: rest) := by
  rintro d ⟨⟩
  exact h

theorem readNum_decText (strict : Bool) (hn : n < 65536) (hrest : NoDigit rest) :
    readNum strict (decText n ++ rest) = some (n, rest) := by
  obtain ⟨htake, -⟩ := takeWhile_isDigit rest (fun _ hc => isDigit_of_mem_decText (n := n) hc) hrest
  have hvalue : ofDigitsBE 10 ((decText n).map fun c => c.toNat - 48) = n := decNat_decText n
  unfold readNum
  dsimp only
  rw [htake, hvalue, if_neg, drop_left]
  rintro (hnil | hlarge | ⟨-, hlong, hzero⟩)
  · exact decText_ne_nil n hnil
  · omega
  · exact head_decText hlong hzero

theorem readNum_strict (h : readNum true s = some (n, rest)) :
    n < 65536 ∧ s = decText n ++ rest ∧ NoDigit rest := by
  unfold readNum at h
  rw [ite_none_left_eq_some] at h
  obtain ⟨hbad, h⟩ := h
  obtain ⟨hnil, hsmall, hzero⟩ := by
    simpa only [not_or] using hbad
  obtain ⟨rfl, rfl⟩ := mk.inj (some.inj h)
  have hdigits : ∀ c ∈ s.takeWhile Char.isDigit, c.isDigit = true := fun _ hc =>
    mem_takeWhile_imp hc
  have htext := decText_decNat hdigits hnil fun hlong hhead => hzero ⟨trivial, hlong, hhead⟩
  have hdrop : s.drop (s.takeWhile Char.isDigit).length = s.dropWhile Char.isDigit := by
    nth_rewrite 2 [← takeWhile_append_dropWhile (p := Char.isDigit) (l := s)]
    rw [drop_left]
  refine ⟨by omega, ?_, ?_⟩
  · rw [hdrop]
    nth_rewrite 1 [← takeWhile_append_dropWhile (p := Char.isDigit) (l := s)]
    exact congrArg (· ++ s.dropWhile Char.isDigit) htext.symm
  · rw [hdrop]
    intro c hc
    have hhead := List.head?_dropWhile_not Char.isDigit s
    rw [mem_def.mp hc] at hhead
    exact hhead

theorem readNum_lt {strict : Bool} (h : readNum strict s = some (n, rest)) : n < 65536 := by
  unfold readNum at h
  rw [ite_none_left_eq_some] at h
  obtain ⟨hbad, h⟩ := h
  obtain ⟨rfl, -⟩ := mk.inj (some.inj h)
  omega

theorem skipChar_cons (h : p c = true) (s : List Char) : skipChar p (c :: s) = some s := if_pos h

theorem skipChar_eq_some (h : skipChar p s = some rest) : ∃ c, p c = true ∧ s = c :: rest := by
  cases s with
  | nil => cases h
  | cons c s =>
    rw [skipChar, ite_none_right_eq_some] at h
    exact ⟨c, h.1, congrArg _ (some.inj h.2)⟩

/-! ## The strict grammar -/

theorem noDigit_point (rest : List Char) : NoDigit ('.' :: rest) := noDigit_cons (by decide) rest

variable {v : FwuVersion}

theorem parseStrict_str (hv : v.Plain) : fwuVersionParseStrict (fwuVersionStr v) = some v := by
  obtain ⟨major, minor, patch, pre, preN, dev⟩ := v
  obtain ⟨hmajor, hminor, hpatch, hpreN, hnone, hdev⟩ := hv
  subst hdev
  unfold fwuVersionParseStrict fwuVersionStr
  rw [readNum_decText true hmajor (noDigit_point _)]
  simp only [bind_eq_bind, bind_some, skipChar_cons (p := (· == '.')) (c := '.') rfl]
  rw [readNum_decText true hminor (noDigit_point _)]
  simp only [bind_some, skipChar_cons (p := (· == '.')) (c := '.') rfl]
  cases pre with
  | none =>
    obtain rfl := hnone rfl
    rw [if_pos rfl, readNum_decText true hpatch noDigit_nil]
    rfl
  | alfa =>
    rw [if_neg (by decide), readNum_decText true hpatch (noDigit_cons (by decide) _)]
    have hnum := readNum_decText true hpreN noDigit_nil
    rw [append_nil] at hnum
    show (readNum true (decText preN)).bind _ = _
    rw [hnum]
    rfl
  | beta =>
    rw [if_neg (by decide), readNum_decText true hpatch (noDigit_cons (by decide) _)]
    have hnum := readNum_decText true hpreN noDigit_nil
    rw [append_nil] at hnum
    show (readNum true (decText preN)).bind _ = _
    rw [hnum]
    rfl

theorem isPrefixOf_eq_append {p : List Char} (h : p.isPrefixOf s = true) :
    s = p ++ s.drop p.length := by
  obtain ⟨rest, rfl⟩ := isPrefixOf_iff_prefix.mp h
  rw [drop_left]

theorem readPre_strict (h : readPre true s = some (pre, rest)) :
    pre ≠ .none ∧ s = (if pre = .beta then "beta".toList else "alfa".toList) ++ rest := by
  unfold readPre at h
  split_ifs at h with halfa hbeta hfalse
  · obtain ⟨rfl, rfl⟩ := mk.inj (some.inj h)
    exact ⟨by decide, isPrefixOf_eq_append halfa⟩
  · obtain ⟨rfl, rfl⟩ := mk.inj (some.inj h)
    exact ⟨by decide, isPrefixOf_eq_append hbeta⟩
  · exact absurd hfalse (by simp)

theorem str_of_parseStrict (h : fwuVersionParseStrict s = some v) :
    v.Plain ∧ s = fwuVersionStr v := by
  unfold fwuVersionParseStrict at h
  simp only [bind_eq_bind, bind_eq_some_iff, Prod.exists] at h
  obtain ⟨major, s₁, hmajor, s₂, hpoint₁, minor, s₃, hminor, s₄, hpoint₂, patch, s₅, hpatch, h⟩ := h
  obtain ⟨hM, rfl, -⟩ := readNum_strict hmajor
  obtain ⟨c₁, hc₁, rfl⟩ := skipChar_eq_some hpoint₁
  obtain ⟨hm, rfl, -⟩ := readNum_strict hminor
  obtain ⟨c₂, hc₂, rfl⟩ := skipChar_eq_some hpoint₂
  obtain ⟨hp, rfl, -⟩ := readNum_strict hpatch
  obtain rfl := beq_iff_eq.mp hc₁
  obtain rfl := beq_iff_eq.mp hc₂
  cases s₅ with
  | nil =>
    obtain rfl := some.inj h
    exact ⟨⟨hM, hm, hp, succ_pos _, fun _ => rfl, rfl⟩, rfl⟩
  | cons c s₅ =>
    rw [ite_none_right_eq_some] at h
    obtain ⟨rfl, h⟩ := h
    simp only [bind_eq_some_iff, Prod.exists] at h
    obtain ⟨pre, s₆, hpre, s₇, hpoint₃, preN, s₈, hpreN, h⟩ := h
    rw [ite_none_right_eq_some] at h
    obtain ⟨rfl, h⟩ := h
    obtain ⟨hnone, rfl⟩ := readPre_strict hpre
    obtain ⟨c₃, hc₃, rfl⟩ := skipChar_eq_some hpoint₃
    obtain ⟨hn, rfl, -⟩ := readNum_strict hpreN
    obtain rfl := beq_iff_eq.mp hc₃
    obtain rfl := some.inj h
    refine ⟨⟨hM, hm, hp, hn, fun h => absurd h hnone, rfl⟩, ?_⟩
    rw [fwuVersionStr]
    rw [if_neg hnone, append_nil]

/-- **The strict grammar reads exactly the printed versions.** -/
theorem fwuVersionParseStrict_eq_some :
    fwuVersionParseStrict s = some v ↔ v.Plain ∧ s = fwuVersionStr v :=
  ⟨str_of_parseStrict, fun ⟨hv, hs⟩ => hs ▸ parseStrict_str hv⟩

theorem isSome_parseStrict :
    (fwuVersionParseStrict s).isSome = true ↔ ∃ v : FwuVersion, v.major < 65536 ∧
      v.minor < 65536 ∧ v.patch < 65536 ∧ v.preN < 65536 ∧ v.dev = false ∧ s = fwuVersionStr v := by
  constructor
  · intro h
    obtain ⟨v, hparse⟩ := isSome_iff_exists.mp h
    obtain ⟨hv, hs⟩ := fwuVersionParseStrict_eq_some.mp hparse
    exact ⟨v, hv.major, hv.minor, hv.patch, hv.preN, hv.dev, hs⟩
  · rintro ⟨v, hmajor, hminor, hpatch, hpreN, hdev, rfl⟩
    -- without a prerelease, its number is not printed
    by_cases hpre : v.pre = .none
    · have hplain : ({ v with preN := 0 } : FwuVersion).Plain :=
        ⟨hmajor, hminor, hpatch, succ_pos _, fun _ => rfl, hdev⟩
      have hsame : fwuVersionStr { v with preN := 0 } = fwuVersionStr v := by
        rw [fwuVersionStr, fwuVersionStr, if_pos hpre, if_pos hpre]
      rw [← hsame, parseStrict_str hplain]
      rfl
    · rw [parseStrict_str ⟨hmajor, hminor, hpatch, hpreN, fun h => absurd h hpre, hdev⟩]
      rfl

/-! ## The tolerant grammar -/

theorem decText_cons (n : ℕ) : ∃ c cs, decText n = c :: cs ∧ c.isDigit = true := by
  cases htext : decText n with
  | nil => exact absurd htext (decText_ne_nil n)
  | cons c cs => exact ⟨c, cs, rfl, isDigit_of_mem_decText (htext ▸ mem_cons_self)⟩

theorem skipChar_of_not (h : p c = false) (s : List Char) : skipChar p (c :: s) = none := by
  rw [skipChar, h, if_neg Bool.false_ne_true]

/-- What may stand behind a version without changing what is read of it: nothing, or a
dash that no prerelease follows. -/
def IsTail (t : List Char) : Prop := t = [] ∨ ∃ t', t = '-' :: t' ∧ readPre false t' = none

theorem IsTail.noDigit (h : IsTail t) : NoDigit t := by
  rcases h with rfl | ⟨t', rfl, -⟩
  · exact noDigit_nil
  · exact noDigit_cons (by decide) t'

/-- The prefix that is left out. -/
def IsVee (vee : List Char) : Prop := vee = [] ∨ vee = ['v'] ∨ vee = ['V']

theorem skip_vee (h : IsVee vee) (n : ℕ) (rest : List Char) :
    (skipChar (fun c => c == 'v' || c == 'V') (vee ++ (decText n ++ rest))).getD
      (vee ++ (decText n ++ rest)) = decText n ++ rest := by
  rcases h with rfl | rfl | rfl
  · obtain ⟨c, cs, htext, hdigit⟩ := decText_cons n
    have hnot : (c == 'v' || c == 'V') = false := by
      rw [Bool.or_eq_false_iff, beq_eq_false_iff_ne, beq_eq_false_iff_ne]
      constructor
      · rintro rfl
        exact absurd hdigit (by decide)
      · rintro rfl
        exact absurd hdigit (by decide)
    rw [nil_append, htext, cons_append, skipChar_of_not (p := fun c => c == 'v' || c == 'V') hnot]
    rfl
  · rfl
  · rfl

/-- What the tolerant grammar makes of what follows the numbers. -/
def tolerantEnd (major minor patch : ℕ) (s : List Char) : Option FwuVersion :=
  let (pre, preN, s) := (tolerantPre s).getD (.none, 0, s)
  if s = [] then some ⟨major, minor, patch, pre, preN, false⟩
  else if isBuildTail s then some ⟨major, minor, patch, pre, preN, true⟩
  else none

theorem parseTolerant_numbers (hvee : IsVee vee) (hmajor : major < 65536) (hminor : minor < 65536)
    (hpatch : patch < 65536) (hs : NoDigit s)
    (hletter : ∀ c ∈ s.head?, (c == 'p' || c == 'u') = false) :
    fwuVersionParseTolerant
      (vee ++ (decText major ++ '.' :: (decText minor ++ '.' :: (decText patch ++ s)))) =
        tolerantEnd major minor patch s := by
  have hnumber := readNum_decText false hpatch hs
  obtain ⟨c, cs, htext, hdigit⟩ := decText_cons patch
  rw [htext, cons_append] at hnumber ⊢
  have hskip : (skipChar (fun c => c == 'p' || c == 'u') s).getD s = s := by
    cases s with
    | nil => rfl
    | cons d s => rw [skipChar_of_not (hletter d rfl)]; rfl
  unfold fwuVersionParseTolerant
  dsimp only
  rw [skip_vee hvee, readNum_decText false hmajor (noDigit_point _)]
  simp only [bind_eq_bind, bind_some, skipChar_cons (p := (· == '.')) (c := '.') rfl]
  rw [readNum_decText false hminor (noDigit_point _)]
  simp only [bind_some, hdigit, if_true, hnumber, getD_some, hskip]
  rfl

theorem tolerantPre_word (hpre : pre ≠ .none) (hn : preN < 65536) (ht : NoDigit t) :
    tolerantPre ('-' :: ((if pre = .beta then "beta".toList else "alfa".toList) ++
      '.' :: decText preN) ++ t) = some (pre, preN, t) := by
  have hnum := readNum_decText false hn ht
  cases pre with
  | none => exact absurd rfl hpre
  | alfa =>
    show (readNum false (decText preN ++ t)).bind _ = _
    rw [hnum]
    rfl
  | beta =>
    show (readNum false (decText preN ++ t)).bind _ = _
    rw [hnum]
    rfl

theorem tolerantPre_tail (ht : IsTail t) : tolerantPre t = none := by
  rcases ht with rfl | ⟨t', rfl, hpre⟩
  · rfl
  · show (readPre false t').bind _ = _
    rw [hpre]
    rfl

/-- **A printed version is read behind a `v` and before a tail**: it is the version, a
development build of it, or nothing. -/
theorem parseTolerant_str (hv : v.Plain) (hvee : IsVee vee) (ht : IsTail t) :
    fwuVersionParseTolerant (vee ++ (fwuVersionStr v ++ t)) = if t = [] then some v
      else if isBuildTail t then some { v with dev := true }
      else none := by
  obtain ⟨major, minor, patch, pre, preN, dev⟩ := v
  obtain ⟨hmajor, hminor, hpatch, hpreN, hnone, hdev⟩ := hv
  subst hdev
  simp only [fwuVersionStr, append_assoc, cons_append]
  by_cases hpre : pre = .none
  · obtain rfl := hnone hpre
    subst hpre
    have hletter : ∀ c ∈ t.head?, (c == 'p' || c == 'u') = false := by
      rcases ht with rfl | ⟨t', rfl, -⟩
      · intro c hc
        cases hc
      · rintro c ⟨⟩
        rfl
    rw [if_pos rfl, nil_append, parseTolerant_numbers hvee hmajor hminor hpatch ht.noDigit
      hletter, tolerantEnd, tolerantPre_tail ht]
    rfl
  · have hword := tolerantPre_word hpre hpreN ht.noDigit
    generalize hrest : '-' :: ((if pre = .beta then "beta".toList else "alfa".toList) ++
      '.' :: decText preN) ++ t = rest at hword
    have hdash : NoDigit rest := hrest ▸ noDigit_cons (by decide) _
    have hletter : ∀ c ∈ rest.head?, (c == 'p' || c == 'u') = false := by
      rw [← hrest]
      rintro c ⟨⟩
      rfl
    rw [if_neg hpre, hrest, parseTolerant_numbers hvee hmajor hminor hpatch hdash hletter,
      tolerantEnd, hword]
    rfl

/-! ## A git describe tail -/

/-- `-<digits>-g<hex>`, with `-dirty` behind it or not. -/
structure DescribeTail where
  digits : List Char
  hex : List Char
  dirty : Bool
  digits_ne : digits ≠ []
  isDigit : ∀ c ∈ digits, c.isDigit = true
  hex_ne : hex ≠ []
  isHexDigit : ∀ c ∈ hex, c.isHexDigit = true

def DescribeTail.text (d : DescribeTail) : List Char :=
  '-' :: (d.digits ++ "-g".toList ++ d.hex ++ if d.dirty then "-dirty".toList else [])

theorem readPre_digit (h : c.isDigit = true) (s : List Char) : readPre false (c :: s) = none := by
  have hne : ∀ d : Char, d.isDigit = false → (d == c) = false := by
    intro d hd
    rw [beq_eq_false_iff_ne]
    rintro rfl
    rw [h] at hd
    cases hd
  have halfa : "alfa".toList.isPrefixOf (c :: s) = false := by
    show (('a' == c) && _) = false
    rw [hne 'a' (by decide), Bool.false_and]
  have hbeta : "beta".toList.isPrefixOf (c :: s) = false := by
    show (('b' == c) && _) = false
    rw [hne 'b' (by decide), Bool.false_and]
  have halpha : "alpha".toList.isPrefixOf (c :: s) = false := by
    show (('a' == c) && _) = false
    rw [hne 'a' (by decide), Bool.false_and]
  rw [readPre, halfa, hbeta, halpha]
  rfl

theorem DescribeTail.isTail_take (d : DescribeTail) (n : ℕ) : IsTail (d.text.take n) := by
  cases n with
  | zero => exact Or.inl rfl
  | succ n =>
    refine Or.inr ⟨_, rfl, ?_⟩
    cases n with
    | zero => rfl
    | succ n =>
      obtain ⟨c, cs, hdigits⟩ := exists_cons_of_ne_nil d.digits_ne
      rw [hdigits]
      exact readPre_digit (d.isDigit c (hdigits ▸ mem_cons_self)) _

theorem length_decText (h : n < 65536) : (decText n).length ≤ 5 :=
  (length_toDigits_le_iff (by decide) (by decide)).mpr (by omega)

theorem length_fwuVersionStr (hv : v.Plain) : (fwuVersionStr v).length ≤ 28 := by
  have hmajor := length_decText hv.major
  have hminor := length_decText hv.minor
  have hpatch := length_decText hv.patch
  have hpreN := length_decText hv.preN
  rw [fwuVersionStr]
  split_ifs
  · simp only [length_append, length_cons, length_nil]
    omega
  · have hword : "beta".toList.length = 4 := rfl
    simp only [length_append, length_cons, hword]
    omega
  · have hword : "alfa".toList.length = 4 := rfl
    simp only [length_append, length_cons, hword]
    omega

/-- **With a describe tail, cut at 31 characters, a version is a development build of the
same numbers or nothing.** -/
theorem parseTolerant_describe (hv : v.Plain) (d : DescribeTail) (hvee : IsVee vee) :
    fwuVersionParseTolerant ((vee ++ (fwuVersionStr v ++ d.text)).take 31) = none ∨
      fwuVersionParseTolerant ((vee ++ (fwuVersionStr v ++ d.text)).take 31) =
        some { v with dev := true } := by
  have hlen := length_fwuVersionStr hv
  have hshort : vee.length ≤ 1 := by
    rcases hvee with rfl | rfl | rfl
    · exact Nat.zero_le 1
    · exact Nat.le_refl 1
    · exact Nat.le_refl 1
  have hcut : (vee ++ (fwuVersionStr v ++ d.text)).take 31 =
      vee ++ (fwuVersionStr v ++ d.text.take (31 - vee.length - (fwuVersionStr v).length)) := by
    rw [take_append, take_of_length_le (by omega), take_append, take_of_length_le (by omega)]
  have hne : d.text.take (31 - vee.length - (fwuVersionStr v).length) ≠ [] := by
    intro hnil
    rcases take_eq_nil_iff.mp hnil with hzero | htext
    · omega
    · cases htext
  rw [hcut, parseTolerant_str hv hvee (d.isTail_take _), if_neg hne]
  split_ifs
  · exact Or.inr rfl
  · exact Or.inl rfl

/-! ## What is parsed -/

/-- A version that either grammar read. -/
def FwuVersion.Parsed (v : FwuVersion) : Prop :=
  ∃ s, fwuVersionParseStrict s = some v ∨ fwuVersionParseTolerant s = some v

/-- The version without its tail. -/
def FwuVersion.release (v : FwuVersion) : FwuVersion := { v with dev := false }

theorem tolerantPre_bounds (h : tolerantPre s = some (pre, preN, rest)) :
    preN < 65536 ∧ pre ≠ .none := by
  simp only [tolerantPre, bind_eq_bind, bind_eq_some_iff, Prod.exists] at h
  obtain ⟨s₁, -, pre', s₂, hpre, s₃, -, n, s₄, hnum, h⟩ := h
  obtain ⟨rfl, rfl, rfl⟩ := by
    simpa only [some.injEq] using h
  refine ⟨readNum_lt hnum, ?_⟩
  unfold readPre at hpre
  split_ifs at hpre <;> obtain ⟨rfl, -⟩ := mk.inj (some.inj hpre) <;> decide

theorem tolerantEnd_plain (hmajor : major < 65536) (hminor : minor < 65536) (hpatch : patch < 65536)
    (h : tolerantEnd major minor patch s = some v) : v.release.Plain := by
  have hpre : ((tolerantPre s).getD (.none, 0, s)).2.1 < 65536 ∧
      (((tolerantPre s).getD (.none, 0, s)).1 = .none →
        ((tolerantPre s).getD (.none, 0, s)).2.1 = 0) := by
    cases hpre : tolerantPre s with
    | none => exact ⟨succ_pos _, fun _ => rfl⟩
    | some p =>
      obtain ⟨hlt, hne⟩ := tolerantPre_bounds hpre
      exact ⟨hlt, fun h => absurd h hne⟩
  unfold tolerantEnd at h
  dsimp only at h
  split_ifs at h
  · obtain rfl := some.inj h
    exact ⟨hmajor, hminor, hpatch, hpre.1, hpre.2, rfl⟩
  · obtain rfl := some.inj h
    exact ⟨hmajor, hminor, hpatch, hpre.1, hpre.2, rfl⟩

theorem plain_of_parseTolerant (h : fwuVersionParseTolerant s = some v) : v.release.Plain := by
  unfold fwuVersionParseTolerant at h
  simp only [bind_eq_bind, bind_eq_some_iff, Prod.exists] at h
  obtain ⟨major, s₁, hmajor, s₂, -, minor, s₃, hminor, h⟩ := h
  have hM := readNum_lt hmajor
  have hm := readNum_lt hminor
  split at h
  · rename_i c s₄
    split at h
    · refine tolerantEnd_plain hM hm ?_ h
      cases hpatch : readNum false (c :: s₄) with
      | none => exact succ_pos _
      | some p => exact readNum_lt hpatch
    · exact tolerantEnd_plain hM hm (succ_pos _) h
  · exact tolerantEnd_plain hM hm (succ_pos _) h

theorem FwuVersion.Parsed.plain {v : FwuVersion} (h : v.Parsed) : v.release.Plain := by
  obtain ⟨s, hstrict | htolerant⟩ := h
  · obtain ⟨hv, -⟩ := fwuVersionParseStrict_eq_some.mp hstrict
    exact ⟨hv.major, hv.minor, hv.patch, hv.preN, hv.preN_none, rfl⟩
  · exact plain_of_parseTolerant htolerant

/-! ## The order of what is parsed -/

theorem fwuVersionStr_release (v : FwuVersion) : fwuVersionStr v.release = fwuVersionStr v := rfl

theorem key_release (v : FwuVersion) : v.release.key = v.key := rfl

theorem FwuPre.rank_inj {p q : FwuPre} (h : p.rank = q.rank) : p = q := by
  revert h
  cases p <;> cases q <;> decide

variable {a b : FwuVersion}

theorem release_of_key (h : a.key = b.key) : a.release = b.release := by
  obtain ⟨major, minor, patch, pre, preN, dev⟩ := a
  simp only [FwuVersion.key, EmbeddingLike.apply_eq_iff_eq, mk.injEq] at h
  obtain ⟨rfl, rfl, rfl, hpre, rfl⟩ := h
  rw [FwuVersion.release, FwuVersion.release, FwuPre.rank_inj hpre]

/-- **Two parsed versions are the same in the order exactly if they print alike.** -/
theorem fwuVersionCmp_eq_iff (ha : a.Parsed) (hb : b.Parsed) :
    fwuVersionCmp a b = .eq ↔ fwuVersionStr a = fwuVersionStr b := by
  rw [fwuVersionCmp_eq, compare_eq_iff_eq]
  constructor
  · intro hkey
    rw [← fwuVersionStr_release a, release_of_key hkey, fwuVersionStr_release]
  · intro htext
    have hparse := parseStrict_str ha.plain
    rw [fwuVersionStr_release, htext, ← fwuVersionStr_release, parseStrict_str hb.plain] at hparse
    rw [← key_release, ← key_release b, some.inj hparse]

theorem fwuVersionCmp_swap (a b : FwuVersion) : fwuVersionCmp a b = (fwuVersionCmp b a).swap := by
  rw [fwuVersionCmp_eq, fwuVersionCmp_eq]
  exact (Std.OrientedOrd.eq_swap : compare a.key b.key = _)

theorem fwuVersionCmp_trans {c : FwuVersion} (hab : fwuVersionCmp a b ≠ .gt)
    (hbc : fwuVersionCmp b c ≠ .gt) : fwuVersionCmp a c ≠ .gt := by
  rw [fwuVersionCmp_eq, ne_eq, compare_gt_iff_gt, not_lt] at hab hbc ⊢
  exact hab.trans hbc

/-- What the grammars and the order have to do with each other. -/
structure FwuVersionsAgree : Prop where
  /-- the strict grammar reads what is printed, and nothing else -/
  strict : ∀ s v, fwuVersionParseStrict s = some v ↔ v.Plain ∧ s = fwuVersionStr v
  /-- and that is any version whose numbers fit, without a tail -/
  accepts : ∀ s, (fwuVersionParseStrict s).isSome = true ↔ ∃ v : FwuVersion, v.major < 65536 ∧
    v.minor < 65536 ∧ v.patch < 65536 ∧ v.preN < 65536 ∧ v.dev = false ∧ s = fwuVersionStr v
  /-- so does the tolerant one, with a `v` or without -/
  tolerant : ∀ v : FwuVersion, v.Plain → ∀ vee, IsVee vee →
    fwuVersionParseTolerant (vee ++ fwuVersionStr v) = some v
  /-- a describe tail makes a development build of the same numbers, or nothing -/
  describe : ∀ v : FwuVersion, v.Plain → ∀ (d : DescribeTail) (vee), IsVee vee →
    fwuVersionParseTolerant ((vee ++ (fwuVersionStr v ++ d.text)).take 31) = none ∨
      fwuVersionParseTolerant ((vee ++ (fwuVersionStr v ++ d.text)).take 31) =
        some { v with dev := true }
  refl : ∀ a, fwuVersionCmp a a = .eq
  swap : ∀ a b, fwuVersionCmp a b = (fwuVersionCmp b a).swap
  trans : ∀ a b c, fwuVersionCmp a b ≠ .gt → fwuVersionCmp b c ≠ .gt → fwuVersionCmp a c ≠ .gt
  antisymm : ∀ a b : FwuVersion, a.Parsed → b.Parsed →
    (fwuVersionCmp a b = .eq ↔ fwuVersionStr a = fwuVersionStr b)
  /-- the order is that of what the printed texts say -/
  text : ∀ a b : FwuVersion, a.Parsed → b.Parsed → ∃ a' b',
    fwuVersionParseStrict (fwuVersionStr a) = some a' ∧
      fwuVersionParseStrict (fwuVersionStr b) = some b' ∧
      fwuVersionCmp a b = compare a'.key b'.key

/-- **The grammars and the order agree.** -/
theorem fwuVersions_agree : FwuVersionsAgree where
  strict := fun _ _ => fwuVersionParseStrict_eq_some
  accepts := fun _ => isSome_parseStrict
  tolerant := by
    intro v hv vee hvee
    have h := parseTolerant_str hv hvee (Or.inl rfl)
    rwa [append_nil] at h
  describe := fun _ hv d _ hvee => parseTolerant_describe hv d hvee
  refl := fun a => by rw [fwuVersionCmp_eq, compare_eq_iff_eq]
  swap := fwuVersionCmp_swap
  trans := fun _ _ _ => fwuVersionCmp_trans
  antisymm := fun _ _ => fwuVersionCmp_eq_iff
  text := fun a b ha hb => ⟨a.release, b.release, parseStrict_str ha.plain, parseStrict_str hb.plain,
    fwuVersionCmp_eq a b⟩

end Meatpi
