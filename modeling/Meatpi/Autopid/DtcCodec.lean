import Meatpi.Library.Distinct
import Meatpi.Library.Text
import Mathlib.Data.List.DropRight

/-!
# The trouble code codec (`autopid_dtc_codec.c`)

A code is two bytes on the wire and a text everywhere else; the texts are
compared by `strcmp`, so a text is the list of its characters. What a list of
codes keeps is bounded at every stage, and each stage keeps what came first:
`apDtcParseCodes_eq` and `apDtcMergeCodes_eq` say what.

The clear condition is a statement about the codes it is given.
`clearIfOnly_safe_iff` says when it is one about the codes that are there.
-/

namespace Meatpi

open List

variable {kept : List (List Char)} {code word : List Char}

def apDtcMax : ℕ := 32

/-- A digit of the code text, `HEX[n]`. -/
def dtcHex (n : ℕ) : Char := Char.ofNat (if n < 10 then 48 + n else 55 + n)

def apDtcFormat (hi lo : UInt8) : List Char :=
  [['P', 'C', 'B', 'U'].getD (hi.toNat / 64) 'P', Char.ofNat (48 + hi.toNat / 16 % 4),
    dtcHex (hi.toNat % 16), dtcHex (lo.toNat / 16), dtcHex (lo.toNat % 16)]

/-- The byte pairs of a payload; an odd byte at the end is left over. -/
def pairsOf : List UInt8 → List (UInt8 × UInt8)
  | hi :: lo :: rest => (hi, lo) :: pairsOf rest
  | _ => []

/-- The pair loop of `ap_dtc_parse_codes`. -/
def parsePairs (outMax : ℕ) : List (UInt8 × UInt8) → List (List Char) → List (List Char)
  | [], out => out
  | (hi, lo) :: pairs, out =>
    if hi = 0 ∧ lo = 0 then parsePairs outMax pairs out -- padding
    else if outMax ≤ out.length then out -- keep what fits
    else parsePairs outMax pairs (out ++ [apDtcFormat hi lo])

/-- Where the pairs of a payload of `len` bytes start: behind the count byte, or
behind the service byte when only that leaves pairs. -/
def pairsOff (len : ℕ) : ℕ :=
  if 2 ≤ len ∧ (len - 2) % 2 ≠ 0 ∧ (len - 1) % 2 = 0 then 1 else 2

/-- `ap_dtc_parse_codes`; `none` is its `-1`. -/
def apDtcParseCodes (payload : List UInt8) (serviceResp : UInt8) (outMax : ℕ) :
    Option (List (List Char)) :=
  match payload with
  | [] => none
  | service :: _ =>
    if service ≠ serviceResp then none
    else if payload.length < pairsOff payload.length then some []
    else some (parsePairs outMax (pairsOf (payload.drop (pairsOff payload.length))) [])

def apDtcMergeCodes (dst : List (List Char)) (dstMax : ℕ) (src : List (List Char)) :
    List (List Char) :=
  src.foldl
    (fun dst code => if !dst.contains code && dst.length < dstMax then dst ++ [code] else dst) dst

/-- What stands between the entries of a code list. -/
def isCodeSep (c : Char) : Bool := c == ' ' || c == ','

/-- Two texts but for the case of their letters. -/
def sameCode (word code : List Char) : Bool := word.map Char.toUpper == code.map Char.toUpper

/-- The loop of `csv_contains` over the rest `p` of the list; every turn takes
at least one character, so `fuel` may be their number. -/
def csvContainsLoop : ℕ → List Char → List Char → Bool
  | 0, _, _ => false
  | fuel + 1, p, code =>
    if p = [] then false
    else
      let p := p.dropWhile isCodeSep
      let word := p.takeWhile (!isCodeSep ·)
      if sameCode word code then true
      else csvContainsLoop fuel (p.dropWhile (!isCodeSep ·)) code

/-- `csv_contains`; `none` is the NULL list. -/
def csvContains (csv : Option (List Char)) (code : List Char) : Bool :=
  match csv with
  | none => false
  | some csv => csvContainsLoop csv.length csv code

inductive ApDtcClearMode where
  | always
  | ifAny
  | ifOnly
  | invalid

def apDtcClearAllowed (present : List (List Char)) (codes : Option (List Char)) :
    ApDtcClearMode → Bool
  | .always => true
  | .ifAny => present.any (csvContains codes)
  | .ifOnly => !present.isEmpty && present.all (csvContains codes)
  | .invalid => false

/-! ## What is kept -/

/-- A pair that is a code: two zero bytes are padding. -/
def isCodePair (c : UInt8 × UInt8) : Bool := c != (0, 0)

theorem parsePairs_eq (outMax : ℕ) : ∀ (pairs : List (UInt8 × UInt8)) (out : List (List Char)),
    parsePairs outMax pairs out = out ++ ((pairs.filter isCodePair).take (outMax - out.length)).map
        fun c => apDtcFormat c.1 c.2 := by
  intro pairs
  induction pairs with
  | nil => intro out; simp [parsePairs]
  | cons c pairs ih =>
    obtain ⟨hi, lo⟩ := c
    intro out
    rw [parsePairs]
    by_cases hpad : hi = 0 ∧ lo = 0
    · rw [if_pos hpad, ih, filter_cons_of_neg (by simp [isCodePair, hpad])]
    · have hcode : isCodePair (hi, lo) = true := by simpa [isCodePair] using hpad
      rw [if_neg hpad, filter_cons_of_pos hcode]
      rcases Nat.lt_or_ge out.length outMax with hroom | hfull
      · have hleft : outMax - out.length = (outMax - (out.length + 1)) + 1 := by omega
        rw [if_neg (Nat.not_le.mpr hroom), ih, hleft, take_succ_cons, map_cons,
          length_append, length_singleton, append_assoc, singleton_append]
      · rw [if_pos hfull, Nat.sub_eq_zero_of_le hfull, take_zero, map_nil, append_nil]

theorem apDtcParseCodes_eq {service : UInt8} {rest : List UInt8} (outMax : ℕ) :
    apDtcParseCodes (service :: rest) service outMax =
      some ((((pairsOf ((service :: rest).drop (pairsOff (rest.length + 1)))).filter
        isCodePair).take outMax).map fun c => apDtcFormat c.1 c.2) := by
  rw [apDtcParseCodes, if_neg (by simp)]
  split_ifs with hshort
  · -- no byte behind the offset
    have hnil : (service :: rest).drop (pairsOff (rest.length + 1)) = [] := by
      rw [drop_eq_nil_iff]
      exact hshort.le
    simp [hnil, pairsOf]
  · rw [parsePairs_eq]
    rfl

theorem apDtcMergeCodes_eq (dst : List (List Char)) (dstMax : ℕ) (src : List (List Char)) :
    apDtcMergeCodes dst dstMax src = src.foldl (addDistinct dstMax) dst := by
  rw [apDtcMergeCodes]
  congr 1
  funext dst code
  simp [addDistinct]

/-! ## The code list -/

/-- The code is an entry of the list, but for the case of its letters. -/
def Listed (csv : Option (List Char)) (code : List Char) : Prop :=
  ∃ list ∈ csv, ∃ word ∈ list.splitOnP isCodeSep, sameCode word code = true

/-- What a code's text has: some character, no separator and no small letter. -/
structure IsCode (code : List Char) : Prop where
  ne_nil : code ≠ []
  no_sep : ∀ c ∈ code, isCodeSep c = false
  upper : code.map Char.toUpper = code

theorem sameCode_ne_nil (h : sameCode word code = true) (hne : code ≠ []) : word ≠ [] := by
  rintro rfl
  rw [sameCode, beq_iff_eq] at h
  exact hne (map_eq_nil_iff.mp h.symm)

theorem mem_splitOnP_dropWhile (hword : word ≠ []) (p : List Char) :
    word ∈ (p.dropWhile isCodeSep).splitOnP isCodeSep ↔ word ∈ p.splitOnP isCodeSep := by
  induction p with
  | nil => rfl
  | cons c p ih =>
    by_cases hc : isCodeSep c = true
    · have hnil : ∀ d ∈ ([] : List Char), isCodeSep d = false := by simp
      have hsplit := splitOnP_append_cons_of_forall_mem hnil c hc p
      rw [nil_append] at hsplit
      rw [dropWhile_cons_of_pos hc, ih, hsplit, mem_cons]
      exact ⟨.inr, fun h => h.resolve_left hword⟩
    · rw [dropWhile_cons_of_neg hc]

theorem mem_splitOnP_takeWhile (hword : word ≠ []) (p : List Char) :
    word ∈ p.splitOnP isCodeSep ↔ word = p.takeWhile (!isCodeSep ·) ∨
        word ∈ (p.dropWhile (!isCodeSep ·)).splitOnP isCodeSep := by
  have hcut := takeWhile_append_dropWhile (p := (!isCodeSep ·)) (l := p)
  have hfree : ∀ c ∈ p.takeWhile (!isCodeSep ·), isCodeSep c = false := by
    intro c hc
    simpa using mem_takeWhile_imp hc
  cases hrest : p.dropWhile (!isCodeSep ·) with
  | nil =>
    rw [hrest, append_nil] at hcut
    rw [hcut] at hfree ⊢
    rw [splitOnP_eq_singleton hfree, splitOnP_nil, mem_singleton, mem_singleton]
    exact ⟨.inl, fun h => h.resolve_right hword⟩
  | cons c rest =>
    have hc : isCodeSep c = true := by
      have hne : p.dropWhile (!isCodeSep ·) ≠ [] := by rw [hrest]; simp
      have hhead := head_dropWhile_not (!isCodeSep ·) hne
      simpa [hrest] using hhead
    have hnil : ∀ d ∈ ([] : List Char), isCodeSep d = false := by simp
    have hsplit := splitOnP_append_cons_of_forall_mem hnil c hc rest
    rw [nil_append] at hsplit
    rw [hrest] at hcut
    rw [← hcut, splitOnP_append_cons_of_forall_mem hfree c hc rest, hcut, hsplit,
      mem_cons, mem_cons]
    constructor
    · rintro (h | h)
      · exact .inl h
      · exact .inr (.inr h)
    · rintro (h | h | h)
      · exact .inl h
      · exact absurd h hword
      · exact .inr h

theorem csvContainsLoop_iff (hcode : code ≠ []) :
    ∀ {fuel : ℕ} {p : List Char}, p.length ≤ fuel → (csvContainsLoop fuel p code = true ↔
        ∃ word ∈ p.splitOnP isCodeSep, sameCode word code = true) := by
  have hempty : ¬ ∃ word ∈ ([] : List Char).splitOnP isCodeSep, sameCode word code = true := by
    rintro ⟨word, hword, hsame⟩
    rw [splitOnP_nil, mem_singleton] at hword
    exact sameCode_ne_nil hsame hcode hword
  intro fuel
  induction fuel with
  | zero =>
    intro p hlen
    obtain rfl := eq_nil_of_length_eq_zero (Nat.le_zero.mp hlen)
    exact ⟨fun h => by simp [csvContainsLoop] at h, fun h => absurd h hempty⟩
  | succ fuel ih =>
    intro p hlen
    by_cases hp : p = []
    · subst hp
      exact ⟨fun h => by simp [csvContainsLoop] at h, fun h => absurd h hempty⟩
    · rw [csvContainsLoop]
      have hshort : ((p.dropWhile isCodeSep).dropWhile (!isCodeSep ·)).length ≤ fuel := by
        obtain ⟨c, q, rfl⟩ := exists_cons_of_ne_nil hp
        rw [length_cons] at hlen
        by_cases hc : isCodeSep c = true
        · have h1 := (dropWhile_suffix isCodeSep (l := q)).length_le
          have h2 := (dropWhile_suffix (!isCodeSep ·) (l := q.dropWhile isCodeSep)).length_le
          rw [dropWhile_cons_of_pos hc]
          omega
        · have h1 := (dropWhile_suffix (!isCodeSep ·) (l := q)).length_le
          rw [dropWhile_cons_of_neg hc, dropWhile_cons_of_pos (by simpa using hc)]
          omega
      have hentries : ∀ word, word ≠ [] → (word ∈ p.splitOnP isCodeSep ↔
          word = (p.dropWhile isCodeSep).takeWhile (!isCodeSep ·) ∨
            word ∈ ((p.dropWhile isCodeSep).dropWhile (!isCodeSep ·)).splitOnP isCodeSep) := by
        intro word hword
        rw [← mem_splitOnP_dropWhile hword, mem_splitOnP_takeWhile hword]
      dsimp only
      split_ifs with hsame
      · refine ⟨fun _ => ?_, fun _ => rfl⟩
        exact ⟨_, (hentries _ (sameCode_ne_nil hsame hcode)).mpr (.inl rfl), hsame⟩
      · rw [ih hshort]
        constructor
        · rintro ⟨word, hword, h⟩
          exact ⟨word, (hentries word (sameCode_ne_nil h hcode)).mpr (.inr hword), h⟩
        · rintro ⟨word, hword, h⟩
          rcases (hentries word (sameCode_ne_nil h hcode)).mp hword with rfl | hword
          · exact absurd h hsame
          · exact ⟨word, hword, h⟩

theorem csvContains_iff {csv : Option (List Char)} (hcode : code ≠ []) :
    csvContains csv code = true ↔ Listed csv code := by
  cases csv with
  | none => simp [csvContains, Listed]
  | some list =>
    rw [csvContains, csvContainsLoop_iff hcode (Nat.le_refl _)]
    simp [Listed]

theorem listed_printTokens (hne : kept ≠ []) (hkept : ∀ c ∈ kept, IsCode c) (hcode : IsCode code) :
    Listed (some (printTokens kept)) code ↔ code ∈ kept := by
  have hsplit : (printTokens kept).splitOnP isCodeSep = kept :=
    splitOnP_printTokens rfl hne fun c hc => (hkept c hc).no_sep
  simp only [Listed, Option.mem_some_iff, exists_eq_left', hsplit]
  constructor
  · rintro ⟨word, hword, hsame⟩
    rw [sameCode, beq_iff_eq, (hkept word hword).upper, hcode.upper] at hsame
    exact hsame ▸ hword
  · intro h
    exact ⟨code, h, by simp [sameCode]⟩

/-! ## The clear condition -/

theorem apDtcClearAllowed_ifOnly (hkept : ∀ c ∈ kept, IsCode c) (csv : Option (List Char)) :
    apDtcClearAllowed kept csv .ifOnly = true ↔ kept ≠ [] ∧ ∀ c ∈ kept, Listed csv c := by
  simp only [apDtcClearAllowed, Bool.and_eq_true, Bool.not_eq_true', isEmpty_eq_false_iff,
    all_eq_true]
  refine and_congr_right fun _ => forall₂_congr fun c hc => ?_
  exact csvContains_iff (hkept c hc).ne_nil

/-- **When the condition protects what it was not shown**: over the codes
`kept`, whatever the list, an allowed clear wipes only listed codes of
`reported` exactly when nothing was kept or everything reported was. -/
theorem clearIfOnly_safe_iff {reported : List (List Char)} (hkept : ∀ c ∈ kept, IsCode c)
    (hreported : ∀ c ∈ reported, IsCode c) :
    (∀ csv, apDtcClearAllowed kept csv .ifOnly = true → ∀ c ∈ reported, Listed csv c) ↔
      kept = [] ∨ ∀ c ∈ reported, c ∈ kept := by
  constructor
  · intro hsafe
    by_cases hne : kept = []
    · exact .inl hne
    · -- the list that names exactly what was kept
      right
      intro c hc
      have hlisted : ∀ d ∈ kept, Listed (some (printTokens kept)) d :=
        fun d hd => (listed_printTokens hne hkept (hkept d hd)).mpr hd
      have hallowed := (apDtcClearAllowed_ifOnly hkept _).mpr ⟨hne, hlisted⟩
      exact (listed_printTokens hne hkept (hreported c hc)).mp (hsafe _ hallowed c hc)
  · intro hcond csv hallowed c hc
    obtain ⟨hne, hlisted⟩ := (apDtcClearAllowed_ifOnly hkept csv).mp hallowed
    rcases hcond with hnil | hall
    · exact absurd hnil hne
    · exact hlisted c (hall c hc)

/-! ## The texts -/

theorem isCode_of_all (hne : code ≠ [])
    (h : ∀ c ∈ code, isCodeSep c = false ∧ c.toUpper = c) : IsCode code where
  ne_nil := hne
  no_sep c hc := (h c hc).1
  upper := by
    rw [map_congr_left fun c hc => (h c hc).2, map_id']

theorem dtcHex_code : ∀ n < 16, isCodeSep (dtcHex n) = false ∧ (dtcHex n).toUpper = dtcHex n := by
  decide

theorem apDtcFormat_isCode (hi lo : UInt8) : IsCode (apDtcFormat hi lo) := by
  have hletter : ∀ n < 4, isCodeSep (['P', 'C', 'B', 'U'].getD n 'P') = false ∧
      (['P', 'C', 'B', 'U'].getD n 'P').toUpper = ['P', 'C', 'B', 'U'].getD n 'P' := by decide
  have hdigit : ∀ n < 4, isCodeSep (Char.ofNat (48 + n)) = false ∧
      (Char.ofNat (48 + n)).toUpper = Char.ofNat (48 + n) := by decide
  have hhi := hi.toNat_lt
  have hlo := lo.toNat_lt
  apply isCode_of_all (by simp [apDtcFormat])
  intro c hc
  simp only [apDtcFormat, mem_cons, not_mem_nil, or_false] at hc
  rcases hc with rfl | rfl | rfl | rfl | rfl
  · exact hletter _ (by omega)
  · exact hdigit _ (by omega)
  · exact dtcHex_code _ (by omega)
  · exact dtcHex_code _ (by omega)
  · exact dtcHex_code _ (by omega)

end Meatpi
