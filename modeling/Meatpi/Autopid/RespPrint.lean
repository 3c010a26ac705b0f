import Meatpi.Autopid.Resp
import Meatpi.Library.IsoTp
import Meatpi.Library.Text

/-!
# What the chip prints, read back

The reply lines as the chip prints them: with headers on a responder's id (one
3-digit token, or a legislated 29-bit id as one 8-digit token or as four byte
tokens) and the bytes of a frame; with headers off a plain line, or a length
line and indexed rows. Each shape is read back by `parseLine` and what follows
it: the tokenizer guesses shapes from the bytes, so the frame has to be one
(`IsoTp.Frame`) where a guess is made.
-/

namespace Meatpi

open List Option

variable {tok : List Char}

variable {c : Char} {toks : List (List Char)} {l : List Char} {bs f : List UInt8} {n w : ℕ}

/-- A byte as two upper-case digits. -/
def hexByte (b : UInt8) : List Char := hexWord 2 b.toNat

/-- A responder and how its id is printed. -/
inductive Responder where
  /-- an 11-bit id as one 3-digit token -/
  | std (id : ℕ) (h : id < 0x800)
  /-- a legislated 29-bit id `18DAF1xx` as one 8-digit token -/
  | ext (source : UInt8)
  /-- the same id as four byte tokens -/
  | extBytes (source : UInt8)

/-- The CAN id. -/
def Responder.header : Responder → ℕ
  | .std id _ => id
  | .ext source => 0x18DAF100 + source.toNat
  | .extBytes source => 0x18DAF100 + source.toNat

/-- The four bytes of a legislated id. -/
def idBytes (source : UInt8) : List UInt8 := [0x18, 0xDA, 0xF1, source]

/-- The tokens the id is printed as. -/
def Responder.tokens : Responder → List (List Char)
  | .std id _ => [hexWord 3 id]
  | .ext source => [hexWord 8 (0x18DAF100 + source.toNat)]
  | .extBytes source => (idBytes source).map hexByte

/-- A frame printed with headers on. -/
def printFrame (r : Responder) (f : List UInt8) : List Char :=
  printTokens (r.tokens ++ f.map hexByte)

/-- Bytes printed with headers off. -/
def printPlain (bs : List UInt8) : List Char := printTokens (bs.map hexByte)

/-- The row `N:` of a headers-off multi-line reply. -/
def printRow (index : ℕ) (bs : List UInt8) : List Char :=
  printTokens ((hexWord 1 index ++ [':']) :: bs.map hexByte)

/-! ## The trim leaves printed lines alone -/

theorem char_of_isHexDigit (h : c.isHexDigit = true) :
    (48 ≤ c.toNat ∧ c.toNat ≤ 57) ∨ (97 ≤ c.toNat ∧ c.toNat ≤ 102) ∨
      (65 ≤ c.toNat ∧ c.toNat ≤ 70) := by
  simp only [Char.isHexDigit, Char.isDigit, Bool.or_eq_true, Bool.and_eq_true,
    decide_eq_true_eq, ge_iff_le, UInt32.le_iff_toNat_le] at h
  rcases h with (⟨h₁, h₂⟩ | ⟨h₁, h₂⟩) | ⟨h₁, h₂⟩
  · exact .inl ⟨h₁, h₂⟩
  · exact .inr (.inl ⟨h₁, h₂⟩)
  · exact .inr (.inr ⟨h₁, h₂⟩)

theorem ne_of_isHexDigit {d : Char} (h : c.isHexDigit = true) (hd : d.isHexDigit = false) :
    c ≠ d := by
  rintro rfl
  rw [h] at hd
  cases hd

/-- The characters of a printed line. -/
def lineChar (c : Char) : Bool := c.isHexDigit || c == ' ' || c == ':'

/-- A line that starts with a hex digit, ends in one and has only hex digits,
blanks and colons between: what every printed reply line is. -/
structure Printed (l : List Char) : Prop where
  first : ∃ c cs, l = c :: cs ∧ c.isHexDigit = true
  last : ∃ cs c, l = cs ++ [c] ∧ c.isHexDigit = true
  chars : ∀ c ∈ l, lineChar c = true
  short : l.length < apLineMax

theorem Printed.trimLine_eq (h : Printed l) : trimLine l = l := by
  have hr : l.rdropWhile isTail = l := by
    rw [rdropWhile_eq_self_iff]
    intro hne
    obtain ⟨cs, c, rfl, hc⟩ := h.last
    have h1 := ne_of_isHexDigit (d := ' ') hc rfl
    have h2 := ne_of_isHexDigit (d := '>') hc rfl
    simp [isTail, h1, h2]
  have hl : l.dropWhile (· == ' ') = l := by
    obtain ⟨c, cs, rfl, hc⟩ := h.first
    have h1 := ne_of_isHexDigit (d := ' ') hc rfl
    simp [h1]
  have hs : l.length ≤ apLineMax - 1 := Nat.le_sub_one_of_lt h.short
  rw [trimLine, hr, hl, take_of_length_le hs]

theorem Printed.not_isPrefixOf {w : List Char} (h : Printed l)
    (hw : w.any (fun c => !lineChar c) = true) : w.isPrefixOf l = false := by
  rw [Bool.eq_false_iff]
  intro hp
  obtain ⟨c, hc, hcf⟩ := any_eq_true.mp hw
  have hsub := List.isPrefixOf_iff_prefix.mp hp
  have hlc := h.chars c (hsub.subset hc)
  rw [hlc] at hcf
  cases hcf

theorem Printed.not_error (h : Printed l) : lineIsError l = false := by
  have hw : ∀ w ∈ errWords, w.any (fun c => !lineChar c) = true := by decide
  simp only [lineIsError, List.any_eq_false]
  intro w hwm
  rw [h.not_isPrefixOf (hw w hwm)]
  decide

theorem Printed.not_noise (h : Printed l) : lineIsNoise l = false := by
  have hw : ∀ w ∈ noiseWords, w.any (fun c => !lineChar c) = true := by decide
  simp only [lineIsNoise, List.any_eq_false]
  intro w hwm
  rw [h.not_isPrefixOf (hw w hwm)]
  decide

theorem Printed.ne_nil (h : Printed l) : l ≠ [] := by
  obtain ⟨c, cs, rfl, -⟩ := h.first
  simp

theorem Printed.not_eol (h : Printed l) : ∀ c ∈ l, isEol c = false := by
  intro c hc
  have hlc := h.chars c hc
  rw [Bool.eq_false_iff]
  intro heol
  simp only [isEol, Bool.or_eq_true, beq_iff_eq] at heol
  rcases heol with rfl | rfl
  · exact absurd hlc (by decide)
  · exact absurd hlc (by decide)

/-! ## Tokens -/

theorem isBlank_of_isHexDigit (h : c.isHexDigit = true) : isBlank c = false := by
  have h1 := ne_of_isHexDigit (d := ' ') h rfl
  have h2 := ne_of_isHexDigit (d := '\t') h rfl
  simp [isBlank, h1, h2]

theorem isHexStr_of (hne : tok ≠ []) (h : ∀ c ∈ tok, c.isHexDigit = true) :
    isHexStr tok = true := by
  simp only [isHexStr, Bool.and_eq_true, Bool.not_eq_true', List.isEmpty_eq_false_iff,
    List.all_eq_true]
  exact ⟨hne, h⟩

theorem isHexStr_hexWord (hw : 0 < w) : isHexStr (hexWord w n) = true := by
  apply isHexStr_of
  · intro h
    have := congrArg List.length h
    rw [length_hexWord, length_nil] at this
    omega
  · intro c hc
    exact isHexDigit_of_mem_hexWord hc

theorem getLast?_ne_colon (h : ∀ c ∈ tok, c.isHexDigit = true) : tok.getLast? ≠ some ':' := by
  intro hl
  exact absurd (h ':' (List.mem_of_getLast? hl)) (by decide)

theorem toNat_ofNat_hexByte (b : UInt8) : UInt8.ofNat (hexNum (hexByte b)) = b := by
  have hb : b.toNat < 16 ^ 2 := b.toNat_lt
  rw [hexByte, hexNum_hexWord, Nat.mod_eq_of_lt hb, UInt8.ofNat_toNat]

theorem parseToken_hexByte (out : ApLine) (nTok : ℕ) (b : UInt8)
    (hroom : out.bytes.length < apLineMax / 2) :
    parseToken (out, nTok) (hexByte b) =
      some ({ out with bytes := out.bytes ++ [b] }, nTok + 1) := by
  have hlen : (hexByte b).length = 2 := length_hexWord 2 _
  have hcolon : (hexByte b).getLast? ≠ some ':' :=
    getLast?_ne_colon fun c hc => isHexDigit_of_mem_hexWord hc
  have hhex : isHexStr (hexByte b) = true := isHexStr_hexWord (by decide)
  have h128 : ¬ apLineMax ≤ 2 := by decide
  simp only [parseToken, hlen, hcolon, hhex, toNat_ofNat_hexByte, Nat.not_le.mpr hroom, h128,
    false_and, and_false, if_false, Bool.not_true, Bool.false_eq_true, true_or, if_true]

theorem foldlM_parseToken_bytes (bs : List UInt8) (out : ApLine) (nTok : ℕ)
    (hlen : out.bytes.length + bs.length ≤ apLineMax / 2) :
    (bs.map hexByte).foldlM parseToken (out, nTok) =
      some ({ out with bytes := out.bytes ++ bs }, nTok + bs.length) := by
  induction bs generalizing out nTok with
  | nil => simp
  | cons b bs ih =>
    rw [List.length_cons] at hlen
    rw [map_cons, foldlM_cons, parseToken_hexByte out nTok b (by omega)]
    simp only [bind_eq_bind, bind_some]
    rw [ih _ _ (by simp only [List.length_append, List.length_singleton]; omega)]
    simp only [List.append_assoc, List.singleton_append, List.length_cons, Option.some.injEq,
      Prod.mk.injEq, true_and]
    omega

theorem parseToken_header (hw : w = 3 ∨ w = 8) (hn : n < 16 ^ w) :
    parseToken (ApLine.init, 0) (hexWord w n) = some ({ ApLine.init with
        header := n, hasHeader := true, bareValue := strtol16 (hexWord w n), isBare := true },
        1) := by
  have hcolon : (hexWord w n).getLast? ≠ some ':' :=
    getLast?_ne_colon fun c hc => isHexDigit_of_mem_hexWord hc
  have hhex : isHexStr (hexWord w n) = true := isHexStr_hexWord (by omega)
  have h128 : ¬ apLineMax ≤ w := by simp only [apLineMax]; omega
  have h2 : ¬ (w = 2 ∨ w = 1 ∧ 0 < 0) := by omega
  simp only [parseToken, length_hexWord, hcolon, hhex, h128, h2, hw, false_and, and_false,
    if_false, Bool.not_true, Bool.false_eq_true, if_true, hexNum_hexWord, Nat.mod_eq_of_lt hn]

theorem parseToken_row (n : ℕ) (hn : n < 16) :
    parseToken (ApLine.init, 0) (hexWord 1 n ++ [':']) =
      some ({ ApLine.init with isoIndex := n }, 1) := by
  have hhex : isHexStr (hexWord 1 n) = true := isHexStr_hexWord (by decide)
  have h128 : ¬ apLineMax ≤ 1 + 1 := by decide
  have hval : strtol16 (hexWord 1 n) = n := by
    rw [strtol16, hexNum_hexWord, longMax]
    omega
  simp only [parseToken, List.length_append, length_hexWord, List.length_singleton, h128,
    List.getLast?_concat, List.dropLast_concat, hhex, hval, if_false, le_refl, and_self, if_true]

theorem lineTokens_printTokens (hne : toks ≠ [])
    (htoks : ∀ tok ∈ toks, tok ≠ [] ∧ ∀ c ∈ tok, isBlank c = false) :
    lineTokens (printTokens toks) = toks := by
  rw [lineTokens, splitOnP_printTokens rfl hne fun tok htok => (htoks tok htok).2, filter_eq_self]
  intro tok htok
  simp [(htoks tok htok).1]

theorem hexWord_token (hw : 0 < w) : hexWord w n ≠ [] ∧ ∀ c ∈ hexWord w n, isBlank c = false := by
  refine ⟨?_, fun c hc => isBlank_of_isHexDigit (isHexDigit_of_mem_hexWord hc)⟩
  intro h
  have := congrArg List.length h
  rw [length_hexWord, length_nil] at this
  omega

theorem map_hexByte_token : ∀ tok ∈ bs.map hexByte, tok ≠ [] ∧ ∀ c ∈ tok, isBlank c = false := by
  intro tok htok
  obtain ⟨b, -, rfl⟩ := mem_map.mp htok
  exact hexWord_token (by decide)

/-! ## The shapes, parsed -/

theorem parseLine_printPlain (hne : bs ≠ []) (hlen : bs.length ≤ apLineMax / 2) :
    parseLine (printPlain bs) = some { ApLine.init with bytes := bs } := by
  have htoks : lineTokens (printPlain bs) = bs.map hexByte :=
    lineTokens_printTokens (by simpa using hne) map_hexByte_token
  have hfold := foldlM_parseToken_bytes bs ApLine.init 0 (by simpa [ApLine.init] using hlen)
  rw [parseLine, htoks, hfold]
  simp [parseLineEnd, ApLine.init, hne]

theorem parseLine_header (hw : w = 3 ∨ w = 8) (hn : n < 16 ^ w) (hne : bs ≠ [])
    (hlen : bs.length ≤ apLineMax / 2) :
    parseLine (printTokens (hexWord w n :: bs.map hexByte)) = some { ApLine.init with
        header := n, hasHeader := true, bytes := bs, bareValue := strtol16 (hexWord w n) } := by
  have htoks : lineTokens (printTokens (hexWord w n :: bs.map hexByte)) =
      hexWord w n :: bs.map hexByte := by
    apply lineTokens_printTokens (by simp)
    intro tok htok
    rcases mem_cons.mp htok with rfl | htok
    · exact hexWord_token (by omega)
    · exact map_hexByte_token tok htok
  have hfold := foldlM_parseToken_bytes bs { ApLine.init with
      header := n, hasHeader := true, bareValue := strtol16 (hexWord w n), isBare := true } 1
    (by simpa [ApLine.init] using hlen)
  rw [parseLine, htoks, foldlM_cons, parseToken_header hw hn]
  simp only [bind_eq_bind, bind_some]
  rw [hfold]
  simp [parseLineEnd, ApLine.init, hne]

theorem parseLine_lengthLine (hn : n < 4096) :
    ∃ header, parseLine (printTokens [hexWord 3 n]) =
      some { ApLine.init with
        header := header, hasHeader := true, bareValue := n, isBare := true } := by
  have htoks : lineTokens (printTokens [hexWord 3 n]) = [hexWord 3 n] := by
    apply lineTokens_printTokens (by simp)
    intro tok htok
    rw [mem_singleton.mp htok]
    exact hexWord_token (by decide)
  have hcolon : (hexWord 3 n).getLast? ≠ some ':' :=
    getLast?_ne_colon fun c hc => isHexDigit_of_mem_hexWord hc
  have hhex : isHexStr (hexWord 3 n) = true := isHexStr_hexWord (by decide)
  have hval : strtol16 (hexWord 3 n) = n := by
    rw [strtol16, hexNum_hexWord, longMax]
    omega
  refine ⟨n, ?_⟩
  rw [parseLine, htoks]
  simp only [foldlM_cons, foldlM_nil, parseToken, length_hexWord, hcolon, hhex, hval,
    hexNum_hexWord, Nat.mod_eq_of_lt (show n < 16 ^ 3 by omega)]
  simp [parseLineEnd, ApLine.init, apLineMax]

theorem parseLine_printRow {index : ℕ} (hi : index < 16) (hlen : bs.length ≤ apLineMax / 2) :
    parseLine (printRow index bs) = some { ApLine.init with isoIndex := index, bytes := bs } := by
  have htoks : lineTokens (printRow index bs) = (hexWord 1 index ++ [':']) :: bs.map hexByte := by
    apply lineTokens_printTokens (by simp)
    intro tok htok
    rcases mem_cons.mp htok with rfl | htok
    · refine ⟨by simp, fun c hc => ?_⟩
      rcases mem_append.mp hc with hc | hc
      · exact isBlank_of_isHexDigit (isHexDigit_of_mem_hexWord hc)
      · rw [mem_singleton.mp hc]
        rfl
    · exact map_hexByte_token tok htok
  have hfold := foldlM_parseToken_bytes bs { ApLine.init with isoIndex := index } 1
    (by simpa [ApLine.init] using hlen)
  rw [parseLine, htoks, foldlM_cons, parseToken_row index hi]
  simp only [bind_eq_bind, bind_some]
  rw [hfold]
  simp [parseLineEnd, ApLine.init]

/-! ## A frame with headers on, collected -/

/-- `bare_value` of a line printed with the responder's id. -/
def Responder.bareValue : Responder → ℤ
  | .std id _ => strtol16 (hexWord 3 id)
  | .ext source => strtol16 (hexWord 8 (0x18DAF100 + source.toNat))
  | .extBytes _ => 0

/-- The line a frame of the responder becomes. -/
def frameLine (r : Responder) (f : List UInt8) : ApLine :=
  { ApLine.init with
    bytes := f, header := r.header, hasHeader := true, bareValue := r.bareValue }

theorem Responder.header_lt (r : Responder) : r.header < uint32Max := by
  cases r with
  | std id h => simp only [header, uint32Max]; omega
  | ext source => have := source.toNat_lt; simp only [header, uint32Max]; omega
  | extBytes source => have := source.toNat_lt; simp only [header, uint32Max]; omega

theorem Responder.tokens_hex (r : Responder) :
    ∀ tok ∈ r.tokens, tok ≠ [] ∧ ∀ c ∈ tok, c.isHexDigit = true := by
  have hword : ∀ {w n : ℕ}, 0 < w → hexWord w n ≠ [] ∧ ∀ c ∈ hexWord w n, c.isHexDigit = true :=
    fun hw => ⟨(hexWord_token hw).1, fun c hc => isHexDigit_of_mem_hexWord hc⟩
  intro tok htok
  cases r with
  | std id h =>
    rw [mem_singleton.mp htok]
    exact hword (by decide)
  | ext source =>
    rw [mem_singleton.mp htok]
    exact hword (by decide)
  | extBytes source =>
    obtain ⟨b, -, rfl⟩ := mem_map.mp htok
    exact hword (by decide)

theorem printed_of_tokens (hne : toks ≠ [])
    (htoks : ∀ tok ∈ toks, tok ≠ [] ∧ ∀ c ∈ tok, c.isHexDigit = true)
    (hlen : (printTokens toks).length < apLineMax) : Printed (printTokens toks) := by
  have hchars : ∀ c ∈ printTokens toks, lineChar c = true := by
    intro c hc
    rcases mem_printTokens hc with rfl | ⟨tok, htok, hc⟩
    · rfl
    · simp [lineChar, (htoks tok htok).2 c hc]
  refine ⟨?_, ?_, hchars, hlen⟩
  · rcases toks with _ | ⟨tok, toks⟩
    · exact absurd rfl hne
    · obtain ⟨htne, hhex⟩ := htoks tok mem_cons_self
      rcases tok with _ | ⟨c, cs⟩
      · exact absurd rfl htne
      · exact ⟨c, cs ++ toks.flatMap fun tok => ' ' :: tok, rfl, hhex c mem_cons_self⟩
  · clear hchars hlen
    induction toks with
    | nil => exact absurd rfl hne
    | cons tok toks ih =>
      rcases toks with _ | ⟨tok', toks⟩
      · obtain ⟨htne, hhex⟩ := htoks tok mem_cons_self
        refine ⟨tok.dropLast, tok.getLast htne, ?_, hhex _ (getLast_mem htne)⟩
        simp [printTokens, dropLast_append_getLast]
      · obtain ⟨cs, c, heq, hc⟩ := ih (by simp) fun t ht => htoks t (mem_cons_of_mem _ ht)
        refine ⟨tok ++ ' ' :: cs, c, ?_, hc⟩
        rw [printTokens_cons_cons, heq]
        simp

theorem length_printTokens_le (h : ∀ tok ∈ toks, tok.length ≤ w) :
    (printTokens toks).length ≤ toks.length * (w + 1) := by
  induction toks with
  | nil => simp [printTokens]
  | cons tok toks ih =>
    have htok := h tok mem_cons_self
    have ih' := ih fun t ht => h t (mem_cons_of_mem _ ht)
    rcases toks with _ | ⟨tok', toks⟩
    · simp only [printTokens, flatMap_nil, append_nil, List.length_singleton]
      omega
    · rw [printTokens_cons_cons, List.length_append, List.length_cons, List.length_cons,
        Nat.add_mul]
      omega

theorem printed_printFrame (r : Responder) (hf : f.length ≤ 8) : Printed (printFrame r f) := by
  have hbytes : ∀ tok ∈ f.map hexByte, tok ≠ [] ∧ ∀ c ∈ tok, c.isHexDigit = true := by
    intro tok htok
    obtain ⟨b, -, rfl⟩ := mem_map.mp htok
    exact ⟨(hexWord_token (by decide)).1, fun c hc => isHexDigit_of_mem_hexWord hc⟩
  have hne : r.tokens ++ f.map hexByte ≠ [] := by cases r <;> simp [Responder.tokens, idBytes]
  have hw : ∀ tok ∈ r.tokens ++ f.map hexByte, tok.length ≤ 8 := by
    intro tok htok
    rcases mem_append.mp htok with htok | htok
    · cases r with
      | std id h => rw [mem_singleton.mp htok, length_hexWord]; decide
      | ext source => rw [mem_singleton.mp htok, length_hexWord]
      | extBytes source =>
        obtain ⟨b, -, rfl⟩ := mem_map.mp htok
        rw [hexByte, length_hexWord]
        decide
    · obtain ⟨b, -, rfl⟩ := mem_map.mp htok
      rw [hexByte, length_hexWord]
      decide
  have hlen : (r.tokens ++ f.map hexByte).length ≤ 12 := by
    rw [List.length_append]
    cases r <;> simp only [Responder.tokens, idBytes, length_map, List.length_cons,
      length_nil] <;> omega
  apply printed_of_tokens hne
  · intro tok htok
    rcases mem_append.mp htok with htok | htok
    · exact r.tokens_hex tok htok
    · exact hbytes tok htok
  · have := length_printTokens_le hw
    simp only [apLineMax]
    omega

theorem pciFits_frame (hf : IsoTp.Frame f) : pciFits (f.getD 0 0) (f.length - 1) = true := by
  have hpci := hf.pci
  obtain h0 | h0 | h0 : (f.getD 0 0).toNat / 16 = 0 ∨ (f.getD 0 0).toNat / 16 = 1 ∨
      (f.getD 0 0).toNat / 16 = 2 := by omega
  · have := hf.single h0
    simp only [pciFits, h0, Bool.and_eq_true, decide_eq_true_eq]
    omega
  · have := hf.first h0
    simp only [pciFits, h0, decide_eq_true_eq]
    omega
  · simp only [pciFits, h0]

theorem idOfBytes_idBytes (source : UInt8) (f : List UInt8) :
    idOfBytes (idBytes source ++ f) = 0x18DAF100 + source.toNat := by
  simp [idOfBytes, idBytes, ofDigitsBE]

theorem takeId29_idBytes (hint : Id29Hint) (source : UInt8) (hf : IsoTp.Frame f) :
    takeId29 hint { ApLine.init with bytes := idBytes source ++ f } =
      frameLine (.extBytes source) f := by
  have hlen : 6 ≤ (idBytes source ++ f).length := by
    have := hf.two_le
    simp only [idBytes, List.length_append, List.length_cons, length_nil]
    omega
  have hdrop : (idBytes source ++ f).drop 4 = f := rfl
  have hleg : legislated (idBytes source ++ f) = true := rfl
  have hreads : readsAsId29 hint (idBytes source ++ f) = true := by
    simp only [readsAsId29, hdrop, hleg, pciFits_frame hf, hlen, decide_true, Bool.true_and,
      Bool.true_or, if_true]
  simp only [takeId29, ApLine.init, hreads, hdrop, idOfBytes_idBytes, frameLine,
    Responder.header, Responder.bareValue, Bool.false_eq_true, if_true]
  simp

theorem takeId29_of_hasHeader (hint : Id29Hint) {line : ApLine} (h : line.hasHeader = true) :
    takeId29 hint line = line := by
  simp [takeId29, h]

theorem takeEa_frameLine (r : Responder) (hf : IsoTp.Frame f) :
    takeEa (frameLine r f) = frameLine r f := by
  have hpci := hf.pci
  have : ¬ 3 < (f.getD 0 0).toNat / 16 := by omega
  simp only [takeEa, frameLine, this, false_and, and_false, if_false]

theorem parse_printFrame (hint : Id29Hint) (r : Responder) (hf : IsoTp.Frame f) :
    ∃ parsed, parseLine (printFrame r f) = some parsed ∧
      takeEa (takeId29 hint parsed) = frameLine r f := by
  have hne : f ≠ [] := by
    rintro rfl
    have := hf.two_le
    simp at this
  have h8 := hf.le_eight
  have h64 : f.length ≤ apLineMax / 2 := by
    simp only [apLineMax]
    omega
  cases r with
  | std id h =>
    refine ⟨_, parseLine_header (.inl rfl) (show id < 16 ^ 3 by omega) hne h64, ?_⟩
    exact takeEa_frameLine (.std id h) hf
  | ext source =>
    have hlt : 0x18DAF100 + source.toNat < 16 ^ 8 := by
      have := source.toNat_lt
      omega
    refine ⟨_, parseLine_header (.inr rfl) hlt hne h64, ?_⟩
    exact takeEa_frameLine (.ext source) hf
  | extBytes source =>
    have htoks : printFrame (.extBytes source) f = printPlain (idBytes source ++ f) := by
      rfl
    refine ⟨{ ApLine.init with bytes := idBytes source ++ f }, ?_, ?_⟩
    · rw [htoks]
      apply parseLine_printPlain
      · simp [hne]
      · simp only [idBytes, apLineMax, List.length_append, List.length_cons, length_nil]
        omega
    · rw [takeId29_idBytes hint source hf]
      exact takeEa_frameLine (.extBytes source) hf

/-! ## Fillers -/

/-- A blank line, the prompt, or a `SEARCHING...` line. -/
def isFiller (l : List Char) : Bool :=
  l.all isTail || "SEARCHING".toList.isPrefixOf l

theorem trimLine_blank (h : ∀ c ∈ l, isTail c = true) : trimLine l = [] := by
  have hr : l.rdropWhile isTail = [] := rdropWhile_eq_nil_iff.mpr h
  simp [trimLine, hr]

theorem trimLine_searching (cs : List Char) :
    ∃ ds, trimLine ("SEARCHING".toList ++ cs) = "SEARCHING".toList ++ ds := by
  have hr : ∃ es, ("SEARCHING".toList ++ cs).rdropWhile isTail = "SEARCHING".toList ++ es := by
    induction cs using List.reverseRecOn with
    | nil => exact ⟨[], by decide⟩
    | append_singleton cs c ih =>
      rw [← List.append_assoc]
      by_cases hc : isTail c = true
      · rw [rdropWhile_concat_pos _ _ _ hc]
        exact ih
      · rw [rdropWhile_concat_neg _ _ _ hc]
        exact ⟨cs ++ [c], by rw [List.append_assoc]⟩
  obtain ⟨es, hes⟩ := hr
  refine ⟨es.take (apLineMax - 1 - 9), ?_⟩
  rw [trimLine, hes]
  rfl

theorem collectLine_filler (hint : Id29Hint) (max : ℕ) (acc : Collected) (h : isFiller l = true) :
    collectLine hint max acc l = acc := by
  simp only [isFiller, Bool.or_eq_true, List.all_eq_true] at h
  rcases h with h | h
  · simp [collectLine, trimLine_blank h]
  · obtain ⟨cs, rfl⟩ := List.isPrefixOf_iff_prefix.mp h
    obtain ⟨ds, hds⟩ := trimLine_searching cs
    have herr : lineIsError ("SEARCHING".toList ++ ds) = false := rfl
    have hnoise : lineIsNoise ("SEARCHING".toList ++ ds) = true := rfl
    simp only [collectLine, hds, herr, hnoise, Bool.false_eq_true, if_false, if_true]
    split_ifs <;> rfl

end Meatpi
