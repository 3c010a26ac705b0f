import Meatpi.Library.Numeral

/-!
# The dechunker (`multipart_upload.c`)

`dechunker_consume` takes bytes of a body in chunked coding and writes the decoded
ones, as far as there is room for them. It keeps its place from call to call, so
that a body may come in any pieces: with room for all of it, what it does is decided
byte by byte (`dcLoop_of_room`), and it undoes the coding (`dcFeed_coded`).
-/

namespace Meatpi

open List

variable {wraps : Prop} {eol pre : List UInt8} {body raw : List UInt8}

/-- `dechunk_state_t` -/
inductive DcState where
  | readSize | readData | readDataCrlf | readTrailers | done | error
  deriving DecidableEq

structure Dechunker where
  state : DcState
  chunkRemaining : ℕ
  inExt : Bool
  /-- `size_buf`, `size_len` bytes of it -/
  sizeBuf : List UInt8
  /-- `size_t`, of 32 bits -/
  trailerLineLen : UInt32
  deriving DecidableEq

def Dechunker.init : Dechunker := ⟨.readSize, 0, false, [], 0⟩

def isXDigit (c : UInt8) : Bool := (Char.ofNat c.toNat).isHexDigit

/-- `strtoul(size_buf, .., 16)` on hex digits; `unsigned long` has 32 bits. -/
def strtoulHex (digits : List UInt8) : ℕ :=
  min (hexNum (digits.map fun c => Char.ofNat c.toNat)) (2 ^ 32 - 1)

/-- A byte of a chunk-size line: `1A3[;ext...]\r\n`. -/
def dcSize (dc : Dechunker) (c : UInt8) : Dechunker :=
  if c = 13 then dc
  else if c = 10 then
    if dc.sizeBuf = [] then { dc with state := .error }
    else if strtoulHex dc.sizeBuf = 0 then
      { dc with
        chunkRemaining := 0, sizeBuf := [], inExt := false
        state := .readTrailers, trailerLineLen := 0 }
    else
      { dc with
        chunkRemaining := strtoulHex dc.sizeBuf, sizeBuf := [], inExt := false
        state := .readData }
  else if c = 59 then { dc with inExt := true } -- ';'
  else if dc.inExt then dc
  else if isXDigit c then
    if dc.sizeBuf.length < 15 then { dc with sizeBuf := dc.sizeBuf ++ [c] }
    else { dc with state := .error }
  else if c = 32 ∨ c = 9 then dc
  else { dc with state := .error }

/-- A byte of the line end behind a chunk. -/
def dcDataCrlf (dc : Dechunker) (c : UInt8) : Dechunker :=
  if c = 13 then dc
  else if c = 10 then { dc with state := .readSize, sizeBuf := [], inExt := false }
  else { dc with state := .error }

/-- A byte of the trailers, up to a blank line. -/
def dcTrailers (dc : Dechunker) (c : UInt8) : Dechunker :=
  if c = 13 then dc
  else if c = 10 then
    if dc.trailerLineLen = 0 then { dc with state := .done } else { dc with trailerLineLen := 0 }
  else { dc with trailerLineLen := dc.trailerLineLen + 1 }

/-- A byte of a chunk. -/
def dcData (dc : Dechunker) : Dechunker :=
  { dc with
    chunkRemaining := dc.chunkRemaining - 1
    state := if dc.chunkRemaining = 1 then .readDataCrlf else .readData }

/-- The loop of `dechunker_consume`, with `space` bytes of room: the state, the bytes
used and the bytes written. A run of a chunk is copied at once there. -/
def dcLoop : Dechunker → ℕ → List UInt8 → Dechunker × ℕ × List UInt8
  | dc, _, [] => (dc, 0, [])
  | dc, space, c :: rest =>
    match dc.state with
    | .readData =>
      if dc.chunkRemaining = 0 ∨ space = 0 then (dc, 0, [])
      else
        let r := dcLoop (dcData dc) (space - 1) rest
        (r.1, r.2.1 + 1, c :: r.2.2)
    | .readSize =>
      if (dcSize dc c).state = .error then (dcSize dc c, 0, [])
      else
        let r := dcLoop (dcSize dc c) space rest
        (r.1, r.2.1 + 1, r.2.2)
    | .readDataCrlf =>
      if (dcDataCrlf dc c).state = .error then (dcDataCrlf dc c, 0, [])
      else
        let r := dcLoop (dcDataCrlf dc c) space rest
        (r.1, r.2.1 + 1, r.2.2)
    | .readTrailers =>
      let r := dcLoop (dcTrailers dc c) space rest
      (r.1, r.2.1 + 1, r.2.2)
    | .done => (dc, 0, [])
    | .error => (dc, 0, [])

def dechunkerConsume (dc : Dechunker) (input : List UInt8) (outCap : ℕ) :
    Dechunker × ℕ × List UInt8 :=
  if outCap = 0 then (dc, 0, []) else dcLoop dc outCap input

/-! ## Byte by byte -/

/-- What one byte does when there is room for it. -/
def dcByte (dc : Dechunker) (c : UInt8) : Dechunker × List UInt8 :=
  match dc.state with
  | .readData => if dc.chunkRemaining = 0 then (dc, []) else (dcData dc, [c])
  | .readSize => (dcSize dc c, [])
  | .readDataCrlf => (dcDataCrlf dc c, [])
  | .readTrailers => (dcTrailers dc c, [])
  | .done => (dc, [])
  | .error => (dc, [])

/-- What a run of bytes does, and what it decodes to. -/
def dcFeed (dc : Dechunker) : List UInt8 → Dechunker × List UInt8
  | [] => (dc, [])
  | c :: rest => ((dcFeed (dcByte dc c).1 rest).1, (dcByte dc c).2 ++ (dcFeed (dcByte dc c).1 rest).2)

theorem dcFeed_append (xs ys : List UInt8) (dc : Dechunker) :
    dcFeed dc (xs ++ ys) =
      ((dcFeed (dcFeed dc xs).1 ys).1,
        (dcFeed dc xs).2 ++ (dcFeed (dcFeed dc xs).1 ys).2) := by
  induction xs generalizing ys dc with
  | nil => rfl
  | cons c xs ih =>
    rw [cons_append, dcFeed, ih, dcFeed, append_assoc]

theorem dcByte_readTrailers {dc : Dechunker} (h : dc.state = .readTrailers) (c : UInt8) :
    dcByte dc c = (dcTrailers dc c, []) := by
  rw [dcByte, h]

/-- The dechunker takes no more bytes. -/
def Dechunker.Stopped (dc : Dechunker) : Prop :=
  dc.state = .done ∨ dc.state = .error ∨ (dc.state = .readData ∧ dc.chunkRemaining = 0)

theorem dcByte_stopped {dc : Dechunker} (h : dc.Stopped) (c : UInt8) : dcByte dc c = (dc, []) := by
  rcases h with h | h | ⟨h, h0⟩
  · rw [dcByte, h]
  · rw [dcByte, h]
  · rw [dcByte, h]
    exact if_pos h0

theorem dcFeed_stopped {dc : Dechunker} (h : dc.Stopped) :
    ∀ bytes : List UInt8, dcFeed dc bytes = (dc, []) := by
  intro bytes
  induction bytes with
  | nil => rfl
  | cons c rest ih => rw [dcFeed, dcByte_stopped h, ih, append_nil]

theorem dcLoop_stopped {dc : Dechunker} (h : dc.Stopped) (space : ℕ) :
    ∀ bytes : List UInt8, dcLoop dc space bytes = (dc, 0, []) := by
  intro bytes
  cases bytes with
  | nil => rfl
  | cons c rest =>
    rcases h with h | h | ⟨h, h0⟩
    · rw [dcLoop, h]
    · rw [dcLoop, h]
    · rw [dcLoop, h]
      exact if_pos (.inl h0)

/-- **With room for everything** a call does what the bytes do one by one. It uses them
all, unless it stops. -/
theorem dcLoop_of_room {bytes : List UInt8} {dc : Dechunker} {space : ℕ}
    (hroom : (dcFeed dc bytes).2.length ≤ space) :
    (dcLoop dc space bytes).1 = (dcFeed dc bytes).1 ∧
      (dcLoop dc space bytes).2.2 = (dcFeed dc bytes).2 ∧
      ((dcLoop dc space bytes).2.1 = bytes.length ∨ (dcFeed dc bytes).1.Stopped) := by
  induction bytes generalizing dc space with
  | nil => exact ⟨rfl, rfl, .inl rfl⟩
  | cons c rest ih =>
    by_cases hstop : dc.Stopped
    · rw [dcLoop_stopped hstop, dcFeed_stopped hstop]
      exact ⟨rfl, rfl, .inr hstop⟩
    -- a byte that is taken, then the others
    have htaken : ∀ {dc' : Dechunker} {out : List UInt8} {space' : ℕ},
        dcByte dc c = (dc', out) → space' = space - out.length →
        dcLoop dc space (c :: rest) = ((dcLoop dc' space' rest).1, (dcLoop dc' space' rest).2.1 + 1,
            out ++ (dcLoop dc' space' rest).2.2) →
        (dcLoop dc space (c :: rest)).1 = (dcFeed dc (c :: rest)).1 ∧
          (dcLoop dc space (c :: rest)).2.2 = (dcFeed dc (c :: rest)).2 ∧
          ((dcLoop dc space (c :: rest)).2.1 = (c :: rest).length ∨
            (dcFeed dc (c :: rest)).1.Stopped) := by
      intro dc' out space' hbyte hspace hloop
      rw [dcFeed, hbyte, length_append] at hroom
      dsimp only at hroom
      obtain ⟨hstate, hout, hused⟩ := @ih dc' space' (by omega)
      rw [hloop, dcFeed, hbyte, ← hstate, ← hout]
      refine ⟨rfl, rfl, hused.imp (fun h => ?_) fun h => ?_⟩
      · rw [length_cons, h]
      · rw [hstate]
        exact h
    have herror : ∀ {dc' : Dechunker}, dcByte dc c = (dc', []) → dc'.state = .error →
        dcLoop dc space (c :: rest) = (dc', 0, []) →
        (dcLoop dc space (c :: rest)).1 = (dcFeed dc (c :: rest)).1 ∧
          (dcLoop dc space (c :: rest)).2.2 = (dcFeed dc (c :: rest)).2 ∧
          ((dcLoop dc space (c :: rest)).2.1 = (c :: rest).length ∨
            (dcFeed dc (c :: rest)).1.Stopped) := by
      intro dc' hbyte hstate hloop
      have hstopped : dc'.Stopped := .inr (.inl hstate)
      rw [hloop, dcFeed, hbyte, dcFeed_stopped hstopped]
      exact ⟨rfl, rfl, .inr hstopped⟩
    cases hstate : dc.state with
    | done => exact absurd (.inl hstate) hstop
    | error => exact absurd (.inr (.inl hstate)) hstop
    | readData =>
      have h0 : dc.chunkRemaining ≠ 0 := fun h0 => hstop (.inr (.inr ⟨hstate, h0⟩))
      have hbyte : dcByte dc c = (dcData dc, [c]) := by
        rw [dcByte, hstate]
        exact if_neg h0
      have hspace : space ≠ 0 := by
        rintro rfl
        rw [dcFeed, hbyte] at hroom
        cases hroom
      refine htaken hbyte rfl ?_
      rw [dcLoop, hstate]
      exact if_neg (by omega)
    | readSize =>
      have hbyte : dcByte dc c = (dcSize dc c, []) := by rw [dcByte, hstate]
      by_cases he : (dcSize dc c).state = .error
      · refine herror hbyte he ?_
        rw [dcLoop, hstate]
        exact if_pos he
      · refine htaken hbyte rfl ?_
        rw [dcLoop, hstate]
        exact if_neg he
    | readDataCrlf =>
      have hbyte : dcByte dc c = (dcDataCrlf dc c, []) := by rw [dcByte, hstate]
      by_cases he : (dcDataCrlf dc c).state = .error
      · refine herror hbyte he ?_
        rw [dcLoop, hstate]
        exact if_pos he
      · refine htaken hbyte rfl ?_
        rw [dcLoop, hstate]
        exact if_neg he
    | readTrailers =>
      refine htaken (dcByte_readTrailers hstate c) rfl ?_
      rw [dcLoop, hstate]
      rfl

theorem length_dcFeed_le (bytes : List UInt8) (dc : Dechunker) :
    (dcFeed dc bytes).2.length ≤ bytes.length := by
  induction bytes generalizing dc with
  | nil => exact Nat.le_refl 0
  | cons c rest ih =>
    have hone : (dcByte dc c).2.length ≤ 1 := by
      rw [dcByte]
      split
      · split_ifs <;> simp
      all_goals simp
    have := ih (dcByte dc c).1
    rw [dcFeed, length_append, length_cons]
    omega

/-! ## The coding -/

/-- The end of a line. -/
def IsEol (eol : List UInt8) : Prop := eol = [13, 10] ∨ eol = [10]

/-- The size line of a chunk of `n` bytes. -/
structure IsSizeLine (n : ℕ) (line : List UInt8) (digits ext eol : List UInt8) : Prop where
  eq : line = digits ++ ext ++ eol
  digits_ne : digits ≠ []
  digits_le : digits.length ≤ 15
  digits_hex : ∀ c ∈ digits, isXDigit c = true
  value : hexNum (digits.map fun c => Char.ofNat c.toNat) = n
  /-- nothing, or a semicolon and what it likes -/
  extension : ext = [] ∨ ∃ rest, ext = 59 :: rest ∧ (10 : UInt8) ∉ rest
  isEol : IsEol eol

/-- A trailer line. Only where `wraps` holds may the 32-bit count of its bytes come back
to zero. -/
structure IsTrailer (wraps : Prop) (line text eol : List UInt8) : Prop where
  eq : line = text ++ eol
  text_ne : text ≠ []
  count : text.length % 2 ^ 32 = 0 → wraps
  cr_not_mem : (13 : UInt8) ∉ text
  lf_not_mem : (10 : UInt8) ∉ text
  isEol : IsEol eol

/-- `Coded wraps body raw`: the bytes `raw` are `body` in chunked coding. -/
inductive Coded (wraps : Prop) : List UInt8 → List UInt8 → Prop
  | last {line digits ext eol eol' : List UInt8} {trailers : List (List UInt8)} :
      IsSizeLine 0 line digits ext eol →
      (∀ t ∈ trailers, ∃ text eol, IsTrailer wraps t text eol) → IsEol eol' →
      Coded wraps [] (line ++ trailers.flatten ++ eol')
  | chunk {line digits ext eol data eol' body raw : List UInt8} :
      IsSizeLine data.length line digits ext eol → data ≠ [] → data.length < 2 ^ 32 →
      IsEol eol' → Coded wraps body raw →
      Coded wraps (data ++ body) (line ++ data ++ eol' ++ raw)

theorem isXDigit_other {c : UInt8} (h : isXDigit c = true) : c ≠ 13 ∧ c ≠ 10 ∧ c ≠ 59 := by
  refine ⟨?_, ?_, ?_⟩
  all_goals
    rintro rfl
    exact absurd h (by decide)

/-- A dechunker in a size line. -/
def inSize (dc : Dechunker) (sizeBuf : List UInt8) (ext : Bool) : Dechunker :=
  { dc with state := .readSize, sizeBuf := sizeBuf, inExt := ext }

theorem dcFeed_digits {dc : Dechunker} : ∀ {digits pre : List UInt8},
    (∀ c ∈ digits, isXDigit c = true) → pre.length + digits.length ≤ 15 →
    dcFeed (inSize dc pre false) digits = (inSize dc (pre ++ digits) false, []) := by
  intro digits
  induction digits with
  | nil => intro pre _ _; rw [append_nil]; rfl
  | cons c digits ih =>
    intro pre hhex hlen
    rw [length_cons] at hlen
    have hc := hhex c mem_cons_self
    obtain ⟨h13, h10, h59⟩ := isXDigit_other hc
    have hstep : dcByte (inSize dc pre false) c = (inSize dc (pre ++ [c]) false, []) := by
      show (dcSize (inSize dc pre false) c, []) = _
      rw [dcSize, if_neg h13, if_neg h10, if_neg h59, if_neg (by simp [inSize]), if_pos hc,
        if_pos (by show pre.length < 15; omega)]
      rfl
    have hrest := @ih (pre ++ [c]) (fun d hd => hhex d (mem_cons_of_mem _ hd)) (by simp; omega)
    rw [dcFeed, hstep, hrest, append_assoc]
    rfl

theorem dcFeed_inExt {dc : Dechunker} {rest : List UInt8} (h : (10 : UInt8) ∉ rest) :
    dcFeed (inSize dc pre true) rest = (inSize dc pre true, []) := by
  induction rest with
  | nil => rfl
  | cons c rest ih =>
    rw [mem_cons, not_or] at h
    have hstep : dcByte (inSize dc pre true) c = (inSize dc pre true, []) := by
      show (dcSize (inSize dc pre true) c, []) = _
      rw [dcSize, if_neg (Ne.symm h.1)]
      split_ifs <;> first | rfl | exact absurd rfl ‹¬ _›
    rw [dcFeed, hstep, ih h.2]
    rfl

theorem dcFeed_eolSize {dc : Dechunker} {ext : Bool} (heol : IsEol eol) :
    dcFeed (inSize dc pre ext) eol = (dcSize (inSize dc pre ext) 10, []) := by
  rcases heol with rfl | rfl <;> rfl

/-- **The size line** of a chunk. -/
theorem dcFeed_sizeLine (dc : Dechunker) {n : ℕ} {line digits ext : List UInt8}
    (h : IsSizeLine n line digits ext eol) (hn : n < 2 ^ 32) :
    dcFeed (inSize dc [] false) line = (if n = 0 then
        { dc with
          chunkRemaining := 0, sizeBuf := [], inExt := false
          state := .readTrailers, trailerLineLen := 0 }
      else
        { dc with chunkRemaining := n, sizeBuf := [], inExt := false, state := .readData }, []) := by
  have hdigits := @dcFeed_digits dc digits [] h.digits_hex (by simpa using h.digits_le)
  rw [nil_append] at hdigits
  have hext : ∃ e, dcFeed (inSize dc digits false) ext = (inSize dc digits e, []) := by
    rcases h.extension with rfl | ⟨rest, rfl, hrest⟩
    · exact ⟨false, rfl⟩
    · refine ⟨true, ?_⟩
      have hsemi : dcByte (inSize dc digits false) 59 = (inSize dc digits true, []) := rfl
      rw [dcFeed, hsemi, dcFeed_inExt hrest]
      rfl
  obtain ⟨e, hext⟩ := hext
  have hvalue : strtoulHex digits = n := by
    rw [strtoulHex, h.value]
    omega
  rw [h.eq, append_assoc, dcFeed_append, hdigits, dcFeed_append, hext, dcFeed_eolSize h.isEol]
  simp only [nil_append]
  rw [dcSize, if_neg (by decide), if_pos rfl, if_neg (show (inSize dc digits e).sizeBuf ≠ [] from
    h.digits_ne)]
  show (if strtoulHex digits = 0 then _ else _, _) = _
  rw [hvalue]
  split_ifs
  · rfl
  · show ({ dc with chunkRemaining := strtoulHex digits, sizeBuf := [], inExt := false,
                    state := .readData }, _) = _
    rw [hvalue]

/-- **The bytes of a chunk.** -/
theorem dcFeed_data : ∀ {data : List UInt8} {dc : Dechunker}, dc.state = .readData →
    data ≠ [] → dc.chunkRemaining = data.length →
    dcFeed dc data = ({ dc with chunkRemaining := 0, state := .readDataCrlf }, data) := by
  intro data
  induction data with
  | nil => intro dc _ h _; exact absurd rfl h
  | cons c data ih =>
    intro dc hstate _ hlen
    rw [length_cons] at hlen
    have hstep : dcByte dc c = (dcData dc, [c]) := by
      rw [dcByte, hstate]
      exact if_neg (by omega)
    rw [dcFeed, hstep]
    cases data with
    | nil =>
      rw [dcData, hlen]
      rfl
    | cons d data =>
      have hlast : dc.chunkRemaining ≠ 1 := by
        rw [hlen, length_cons]
        omega
      have hrest := @ih (dcData dc) (if_neg hlast) (cons_ne_nil _ _) (by
        show dc.chunkRemaining - 1 = _
        omega)
      rw [hrest]
      rfl

theorem dcFeed_eolData {dc : Dechunker} {eol : List UInt8} (hstate : dc.state = .readDataCrlf)
    (heol : IsEol eol) : dcFeed dc eol = (inSize dc [] false, []) := by
  have h13 : dcByte dc 13 = (dc, []) := by
    rw [dcByte, hstate]
    rfl
  have h10 : dcByte dc 10 = (inSize dc [] false, []) := by
    rw [dcByte, hstate]
    rfl
  rcases heol with rfl | rfl
  · rw [dcFeed, h13, dcFeed, h10]
    rfl
  · rw [dcFeed, h10]
    rfl

theorem dcFeed_trailerText {text : List UInt8} {dc : Dechunker}
    (hstate : dc.state = .readTrailers) (h13 : (13 : UInt8) ∉ text) (h10 : (10 : UInt8) ∉ text) :
    dcFeed dc text =
      ({ dc with trailerLineLen := dc.trailerLineLen + UInt32.ofNat text.length }, []) := by
  induction text generalizing dc with
  | nil => simp [dcFeed]
  | cons c text ih =>
    rw [mem_cons, not_or] at h13 h10
    have hstep : dcByte dc c = ({ dc with trailerLineLen := dc.trailerLineLen + 1 }, []) := by
      rw [dcByte_readTrailers hstate, dcTrailers, if_neg (Ne.symm h13.1), if_neg (Ne.symm h10.1)]
    have hrest := @ih { dc with trailerLineLen := dc.trailerLineLen + 1 } hstate h13.2 h10.2
    rw [dcFeed, hstep, hrest, length_cons, UInt32.ofNat_add]
    simp only [nil_append, Prod.mk.injEq, and_true, UInt32.add_assoc]
    rw [UInt32.add_comm 1]
    rfl

theorem dcFeed_eolTrailers {dc : Dechunker} {eol : List UInt8} (hstate : dc.state = .readTrailers)
    (heol : IsEol eol) :
    dcFeed dc eol = (if dc.trailerLineLen = 0 then { dc with state := .done }
      else { dc with trailerLineLen := 0 }, []) := by
  have h13 : dcByte dc 13 = (dc, []) := dcByte_readTrailers hstate 13
  have h10 : dcByte dc 10 = (if dc.trailerLineLen = 0 then { dc with state := .done }
      else { dc with trailerLineLen := 0 }, []) := dcByte_readTrailers hstate 10
  rcases heol with rfl | rfl
  · rw [dcFeed, h13, dcFeed, h10]
    rfl
  · rw [dcFeed, h10]
    rfl

theorem uint32_ofNat_eq_zero_iff (n : ℕ) : UInt32.ofNat n = 0 ↔ n % 2 ^ 32 = 0 := by
  rw [← UInt32.toNat_inj, UInt32.toNat_ofNat', UInt32.toNat_zero]

/-- Trailer lines are passed over. One whose count comes back to zero ends the body. -/
theorem dcFeed_trailers {trailers : List (List UInt8)} {dc : Dechunker}
    (hstate : dc.state = .readTrailers) (h0 : dc.trailerLineLen = 0)
    (hall : ∀ t ∈ trailers, ∃ text eol, IsTrailer wraps t text eol) :
    ∃ dc', dcFeed dc trailers.flatten = (dc', []) ∧
      (dc' = dc ∨ wraps ∧ dc'.state = .done) := by
  induction trailers with
  | nil => exact ⟨dc, rfl, .inl rfl⟩
  | cons t trailers ih =>
    obtain ⟨text, eol, h⟩ := hall t mem_cons_self
    have htext := dcFeed_trailerText hstate h.cr_not_mem h.lf_not_mem
    have hend := @dcFeed_eolTrailers
      { dc with trailerLineLen := dc.trailerLineLen + UInt32.ofNat text.length } eol hstate h.isEol
    rw [flatten_cons, h.eq, dcFeed_append, dcFeed_append, htext, hend]
    simp only [h0, UInt32.zero_add, uint32_ofNat_eq_zero_iff]
    by_cases hcount : text.length % 2 ^ 32 = 0
    · -- the count is back at zero: the bytes behind are not looked at
      rw [if_pos hcount, dcFeed_stopped (.inl rfl)]
      exact ⟨_, rfl, .inr ⟨h.count hcount, rfl⟩⟩
    · have hsame : { dc with trailerLineLen := (0 : UInt32) } = dc := by rw [← h0]
      obtain ⟨dc', hrest, hdc'⟩ := ih fun t' ht' => hall t' (mem_cons_of_mem _ ht')
      rw [if_neg hcount, hsame, hrest]
      exact ⟨dc', rfl, hdc'⟩

/-- **Chunked coding is undone** up to its last byte, the end of the blank line. -/
theorem dcFeed_coded_front (h : Coded wraps body raw) (dc : Dechunker) :
    ∃ front dc', raw = front ++ [10] ∧ dcFeed (inSize dc [] false) front = (dc', body) ∧
      ((dc'.state = .readTrailers ∧ dc'.trailerLineLen = 0) ∨ wraps ∧ dc'.state = .done) := by
  induction h generalizing dc with
  | @last line digits ext eol eol' trailers hline htrailers heol =>
    have hsize := dcFeed_sizeLine dc hline (by decide)
    rw [if_pos rfl] at hsize
    obtain ⟨dc', hrun, hdc'⟩ := @dcFeed_trailers _ trailers
      { dc with chunkRemaining := 0, sizeBuf := [], inExt := false, state := .readTrailers,
                trailerLineLen := 0 } rfl rfl htrailers
    have hend : (dc'.state = .readTrailers ∧ dc'.trailerLineLen = 0) ∨
        wraps ∧ dc'.state = .done := hdc'.imp_left fun h => by
      rw [h]
      exact ⟨rfl, rfl⟩
    have hfront : dcFeed (inSize dc [] false) (line ++ trailers.flatten) = (dc', []) := by
      rw [dcFeed_append, hsize, hrun]
      rfl
    -- the `\r` of the blank line is passed over, whether the body has ended or not
    have hcr : dcFeed dc' [13] = (dc', []) := by
      rcases hend with ⟨hstate, -⟩ | ⟨-, hstate⟩
      · rw [dcFeed, dcByte_readTrailers hstate]
        rfl
      · exact dcFeed_stopped (.inl hstate) _
    rcases heol with rfl | rfl
    · refine ⟨line ++ trailers.flatten ++ [13], dc', by simp, ?_, hend⟩
      rw [dcFeed_append, hfront, hcr]
      rfl
    · exact ⟨_, dc', rfl, hfront, hend⟩
  | @chunk line digits ext eol data eol' body raw hline hne hlen heol _ ih =>
    have hsize := dcFeed_sizeLine dc hline hlen
    rw [if_neg (fun h => hne (List.length_eq_zero_iff.1 h))] at hsize
    have hdata := @dcFeed_data data
      { dc with chunkRemaining := data.length, sizeBuf := [], inExt := false, state := .readData }
      rfl hne rfl
    have heolData := @dcFeed_eolData
      { dc with chunkRemaining := 0, sizeBuf := [], inExt := false, state := .readDataCrlf }
      eol' rfl heol
    obtain ⟨front, dc', rfl, hfront, hstate⟩ := ih
      { dc with chunkRemaining := 0, sizeBuf := [], inExt := false, state := .readDataCrlf }
    refine ⟨line ++ data ++ eol' ++ front, dc', by simp, ?_, hstate⟩
    rw [dcFeed_append, dcFeed_append, dcFeed_append, hsize]
    simp only [hdata, heolData, hfront, List.nil_append, List.append_nil]

/-- **Chunked coding is undone**: the body comes out, and the dechunker is done. -/
theorem dcFeed_coded (h : Coded wraps body raw) (dc : Dechunker) :
    (dcFeed (inSize dc [] false) raw).1.state = .done ∧
      (dcFeed (inSize dc [] false) raw).2 = body := by
  obtain ⟨front, dc', rfl, hfront, hend⟩ := dcFeed_coded_front h dc
  have hlast : (dcFeed dc' [10]).1.state = .done ∧ (dcFeed dc' [10]).2 = [] := by
    rcases hend with ⟨hstate, hlen⟩ | ⟨-, hstate⟩
    · rw [dcFeed_eolTrailers hstate (.inr rfl), if_pos hlen]
      exact ⟨rfl, rfl⟩
    · rw [dcFeed_stopped (.inl hstate)]
      exact ⟨hstate, rfl⟩
  rw [dcFeed_append, hfront, hlast.2]
  exact ⟨hlast.1, List.append_nil body⟩

theorem dcFeed_part {part : List UInt8} (h : Coded wraps body raw) (hpart : part <+: raw) :
    (dcFeed .init part).1.state ≠ .error ∧
      ((dcFeed .init part).1.Stopped → (dcFeed .init part).1.state = .done) ∧
      (dcFeed .init part).2 <+: body := by
  obtain ⟨rest, rfl⟩ := hpart
  obtain ⟨hdone, hbody⟩ := dcFeed_coded h .init
  have hinit : inSize .init [] false = Dechunker.init := rfl
  rw [hinit, dcFeed_append] at hdone hbody
  have hstopped : (dcFeed .init part).1.Stopped → (dcFeed .init part).1.state = .done := by
    intro hstop
    rw [dcFeed_stopped hstop] at hdone
    exact hdone
  refine ⟨fun herror => ?_, hstopped, ?_⟩
  · rw [hstopped (.inr (.inl herror))] at herror
    cases herror
  · rw [← hbody]
    exact prefix_append _ _

end Meatpi
