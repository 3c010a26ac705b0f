import Meatpi.Library.Run
import Meatpi.ObdChip.GuardSound

/-!
# The raw path to the chip (`obd_chip_send` in `obd_chip_fanout.c`)

A client's bytes come in the pieces a transport makes of them; every piece goes
through the guard on its own and on to the chip. The guard keeps nothing from
one piece to the next, so a command cut in two is a command it does not see. The
commands that lie in one piece are written as the guard leaves them
(`obdChipSend_guarded`).
-/

namespace Meatpi

open Bool List

variable {t : Char} {c' : List Char} {x : Char} {c r : List Char}

/-! ## The reset word -/

inductive ObdReset where
  | none
  | atz
  | atws
  | atd
  deriving DecidableEq

def isLineEnd (c : Char) : Bool := c == '\r' || c == '\n'

def obdParseResetWord (buf : List Char) : ObdReset :=
  -- line ends and blanks ahead of the word
  let s := buf.dropWhile fun c => isLineEnd c || guardWs c
  let word := (s.takeWhile (! isLineEnd ·)).filter (! guardWs ·)
  let rest := s.dropWhile (! isLineEnd ·)
  if 5 < word.length then .none -- longer than any reset word
  else if ¬ rest.all fun c => isLineEnd c || guardWs c then .none
  else if word.map Char.toUpper = "ATZ".toList then .atz
  else if word.map Char.toUpper = "ATWS".toList then .atws
  else if word.map Char.toUpper = "ATD".toList then .atd -- not ATD0 / ATD1 / ATDP / ATDPN
  else .none

/-! ## A send -/

/-- The buffer a rewrite is made in. -/
def obdSendCopy : ℕ := 256

/-- `gv`: what the guard says of a piece. -/
def guardVerdict (data : List Char) : ObdGuard :=
  if obdChipGuardCheck data = .rewritten ∧ obdSendCopy < data.length then
    .blocked -- no scratch for a rewrite that long
  else obdChipGuardCheck data

/-- What the guard lets through of a piece. -/
def guardedText (data : List Char) : Option (List Char) :=
  match guardVerdict data with
  | .pass => some data
  | .rewritten => some (obdChipGuardCmd data).2
  | .blocked => none

/-- What a send writes: ATZ goes out as ATWS. -/
def sentText (text : List Char) : List Char :=
  if obdParseResetWord text = .atz then "ATWS\r".toList else text

/-- `obd_chip_send`, with `ready` for the bring-up done and nobody else on the
wire: the bytes written. -/
def obdChipSend (ready : Bool) (data : List Char) : List Char :=
  if data = [] then []
  else if ready = false then []
  else
    match guardedText data with
    | none => [] -- the subscribers get a "?"
    | some text => sentText text

/-! ## What the chip was sent -/

/-- The commands that were ended. -/
def ended (bytes : List Char) : List (List Char) := (commands bytes).dropLast

/-- What stands behind the last end. -/
def pending (bytes : List Char) : List Char := (commands bytes).getLastD []

/-- A command spelled without blanks that writes the EEPROM; STWBR and STSAVCAL
stand alone. -/
def SpellsWrite (c : List Char) : Prop :=
  c.any guardWs = false ∧ WritesEeprom (chipReads c) ∧
    ("stwbr".toList <+: chipReads c → chipReads c = "stwbr".toList) ∧
    ("stsavcal".toList <+: chipReads c → chipReads c = "stsavcal".toList)

instance (c : List Char) : Decidable (SpellsWrite c) := inferInstanceAs (Decidable (_ ∧ _))

/-- `ATPPS` and more. -/
def MoreThanPps (c : List Char) : Prop :=
  "atpps".toList <+: chipReads c ∧ chipReads c ≠ "atpps".toList

instance (c : List Char) : Decidable (MoreThanPps c) := inferInstanceAs (Decidable (_ ∧ _))

/-- A client's piece. -/
structure Piece where
  ready : Bool
  data : List Char

/-- A send that cuts no write in two: the command begun before and ended here
is none, and none begun here is an ATPPS with more behind it. -/
def Uncut (written : List Char) (p : Piece) : Prop :=
  ∀ text, p.ready = true → guardedText p.data = some text →
    ∀ c cs, commands (if obdParseResetWord text = .atz then "ATWS\r".toList else p.data) = c :: cs →
      cs ≠ [] →
        (if pending written = [] then ¬ MoreThanPps c
          else ¬ SpellsWrite (pending written ++ c)) ∧
        ∀ c' ∈ cs.dropLast, ¬ MoreThanPps c'

/-- A send that meets the condition. -/
def Sends (written : List Char) (p : Piece) (written' : List Char) : Prop :=
  Uncut written p ∧ written' = written ++ obdChipSend p.ready p.data

/-! ## The guard before a send -/

theorem guardBoundary_eq (c : Char) : guardBoundary (some c) = (isCmdEnd c || guardWs c) := by
  rw [guardBoundary, isCmdEnd, guardWs]
  cases c == '\r' <;> cases c == '\n' <;> cases c == ' ' <;> cases c == '\t' <;> cases c == ';' <;>
    rfl

theorem guardBoundary_of_toLower {c : Char} (hc : c.toLower = x)
    (hx : isCmdEnd x = false ∧ x ≠ ' ' ∧ x ≠ '\t') : guardBoundary (some c) = false := by
  rw [guardBoundary_eq, isCmdEnd_of_toLower hc hx.1, guardWs_of_toLower hc hx.2, Bool.or_false]

/-- Looking sees what rewriting does. -/
inductive SameToken : GuardToken → GuardToken → Prop
  | same (tok : GuardToken) : SameToken tok tok
  | patch {out out' : List Char} {last last' : Char} {rest : List Char}
      (h : guardBoundary (some last) = false) (h' : guardBoundary (some last') = false) :
      SameToken (.patch out last rest) (.patch out' last' rest)

theorem guardAt_sameToken (b₀ b₁ : Char) (s : List Char) :
    SameToken (guardAt false b₀ b₁ s) (guardAt true b₀ b₁ s) := by
  rw [guardAt, guardAt]
  cases guardSkipWs s with
  | nil => exact .same _
  | cons l₁ s₁ =>
    dsimp only
    cases guardSkipWs s₁ with
    | nil => exact .same _
    | cons l₂ s₂ =>
      dsimp only
      by_cases hsp : l₁.toLower = 's' ∧ l₂.toLower = 'p'
      · rw [if_pos hsp, if_pos hsp]
        exact .patch (guardBoundary_of_toLower hsp.2 (by decide)) (by decide)
      rw [if_neg hsp, if_neg hsp]
      by_cases hm1 : l₁.toLower = 'm' ∧ l₂.toLower = '1'
      · rw [if_pos hm1, if_pos hm1]
        exact .patch (guardBoundary_of_toLower hm1.2 (by decide)) (by decide)
      rw [if_neg hm1, if_neg hm1]
      exact .same _

theorem guardToken_sameToken (b₀ b₁ : Char) (s : List Char) :
    SameToken (guardToken false b₀ b₁ s) (guardToken true b₀ b₁ s) := by
  rw [guardToken, guardToken]
  split_ifs
  · exact guardAt_sameToken b₀ b₁ s
  · exact .same _
  · exact .same _

/-- **The check** gives the verdict of the rewrite. -/
theorem guardScan_check : ∀ (n : ℕ) (prev prev' : Option Char) (s : List Char),
    guardBoundary prev = guardBoundary prev' →
      (guardScan false n prev s).1 = (guardScan true n prev' s).1 := by
  intro n
  induction n with
  | zero => exact fun prev prev' s _ => rfl
  | succ n ih =>
    intro prev prev' s hprev
    match s with
    | [] => rfl
    | [b] => rfl
    | b₀ :: b₁ :: s =>
      rw [guardScan, guardScan, hprev]
      have hsame : SameToken
          (if guardBoundary prev' = true then guardToken false b₀ b₁ s else .other)
          (if guardBoundary prev' = true then guardToken true b₀ b₁ s else .other) := by
        split_ifs
        · exact guardToken_sameToken b₀ b₁ s
        · exact .same _
      revert hsame
      generalize (if guardBoundary prev' = true then guardToken false b₀ b₁ s else .other) = tok
      generalize (if guardBoundary prev' = true then guardToken true b₀ b₁ s else .other) = tok'
      intro hsame
      cases hsame with
      | same tok =>
        cases tok with
        | other => exact ih _ _ _ rfl
        | ends => rfl
        | patch out last rest =>
          dsimp only
          rw [ih (some last) (some last) rest rfl]
        | leave out last rest => exact ih _ _ _ rfl
        | refused => rfl
      | @patch out out' last last' rest h h' =>
        dsimp only
        rw [ih (some last) (some last') rest (h.trans h'.symm)]

theorem obdChipGuardCheck_eq (buf : List Char) : obdChipGuardCheck buf = (obdChipGuardCmd buf).1 :=
  guardScan_check _ none none buf rfl

theorem guardScan_pass : ∀ (n : ℕ) (prev : Option Char) (s : List Char),
    (guardScan true n prev s).1 = .pass → (guardScan true n prev s).2 = s := by
  intro n
  induction n with
  | zero => exact fun prev s _ => rfl
  | succ n ih =>
    intro prev s
    match s with
    | [] => exact fun _ => rfl
    | [b] => exact fun _ => rfl
    | b₀ :: b₁ :: s =>
      rw [guardScan]
      have hleave : ∀ out last rest,
          (if guardBoundary prev = true then guardToken true b₀ b₁ s else .other) =
            .leave out last rest → out ++ rest = b₀ :: b₁ :: s := by
        intro out last rest htok
        split_ifs at htok
        rw [guardToken] at htok
        split_ifs at htok
        · have hfinds := guardAt_finds b₀ b₁ s
          rw [htok] at hfinds
          cases hfinds
          simp only [cons_append, append_assoc, nil_append]
        · rcases guardSt_cases s with ⟨hst, -⟩ | hst | hst
          all_goals
            rw [hst] at htok
            cases htok
      revert hleave
      generalize (if guardBoundary prev = true then guardToken true b₀ b₁ s else .other) = tok
      intro hleave
      cases tok with
      | other => exact fun hpass => congrArg (b₀ :: ·) (ih _ _ hpass)
      | ends => exact fun _ => rfl
      | patch out last rest =>
        dsimp only
        split_ifs
        all_goals exact False.elim
      | leave out last rest =>
        intro hpass
        exact (congrArg (out ++ ·) (ih _ _ hpass)).trans (hleave out last rest rfl)
      | refused => exact fun hno => ObdGuard.noConfusion hno

theorem guardedText_scanned {data text : List Char} (h : guardedText data = some text) :
    GuardScanned none data text := by
  have hout : (obdChipGuardCmd data).1 ≠ .blocked ∧ (obdChipGuardCmd data).2 = text := by
    rw [guardedText, guardVerdict, obdChipGuardCheck_eq] at h
    by_cases hlong : (obdChipGuardCmd data).1 = .rewritten ∧ obdSendCopy < data.length
    · rw [if_pos hlong] at h
      cases h
    rw [if_neg hlong] at h
    cases hverdict : (obdChipGuardCmd data).1 with
    | pass =>
      rw [hverdict] at h
      cases h
      exact ⟨fun hno => ObdGuard.noConfusion hno, guardScan_pass _ _ _ hverdict⟩
    | rewritten =>
      rw [hverdict] at h
      cases h
      exact ⟨fun hno => ObdGuard.noConfusion hno, rfl⟩
    | blocked =>
      rw [hverdict] at h
      cases h
  exact hout.2 ▸ guardScan_scanned data.length none data (Nat.le_refl _) hout.1

/-! ## A command in one piece -/

theorem guardWs_of_mem (hc : c.any guardWs = false) (hx : x ∈ c) : guardWs x = false := by
  rw [any_eq_false] at hc
  exact not_eq_true _ ▸ hc x hx

theorem chipReads_letters {d : List Char} (hc : c.any guardWs = false) (h : chipReads c = x :: d) :
    ∃ l r, c = l :: r ∧ guardSkipWs c = l :: r ∧ l.toLower = x ∧ chipReads r = d ∧
      r.any guardWs = false := by
  cases c with
  | nil => cases h
  | cons l r =>
    rw [any_cons, or_eq_false_iff] at hc
    rw [chipReads_cons hc.1] at h
    injection h with hl hr
    exact ⟨l, r, rfl, skipWs_letter hc.1 r, hl, hr, hc.2⟩

theorem toUpper_ascii : ∀ n < 128, (Char.ofNat n).toLower.isLower = true →
    (Char.ofNat n).isAlpha = true ∧
      (Char.ofNat n).toUpper = (Char.ofNat n).toLower.toUpper := by decide

theorem toUpper_of_toLower {c : Char} (h : c.toLower.isLower = true) :
    c.isAlpha = true ∧ c.toUpper = c.toLower.toUpper := by
  by_cases hascii : c.toNat < 128
  · have hall := toUpper_ascii c.toNat hascii
    rw [Char.ofNat_toNat] at hall
    exact hall h
  · -- no letter: it stays what it is
    exfalso
    have hbig : ∀ z : Char, z.toNat < 128 → ¬ c.val ≤ z.val := fun z hz hle =>
      hascii (Nat.lt_of_le_of_lt (UInt32.le_iff_toNat_le.1 hle) hz)
    have hsame : c.toLower = c := dif_neg fun hno => hbig 'Z' (by decide) hno.2
    rw [hsame] at h
    have hle : (decide (c.val ≥ 'a'.val) && decide (c.val ≤ 'z'.val)) = true := h
    rw [and_eq_true, decide_eq_true_eq, decide_eq_true_eq] at hle
    exact hbig 'z' (by decide) hle.2

theorem guardWord_of_lower (hr : r.any guardWs = false) (hlen : (chipReads r).length ≤ 8)
    (hlower : (chipReads r).all Char.isLower = true) :
    guardWord r = (chipReads r).map Char.toUpper := by
  have hreads : chipReads r = r.map Char.toLower := by
    rw [chipReads, filter_eq_self.2 fun x hx => by rw [guardWs_of_mem hr hx]; rfl]
  have hletter : ∀ x ∈ r, x.isAlpha = true ∧ x.toUpper = x.toLower.toUpper := by
    intro x hx
    refine toUpper_of_toLower (all_eq_true.1 hlower _ ?_)
    rw [hreads]
    exact mem_map_of_mem hx
  rw [hreads, length_map] at hlen
  have hword : r.takeWhile Char.isAlpha = r := by
    rw [takeWhile_eq_self_iff]
    exact fun x hx => (hletter x hx).1
  rw [guardWord, hword, take_of_length_le hlen, hreads, map_map]
  exact map_congr_left fun x hx => (hletter x hx).2

theorem guardToken_refused_at {a l l' : Char} {s r' : List Char} (ha : a.toLower = 'a')
    (ht : t.toLower = 't') (hs : guardSkipWs s = l :: r) (hr : guardSkipWs r = l' :: r')
    (hrefused : (l.toLower = 's' ∧ l'.toLower = 'd') ∨ (l.toLower = 'c' ∧ l'.toLower = 'v') ∨
      (l.toLower = 'p' ∧ l'.toLower = 'p' ∧ ∀ l'' r'', guardSkipWs r' = l'' :: r'' →
        l''.toLower ≠ 's')) :
    guardToken true a t s = .refused := by
  rw [guardToken, if_pos ⟨ha, ht⟩, guardAt, hs]
  dsimp only
  rw [hr]
  dsimp only
  rcases hrefused with ⟨hl, hl'⟩ | ⟨hl, hl'⟩ | ⟨hl, hl', hl''⟩
  · rw [hl, hl', if_neg (by decide), if_neg (by decide), if_neg (by decide), if_pos (by decide)]
  · rw [hl, hl', if_neg (by decide), if_neg (by decide), if_neg (by decide), if_pos (by decide)]
  · rw [hl, hl', if_neg (by decide), if_neg (by decide), if_pos (by decide)]
    cases hr' : guardSkipWs r' with
    | nil => rfl
    | cons l'' r'' => exact if_pos (hl'' l'' r'' hr')

theorem guardToken_refused_st {b : Char} (hb : b.toLower = 's') (ht : t.toLower = 't')
    (hr : r.any guardWs = false)
    (hword : chipReads r = "wbr".toList ∨ chipReads r = "savcal".toList) :
    guardToken true b t r = .refused := by
  have hlen : (chipReads r).length ≤ 8 := by
    rcases hword with h | h
    all_goals
      rw [h]
      decide
  have hlower : (chipReads r).all Char.isLower = true := by
    rcases hword with h | h
    all_goals
      rw [h]
      decide
  have hupper := guardWord_of_lower hr hlen hlower
  have hskip : ∃ l r', guardSkipWs r = l :: r' ∧ r = l :: r' := by
    cases r with
    | nil => rcases hword with h | h <;> cases h
    | cons l r' =>
      rw [any_cons, or_eq_false_iff] at hr
      exact ⟨l, r', skipWs_letter hr.1 r', rfl⟩
  obtain ⟨l, r', hskip, heq⟩ := hskip
  have hat : ¬ (b.toLower = 'a' ∧ t.toLower = 't') := by
    rw [hb]
    exact fun hno => absurd hno.1 (by decide)
  rw [guardToken, if_neg hat, if_pos ⟨hb, ht⟩, guardSt, hskip]
  dsimp only
  rw [← heq, hupper]
  refine if_pos (hword.imp ?_ ?_)
  · rintro h
    rw [h]
    rfl
  · rintro h
    rw [h]
    rfl

/-- **A command the guard saw begin** is a write only as an ATPPS with more
behind it. -/
theorem GuardKept.spells (h : GuardKept c c') (hspells : SpellsWrite c') : MoreThanPps c := by
  obtain ⟨hfree', hwrites', hwbr', hcal'⟩ := hspells
  have hfree : c.any guardWs = false := h.blanks ▸ hfree'
  obtain ⟨hwrites, hcaught⟩ := h.writes.1 hwrites'
  -- the two letters, and the rest of the command
  have hletters : ∀ (x y : Char) (w : List Char), (x :: y :: w) <+: chipReads c →
      ∃ b t r, guardSkipWs c = b :: t :: r ∧ b.toLower = x ∧ t.toLower = y ∧
        w <+: chipReads r ∧ r.any guardWs = false ∧ chipReads c = x :: y :: chipReads r := by
    intro x y w hpre
    obtain ⟨d, hd⟩ := hpre
    obtain ⟨b, r, -, hskip, hb, hr, hrfree⟩ := chipReads_letters hfree hd.symm
    obtain ⟨t, r', hreq, -, ht, hr', hrfree'⟩ := chipReads_letters hrfree hr
    refine ⟨b, t, r', hreq ▸ hskip, hb, ht, ⟨d, hr'.symm⟩, hrfree', ?_⟩
    rw [← hd, hr']
    rfl
  have hat : ∀ {l l' : Char}, ['a', 't', l, l'] <+: chipReads c →
      (l = 's' ∧ l' = 'd') ∨ (l = 'c' ∧ l' = 'v') → False := by
    intro l l' hpre hrefused
    obtain ⟨a, t, r, hskip, ha, ht, ⟨d, hd⟩, hrfree, -⟩ := hletters 'a' 't' [l, l'] hpre
    obtain ⟨k, r₁, -, hk, hkl, hr₁, hr₁free⟩ := chipReads_letters hrfree hd.symm
    obtain ⟨k', r₂, -, hk', hkl', -, -⟩ := chipReads_letters hr₁free hr₁
    refine h.passes a t r hskip (guardToken_refused_at ha ht hk hk' ?_)
    rw [hkl, hkl']
    exact hrefused.imp_right .inl
  have hst : ∀ w, (chipReads c = 's' :: 't' :: w) → (w = "wbr".toList ∨ w = "savcal".toList) →
      False := by
    intro w heq hw
    obtain ⟨b, t, r, hskip, hb, ht, -, hrfree, hr⟩ := hletters 's' 't' w (heq ▸ prefix_refl _)
    rw [heq] at hr
    injection hr with _ hr
    injection hr with _ hr
    exact h.passes b t r hskip (guardToken_refused_st hb ht hrfree (hr ▸ hw))
  rcases hwrites with hsp | hsd | hcv | hwbr | hcal | hm1 | ⟨hpp, hpps⟩
  · obtain ⟨a, t, r, hskip, ha, ht, hw, -⟩ := hletters 'a' 't' "sp".toList hsp
    exact absurd ⟨a, t, r, hskip, ha, ht, .inl hw⟩ hcaught
  · exact (hat hsd (.inl ⟨rfl, rfl⟩)).elim
  · exact (hat hcv (.inr ⟨rfl, rfl⟩)).elim
  · have hword := hwbr' ((h.reads.prefix_iff (by decide)).2 hwbr)
    exact (hst "wbr".toList ((h.reads.eq_iff (by decide)).1 hword) (.inl rfl)).elim
  · have hword := hcal' ((h.reads.prefix_iff (by decide)).2 hcal)
    exact (hst "savcal".toList ((h.reads.eq_iff (by decide)).1 hword) (.inr rfl)).elim
  · obtain ⟨a, t, r, hskip, ha, ht, hw, -⟩ := hletters 'a' 't' "m1".toList (hm1 ▸ prefix_refl _)
    exact absurd ⟨a, t, r, hskip, ha, ht, .inr hw⟩ hcaught
  · refine ⟨?_, hpps⟩
    obtain ⟨a, t, r, hskip, ha, ht, ⟨d, hd⟩, hrfree, heq⟩ := hletters 'a' 't' ['p', 'p'] hpp
    obtain ⟨k, r₁, -, hk, hkl, hr₁, hr₁free⟩ := chipReads_letters hrfree hd.symm
    obtain ⟨k', r₂, -, hk', hkl', hr₂, hr₂free⟩ := chipReads_letters hr₁free hr₁
    by_contra hno
    refine h.passes a t r hskip (guardToken_refused_at ha ht hk hk' (.inr (.inr ⟨hkl, hkl', ?_⟩)))
    rintro l'' r'' hl'' hs
    refine hno ?_
    obtain ⟨-, hws, hreq⟩ := skipWs_cons hl''
    have hlow : chipReads r₂ = l''.toLower :: chipReads r'' := by
      rw [hreq, chipReads_word (fun c hc => mem_takeWhile_imp hc) hws]
    have hd₂ : d = l''.toLower :: chipReads r'' := hr₂.symm.trans hlow
    rw [heq, ← hd, hd₂, hs]
    exact prefix_append "atpps".toList (chipReads r'')

/-! ## A command in two pieces -/

theorem GuardFollows.spells_iff {p : List Char} (h : GuardFollows c c') (hp : p ≠ []) :
    SpellsWrite (p ++ c') ↔ SpellsWrite (p ++ c) := by
  have hall := h.append p
  rw [SpellsWrite, hall.blanks]
  refine and_congr_right fun hfree => ?_
  -- the first letter stands, and no command begins behind it
  obtain ⟨x, q, rfl⟩ := exists_cons_of_ne_nil hp
  have hfirst : guardWs x = false := guardWs_of_mem hfree mem_cons_self
  have hreads := (h.append q).reads
  rw [cons_append, cons_append, chipReads_cons hfirst, chipReads_cons hfirst]
  refine and_congr (hreads.writes_iff x.toLower) (and_congr ?_ ?_)
  · refine imp_congr ?_ ?_
    · exact (hreads.cons x.toLower).prefix_iff (by decide)
    · exact (hreads.cons x.toLower).eq_iff (by decide)
  · refine imp_congr ?_ ?_
    · exact (hreads.cons x.toLower).prefix_iff (by decide)
    · exact (hreads.cons x.toLower).eq_iff (by decide)

theorem commands_append_cons (w : List Char) {o : List Char} {cs : List (List Char)}
    (h : commands o = c :: cs) : commands (w ++ o) = ended w ++ (pending w ++ c) :: cs := by
  induction w with
  | nil => exact h
  | cons b w ih =>
    obtain ⟨d, ds, hw⟩ := commands_ne_nil w
    cases hb : isCmdEnd b with
    | true =>
      rw [cons_append, commands_cons_end hb, ih, ended, ended, pending, pending,
        commands_cons_end hb, hw]
      rfl
    | false =>
      have hb' : ∀ x ∈ [b], isCmdEnd x = false := fun x hx => mem_singleton.1 hx ▸ hb
      have hcons := commands_append hb' hw
      rw [singleton_append] at hcons
      rw [ended, pending, hw] at ih
      rw [ended, pending, hcons]
      cases ds with
      | nil => exact commands_append hb' ih
      | cons d' ds => exact commands_append hb' ih

theorem mem_dropLast_of_forall₂ {α β : Type*} {R : α → β → Prop} {l : List α} {l' : List β}
    (h : List.Forall₂ R l l') : ∀ y ∈ l'.dropLast, ∃ x ∈ l.dropLast, R x y := by
  induction h with
  | nil => exact nofun
  | @cons x y l l' hxy hrest ih =>
    cases hrest with
    | nil => exact nofun
    | cons hxy' hrest' =>
      rintro z hz
      rw [dropLast_cons_cons, mem_cons] at hz
      rcases hz with rfl | hz
      · exact ⟨x, mem_cons_self, hxy⟩
      · obtain ⟨x', hx', hR⟩ := ih z hz
        exact ⟨x', mem_cons_of_mem x hx', hR⟩

/-- **One send** that cuts no write in two ends none. -/
theorem Sends.ended {w w' : List Char} {p : Piece} (h : Sends w p w')
    (hw : ∀ c ∈ ended w, ¬ SpellsWrite c) : ∀ c ∈ ended w', ¬ SpellsWrite c := by
  obtain ⟨huncut, rfl⟩ := h
  -- it writes nothing, or what the guard left
  have hcases : obdChipSend p.ready p.data = [] ∨ ∃ text, p.ready = true ∧
      guardedText p.data = some text ∧ obdChipSend p.ready p.data = sentText text := by
    rw [obdChipSend]
    split_ifs with hnil hready
    · exact .inl rfl
    · exact .inl rfl
    · cases hguard : guardedText p.data with
      | none => exact .inl rfl
      | some text => exact .inr ⟨text, not_eq_false _ ▸ hready, rfl, rfl⟩
  rcases hcases with hnil | ⟨text, hready, hguard, hsent⟩
  · rw [hnil, append_nil]
    exact hw
  rw [hsent]
  have huncut := huncut text hready hguard
  rw [sentText]
  by_cases hatz : obdParseResetWord text = .atz
  · rw [if_pos hatz] at huncut ⊢
    have hcmds : commands "ATWS\r".toList = ["ATWS".toList, []] := by decide
    obtain ⟨hfirst, -⟩ := huncut _ _ hcmds (cons_ne_nil _ _)
    rw [Meatpi.ended, commands_append_cons w hcmds, dropLast_append_of_ne_nil (by simp)]
    intro c hc
    rw [dropLast_cons_cons, dropLast_singleton, mem_append, mem_singleton] at hc
    rcases hc with hc | rfl
    · exact hw c hc
    · split_ifs at hfirst with hpend
      · rw [hpend]
        decide
      · exact hfirst
  · rw [if_neg hatz] at huncut ⊢
    obtain ⟨d, ds, c, cs, hdata, htext, hfollows, hlater, hstart⟩ :=
      (guardedText_scanned hguard).followed
    rw [Meatpi.ended, commands_append_cons w htext, dropLast_append_of_ne_nil (by simp)]
    intro c₁ hc₁
    rw [mem_append] at hc₁
    rcases hc₁ with hc₁ | hc₁
    · exact hw c₁ hc₁
    cases hlater with
    | nil => cases hc₁
    | @cons d' c' ds cs hkept hlater =>
      obtain ⟨hfirst, hrest⟩ := huncut d (d' :: ds) hdata (cons_ne_nil _ _)
      rw [dropLast_cons_cons, mem_cons] at hc₁
      rcases hc₁ with rfl | hc₁
      · split_ifs at hfirst with hpend
        · rw [hpend]
          exact fun hspells => hfirst ((hstart rfl).spells hspells)
        · rw [hfollows.spells_iff hpend]
          exact hfirst
      · obtain ⟨d₁, hd₁, hkept₁⟩ := mem_dropLast_of_forall₂ (.cons hkept hlater) c₁ hc₁
        exact fun hspells => hrest d₁ hd₁ (hkept₁.spells hspells)

/-- **The raw path**: as long as no send cuts a write in two, no command that
was written to the chip and ended is an EEPROM write. -/
theorem obdChipSend_guarded {pieces : List Piece} {written : List Char}
    (hrun : Run Sends [] pieces written) : ∀ c ∈ ended written, ¬ SpellsWrite c :=
  hrun.inv (fun _ _ _ hsend hw => hsend.ended hw) nofun

/-- A request that comes in two pieces, and behind it a write the guard rewrites. -/
theorem obdChipSend_guarded_atsp :
    obdChipSend true "01".toList ++ obdChipSend true "0C\rATSP6\r".toList =
        "010C\rATTP6\r".toList ∧
      ∀ c ∈ ended "010C\rATTP6\r".toList, ¬ SpellsWrite c := by
  have hfirst : Sends [] ⟨true, "01".toList⟩ "01".toList := by
    refine ⟨fun text _ htext c cs hcmds hmore => ?_, by decide⟩
    cases htext
    cases hcmds
    exact absurd rfl hmore
  have hnext : Sends "01".toList ⟨true, "0C\rATSP6\r".toList⟩ "010C\rATTP6\r".toList := by
    refine ⟨fun text _ htext c cs hcmds _ => ?_, by decide⟩
    cases htext
    cases hcmds
    exact ⟨fun hspells => absurd hspells (by decide), by decide⟩
  exact ⟨by decide, obdChipSend_guarded (.cons hfirst (.cons hnext (.nil _)))⟩

/-- A write in two pieces. -/
theorem obdChipSend_guarded_cut :
    ¬ ∀ (pieces : List Piece) (written : List Char),
      Run (fun w p w' => w' = w ++ obdChipSend p.ready p.data) [] pieces written →
        ∀ c ∈ ended written, ¬ SpellsWrite c := by
  intro hall
  exact hall [⟨true, "ATS".toList⟩, ⟨true, "P6\r".toList⟩] _ (.cons rfl (.cons rfl (.nil _)))
    "ATSP6".toList (by decide) (by decide)

end Meatpi
