import Mathlib.Data.List.Infix
import Mathlib.Data.List.TakeWhile

/-!
# The EEPROM guard (`guard_scan` in `obd_chip_parse.c`)

What goes to the chip is scanned for the commands that write its EEPROM: two have a
twin that only writes RAM and are rewritten in place, the others are refused. The scan
looks behind every line end, blank or `;`, wants the two letters of a command side by
side there and skips blanks behind them. The chip drops blanks wherever they stand.

`GuardScanned` says what the scan does as a judgement on the text
(`guardScan_scanned`); from it follow what the chip reads (`obdChipGuardCmd_reads`)
and that a second scan finds nothing.
-/

namespace Meatpi

open List

variable {l : Char} {s : List Char}

inductive ObdGuard where
  | pass
  | rewritten
  | blocked
  deriving DecidableEq

/-! ## The scan -/

def guardWs (c : Char) : Bool := c == ' ' || c == '\t'

/-- `guard_boundary`, of the character before. -/
def guardBoundary : Option Char → Bool
  | none => true
  | some p => p == '\r' || p == '\n' || guardWs p || p == ';'

def guardSkipWs (s : List Char) : List Char := s.dropWhile guardWs

/-- What stands at a boundary. -/
inductive GuardToken where
  | other
  | ends -- nothing but blanks behind the two letters
  | patch (out : List Char) (last : Char) (rest : List Char)
  | leave (out : List Char) (last : Char) (rest : List Char)
  | refused

/-- The commands that begin with `AT`. -/
def guardAt (apply : Bool) (b₀ b₁ : Char) (s : List Char) : GuardToken :=
  let ws := s.takeWhile guardWs
  match guardSkipWs s with
  | [] => .ends
  | l₁ :: s₁ =>
    let ws₁ := s₁.takeWhile guardWs
    match guardSkipWs s₁ with
    | [] => .other
    | l₂ :: s₂ =>
      if l₁.toLower = 's' ∧ l₂.toLower = 'p' then
        -- ATSP (set + save protocol) -> ATTP (try protocol, RAM)
        if apply then .patch ('A' :: 'T' :: (ws ++ 'T' :: (ws₁ ++ ['P']))) 'P' s₂
        else .patch (b₀ :: b₁ :: (ws ++ l₁ :: (ws₁ ++ [l₂]))) l₂ s₂
      else if l₁.toLower = 'm' ∧ l₂.toLower = '1' then
        -- ATM1 (memory on: later protocol changes stick) -> ATM0
        if apply then .patch ('A' :: 'T' :: (ws ++ 'M' :: (ws₁ ++ ['0']))) '0' s₂
        else .patch (b₀ :: b₁ :: (ws ++ l₁ :: (ws₁ ++ [l₂]))) l₂ s₂
      else if l₁.toLower = 'p' ∧ l₂.toLower = 'p' then
        let ws₂ := s₂.takeWhile guardWs
        match guardSkipWs s₂ with
        | [] => .refused
        | l₃ :: s₃ =>
          if l₃.toLower ≠ 's' then .refused
          else .leave (b₀ :: b₁ :: (ws ++ l₁ :: (ws₁ ++ l₂ :: (ws₂ ++ [l₃])))) l₃ s₃
      else if (l₁.toLower = 's' ∧ l₂.toLower = 'd') ∨ (l₁.toLower = 'c' ∧ l₂.toLower = 'v') then
        .refused
      else .other

/-- `word` -/
def guardWord (s : List Char) : List Char := ((s.takeWhile Char.isAlpha).take 8).map Char.toUpper

/-- The STN commands, which begin with `ST`. -/
def guardSt (s : List Char) : GuardToken :=
  match guardSkipWs s with
  | [] => .ends
  | l :: s =>
    if guardWord (l :: s) = "WBR".toList ∨ guardWord (l :: s) = "SAVCAL".toList then .refused
    else .other

/-- What begins with these two characters. -/
def guardToken (apply : Bool) (b₀ b₁ : Char) (s : List Char) : GuardToken :=
  if b₀.toLower = 'a' ∧ b₁.toLower = 't' then guardAt apply b₀ b₁ s
  else if b₀.toLower = 's' ∧ b₁.toLower = 't' then guardSt s
  else .other

/-- `guard_scan`, behind the character `prev`; it takes at most as many rounds
as there are characters. -/
def guardScan (apply : Bool) : ℕ → Option Char → List Char → ObdGuard × List Char
  | n + 1, prev, b₀ :: b₁ :: s =>
    match (if guardBoundary prev then guardToken apply b₀ b₁ s else .other) with
    | .other =>
      let (verdict, out) := guardScan apply n (some b₀) (b₁ :: s)
      (verdict, b₀ :: out)
    | .ends => (.pass, b₀ :: b₁ :: s)
    | .patch out last rest =>
      let (verdict, out') := guardScan apply n (some last) rest
      (if verdict = .blocked then .blocked else .rewritten, out ++ out')
    | .leave out last rest =>
      let (verdict, out') := guardScan apply n (some last) rest
      (verdict, out ++ out')
    | .refused => (.blocked, b₀ :: b₁ :: s)
  | _, _, s => (.pass, s)

/-- `obd_chip_guard_cmd`, with the buffer it leaves. -/
def obdChipGuardCmd (buf : List Char) : ObdGuard × List Char :=
  guardScan true buf.length none buf

def obdChipGuardCheck (buf : List Char) : ObdGuard := (guardScan false buf.length none buf).1

/-! ## What the chip reads -/

/-- Blanks dropped anywhere, case folded. -/
def chipReads (s : List Char) : List Char := (s.filter (! guardWs ·)).map Char.toLower

def isCmdEnd (c : Char) : Bool := c == '\r' || c == '\n' || c == ';'

/-- The commands of a buffer. -/
def commands (buf : List Char) : List (List Char) := buf.splitOnP isCmdEnd

/-- A command, as the chip reads it, that writes the EEPROM. -/
def WritesEeprom (c : List Char) : Prop :=
  "atsp".toList <+: c ∨ "atsd".toList <+: c ∨ "atcv".toList <+: c ∨ "stwbr".toList <+: c ∨
    "stsavcal".toList <+: c ∨ c = "atm1".toList ∨ ("atpp".toList <+: c ∧ c ≠ "atpps".toList)

instance (c : List Char) : Decidable (WritesEeprom c) := inferInstanceAs (Decidable (_ ∨ _))

/-- The command is spelled as the guard rewrites it: `A` and `T` side by side,
`S P` or `M 1` behind. -/
def Caught (c : List Char) : Prop :=
  ∃ a t s, guardSkipWs c = a :: t :: s ∧ a.toLower = 'a' ∧ t.toLower = 't' ∧
    ("sp".toList <+: chipReads s ∨ "m1".toList <+: chipReads s)

/-! ## What the scan does -/

/-- Two letters and what the guard makes of them. -/
inductive GuardPair : Char → Char → Char → Char → Prop
  | sp {l l' : Char} (h : l.toLower = 's') (h' : l'.toLower = 'p') : GuardPair l l' 'T' 'P'
  | m1 {l l' : Char} (h : l.toLower = 'm') (h' : l'.toLower = '1') : GuardPair l l' 'M' '0'

/-- **The scan as a judgement**: the text behind `prev` and what it becomes. -/
inductive GuardScanned : Option Char → List Char → List Char → Prop
  | short {prev : Option Char} {s : List Char} (h : s.length ≤ 1) : GuardScanned prev s s
  | ends {prev : Option Char} {b₀ b₁ : Char} {ws : List Char}
      (hws : ∀ c ∈ ws, guardWs c = true) : GuardScanned prev (b₀ :: b₁ :: ws) (b₀ :: b₁ :: ws)
  | other {prev : Option Char} {b₀ b₁ : Char} {s o : List Char}
      (h : guardBoundary prev = true → guardToken true b₀ b₁ s = .other)
      (hrest : GuardScanned (some b₀) (b₁ :: s) o) : GuardScanned prev (b₀ :: b₁ :: s) (b₀ :: o)
  | patch {prev : Option Char} {a t l l' p p' : Char} {ws ws' s o : List Char}
      (hprev : guardBoundary prev = true) (ha : a.toLower = 'a') (ht : t.toLower = 't')
      (hws : ∀ c ∈ ws, guardWs c = true) (hws' : ∀ c ∈ ws', guardWs c = true)
      (hpair : GuardPair l l' p p') (hrest : GuardScanned (some p') s o) :
      GuardScanned prev (a :: t :: (ws ++ l :: (ws' ++ l' :: s)))
        ('A' :: 'T' :: (ws ++ p :: (ws' ++ p' :: o)))
  | leave {prev : Option Char} {a t l l' l'' : Char} {ws ws' ws'' s o : List Char}
      (hprev : guardBoundary prev = true) (ha : a.toLower = 'a') (ht : t.toLower = 't')
      (hws : ∀ c ∈ ws, guardWs c = true) (hws' : ∀ c ∈ ws', guardWs c = true)
      (hws'' : ∀ c ∈ ws'', guardWs c = true) (hl : l.toLower = 'p') (hl' : l'.toLower = 'p')
      (hl'' : l''.toLower = 's') (hrest : GuardScanned (some l'') s o) :
      GuardScanned prev (a :: t :: (ws ++ l :: (ws' ++ l' :: (ws'' ++ l'' :: s))))
        (a :: t :: (ws ++ l :: (ws' ++ l' :: (ws'' ++ l'' :: o))))

theorem skipWs_cons {r : List Char} (h : guardSkipWs s = l :: r) :
    (∀ c ∈ s.takeWhile guardWs, guardWs c = true) ∧ guardWs l = false ∧
      s = s.takeWhile guardWs ++ l :: r := by
  refine ⟨fun c hc => mem_takeWhile_imp hc, ?_, ?_⟩
  · have hhead := List.head?_dropWhile_not guardWs s
    rw [guardSkipWs] at h
    rw [h] at hhead
    exact hhead
  · rw [← h]
    exact (takeWhile_append_dropWhile).symm

theorem skipWs_nil (h : guardSkipWs s = []) : ∀ c ∈ s, guardWs c = true := dropWhile_eq_nil_iff.1 h

theorem skipWs_append {ws : List Char} (hws : ∀ c ∈ ws, guardWs c = true) (hl : guardWs l = false)
    (r : List Char) : guardSkipWs (ws ++ l :: r) = l :: r := by
  rw [guardSkipWs, dropWhile_append_of_pos hws, dropWhile_cons_of_neg]
  rw [hl]
  exact Bool.false_ne_true

/-- What stands behind the two letters of a command. -/
inductive GuardFinds (b₀ b₁ : Char) : List Char → GuardToken → Prop
  | ends {s : List Char} (hs : ∀ c ∈ s, guardWs c = true) : GuardFinds b₀ b₁ s .ends
  | other {s : List Char} : GuardFinds b₀ b₁ s .other
  | refused {s : List Char} : GuardFinds b₀ b₁ s .refused
  | patch {ws ws' s : List Char} {l l' p p' : Char} (hws : ∀ c ∈ ws, guardWs c = true)
      (hws' : ∀ c ∈ ws', guardWs c = true) (hpair : GuardPair l l' p p') :
      GuardFinds b₀ b₁ (ws ++ l :: (ws' ++ l' :: s))
        (.patch ('A' :: 'T' :: (ws ++ p :: (ws' ++ [p']))) p' s)
  | leave {ws ws' ws'' s : List Char} {l l' l'' : Char} (hws : ∀ c ∈ ws, guardWs c = true)
      (hws' : ∀ c ∈ ws', guardWs c = true) (hws'' : ∀ c ∈ ws'', guardWs c = true)
      (hl : l.toLower = 'p') (hl' : l'.toLower = 'p') (hl'' : l''.toLower = 's') :
      GuardFinds b₀ b₁ (ws ++ l :: (ws' ++ l' :: (ws'' ++ l'' :: s)))
        (.leave (b₀ :: b₁ :: (ws ++ l :: (ws' ++ l' :: (ws'' ++ [l''])))) l'' s)

theorem guardAt_finds (b₀ b₁ : Char) (s : List Char) :
    GuardFinds b₀ b₁ s (guardAt true b₀ b₁ s) := by
  rw [guardAt]
  cases hs : guardSkipWs s with
  | nil => exact .ends (skipWs_nil hs)
  | cons l₁ s₁ =>
    obtain ⟨hws, -, heq⟩ := skipWs_cons hs
    dsimp only
    cases hs₁ : guardSkipWs s₁ with
    | nil => exact .other
    | cons l₂ s₂ =>
      obtain ⟨hws₁, -, heq₁⟩ := skipWs_cons hs₁
      dsimp only
      by_cases hsp : l₁.toLower = 's' ∧ l₂.toLower = 'p'
      · rw [if_pos hsp]
        have hfinds : GuardFinds b₀ b₁ (_ ++ l₁ :: (_ ++ l₂ :: s₂)) _ :=
          .patch hws hws₁ (.sp hsp.1 hsp.2)
        rwa [← heq₁, ← heq] at hfinds
      rw [if_neg hsp]
      by_cases hm1 : l₁.toLower = 'm' ∧ l₂.toLower = '1'
      · rw [if_pos hm1]
        have hfinds : GuardFinds b₀ b₁ (_ ++ l₁ :: (_ ++ l₂ :: s₂)) _ :=
          .patch hws hws₁ (.m1 hm1.1 hm1.2)
        rwa [← heq₁, ← heq] at hfinds
      rw [if_neg hm1]
      by_cases hpp : l₁.toLower = 'p' ∧ l₂.toLower = 'p'
      · rw [if_pos hpp]
        cases hs₂ : guardSkipWs s₂ with
        | nil => exact .refused
        | cons l₃ s₃ =>
          obtain ⟨hws₂, -, heq₂⟩ := skipWs_cons hs₂
          dsimp only
          by_cases hl₃ : l₃.toLower = 's'
          · rw [if_neg (not_not_intro hl₃)]
            have hfinds : GuardFinds b₀ b₁ (_ ++ l₁ :: (_ ++ l₂ :: (_ ++ l₃ :: s₃))) _ :=
              .leave hws hws₁ hws₂ hpp.1 hpp.2 hl₃
            rwa [← heq₂, ← heq₁, ← heq] at hfinds
          · rw [if_pos hl₃]
            exact .refused
      rw [if_neg hpp]
      split_ifs
      · exact .refused
      · exact .other

theorem guardSt_cases (s : List Char) :
    (guardSt s = .ends ∧ ∀ c ∈ s, guardWs c = true) ∨ guardSt s = .refused ∨
      guardSt s = .other := by
  rw [guardSt]
  cases hs : guardSkipWs s with
  | nil => exact .inl ⟨rfl, skipWs_nil hs⟩
  | cons l r =>
    dsimp only
    split_ifs
    · exact .inr (.inl rfl)
    · exact .inr (.inr rfl)

/-- **The scan** of a text that holds nothing refused. -/
theorem guardScan_scanned : ∀ (n : ℕ) (prev : Option Char) (s : List Char), s.length ≤ n →
    (guardScan true n prev s).1 ≠ .blocked → GuardScanned prev s (guardScan true n prev s).2 := by
  intro n
  induction n with
  | zero =>
    intro prev s hlen _
    exact .short (hlen.trans (Nat.zero_le 1))
  | succ n ih =>
    intro prev s hlen
    match s, hlen with
    | [], _ => exact fun _ => .short (Nat.zero_le 1)
    | [b], _ => exact fun _ => .short (Nat.le_refl 1)
    | b₀ :: b₁ :: s, hlen =>
      have hshort : (b₁ :: s).length ≤ n := Nat.le_of_succ_le_succ hlen
      rw [guardScan]
      by_cases hprev : guardBoundary prev = true
      · rw [if_pos hprev]
        rw [guardToken]
        by_cases hat : b₀.toLower = 'a' ∧ b₁.toLower = 't'
        · rw [if_pos hat]
          have hfinds := guardAt_finds b₀ b₁ s
          revert hfinds
          generalize hat' : guardAt true b₀ b₁ s = tok
          intro hfinds
          cases hfinds with
          | ends hs => exact fun _ => .ends hs
          | other =>
            exact fun hno => .other (fun _ => by rw [guardToken, if_pos hat, hat']) (ih _ _ hshort hno)
          | refused => exact fun hno => absurd rfl hno
          | @patch ws ws' r l l' p p' hws hws' hpair =>
            intro hno
            have hrest : r.length ≤ n := by
              simp only [length_cons, length_append] at hlen
              omega
            have hscan := ih (some p') r hrest fun hblocked => hno (if_pos hblocked)
            have hall := GuardScanned.patch hprev hat.1 hat.2 hws hws' hpair hscan
            simpa only [cons_append, append_assoc, nil_append] using hall
          | @leave ws ws' ws'' r l l' l'' hws hws' hws'' hl hl' hl'' =>
            intro hno
            have hrest : r.length ≤ n := by
              simp only [length_cons, length_append] at hlen
              omega
            have hall := GuardScanned.leave hprev hat.1 hat.2 hws hws' hws'' hl hl' hl''
              (ih _ r hrest hno)
            simpa only [cons_append, append_assoc, nil_append] using hall
        rw [if_neg hat]
        by_cases hst : b₀.toLower = 's' ∧ b₁.toLower = 't'
        · rw [if_pos hst]
          rcases guardSt_cases s with ⟨hst', hs⟩ | hst' | hst'
          all_goals rw [hst']
          · exact fun _ => .ends hs
          · exact fun hno => absurd rfl hno
          · exact fun hno => .other (fun _ => by rw [guardToken, if_neg hat, if_pos hst, hst'])
              (ih _ _ hshort hno)
        · rw [if_neg hst]
          exact fun hno => .other (fun _ => by rw [guardToken, if_neg hat, if_neg hst])
            (ih _ _ hshort hno)
      · rw [if_neg hprev]
        exact fun hno => .other (fun hyes => absurd hyes hprev) (ih _ _ hshort hno)

end Meatpi
