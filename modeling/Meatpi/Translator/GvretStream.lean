import Mathlib.Data.Nat.Bitwise
import Meatpi.Translator.Gvret

/-!
# GVRET commands one after another

Every command, with all of its arguments and whatever these are, leaves the parser
idle (`foldl_gvretByte_command`), so the next one starts where it should: frames go
to the bus and queries are answered in the order of the commands.
-/

namespace Meatpi

open List Nat UInt8

variable {pre : List UInt8} {dlc : UInt8}

/-! ## Commands -/

/-- The arguments are all there: those of a frame are as many as its length says. -/
def GvretWhole (cmd : UInt8) (args : List UInt8) : Prop :=
  args.length =
    if cmd = 0 ∨ cmd = 11 then 7 + (gvretDlc (args.getD 5 0)).toNat
    else if cmd = 5 then 8
    else if cmd = 4 ∨ cmd = 8 ∨ cmd = 10 then 1
    else if cmd = 14 then 12
    else 0

/-- A command with its arguments. -/
structure GvretCommand where
  cmd : UInt8
  args : List UInt8
  whole : GvretWhole cmd args

namespace GvretCommand

/-- A command as the client sends it. -/
def bytes (c : GvretCommand) : List UInt8 := 0xF1 :: c.cmd :: c.args

/-- The frame in a command's arguments: four bytes of identifier, whose top bit says
that it is an extended one, the bus, the length and the data. -/
def frame (c : GvretCommand) : CanFrame :=
  .of (UInt32.ofNat (ofLeBytes (c.args.take 4) % 2 ^ 31))
    (decide (2 ^ 31 ≤ ofLeBytes (c.args.take 4))) false (gvretDlc (c.args.getD 5 0)) 0
    ((c.args.drop 6).take (gvretDlc (c.args.getD 5 0)).toNat)

/-- What a command sends to the bus. -/
def sends (c : GvretCommand) : Option (List UInt8) :=
  if c.cmd = 0 then some (canWireEncode c.frame) else none

end GvretCommand

theorem gvretReplyTo_isSome (ts : UInt32) (cmd : UInt8) :
    (gvretReplyTo ts cmd).isSome = true ↔ cmd ∈ ([1, 2, 3, 6, 7, 9, 12, 13] : List UInt8) := by
  rw [gvretReplyTo]
  split_ifs <;> simp_all

/-- A sink and a reply channel that accept everything, with a log for each. -/
structure GvretRecords {σ : Type} (env : GvretEnv σ) (sent replied : σ → List (List UInt8)) :
    Prop where
  sink : SinkRecords env.sink sent
  sinkKeeps : ∀ s chunk, replied (env.sink s chunk).1 = replied s
  reply : ∃ reply, env.reply = some reply ∧ SinkRecords reply replied ∧
    ∀ s chunk, sent (reply s chunk).1 = sent s

theorem gvretDlc_le (b : UInt8) : gvretDlc b ≤ 8 := by
  rw [gvretDlc]
  split_ifs with h
  · exact Std.le_refl 8
  · exact UInt8.not_lt.1 h

/-! ## A frame put together -/

theorem or_shiftLeft {x : ℕ} (b : ℕ) {k : ℕ} (h : x < 2 ^ k) : x ||| b <<< k = b * 2 ^ k + x := by
  rw [Nat.or_comm, ← shiftLeft_add_eq_or_of_lt h, shiftLeft_eq]

theorem gvretId_eq (b₀ b₁ b₂ b₃ : UInt8) :
    (((b₀.toUInt32 ||| b₁.toUInt32 <<< 8) ||| b₂.toUInt32 <<< 16) ||| b₃.toUInt32 <<< 24).toNat =
      ofLeBytes [b₀, b₁, b₂, b₃] := by
  have h₀ : b₀.toNat < 256 := b₀.toNat_lt
  have h₁ : b₁.toNat < 256 := b₁.toNat_lt
  have h₂ : b₂.toNat < 256 := b₂.toNat_lt
  -- no byte is shifted out at the top
  have hshift : ∀ (b : UInt8) {k : ℕ}, k ≤ 24 → b.toNat <<< (k % 32) % 2 ^ 32 = b.toNat <<< k := by
    intro b k hk
    have hb : b.toNat < 256 := b.toNat_lt
    rw [mod_eq_of_lt (by omega : k < 32), mod_eq_of_lt]
    rw [shiftLeft_eq]
    calc b.toNat * 2 ^ k < 2 ^ 8 * 2 ^ k := Nat.mul_lt_mul_of_pos_right hb (Nat.two_pow_pos k)
      _ ≤ 2 ^ 8 * 2 ^ 24 := Nat.mul_le_mul_left _ (Nat.pow_le_pow_right (by decide) hk)
      _ = 2 ^ 32 := rfl
  have hsum : ofLeBytes [b₀, b₁, b₂, b₃] =
      b₀.toNat + 256 * (b₁.toNat + 256 * (b₂.toNat + 256 * (b₃.toNat + 256 * 0))) := rfl
  rw [UInt32.toNat_or, UInt32.toNat_or, UInt32.toNat_or, UInt32.toNat_shiftLeft,
    UInt32.toNat_shiftLeft, UInt32.toNat_shiftLeft]
  simp only [toNat_toUInt32]
  have k8 : (8 : UInt32).toNat = 8 := rfl
  have k16 : (16 : UInt32).toNat = 16 := rfl
  have k24 : (24 : UInt32).toNat = 24 := rfl
  rw [k8, k16, k24, hshift b₁ (by omega), hshift b₂ (by omega), hshift b₃ (by omega),
    or_shiftLeft b₁.toNat (show b₀.toNat < 2 ^ 8 by omega),
    or_shiftLeft b₂.toNat (show b₁.toNat * 2 ^ 8 + b₀.toNat < 2 ^ 16 by omega),
    or_shiftLeft b₃.toNat
      (show b₂.toNat * 2 ^ 16 + (b₁.toNat * 2 ^ 8 + b₀.toNat) < 2 ^ 24 by omega)]
  omega

theorem gvretId_low (x : UInt32) : x &&& 0x7FFFFFFF = UInt32.ofNat (x.toNat % 2 ^ 31) := by
  refine UInt32.toNat_inj.1 ?_
  have hmask : (0x7FFFFFFF : UInt32).toNat = 2 ^ 31 - 1 := rfl
  rw [UInt32.toNat_and, hmask, and_two_pow_sub_one_eq_mod, UInt32.toNat_ofNat_of_lt']
  exact Nat.lt_of_lt_of_le (mod_lt _ (Nat.two_pow_pos 31)) (by decide)

theorem gvretId_top (x : UInt32) : x &&& 0x80000000 ≠ 0 ↔ 2 ^ 31 ≤ x.toNat := by
  have hx : x.toNat < 2 ^ 32 := x.toNat_lt
  have hmask : (0x80000000 : UInt32).toNat = 2 ^ 31 := rfl
  rw [Ne, ← UInt32.toNat_inj, UInt32.toNat_and, hmask, and_two_pow, testBit_eq_decide_div_mod_eq]
  by_cases htop : 2 ^ 31 ≤ x.toNat
  · have hbit : x.toNat / 2 ^ 31 % 2 = 1 := by omega
    rw [decide_eq_true hbit]
    exact iff_of_true (by decide) htop
  · have hbit : ¬ x.toNat / 2 ^ 31 % 2 = 1 := by omega
    rw [decide_eq_false hbit]
    exact iff_of_false (fun h => h rfl) htop

theorem set_canData (b : UInt8) (h : pre.length < 8) :
    (canData pre).set pre.length b = canData (pre ++ [b]) := by
  have hleft : canData pre = pre ++ List.replicate (8 - pre.length) 0 := by
    rw [canData, take_append, take_of_length_le (by omega), take_replicate,
      Nat.min_eq_left (by omega)]
  have hright : canData (pre ++ [b]) = pre ++ b :: List.replicate (7 - pre.length) 0 := by
    have hlen : (pre ++ [b]).length = pre.length + 1 := by
      rw [length_append, length_singleton]
    have hmin : min (8 - (pre.length + 1)) 8 = 7 - pre.length := by omega
    rw [canData, take_append, take_of_length_le (by omega), take_replicate, hlen,
      hmin, append_assoc, singleton_append]
  obtain ⟨n, hn⟩ := Nat.exists_eq_add_of_le' (show 1 ≤ 8 - pre.length by omega)
  have hn' : 7 - pre.length = n := by omega
  rw [hleft, hright, hn, hn', replicate_succ, set_append_right _ _ (Nat.le_refl _),
    Nat.sub_self, set_cons_zero]

theorem gvretBuildData_of {id : UInt32} {ext rtr : Bool} {ts : UInt32} (b : UInt8)
    (h : pre.length < 8) :
    gvretBuildData (.of id ext rtr dlc ts pre) pre.length b =
      .of id ext rtr dlc ts (pre ++ [b]) := by
  rw [gvretBuildData]
  simp only [CanFrame.of, set_canData b h]

section Records

variable {σ : Type} {env : GvretEnv σ} {c : GvretCtx} {s : σ}

theorem foldl_gvretByte_header (env : GvretEnv σ) (c : GvretCtx) (s : σ) (b₀ b₁ b₂ b₃ bus d : UInt8) :
    ([b₀, b₁, b₂, b₃, bus, d].foldl (fun t b => (gvretByte env t b).1)
      ({ c with state := .build, step := 0, frame := .zero }, s)) =
    ({ c with
        state := .build, step := 6
        frame := .of (UInt32.ofNat (ofLeBytes [b₀, b₁, b₂, b₃] % 2 ^ 31))
          (decide (2 ^ 31 ≤ ofLeBytes [b₀, b₁, b₂, b₃])) false (gvretDlc d) 0 [] }, s) := by
  rw [← gvretId_eq, ← gvretId_low, ← decide_eq_decide.2 (gvretId_top _)]
  rfl

theorem foldl_gvretByte_data (env : GvretEnv σ) (c : GvretCtx) (s : σ) (id : UInt32)
    (ext : Bool) (hdlc : dlc ≤ 8) :
    ∀ {rest pre : List UInt8}, pre.length + rest.length = dlc.toNat →
      rest.foldl (fun t b => (gvretByte env t b).1)
        ({ c with
            state := .build, step := pre.length + 6
            frame := .of id ext false dlc 0 pre }, s) =
      ({ c with
          state := .build, step := dlc.toNat + 6
          frame := .of id ext false dlc 0 (pre ++ rest) }, s) := by
  have hle : dlc.toNat ≤ 8 := le_iff_toNat_le.1 hdlc
  intro rest
  induction rest with
  | nil =>
    intro pre hlen
    rw [length_nil, Nat.add_zero] at hlen
    rw [append_nil, foldl_nil, hlen]
  | cons b rest ih =>
    intro pre hlen
    rw [length_cons] at hlen
    have hnext := @ih (pre ++ [b]) (by
      rw [length_append, length_singleton]
      omega)
    rw [append_assoc, singleton_append] at hnext
    rw [foldl_cons, ← hnext]
    congr 1
    rw [gvretByte]
    dsimp only
    have hroom : pre.length + 6 < (CanFrame.of id ext false dlc 0 pre).dlc.toNat + 6 := by
      have hsame : (CanFrame.of id ext false dlc 0 pre).dlc = dlc := rfl
      rw [hsame]
      omega
    rw [if_neg (by omega), if_pos hroom]
    rw [length_append, length_singleton, Nat.add_sub_cancel, gvretBuildData_of b (by omega)]

theorem gvretByte_checksum {sent replied : σ → List (List UInt8)}
    (h : GvretRecords env sent replied) (c : GvretCtx) (s : σ) (frame : CanFrame) (chk : UInt8) :
    (gvretByte env ({ c with state := .build, step := frame.dlc.toNat + 6, frame := frame }, s)
      chk).1 =
    ({ c with state := .idle, step := frame.dlc.toNat + 7, frame := frame },
      (env.sink s (canWireEncode frame)).1) := by
  rw [gvretByte]
  dsimp only
  rw [if_neg (by omega), if_neg (Nat.lt_irrefl _), if_neg (not_not.2 (h.sink.accepts _ _))]

/-- The parser counts bytes down without looking at them. -/
def GvretCtx.Swallows (c : GvretCtx) : Prop :=
  c.state = .absorb ∨ c.state = .echo ∧ 5 < c.step

theorem gvretByte_swallows (env : GvretEnv σ) (s : σ) (h : c.Swallows) (b : UInt8) :
    ∃ c', (gvretByte env (c, s) b).1 = (c', s) ∧ c'.ts = c.ts ∧ c'.absorbLeft = c.absorbLeft - 1 ∧
      if c.absorbLeft - 1 = 0 then c'.state = .idle else c'.Swallows := by
  rw [gvretByte]
  rcases h with hstate | ⟨hstate, hstep⟩
  · rw [hstate]
    refine ⟨_, rfl, rfl, rfl, ?_⟩
    split_ifs
    · rfl
    · exact .inl rfl
  · rw [hstate]
    dsimp only
    rw [if_neg (by omega), if_pos hstep]
    refine ⟨_, rfl, rfl, rfl, ?_⟩
    split_ifs
    · rfl
    · exact .inr ⟨rfl, lt_succ_of_lt hstep⟩

theorem foldl_gvretByte_swallows (env : GvretEnv σ) (s : σ) (rest : List UInt8) {c : GvretCtx}
    (hswallows : c.Swallows) (hpos : 0 < rest.length) (hlen : rest.length = c.absorbLeft.toNat) :
    ∃ c', c'.state = .idle ∧ c'.ts = c.ts ∧
      rest.foldl (fun t b => (gvretByte env t b).1) (c, s) = (c', s) := by
  induction rest generalizing c with
  | nil =>
    exact absurd hpos (Nat.lt_irrefl 0)
  | cons b rest ih =>
    rw [length_cons] at hlen
    have hpred : (c.absorbLeft - 1).toNat = rest.length := by
      rw [UInt8.toNat_sub_of_le _ _ (le_iff_toNat_le.2 (by
        rw [← hlen]
        exact succ_le_succ (Nat.zero_le _))), ← hlen]
      rfl
    obtain ⟨c', hbyte, hts, hleft, hnext⟩ := gvretByte_swallows env s hswallows b
    rw [foldl_cons, hbyte]
    cases rest with
    | nil =>
      rw [if_pos (UInt8.toNat_inj.1 hpred)] at hnext
      exact ⟨c', hnext, hts, rfl⟩
    | cons b' rest =>
      have hmore : c.absorbLeft - 1 ≠ 0 := by
        intro hzero
        rw [hzero] at hpred
        cases hpred
      rw [if_neg hmore] at hnext
      obtain ⟨c'', hidle, hts', hrest⟩ := ih hnext (succ_pos _) (by rw [hleft, hpred])
      exact ⟨c'', hidle, hts'.trans hts, hrest⟩

/-! ## A whole command -/

/-- What a command leaves: the parser idle, its frame sent, its query answered. -/
def GvretCommand.Done (cmd : GvretCommand) (sent replied : σ → List (List UInt8))
    (t u : GvretCtx × σ) : Prop :=
  (u.1.state = .idle ∧ u.1.ts = t.1.ts) ∧ sent u.2 = sent t.2 ++ cmd.sends.toList ∧
    replied u.2 = replied t.2 ++ (gvretReplyTo t.1.ts cmd.cmd).toList

theorem GvretCommand.done_of_silent {cmd : GvretCommand} {sent replied : σ → List (List UInt8)}
    {c' : GvretCtx} (hsends : cmd.sends = none) (hreply : gvretReplyTo c.ts cmd.cmd = none)
    (hidle : c'.state = .idle) (hts : c'.ts = c.ts) : cmd.Done sent replied (c, s) (c', s) := by
  refine ⟨⟨hidle, hts⟩, ?_, ?_⟩
  · rw [hsends]
    exact (append_nil _).symm
  · rw [hreply]
    exact (append_nil _).symm

omit c s in
theorem exists_six {args : List UInt8} (h : 6 ≤ args.length) :
    ∃ b₀ b₁ b₂ b₃ b₄ b₅ rest, args = b₀ :: b₁ :: b₂ :: b₃ :: b₄ :: b₅ :: rest := by
  obtain ⟨b₀, as₀, rfl⟩ := exists_cons_of_length_pos (l := args) (by omega)
  rw [length_cons] at h
  obtain ⟨b₁, as₁, rfl⟩ := exists_cons_of_length_pos (l := as₀) (by omega)
  rw [length_cons] at h
  obtain ⟨b₂, as₂, rfl⟩ := exists_cons_of_length_pos (l := as₁) (by omega)
  rw [length_cons] at h
  obtain ⟨b₃, as₃, rfl⟩ := exists_cons_of_length_pos (l := as₂) (by omega)
  rw [length_cons] at h
  obtain ⟨b₄, as₄, rfl⟩ := exists_cons_of_length_pos (l := as₃) (by omega)
  rw [length_cons] at h
  obtain ⟨b₅, as₅, rfl⟩ := exists_cons_of_length_pos (l := as₄) (by omega)
  exact ⟨b₀, b₁, b₂, b₃, b₄, b₅, as₅, rfl⟩

theorem foldl_gvretByte_build {sent replied : σ → List (List UInt8)}
    (h : GvretRecords env sent replied) {cmd : GvretCommand} (hcmd : cmd.cmd = 0) :
    cmd.Done sent replied (c, s) (cmd.args.foldl (fun t b => (gvretByte env t b).1)
      ({ c with state := .build, step := 0, frame := .zero }, s)) := by
  obtain ⟨code, args, hwhole⟩ := cmd
  obtain rfl : code = 0 := hcmd
  have hwhole' := hwhole
  rw [GvretWhole, if_pos (.inl rfl)] at hwhole
  obtain ⟨b₀, b₁, b₂, b₃, bus, d, rest, rfl⟩ := exists_six (show 6 ≤ args.length by omega)
  have hd : (b₀ :: b₁ :: b₂ :: b₃ :: bus :: d :: rest).getD 5 0 = d := rfl
  rw [hd] at hwhole
  simp only [length_cons] at hwhole
  -- the data, and the checksum behind it
  rcases eq_nil_or_concat rest with rfl | ⟨data, chk, hrest⟩
  · rw [length_nil] at hwhole
    omega
  rw [concat_eq_append] at hrest
  subst hrest
  rw [length_append, length_singleton] at hwhole
  have hdata : data.length = (gvretDlc d).toNat := by omega
  have hheader := foldl_gvretByte_header env c s b₀ b₁ b₂ b₃ bus d
  generalize hid : UInt32.ofNat (ofLeBytes [b₀, b₁, b₂, b₃] % 2 ^ 31) = id at hheader
  generalize hext : decide (2 ^ 31 ≤ ofLeBytes [b₀, b₁, b₂, b₃]) = ext at hheader
  have hbytes := foldl_gvretByte_data env c s id ext (gvretDlc_le d)
    (show ([] : List UInt8).length + data.length = (gvretDlc d).toNat by
      rw [length_nil, Nat.zero_add, hdata])
  rw [length_nil] at hbytes
  have hchk := gvretByte_checksum h c s (.of id ext false (gvretDlc d) 0 data) chk
  have hframe : GvretCommand.frame
      ⟨0, b₀ :: b₁ :: b₂ :: b₃ :: bus :: d :: (data ++ [chk]), hwhole'⟩ =
      .of id ext false (gvretDlc d) 0 data := by
    rw [← hid, ← hext]
    exact congrArg (CanFrame.of _ _ false (gvretDlc d) 0) (take_left' hdata)
  have hsteps : (b₀ :: b₁ :: b₂ :: b₃ :: bus :: d :: (data ++ [chk])).foldl
      (fun t b => (gvretByte env t b).1) ({ c with state := .build, step := 0, frame := .zero }, s) =
      ({ c with
          state := .idle, step := (gvretDlc d).toNat + 7
          frame := .of id ext false (gvretDlc d) 0 data },
        (env.sink s (canWireEncode (.of id ext false (gvretDlc d) 0 data))).1) := by
    have hargs : b₀ :: b₁ :: b₂ :: b₃ :: bus :: d :: (data ++ [chk]) =
        [b₀, b₁, b₂, b₃, bus, d] ++ (data ++ [chk]) := rfl
    rw [hargs, foldl_append, hheader, foldl_append, hbytes]
    exact hchk
  rw [hsteps]
  refine ⟨⟨rfl, rfl⟩, ?_, ?_⟩
  · rw [GvretCommand.sends, hframe]
    exact h.sink.logs s _
  · exact (h.sinkKeeps s _).trans (append_nil _).symm

theorem foldl_gvretByte_echo {sent replied : σ → List (List UInt8)} {cmd : GvretCommand}
    (hcmd : cmd.cmd = 11) :
    cmd.Done sent replied (c, s) (cmd.args.foldl (fun t b => (gvretByte env t b).1)
      ({ c with state := .echo, step := 0 }, s)) := by
  obtain ⟨code, args, hwhole⟩ := cmd
  obtain rfl : code = 11 := hcmd
  have hlen := hwhole
  rw [GvretWhole, if_pos (.inr rfl)] at hlen
  obtain ⟨b₀, b₁, b₂, b₃, bus, d, rest, rfl⟩ := exists_six (show 6 ≤ args.length by omega)
  have hd : (b₀ :: b₁ :: b₂ :: b₃ :: bus :: d :: rest).getD 5 0 = d := rfl
  rw [hd] at hlen
  simp only [length_cons] at hlen
  have hleft : (gvretDlc d + 1).toNat = (gvretDlc d).toNat + 1 := by
    have hle : (gvretDlc d).toNat ≤ 8 := le_iff_toNat_le.1 (gvretDlc_le d)
    exact mod_eq_of_lt (show (gvretDlc d).toNat + 1 < 256 by omega)
  obtain ⟨c', hidle, hts, hrest⟩ := foldl_gvretByte_swallows env s rest
    (show GvretCtx.Swallows { c with state := .echo, step := 6, absorbLeft := gvretDlc d + 1 } from
      .inr ⟨rfl, lt_succ_self 5⟩) (by omega) (by rw [hleft]; omega)
  have hsteps : (b₀ :: b₁ :: b₂ :: b₃ :: bus :: d :: rest).foldl
      (fun t b => (gvretByte env t b).1) ({ c with state := .echo, step := 0 }, s) = (c', s) := hrest
  rw [hsteps]
  exact GvretCommand.done_of_silent rfl rfl hidle hts

theorem foldl_gvretByte_absorb {sent replied : σ → List (List UInt8)} {cmd : GvretCommand}
    {n : UInt8} (hn : 0 < n) (hlen : cmd.args.length = n.toNat) (hsends : cmd.sends = none)
    (hreply : gvretReplyTo c.ts cmd.cmd = none) :
    cmd.Done sent replied (c, s) (cmd.args.foldl (fun t b => (gvretByte env t b).1)
      ({ c with state := .absorb, absorbLeft := n }, s)) := by
  have hpos : 0 < cmd.args.length := by
    rw [hlen]
    exact lt_iff_toNat_lt.1 hn
  obtain ⟨c', hidle, hts, hrest⟩ := foldl_gvretByte_swallows env s cmd.args
    (show GvretCtx.Swallows { c with state := .absorb, absorbLeft := n } from .inl rfl) hpos hlen
  rw [hrest]
  exact GvretCommand.done_of_silent hsends hreply hidle hts

theorem foldl_gvretByte_setup {sent replied : σ → List (List UInt8)} {cmd : GvretCommand}
    (hcmd : cmd.cmd = 5) :
    cmd.Done sent replied (c, s) (cmd.args.foldl (fun t b => (gvretByte env t b).1)
      ({ c with state := .setupCanbus, step := 0 }, s)) := by
  obtain ⟨code, args, hwhole⟩ := cmd
  obtain rfl : code = 5 := hcmd
  have hlen := hwhole
  rw [GvretWhole, if_neg (by decide), if_pos rfl] at hlen
  obtain ⟨b₀, b₁, b₂, b₃, b₄, b₅, rest, rfl⟩ := exists_six (show 6 ≤ args.length by omega)
  obtain ⟨b₆, b₇, rfl⟩ := length_eq_two.1 (show rest.length = 2 by
    simp only [length_cons] at hlen
    omega)
  have hsteps : (b₀ :: b₁ :: b₂ :: b₃ :: b₄ :: b₅ :: [b₆, b₇]).foldl
      (fun t b => (gvretByte env t b).1) ({ c with state := .setupCanbus, step := 0 }, s) =
      ({ c with state := .idle, step := 8 }, s) := rfl
  rw [hsteps]
  exact GvretCommand.done_of_silent rfl rfl rfl rfl

theorem gvretReply_done {sent replied : σ → List (List UInt8)} (h : GvretRecords env sent replied)
    {cmd : GvretCommand} (hsends : cmd.sends = none) :
    cmd.Done sent replied (c, s) ({ c with state := .idle },
      ((gvretReplyTo c.ts cmd.cmd).elim (s, none) (gvretReply env s)).1) := by
  obtain ⟨reply, henv, hrecords, hkeeps⟩ := h.reply
  cases hreply : gvretReplyTo c.ts cmd.cmd with
  | none => exact GvretCommand.done_of_silent hsends hreply rfl rfl
  | some bytes =>
    have hcall : (gvretReply env s bytes).1 = (reply s bytes).1 := by
      rw [gvretReply, henv]
      rfl
    refine ⟨⟨rfl, rfl⟩, ?_, ?_⟩
    · rw [hsends]
      exact (congrArg sent hcall).trans ((hkeeps s bytes).trans (append_nil _).symm)
    · rw [hreply]
      exact (congrArg replied hcall).trans (hrecords.logs s bytes)

/-- **Every command leaves the parser idle**, its frame on the bus, its query answered. -/
theorem foldl_gvretByte_command {sent replied : σ → List (List UInt8)}
    (h : GvretRecords env sent replied) (cmd : GvretCommand) (hidle : c.state = .idle) :
    cmd.Done sent replied (c, s) (cmd.bytes.foldl (fun t b => (gvretByte env t b).1) (c, s)) := by
  have hstart : (gvretByte env (c, s) 0xF1).1 = ({ c with state := .cmd }, s) := by
    rw [gvretByte]
    rw [hidle]
    rfl
  have hwhole := cmd.whole
  rw [GvretCommand.bytes, foldl_cons, foldl_cons, hstart, gvretByte]
  dsimp only
  rw [GvretWhole] at hwhole
  rw [gvretHandleCommand]
  by_cases hbuild : cmd.cmd = 0
  · rw [if_pos hbuild]
    exact foldl_gvretByte_build h hbuild
  · have hsends : cmd.sends = none := if_neg hbuild
    rw [if_neg hbuild]
    by_cases hsetup : cmd.cmd = 5
    · rw [if_pos hsetup]
      exact foldl_gvretByte_setup hsetup
    · rw [if_neg hsetup]
      by_cases hecho : cmd.cmd = 11
      · rw [if_pos hecho]
        exact foldl_gvretByte_echo hecho
      · rw [if_neg (not_or.2 ⟨hbuild, hecho⟩), if_neg hsetup] at hwhole
        rw [if_neg hecho]
        by_cases hone : cmd.cmd = 4 ∨ cmd.cmd = 8 ∨ cmd.cmd = 10
        · rw [if_pos hone] at hwhole ⊢
          refine foldl_gvretByte_absorb (by decide) hwhole hsends ?_
          rcases hone with hcmd | hcmd | hcmd <;> rw [hcmd] <;> rfl
        · rw [if_neg hone] at hwhole ⊢
          by_cases hext : cmd.cmd = 14
          · rw [if_pos hext] at hwhole ⊢
            refine foldl_gvretByte_absorb (by decide) hwhole hsends ?_
            rw [hext]
            rfl
          · rw [if_neg hext] at hwhole ⊢
            rw [eq_nil_of_length_eq_zero hwhole]
            exact gvretReply_done h hsends

theorem foldl_gvretByte_noise {noise : List UInt8} (hnoise : (0xF1 : UInt8) ∉ noise)
    (hidle : c.state = .idle) : noise.foldl (fun t b => (gvretByte env t b).1) (c, s) = (c, s) := by
  induction noise with
  | nil => rfl
  | cons b noise ih =>
    rw [mem_cons, not_or] at hnoise
    have hbyte : (gvretByte env (c, s) b).1 = (c, s) := by
      rw [gvretByte]
      rw [hidle]
      rw [if_neg fun hb => hnoise.1 hb.symm]
    rw [foldl_cons, hbyte]
    exact ih hnoise.2

theorem gvretByte_accepts {sent replied : σ → List (List UInt8)} (h : GvretRecords env sent replied)
    (t : GvretCtx × σ) (b : UInt8) : (gvretByte env t b).2 = none := by
  obtain ⟨reply, henv, hrecords, -⟩ := h.reply
  obtain ⟨c, s⟩ := t
  rw [gvretByte]
  cases c.state with
  | idle => rfl
  | cmd =>
    dsimp only
    rw [gvretHandleCommand]
    split_ifs
    · rfl
    · rfl
    · rfl
    · rfl
    · rfl
    · cases gvretReplyTo c.ts b with
      | none => rfl
      | some bytes =>
        rw [Option.elim_some, gvretReply, henv]
        exact hrecords.accepts s bytes
  | build =>
    dsimp only
    split_ifs with hheader hdata hsent
    · rfl
    · rfl
    · exact h.sink.accepts _ _
    · rfl
  | setupCanbus => rfl
  | echo =>
    dsimp only
    split_ifs <;> rfl
  | absorb => rfl

/-- **The command stream is followed exactly.** However it is cut into calls, the
frames sent are those of the commands that build one, in order, and each query gets
its reply, in order; what stands between the commands does nothing. -/
theorem gvretEncodes_commands {sent replied : σ → List (List UInt8)}
    (h : GvretRecords env sent replied) (hidle : c.state = .idle)
    (items : List (List UInt8 × GvretCommand)) (last : List UInt8)
    (hnoise : ∀ item ∈ items, (0xF1 : UInt8) ∉ item.1) (hlast : (0xF1 : UInt8) ∉ last)
    (calls : List (List UInt8))
    (hcalls : calls.flatten = (items.flatMap fun item => item.1 ++ item.2.bytes) ++ last) :
    (gvretEncodes env (c, s) calls).1.state = .idle ∧ sent (gvretEncodes env (c, s) calls).2 =
        sent s ++ items.filterMap (fun item => item.2.sends) ∧
      replied (gvretEncodes env (c, s) calls).2 =
        replied s ++ items.filterMap (fun item => gvretReplyTo c.ts item.2.cmd) ∧
      ∀ cmd, (gvretReplyTo c.ts cmd).isSome = true ↔
        cmd ∈ ([1, 2, 3, 6, 7, 9, 12, 13] : List UInt8) := by
  have hitem : ∀ item ∈ items, ∀ t : GvretCtx × σ, t.1.state = .idle ∧ t.1.ts = c.ts →
      item.2.Done sent replied t ((item.1 ++ item.2.bytes).foldl
        (fun t b => (gvretByte env t b).1) t) := by
    rintro item hmem ⟨c', s'⟩ ⟨hidle', -⟩
    rw [foldl_append, foldl_gvretByte_noise (hnoise item hmem) hidle']
    exact foldl_gvretByte_command h item.2 hidle'
  have hsends : ∀ item ∈ items, ∀ t : GvretCtx × σ, t.1.state = .idle ∧ t.1.ts = c.ts →
      ((((item.1 ++ item.2.bytes).foldl (fun t b => (gvretByte env t b).1) t).1.state = .idle ∧
        ((item.1 ++ item.2.bytes).foldl (fun t b => (gvretByte env t b).1) t).1.ts = c.ts) ∧
        sent ((item.1 ++ item.2.bytes).foldl (fun t b => (gvretByte env t b).1) t).2 =
          sent t.2 ++ item.2.sends.toList) := by
    intro item hmem t ht
    obtain ⟨⟨hstate, hts⟩, hlog, -⟩ := hitem item hmem t ht
    exact ⟨⟨hstate, hts.trans ht.2⟩, hlog⟩
  have hreplies : ∀ item ∈ items, ∀ t : GvretCtx × σ, t.1.state = .idle ∧ t.1.ts = c.ts →
      ((((item.1 ++ item.2.bytes).foldl (fun t b => (gvretByte env t b).1) t).1.state = .idle ∧
        ((item.1 ++ item.2.bytes).foldl (fun t b => (gvretByte env t b).1) t).1.ts = c.ts) ∧
        replied ((item.1 ++ item.2.bytes).foldl (fun t b => (gvretByte env t b).1) t).2 =
          replied t.2 ++ (gvretReplyTo c.ts item.2.cmd).toList) := by
    intro item hmem t ht
    obtain ⟨⟨hstate, hts⟩, -, hlog⟩ := hitem item hmem t ht
    rw [ht.2] at hlog hts
    exact ⟨⟨hstate, hts⟩, hlog⟩
  obtain ⟨hrest, hsent⟩ := foldl_tokens (fun t => t.1.state = .idle ∧ t.1.ts = c.ts)
    (fun t => sent t.2) hsends (c, s) ⟨hidle, rfl⟩
  obtain ⟨-, hreplied⟩ := foldl_tokens (fun t => t.1.state = .idle ∧ t.1.ts = c.ts)
    (fun t => replied t.2) hreplies (c, s) ⟨hidle, rfl⟩
  rw [gvretEncodes, feeds_eq_foldl (gvretByte_accepts h), hcalls, foldl_append]
  generalize (items.flatMap fun item => item.1 ++ item.2.bytes).foldl
    (fun t b => (gvretByte env t b).1) (c, s) = t at hrest hsent hreplied
  rw [foldl_gvretByte_noise hlast hrest.1, filterMap_eq_flatMap_toList, filterMap_eq_flatMap_toList]
  exact ⟨hrest.1, hsent, hreplied, gvretReplyTo_isSome c.ts⟩

end Records

/-- Two logs, of what is sent and what is replied. -/
def gvretLogEnv : GvretEnv (List (List UInt8) × List (List UInt8)) where
  sink := fun s chunk => ((s.1 ++ [chunk], s.2), none)
  reply := some fun s chunk => ((s.1, s.2 ++ [chunk]), none)

/-- A frame with 0xF1 in it, noise, and a query, in two calls. -/
theorem gvretEncodes_commands_sample :
    (gvretEncodes gvretLogEnv (GvretCtx.fresh, ([], []))
        [[0xE7, 0xF1, 0, 0xF1, 1, 0, 0], [0, 0x91, 0xF1, 0, 0xF1, 12]]).1.state = .idle ∧
      (gvretEncodes gvretLogEnv (GvretCtx.fresh, ([], []))
        [[0xE7, 0xF1, 0, 0xF1, 1, 0, 0], [0, 0x91, 0xF1, 0, 0xF1, 12]]).2.1 =
        [] ++ [(([0xE7] : List UInt8), GvretCommand.mk 0 [0xF1, 1, 0, 0, 0, 0x91, 0xF1, 0] rfl),
          ([], GvretCommand.mk 12 [] rfl)].filterMap (fun item => item.2.sends) ∧
      (gvretEncodes gvretLogEnv (GvretCtx.fresh, ([], []))
        [[0xE7, 0xF1, 0, 0xF1, 1, 0, 0], [0, 0x91, 0xF1, 0, 0xF1, 12]]).2.2 =
        [] ++ [(([0xE7] : List UInt8), GvretCommand.mk 0 [0xF1, 1, 0, 0, 0, 0x91, 0xF1, 0] rfl),
          ([], GvretCommand.mk 12 [] rfl)].filterMap (fun item => gvretReplyTo 0 item.2.cmd) ∧
      ∀ cmd, (gvretReplyTo 0 cmd).isSome = true ↔
        cmd ∈ ([1, 2, 3, 6, 7, 9, 12, 13] : List UInt8) := by
  have hlogs : GvretRecords gvretLogEnv Prod.fst Prod.snd :=
    ⟨⟨fun _ _ => rfl, fun _ _ => rfl⟩, fun _ _ => rfl, _, rfl,
      ⟨fun _ _ => rfl, fun _ _ => rfl⟩, fun _ _ => rfl⟩
  refine gvretEncodes_commands hlogs rfl
    [([0xE7], GvretCommand.mk 0 [0xF1, 1, 0, 0, 0, 0x91, 0xF1, 0] rfl),
      ([], GvretCommand.mk 12 [] rfl)] [] ?_ not_mem_nil _ rfl
  · decide

end Meatpi
