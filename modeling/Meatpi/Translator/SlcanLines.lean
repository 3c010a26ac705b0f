import Mathlib.Data.List.Forall2
import Meatpi.Library.Text
import Meatpi.Translator.Slcan

/-!
# What the slcan client's lines put on the bus

A line that does not fit its buffer is not dropped as a whole: the character that
finds the buffer full is lost, and the ones behind it start a new line. So every
line counts as what is left of it after as many times 48 characters as it has
(`slcanTail`), and a long line puts a frame on the bus if such a tail is one.
-/

namespace Meatpi

open List Nat Option

variable {f : CanFrame} {bytes cs : List UInt8} {ctx : SlcanCtx} {c : UInt8}

variable {line : List UInt8} {α β : Type} {n : ℕ}

/-! ## Records -/

/-- A row of hex digits and the number that it spells. -/
def HexSpells (cs : List UInt8) (n : ℕ) : Prop :=
  ∃ ds, List.Forall₂ (fun c d => slcanHexNibble c = some d) cs ds ∧ n = ofDigitsBE 16 ds

/-- A `t`, `T`, `r` or `R` record and its frame: the letter, three or eight digits of
identifier, a digit for the length, and for a data frame two digits for each data
byte; what follows is not looked at. -/
inductive SlcanRecord : List UInt8 → CanFrame → Prop
  | mk (ext rtr : Bool) {ids : List UInt8} {id : ℕ} {digit : UInt8} {dlc : ℕ}
      {cells : List (List UInt8)} {bytes : List UInt8} (more : List UInt8) :
      HexSpells ids id → ids.length = slcanIdLen ext → HexSpells [digit] dlc → dlc ≤ 8 →
      List.Forall₂ (fun cell b => cell.length = 2 ∧ HexSpells cell b.toNat) cells bytes →
      bytes.length = (if rtr then 0 else dlc) →
      SlcanRecord (slcanType ext rtr :: (ids ++ digit :: (cells.flatten ++ more)))
        (.of (UInt32.ofNat id) ext rtr (UInt8.ofNat dlc) 0 bytes)

theorem slcanHexNibble_lt {d : ℕ} (h : slcanHexNibble c = some d) : d < 16 := by
  rw [slcanHexNibble] at h
  have hof : ∀ {n : ℕ}, c ≤ UInt8.ofNat n → n < 256 → c.toNat ≤ n := by
    intro n hc hn
    have hle := UInt8.le_iff_toNat_le.1 hc
    rwa [UInt8.toNat_ofNat_of_lt' hn] at hle
  split_ifs at h with h9 hf hF
  · have hc := hof (n := 57) h9.2 (by decide)
    have := some.inj h
    omega
  · have hc := hof (n := 102) hf.2 (by decide)
    have := some.inj h
    omega
  · have hc := hof (n := 70) hF.2 (by decide)
    have := some.inj h
    omega

theorem mapM_eq_some {f : α → Option β} {as : List α} {bs : List β} :
    as.mapM f = some bs ↔ List.Forall₂ (fun a b => f a = some b) as bs := by
  induction as generalizing bs with
  | nil =>
    rw [mapM_nil, forall₂_nil_left_iff]
    exact ⟨fun h => (some.inj h).symm, fun h => congrArg some h.symm⟩
  | cons a as ih =>
    rw [mapM_cons, forall₂_cons_left_iff]
    constructor
    · intro h
      obtain ⟨b, hb, h⟩ := bind_eq_some_iff.1 h
      obtain ⟨more, hmore, h⟩ := bind_eq_some_iff.1 h
      exact ⟨b, more, hb, ih.1 hmore, (some.inj h).symm⟩
    · rintro ⟨b, more, hb, hmore, rfl⟩
      exact bind_eq_some_iff.2 ⟨b, hb, bind_eq_some_iff.2 ⟨more, ih.2 hmore, rfl⟩⟩

theorem slcanParseId_eq_some : slcanParseId cs = some n ↔ HexSpells cs n := by
  rw [slcanParseId, map_eq_some_iff]
  constructor
  · rintro ⟨ds, hds, rfl⟩
    exact ⟨ds, mapM_eq_some.1 hds, rfl⟩
  · rintro ⟨ds, hds, rfl⟩
    exact ⟨ds, mapM_eq_some.2 hds, rfl⟩

theorem hexSpells_singleton : HexSpells [c] n ↔ slcanHexNibble c = some n := by
  constructor
  · rintro ⟨ds, hds, rfl⟩
    obtain ⟨d, more, hd, hmore, rfl⟩ := forall₂_cons_left_iff.1 hds
    obtain rfl := forall₂_nil_left_iff.1 hmore
    rw [hd, ofDigitsBE, foldl_cons, foldl_nil, Nat.zero_add]
  · intro h
    refine ⟨[n], List.Forall₂.cons h List.Forall₂.nil, ?_⟩
    rw [ofDigitsBE, foldl_cons, foldl_nil, Nat.zero_add]

theorem hexSpells_pair {hi lo : UInt8} :
    HexSpells [hi, lo] n ↔
      ∃ h l, slcanHexNibble hi = some h ∧ slcanHexNibble lo = some l ∧ n = h * 16 + l := by
  constructor
  · rintro ⟨ds, hds, rfl⟩
    obtain ⟨h, more, hh, hmore, rfl⟩ := forall₂_cons_left_iff.1 hds
    obtain ⟨l, more', hl, hmore', rfl⟩ := forall₂_cons_left_iff.1 hmore
    obtain rfl := forall₂_nil_left_iff.1 hmore'
    refine ⟨h, l, hh, hl, ?_⟩
    simp only [ofDigitsBE, foldl_cons, foldl_nil, Nat.zero_mul, Nat.zero_add]
  · rintro ⟨h, l, hh, hl, rfl⟩
    refine ⟨[h, l], List.Forall₂.cons hh (List.Forall₂.cons hl List.Forall₂.nil), ?_⟩
    simp only [ofDigitsBE, foldl_cons, foldl_nil, Nat.zero_mul, Nat.zero_add]

theorem length_cells {cells : List (List UInt8)}
    (h : List.Forall₂ (fun cell b => cell.length = 2 ∧ HexSpells cell b.toNat) cells bytes) :
    cells.flatten.length = bytes.length * 2 := by
  induction h with
  | nil => rfl
  | cons hcell _ ih =>
    rw [flatten_cons, length_append, length_cons]
    omega

theorem slcanHexBytes_eq_some {n : ℕ} :
    slcanHexBytes n cs = some bytes ↔
      ∃ cells more, cs = cells.flatten ++ more ∧ bytes.length = n ∧
        List.Forall₂ (fun cell b => cell.length = 2 ∧ HexSpells cell b.toNat) cells bytes := by
  induction n generalizing cs bytes with
  | zero =>
    rw [slcanHexBytes]
    constructor
    · intro h
      obtain rfl := some.inj h
      exact ⟨[], cs, rfl, rfl, List.Forall₂.nil⟩
    · rintro ⟨cells, more, -, hlen, -⟩
      rw [eq_nil_of_length_eq_zero hlen]
  | succ n ih =>
    constructor
    · intro h
      match cs with
      | [] => cases h
      | [c] => cases h
      | hi :: lo :: cs =>
        obtain ⟨vh, hh, h⟩ := bind_eq_some_iff.1 h
        obtain ⟨vl, hl, h⟩ := bind_eq_some_iff.1 h
        obtain ⟨bs, hbs, rfl⟩ := map_eq_some_iff.1 h
        obtain ⟨cells, more, rfl, hlen, hcells⟩ := ih.1 hbs
        have hhlt := slcanHexNibble_lt hh
        have hllt := slcanHexNibble_lt hl
        refine ⟨[hi, lo] :: cells, more, rfl, congrArg Nat.succ hlen,
          List.Forall₂.cons ⟨rfl, hexSpells_pair.2 ⟨vh, vl, hh, hl, ?_⟩⟩ hcells⟩
        exact UInt8.toNat_ofNat_of_lt' (show vh * 16 + vl < 256 by omega)
    · rintro ⟨cells, more, rfl, hlen, hcells⟩
      obtain ⟨b, bs, rfl⟩ := exists_cons_of_length_eq_add_one hlen
      obtain ⟨cell, rest, ⟨htwo, hspells⟩, hrest, rfl⟩ := forall₂_cons_right_iff.1 hcells
      obtain ⟨hi, lo, rfl⟩ := length_eq_two.1 htwo
      obtain ⟨vh, vl, hh, hl, hb⟩ := hexSpells_pair.1 hspells
      have hbs := ih.2 ⟨rest, more, rfl, succ.inj hlen, hrest⟩
      have hcs : ([hi, lo] :: rest).flatten ++ more = hi :: lo :: (rest.flatten ++ more) := rfl
      rw [hcs, slcanHexBytes, hh, hl, bind_some, bind_some, hbs, ← hb, UInt8.ofNat_toNat]
      rfl

theorem slcanFrame_form (ext rtr : Bool) {ids : List UInt8} (digit : UInt8) (rest : List UInt8)
    (hids : ids.length = slcanIdLen ext) :
    slcanFrame (slcanType ext rtr :: (ids ++ digit :: rest)) =
      (slcanParseId ids).bind fun id => (slcanHexNibble digit).bind fun dlc =>
        if 8 < dlc then none
        else if rtr then some (.of (UInt32.ofNat id) ext rtr (UInt8.ofNat dlc) 0 [])
        else if rest.length < dlc * 2 then none
        else (slcanHexBytes dlc rest).map fun bytes =>
          .of (UInt32.ofNat id) ext rtr (UInt8.ofNat dlc) 0 bytes := by
  have hext : decide (slcanType ext rtr = 84 ∨ slcanType ext rtr = 82) = ext := by
    cases ext <;> cases rtr <;> rfl
  have hrtr : decide (slcanType ext rtr = 114 ∨ slcanType ext rtr = 82) = rtr := by
    cases ext <;> cases rtr <;> rfl
  have hletter : slcanType ext rtr = 116 ∨ slcanType ext rtr = 114 ∨ slcanType ext rtr = 84 ∨
      slcanType ext rtr = 82 := by
    cases ext <;> cases rtr <;> decide
  have hlen : (slcanType ext rtr :: (ids ++ digit :: rest)).length =
      1 + slcanIdLen ext + 1 + rest.length := by
    rw [length_cons, length_append, length_cons]
    omega
  have htake : ((slcanType ext rtr :: (ids ++ digit :: rest)).drop 1).take (slcanIdLen ext) =
      ids := take_left' hids
  have hdigit : (slcanType ext rtr :: (ids ++ digit :: rest)).getD (1 + slcanIdLen ext) 0 =
      digit := by
    rw [← hids, Nat.add_comm, getD_eq_getElem?_getD, List.getElem?_cons_succ,
      List.getElem?_append_right (Nat.le_refl _), Nat.sub_self]
    rfl
  have hdrop : (slcanType ext rtr :: (ids ++ digit :: rest)).drop (1 + slcanIdLen ext + 1) =
      rest := by
    rw [← hids, Nat.add_comm 1, drop_succ_cons, drop_length_add_append]
    rfl
  rw [slcanFrame, headD_cons]
  rw [if_neg (not_not.2 hletter), hext, hrtr, if_neg (by omega), htake, hdigit, hdrop, hlen]
  simp only [Nat.add_lt_add_iff_left]

theorem slcanFrame_inv (h : slcanFrame line = some f) :
    ∃ ext rtr ids digit rest, ids.length = slcanIdLen ext ∧
      line = slcanType ext rtr :: (ids ++ digit :: rest) := by
  rw [slcanFrame] at h
  rw [ite_none_left_eq_some, ite_none_left_eq_some] at h
  obtain ⟨hletter, hlong, -⟩ := h
  generalize hext : decide (line.headD 0 = 84 ∨ line.headD 0 = 82) = ext at hlong
  generalize hrtr : decide (line.headD 0 = 114 ∨ line.headD 0 = 82) = rtr
  have htype : line.headD 0 = slcanType ext rtr := by
    rw [← hext, ← hrtr]
    rcases not_not.1 hletter with h | h | h | h <;> rw [h] <;> rfl
  cases line with
  | nil =>
    rw [length_nil] at hlong
    omega
  | cons c cs =>
    rw [headD_cons] at htype
    rw [length_cons] at hlong
    have htake : (cs.take (slcanIdLen ext)).length = slcanIdLen ext := length_take_of_le (by omega)
    refine ⟨ext, rtr, cs.take (slcanIdLen ext), cs.get ⟨slcanIdLen ext, by omega⟩,
      cs.drop (slcanIdLen ext + 1), htake, ?_⟩
    rw [htype, get_eq_getElem, ← drop_eq_getElem_cons, take_append_drop]

/-- **The frame of a line** is that of the record it is. -/
theorem slcanFrame_eq_some : slcanFrame line = some f ↔ SlcanRecord line f := by
  constructor
  · intro h
    obtain ⟨ext, rtr, ids, digit, rest, hids, rfl⟩ := slcanFrame_inv h
    rw [slcanFrame_form ext rtr digit rest hids] at h
    obtain ⟨id, hid, h⟩ := bind_eq_some_iff.1 h
    obtain ⟨dlc, hdlc, h⟩ := bind_eq_some_iff.1 h
    rw [ite_none_left_eq_some] at h
    obtain ⟨hle, h⟩ := h
    have hspells := slcanParseId_eq_some.1 hid
    have hdigit := hexSpells_singleton.2 hdlc
    cases rtr with
    | true =>
      obtain rfl := some.inj h
      exact SlcanRecord.mk ext true rest hspells hids hdigit (by omega) List.Forall₂.nil rfl
    | false =>
      rw [if_neg Bool.false_ne_true, ite_none_left_eq_some] at h
      obtain ⟨bytes, hbytes, rfl⟩ := map_eq_some_iff.1 h.2
      obtain ⟨cells, more, rfl, hlen, hcells⟩ := slcanHexBytes_eq_some.1 hbytes
      exact SlcanRecord.mk ext false more hspells hids hdigit (by omega) hcells hlen
  · rintro ⟨ext, rtr, more, hspells, hids, hdigit, hle, hcells, hlen⟩
    rw [slcanFrame_form ext rtr _ _ hids, slcanParseId_eq_some.2 hspells, bind_some,
      hexSpells_singleton.1 hdigit, bind_some, if_neg (by omega)]
    cases rtr with
    | true =>
      obtain rfl := eq_nil_of_length_eq_zero hlen
      rfl
    | false =>
      rw [if_neg Bool.false_ne_true] at hlen
      have hcount := length_cells hcells
      rw [if_neg Bool.false_ne_true, slcanHexBytes_eq_some.2 ⟨_, more, rfl, hlen, hcells⟩, if_neg]
      · rfl
      · rw [length_append]
        omega

/-! ## Lines -/

/-- What is left of a line: the buffer overflows at every 48th character. -/
def slcanTail (line : List UInt8) : List UInt8 := line.drop (48 * (line.length / 48))

/-- The lines of a stream that a CR ends, without their LFs. -/
def slcanLines (stream : List UInt8) : List (List UInt8) :=
  (stream.splitOn 13).dropLast.map fun line => line.filter (· ≠ 10)

/-- The frames of the lines that fit the buffer. -/
def slcanClientFrames (stream : List UInt8) : List CanFrame :=
  (slcanLines stream).filterMap fun line => if line.length ≤ 47 then slcanFrame line else none

theorem slcanTail_of_short (h : line.length ≤ 47) : slcanTail line = line := by
  rw [slcanTail, div_eq_of_lt (by omega), drop_zero]

theorem length_slcanTail (line : List UInt8) : (slcanTail line).length = line.length % 48 := by
  rw [slcanTail, length_drop]
  have h := div_add_mod line.length 48
  omega

theorem SlcanCtx.eq_fresh (h : ctx.line = []) : ctx = .fresh := by
  obtain ⟨line, hline⟩ := ctx
  obtain rfl : line = [] := h
  rfl

theorem SlcanCtx.push_tail (c : UInt8) (h : ctx.line = slcanTail line) :
    (ctx.push c).line = slcanTail (line ++ [c]) := by
  have hlen := length_slcanTail line
  rw [SlcanCtx.push]
  split_ifs with hroom
  · rw [h] at hroom
    have hsame : (line.length + 1) / 48 = line.length / 48 := by omega
    rw [slcanTail, length_append, length_singleton, hsame, drop_append_of_le_length (by omega)]
    exact congrArg (· ++ [c]) h
  · rw [h] at hroom
    have hnext : 48 * ((line.length + 1) / 48) = line.length + 1 := by omega
    rw [slcanTail, length_append, length_singleton, hnext, drop_of_length_le]
    · rfl
    · rw [length_append, length_singleton]

theorem length_filterMap_le {p : α → Prop} [DecidablePred p] (g : α → Option β) (as : List α) :
    (as.filterMap fun a => if p a then g a else none).length ≤ (as.filterMap g).length := by
  induction as with
  | nil => exact Nat.le_refl 0
  | cons a as ih =>
    rw [filterMap_cons, filterMap_cons]
    split_ifs
    · cases g a with
      | none => exact ih
      | some b => exact succ_le_succ ih
    · cases g a with
      | none => exact ih
      | some b => exact le_succ_of_le ih

theorem eq_none_of_length_filterMap {p : α → Prop} [DecidablePred p] {g : α → Option β}
    {as : List α}
    (h : (as.filterMap fun a => if p a then g a else none).length = (as.filterMap g).length) :
    ∀ a ∈ as, ¬ p a → g a = none := by
  induction as with
  | nil =>
    intro a ha
    cases ha
  | cons a as ih =>
    have hle := length_filterMap_le (p := p) g as
    rw [filterMap_cons, filterMap_cons] at h
    by_cases hp : p a
    · rw [if_pos hp] at h
      have hrest : (as.filterMap fun a => if p a then g a else none).length =
          (as.filterMap g).length := by
        cases hg : g a with
        | none => rwa [hg] at h
        | some b =>
          rw [hg] at h
          exact succ.inj h
      intro x hx hnot
      rcases mem_cons.1 hx with rfl | hx
      · exact absurd hp hnot
      · exact ih hrest x hx hnot
    · rw [if_neg hp] at h
      cases hg : g a with
      | none =>
        rw [hg] at h
        intro x hx hnot
        rcases mem_cons.1 hx with rfl | hx
        · exact hg
        · exact ih h x hx hnot
      | some b =>
        -- this one is taken on the right only
        rw [hg] at h
        have hlen : _ = (as.filterMap g).length + 1 := h
        dsimp only at hlen
        omega

section Accepting

variable {σ : Type} {env : SlcanEnv σ} {log : σ → List (List UInt8)}
  (hsink : SinkRecords env.sink log)
  (hhook : ∀ hook, env.bitrateHook = some hook → ∀ s kbps, log (hook s kbps) = log s)
include hsink

theorem slcanEmitFrame_accepts (line : List UInt8) (s : σ) :
    (slcanEmitFrame env line s).2 = none := by
  rw [slcanEmitFrame]
  split_ifs
  · rfl
  · cases slcanFrame line with
    | none => rfl
    | some f => exact hsink.accepts s (canWireEncode f)

theorem slcanChar_accepts (t : SlcanCtx × σ) (c : UInt8) : (slcanChar env t c).2 = none := by
  rw [slcanChar]
  split_ifs
  · exact slcanEmitFrame_accepts hsink t.1.line t.2
  · rfl
  · rfl
  · rfl

include hhook

theorem log_slcanEmitFrame (line : List UInt8) (s : σ) :
    log (slcanEmitFrame env line s).1 = log s ++ ((slcanFrame line).map canWireEncode).toList := by
  rw [slcanEmitFrame]
  split_ifs with hbitrate
  · -- a line `S0` .. `S9` is no frame
    have hnone : slcanFrame line = none := by
      rw [slcanFrame, if_pos]
      rw [hbitrate.1]
      decide
    rw [hnone, map_none, toList_none, append_nil]
    dsimp only
    split_ifs
    · cases hh : env.bitrateHook with
      | none => rfl
      | some hook => exact hhook hook hh s _
    · rfl
  · cases slcanFrame line with
    | none => exact (append_nil _).symm
    | some f => exact hsink.logs s (canWireEncode f)

omit hsink hhook in
theorem foldl_slcanChar_line (env : SlcanEnv σ) (hcr : (13 : UInt8) ∉ line) (s : σ) :
    (line.foldl (fun t c => (slcanChar env t c).1) (SlcanCtx.fresh, s)).2 = s ∧
      (line.foldl (fun t c => (slcanChar env t c).1) (SlcanCtx.fresh, s)).1.line =
        slcanTail (line.filter (· ≠ 10)) := by
  induction line using List.reverseRecOn with
  | nil => exact ⟨rfl, rfl⟩
  | append_singleton line c ih =>
    rw [mem_append, mem_singleton, not_or] at hcr
    obtain ⟨hs, hline⟩ := ih hcr.1
    rw [foldl_append, foldl_cons, foldl_nil, filter_append]
    generalize line.foldl (fun t c => (slcanChar env t c).1) (SlcanCtx.fresh, s) = t at hs hline
    rw [slcanChar, if_neg fun h => hcr.2 h.symm]
    by_cases hlf : c = 10
    · rw [if_pos hlf, hlf]
      refine ⟨hs, hline.trans (congrArg slcanTail ?_)⟩
      exact (append_nil _).symm
    · have hkeep : [c].filter (· ≠ 10) = [c] := filter_cons_of_pos (decide_eq_true hlf)
      rw [if_neg hlf, hkeep]
      exact ⟨hs, SlcanCtx.push_tail c hline⟩

theorem foldl_slcanChar_terminated (hcr : (13 : UInt8) ∉ line) {t : SlcanCtx × σ}
    (ht : t.1 = .fresh) :
    ((line ++ [13]).foldl (fun t c => (slcanChar env t c).1) t).1 = .fresh ∧
      log ((line ++ [13]).foldl (fun t c => (slcanChar env t c).1) t).2 =
        log t.2 ++ ((slcanFrame (slcanTail (line.filter (· ≠ 10)))).map canWireEncode).toList := by
  obtain ⟨ctx, s⟩ := t
  obtain rfl : ctx = .fresh := ht
  obtain ⟨hs, hline⟩ := foldl_slcanChar_line env hcr s
  rw [foldl_append, foldl_cons, foldl_nil]
  generalize line.foldl (fun t c => (slcanChar env t c).1) (SlcanCtx.fresh, s) = t at hs hline
  rw [← hline]
  have hemit := log_slcanEmitFrame hsink hhook t.1.line t.2
  rw [slcanChar, if_pos rfl]
  split_ifs with hlen
  · rw [← hs]
    exact ⟨rfl, hemit⟩
  · have hempty : t.1.line = [] := eq_nil_of_length_eq_zero (by omega)
    rw [hempty, hs]
    exact ⟨SlcanCtx.eq_fresh hempty, (append_nil _).symm⟩

/-- **What the client's characters put on the bus**, in whatever calls they come:
the frames of what is left of its lines. -/
theorem slcanEncodes_log (s : σ) (calls : List (List UInt8)) :
    log (slcanEncodes env s calls).2 = log s ++
      ((slcanLines calls.flatten).filterMap fun line => slcanFrame (slcanTail line)).map
        canWireEncode := by
  rw [slcanEncodes, feeds_eq_foldl (slcanChar_accepts hsink)]
  generalize calls.flatten = stream
  obtain ⟨lines, last, hsplit, hstream⟩ := splitOn_terminated 13 stream
  have hcr : ∀ line ∈ lines ++ [last], (13 : UInt8) ∉ line := by
    intro line hline
    rw [← hsplit] at hline
    exact not_mem_of_mem_splitOn hline
  have hline : ∀ line ∈ lines, ∀ t : SlcanCtx × σ, t.1 = .fresh →
      ((line ++ [13]).foldl (fun t c => (slcanChar env t c).1) t).1 = .fresh ∧
        log ((line ++ [13]).foldl (fun t c => (slcanChar env t c).1) t).2 = log t.2 ++
          ((slcanFrame (slcanTail (line.filter (· ≠ 10)))).map canWireEncode).toList :=
    fun line hmem t ht => foldl_slcanChar_terminated hsink hhook
      (hcr line (mem_append_left _ hmem)) ht
  obtain ⟨hrest, hlog⟩ := foldl_tokens (fun t => t.1 = .fresh) (fun t => log t.2) hline
    (SlcanCtx.fresh, s) rfl
  -- what stands behind the last CR only gathers
  have hlast := foldl_slcanChar_line env (hcr last (by simp))
  have hlines : slcanLines stream = lines.map fun line => line.filter (· ≠ 10) := by
    rw [slcanLines, hsplit, dropLast_concat]
  rw [hlines, filterMap_map, map_filterMap, filterMap_eq_flatMap_toList, hstream, foldl_append]
  generalize (lines.flatMap fun line => line ++ [13]).foldl
    (fun t c => (slcanChar env t c).1) (SlcanCtx.fresh, s) = t at hrest hlog
  obtain ⟨ctx, s'⟩ := t
  obtain rfl : ctx = .fresh := hrest
  rw [(hlast s').1]
  exact hlog

/-- **The client's lines are what goes to the bus, in order, exactly as long as no
line that is too long for the buffer leaves a record behind.** -/
theorem slcanEncodes_clientFrames_iff (s : σ) (calls : List (List UInt8)) :
    (log (slcanEncodes env s calls).2 =
        log s ++ (slcanClientFrames calls.flatten).map canWireEncode ↔
      ∀ line ∈ slcanLines calls.flatten, 47 < line.length → ∀ f, ¬ SlcanRecord (slcanTail line) f) ∧
      ∀ line f, slcanFrame line = some f ↔ SlcanRecord line f := by
  refine ⟨?_, fun line f => slcanFrame_eq_some⟩
  have hframes : slcanClientFrames calls.flatten = (slcanLines calls.flatten).filterMap
      fun line => if line.length ≤ 47 then slcanFrame (slcanTail line) else none := by
    refine filterMap_congr fun line _ => ?_
    split_ifs with hshort
    · rw [slcanTail_of_short hshort]
    · rfl
  rw [slcanEncodes_log hsink hhook, hframes, append_cancel_left_eq]
  constructor
  · intro h line hline hlong f hrecord
    have hlen := congrArg List.length h
    rw [length_map, length_map] at hlen
    have hnone := eq_none_of_length_filterMap hlen.symm line hline (by omega)
    rw [slcanFrame_eq_some.2 hrecord] at hnone
    cases hnone
  · intro h
    refine congrArg (List.map canWireEncode) (filterMap_congr fun line hline => ?_)
    split_ifs with hshort
    · rfl
    · refine eq_none_iff_forall_ne_some.2 fun f hf => ?_
      exact h line hline (by omega) f (slcanFrame_eq_some.1 hf)

end Accepting

/-- A record that comes in two calls goes out. -/
theorem slcanEncodes_clientFrames_iff_split :
    (slcanClientFrames (asciiBytes "t12" ++ asciiBytes "31AB\r")).length = 1 ∧
      (slcanEncodes ⟨logSink, none⟩ [] [asciiBytes "t12", asciiBytes "31AB\r"]).2 =
        (slcanClientFrames (asciiBytes "t12" ++ asciiBytes "31AB\r")).map canWireEncode := by
  have hsink : SinkRecords (SlcanEnv.mk logSink none).sink id := sinkRecords_logSink
  have hshort : ∀ line ∈ slcanLines [asciiBytes "t12", asciiBytes "31AB\r"].flatten,
      ¬47 < line.length := by decide +kernel
  exact ⟨by decide +kernel, (slcanEncodes_clientFrames_iff hsink (by rintro hook ⟨⟩) []
    [asciiBytes "t12", asciiBytes "31AB\r"]).1.mpr
    fun line hline hlong => absurd hlong (hshort line hline)⟩

/-- Behind 48 characters a record of the same line goes out, though the line is no record. -/
theorem slcanEncodes_tail :
    (slcanEncodes ⟨logSink, none⟩ [] [List.replicate 48 120 ++ asciiBytes "t1230\r"]).2 ≠
      [] ++ (slcanClientFrames
        [List.replicate 48 120 ++ asciiBytes "t1230\r"].flatten).map canWireEncode := by
  decide +kernel

end Meatpi
