import Mathlib.Data.Finset.Card
import Mathlib.Data.List.Sort
import Meatpi.Autopid.Vehicle

/-!
# A car's fingerprint (`ap_veh_fingerprint`)

The responders are sorted by id, one that comes again adds its bits, and the table is
hashed. A table is known by its ids and by the bits of each (`table_ext`), so the table
of all responders does not depend on their order. But the loop ends when the table is
full: with eight ids, what comes after the eighth is not added. `fingerprint_of_set` says
for which responders that can show.
-/

namespace Meatpi

open Finset List UInt32

variable {l' : List VehEcu} {a h' id : UInt32} {e : VehEcu} {l s : List VehEcu} {b h w : UInt32}

/-! ## Responders as a set -/

/-- The ids that answered. -/
def respondingIds (l : List VehEcu) : Finset UInt32 := (l.map VehEcu.id).toFinset

/-- All the bits that came from one id. -/
def bitsOf (id : UInt32) : List VehEcu → UInt32
  | [] => 0
  | e :: l => if e.id = id then e.bitmap ||| bitsOf id l else bitsOf id l

/-- The same ids with the same bits, in any order and in any pieces. -/
def SameResponders (l l' : List VehEcu) : Prop :=
  respondingIds l = respondingIds l' ∧ ∀ id, bitsOf id l = bitsOf id l'

theorem mem_respondingIds : id ∈ respondingIds l ↔ ∃ e ∈ l, e.id = id := by
  rw [respondingIds, List.mem_toFinset, List.mem_map]

theorem respondingIds_cons (e : VehEcu) (l : List VehEcu) :
    respondingIds (e :: l) = insert e.id (respondingIds l) := by
  rw [respondingIds, List.map_cons, List.toFinset_cons, respondingIds]

theorem respondingIds_append (l l' : List VehEcu) :
    respondingIds (l ++ l') = respondingIds l ∪ respondingIds l' := by
  rw [respondingIds, map_append, toFinset_append, respondingIds, respondingIds]

theorem bitsOf_append (id : UInt32) (l l' : List VehEcu) :
    bitsOf id (l ++ l') = bitsOf id l ||| bitsOf id l' := by
  induction l with
  | nil => exact UInt32.zero_or.symm
  | cons e l ih =>
    rw [cons_append, bitsOf, bitsOf]
    split_ifs
    · rw [ih, UInt32.or_assoc]
    · exact ih

theorem bitsOf_eq_zero (h : id ∉ respondingIds l) : bitsOf id l = 0 := by
  induction l with
  | nil => rfl
  | cons e l ih =>
    rw [respondingIds_cons, Finset.mem_insert, not_or] at h
    rw [bitsOf, if_neg (Ne.symm h.1), ih h.2]

theorem SameResponders.of_perm (h : l.Perm l') : SameResponders l l' := by
  refine ⟨toFinset_eq_of_perm _ _ (h.map VehEcu.id), fun id => ?_⟩
  induction h with
  | nil => rfl
  | cons e _ ih => rw [bitsOf, bitsOf, ih]
  | swap e e' l =>
    rw [bitsOf, bitsOf, bitsOf, bitsOf]
    split_ifs
    · rw [← UInt32.or_assoc, UInt32.or_comm e'.bitmap, UInt32.or_assoc]
    all_goals rfl
  | trans _ _ ih ih' => exact ih.trans ih'

theorem bitmap_eq_zero_of_bitsOf (h : ∀ id, bitsOf id l = 0) : ∀ e ∈ l, e.bitmap = 0 := by
  induction l with
  | nil => exact fun e he => by cases he
  | cons e l ih =>
    have hrest : ∀ id, bitsOf id l = 0 := by
      intro id
      have hid := h id
      rw [bitsOf] at hid
      split_ifs at hid
      · exact (or_eq_zero_iff.mp hid).2
      · exact hid
    intro x hx
    rcases List.mem_cons.mp hx with rfl | hx
    · have hid := h x.id
      rw [bitsOf, if_pos rfl] at hid
      exact (or_eq_zero_iff.mp hid).1
    · exact ih hrest x hx

theorem bitsOf_of_bitmap_eq_zero (h : ∀ e ∈ l, e.bitmap = 0) (id : UInt32) : bitsOf id l = 0 := by
  induction l with
  | nil => rfl
  | cons e l ih =>
    rw [bitsOf, h e mem_cons_self, ih fun x hx => h x (mem_cons_of_mem e hx)]
    exact ite_self 0

/-! ## Tables -/

/-- Sorted by id, each id once. -/
def IsTable (s : List VehEcu) : Prop := s.Pairwise fun x y => x.id < y.id

theorem IsTable.mem_iff (h : IsTable s) (e : VehEcu) :
    e ∈ s ↔ e.id ∈ respondingIds s ∧ e.bitmap = bitsOf e.id s := by
  induction s with
  | nil => exact ⟨fun hno => (by cases hno), fun hno => (by cases hno.1)⟩
  | cons x s ih =>
    obtain ⟨hx, hs⟩ := List.pairwise_cons.mp h
    have hnot : x.id ∉ respondingIds s := by
      intro hno
      obtain ⟨y, hy, hid⟩ := mem_respondingIds.mp hno
      exact absurd (hid ▸ hx y hy) (UInt32.lt_irrefl _)
    rw [List.mem_cons, ih hs, respondingIds_cons, Finset.mem_insert, bitsOf]
    by_cases hid : x.id = e.id
    · rw [if_pos hid, bitsOf_eq_zero (hid ▸ hnot), UInt32.or_zero]
      constructor
      · rintro (rfl | ⟨hno, -⟩)
        · exact ⟨.inl rfl, rfl⟩
        · exact absurd (hid ▸ hno) hnot
      · rintro ⟨-, hbits⟩
        exact .inl (by cases e; cases x; cases hid; cases hbits; rfl)
    · rw [if_neg hid]
      constructor
      · rintro (rfl | hmem)
        · exact absurd rfl hid
        · exact ⟨.inr hmem.1, hmem.2⟩
      · rintro ⟨hno | hmem, hbits⟩
        · exact absurd hno.symm hid
        · exact .inr ⟨hmem, hbits⟩

/-- **A table is known** by its ids and their bits. -/
theorem table_ext {s' : List VehEcu} (hs : IsTable s) (hs' : IsTable s') (h : SameResponders s s') :
    s = s' := by
  have hantisymm : Std.Antisymm fun x y : VehEcu => x.id < y.id :=
    ⟨fun x y hxy hyx => absurd (UInt32.lt_trans hxy hyx) (UInt32.lt_irrefl _)⟩
  have hirrefl : Std.Irrefl fun x y : VehEcu => x.id < y.id := ⟨fun x => UInt32.lt_irrefl _⟩
  refine List.Pairwise.eq_of_mem_iff hs hs' fun e => ?_
  rw [hs.mem_iff, hs'.mem_iff, h.1, h.2]

theorem respondingIds_fpInsert (e : VehEcu) (s : List VehEcu) :
    respondingIds (fpInsert e s) = insert e.id (respondingIds s) := by
  induction s with
  | nil => exact respondingIds_cons e []
  | cons x s ih =>
    rw [fpInsert]
    split_ifs with hlt heq
    · rw [respondingIds_cons, ih, respondingIds_cons, insert_comm]
    · rw [respondingIds_cons, respondingIds_cons, heq, insert_idem]
    · rw [respondingIds_cons]

theorem bitsOf_fpInsert (id : UInt32) (e : VehEcu) (s : List VehEcu) :
    bitsOf id (fpInsert e s) = bitsOf id s ||| bitsOf id [e] := by
  induction s with
  | nil => exact UInt32.zero_or.symm
  | cons x s ih =>
    rw [fpInsert]
    by_cases hlt : x.id < e.id
    · rw [if_pos hlt, bitsOf, bitsOf, ih]
      split_ifs
      · rw [UInt32.or_assoc]
      · rfl
    rw [if_neg hlt]
    by_cases heq : x.id = e.id
    · rw [if_pos heq, bitsOf, bitsOf, bitsOf, bitsOf, heq]
      split_ifs
      · rw [UInt32.or_zero, UInt32.or_assoc, UInt32.or_comm e.bitmap, ← UInt32.or_assoc]
      · rw [UInt32.or_zero]
    · rw [if_neg heq, UInt32.or_comm, ← bitsOf_append]
      rfl

theorem IsTable.fpInsert (h : IsTable s) (e : VehEcu) : IsTable (fpInsert e s) := by
  induction s with
  | nil => exact pairwise_singleton _ _
  | cons x s ih =>
    obtain ⟨hx, hs⟩ := List.pairwise_cons.mp h
    rw [Meatpi.fpInsert]
    split_ifs with hlt heq
    · refine List.pairwise_cons.mpr ⟨fun y hy => ?_, ih hs⟩
      have hid : y.id ∈ insert e.id (respondingIds s) := by
        rw [← respondingIds_fpInsert]
        exact mem_respondingIds.mpr ⟨y, hy, rfl⟩
      rcases Finset.mem_insert.mp hid with hid | hid
      · rw [hid]
        exact hlt
      · obtain ⟨z, hz, hzid⟩ := mem_respondingIds.mp hid
        exact hzid ▸ hx z hz
    · exact List.pairwise_cons.mpr ⟨hx, hs⟩
    · have hle : e.id < x.id := by
        rcases UInt32.lt_or_lt_of_ne heq with hno | hlt'
        · exact absurd hno hlt
        · exact hlt'
      refine List.pairwise_cons.mpr ⟨fun y hy => ?_, h⟩
      rcases List.mem_cons.mp hy with rfl | hy
      · exact hle
      · exact UInt32.lt_trans hle (hx y hy)

theorem IsTable.length_eq (h : IsTable s) : s.length = (respondingIds s).card := by
  have hnodup : (s.map VehEcu.id).Nodup := by
    rw [List.Nodup, pairwise_map]
    exact h.imp fun hlt heq => absurd (heq ▸ hlt) (UInt32.lt_irrefl _)
  rw [respondingIds, toFinset_card_of_nodup hnodup, length_map]

/-! ## All of them -/

/-- The table of every responder, however many there are. -/
def fpAll (l s : List VehEcu) : List VehEcu := l.foldl (fun s e => fpInsert e s) s

theorem fpAll_spec (h : IsTable s) (l : List VehEcu) :
    IsTable (fpAll l s) ∧ SameResponders (fpAll l s) (s ++ l) := by
  induction l generalizing s with
  | nil =>
    rw [append_nil]
    exact ⟨h, rfl, fun _ => rfl⟩
  | cons e l ih =>
    obtain ⟨htable, hids, hbits⟩ := ih (h.fpInsert e)
    refine ⟨htable, hids.trans ?_, fun id => (hbits id).trans ?_⟩
    · rw [respondingIds_append, respondingIds_append, respondingIds_fpInsert,
        respondingIds_cons, insert_union, union_insert]
    · rw [bitsOf_append, bitsOf_fpInsert, UInt32.or_assoc, ← bitsOf_append, bitsOf_append id s]
      rfl

theorem IsTable.nil : IsTable [] := List.Pairwise.nil

theorem fpAll_table (h : IsTable s) : fpAll s [] = s := by
  obtain ⟨htable, hsame⟩ := fpAll_spec IsTable.nil s
  exact table_ext htable h hsame

/-- **The order does not matter** to the table of all of them. -/
theorem fpAll_same (h : SameResponders l l') : fpAll l [] = fpAll l' [] := by
  obtain ⟨htable, hids, hbits⟩ := fpAll_spec IsTable.nil l
  obtain ⟨htable', hids', hbits'⟩ := fpAll_spec IsTable.nil l'
  refine table_ext htable htable' ⟨?_, fun id => ?_⟩
  · exact hids.trans (h.1.trans hids'.symm)
  · exact (hbits id).trans ((h.2 id).trans (hbits' id).symm)

/-! ## A table that is full -/

theorem fpTable_eq (hs : IsTable s) (hids : (respondingIds (s ++ l)).card ≤ respEcusMax)
    (h : (respondingIds (s ++ l)).card < respEcusMax ∨ ∀ e ∈ l, e.bitmap = 0) :
    fpTable l s = fpAll l s := by
  induction l generalizing s with
  | nil => rfl
  | cons e l ih =>
    by_cases hroom : s.length < respEcusMax
    · have hmoved : respondingIds (fpInsert e s ++ l) = respondingIds (s ++ e :: l) := by
        rw [respondingIds_append, respondingIds_append, respondingIds_fpInsert,
          respondingIds_cons, insert_union, union_insert]
      rw [fpTable, if_pos hroom]
      refine ih (hs.fpInsert e) (hmoved ▸ hids) ?_
      rw [hmoved]
      exact h.imp_right fun hall x hx => hall x (mem_cons_of_mem e hx)
    · -- the table has every id, and there is no bit to add
      have hle : (respondingIds s).card ≤ (respondingIds (s ++ e :: l)).card :=
        card_le_card (by rw [respondingIds_append]; exact subset_union_left)
      have hlen := hs.length_eq
      have hnone : ∀ x ∈ e :: l, x.bitmap = 0 := h.resolve_left (by omega)
      have hsame : respondingIds s = respondingIds (s ++ e :: l) := by
        refine eq_of_subset_of_card_le ?_ (by omega)
        rw [respondingIds_append]
        exact subset_union_left
      obtain ⟨htable, hids', hbits⟩ := fpAll_spec hs (e :: l)
      rw [fpTable, if_neg hroom]
      refine table_ext hs htable ⟨hsame.trans hids'.symm, fun id => ?_⟩
      rw [hbits, bitsOf_append, bitsOf_of_bitmap_eq_zero hnone, UInt32.or_zero]

theorem fpTable_full {t : List VehEcu} (rest : List VehEcu) (hs : IsTable s)
    (hids : (respondingIds (s ++ t)).card = respEcusMax)
    (hlen : s.length + t.length = respEcusMax) : fpTable (t ++ rest) s = fpAll t s := by
  induction t generalizing s with
  | nil =>
    cases rest with
    | nil => rfl
    | cons e rest =>
      rw [nil_append, fpTable, if_neg (by rw [← hlen]; exact Nat.lt_irrefl _)]
      rfl
  | cons e t ih =>
    have hmoved : respondingIds (fpInsert e s ++ t) = respondingIds (s ++ e :: t) := by
      rw [respondingIds_append, respondingIds_append, respondingIds_fpInsert,
        respondingIds_cons, insert_union, union_insert]
    rw [length_cons] at hlen
    have hlen' : (fpInsert e s).length + t.length = respEcusMax := by
      have hgrows : (fpInsert e s).length ≤ s.length + 1 := by
        rw [(hs.fpInsert e).length_eq, hs.length_eq, respondingIds_fpInsert]
        exact card_insert_le _ _
      have hfits : (respondingIds (fpInsert e s ++ t)).card ≤ (fpInsert e s).length + t.length := by
        rw [← length_append, ← length_map (f := VehEcu.id)]
        exact toFinset_card_le _
      rw [hmoved] at hfits
      omega
    rw [cons_append, fpTable, if_pos (by omega)]
    exact ih (hs.fpInsert e) (hmoved ▸ hids) hlen'

/-! ## The hash -/

/-- One step of FNV-1a. -/
def fnvStep (h b : UInt32) : UInt32 := (h ^^^ b) * 16777619

theorem fnvStep_inj {b' : UInt32} (heq : fnvStep h b = fnvStep h' b') : h ^^^ b = h' ^^^ b' := by
  -- the prime has an inverse
  have hinv : ∀ x : UInt32, x * 16777619 * 899433627 = x := by
    intro x
    rw [UInt32.mul_assoc, show (16777619 * 899433627 : UInt32) = 1 from by decide, UInt32.mul_one]
  rw [← hinv (h ^^^ b), ← hinv (h' ^^^ b')]
  exact congrArg (· * 899433627) heq

theorem foldl_fnvStep_inj {bs : List UInt32} (heq : bs.foldl fnvStep h = bs.foldl fnvStep h') :
    h = h' := by
  induction bs generalizing h h' with
  | nil => exact heq
  | cons b bs ih => exact (xor_left_inj b).mp (fnvStep_inj (ih heq))

/-- **One byte shows**: texts that differ in one byte have two hashes. -/
theorem foldl_fnvStep_ne (hne : a ≠ b) (before after : List UInt32) :
    (before ++ a :: after).foldl fnvStep h ≠ (before ++ b :: after).foldl fnvStep h := by
  rw [foldl_append, foldl_append, foldl_cons, foldl_cons]
  exact fun heq => hne ((xor_right_inj _).mp (fnvStep_inj (foldl_fnvStep_inj heq)))

theorem byte_and (w m k : UInt32) : (w &&& m) >>> k &&& 255 = w >>> k &&& (m >>> k &&& 255) := by
  rw [shiftRight_and, UInt32.and_assoc]

theorem wordBytes_and {m c d : UInt32} (h₃ : m >>> 24 &&& 255 = a) (h₂ : m >>> 16 &&& 255 = b)
    (h₁ : m >>> 8 &&& 255 = c) (h₀ : m &&& 255 = d) :
    wordBytes (w &&& m) = [w >>> 24 &&& a, w >>> 16 &&& b, w >>> 8 &&& c, w &&& d] := by
  rw [wordBytes, byte_and, byte_and, byte_and, UInt32.and_assoc, h₃, h₂, h₁, h₀]

theorem or_and_self (w m : UInt32) : w &&& m ||| w = w := by
  rw [← UInt32.toBitVec_inj]
  ext i hi
  simp only [UInt32.toBitVec_or, UInt32.toBitVec_and, BitVec.getElem_or, BitVec.getElem_and]
  cases w.toBitVec[i] <;> simp

theorem eq_zero_of_wordBytes (h : ∀ b ∈ wordBytes w, b = 0) : w = 0 := by
  have hbyte : ∀ k : ℕ, k < 32 → (w >>> UInt32.ofNat k &&& 255).toNat = w.toNat / 2 ^ k % 256 := by
    intro k hk
    rw [UInt32.toNat_and, UInt32.toNat_shiftRight, toNat_ofNat', Nat.shiftRight_eq_div_pow,
      show (255 : UInt32).toNat = 2 ^ 8 - 1 from rfl, Nat.and_two_pow_sub_one_eq_mod,
      Nat.mod_eq_of_lt (show k < 2 ^ 32 by omega), Nat.mod_eq_of_lt hk]
  have h3 := hbyte 24 (by decide)
  have h2 := hbyte 16 (by decide)
  have h1 := hbyte 8 (by decide)
  have h0 : (w &&& 255).toNat = w.toNat % 256 := by
    rw [UInt32.toNat_and, show (255 : UInt32).toNat = 2 ^ 8 - 1 from rfl,
      Nat.and_two_pow_sub_one_eq_mod]
  have hlt := w.toNat_lt
  rw [show w >>> UInt32.ofNat 24 &&& 255 = 0 from h _ (by simp [wordBytes])] at h3
  rw [show w >>> UInt32.ofNat 16 &&& 255 = 0 from h _ (by simp [wordBytes])] at h2
  rw [show w >>> UInt32.ofNat 8 &&& 255 = 0 from h _ (by simp [wordBytes])] at h1
  rw [show w &&& 255 = 0 from h _ (by simp [wordBytes])] at h0
  rw [← UInt32.toNat_inj]
  rw [UInt32.toNat_zero] at *
  omega

theorem wordBytes_drop (h : w ≠ 0) : ∃ w' before a after, w' ||| w = w ∧
    wordBytes w = before ++ a :: after ∧ wordBytes w' = before ++ 0 :: after ∧ a ≠ 0 := by
  have hsome : ∃ b ∈ wordBytes w, b ≠ 0 := by
    by_contra hno
    refine h (eq_zero_of_wordBytes fun b hb => ?_)
    by_contra hb0
    exact hno ⟨b, hb, hb0⟩
  obtain ⟨b, hb, hb0⟩ := hsome
  rw [wordBytes, List.mem_cons, List.mem_cons, List.mem_cons, List.mem_singleton] at hb
  rcases hb with rfl | rfl | rfl | rfl
  · refine ⟨w &&& 0x00FFFFFF, [], _, _, or_and_self w _, rfl, ?_, hb0⟩
    rw [wordBytes_and (a := 0) (b := 255) (c := 255) (d := 255) (by decide) (by decide)
      (by decide) (by decide), UInt32.and_zero]
    rfl
  · refine ⟨w &&& 0xFF00FFFF, [_], _, _, or_and_self w _, rfl, ?_, hb0⟩
    rw [wordBytes_and (a := 255) (b := 0) (c := 255) (d := 255) (by decide) (by decide)
      (by decide) (by decide), UInt32.and_zero]
    rfl
  · refine ⟨w &&& 0xFFFF00FF, [_, _], _, _, or_and_self w _, rfl, ?_, hb0⟩
    rw [wordBytes_and (a := 255) (b := 255) (c := 0) (d := 255) (by decide) (by decide)
      (by decide) (by decide), UInt32.and_zero]
    rfl
  · refine ⟨w &&& 0xFFFFFF00, [_, _, _], _, _, or_and_self w _, rfl, ?_, hb0⟩
    rw [wordBytes_and (a := 255) (b := 255) (c := 255) (d := 0) (by decide) (by decide)
      (by decide) (by decide), UInt32.and_zero]
    rfl

/-- The bytes that are hashed. -/
def ecuBytes (e : VehEcu) : List UInt32 := wordBytes e.id ++ wordBytes e.bitmap

theorem fpHash_eq (s : List VehEcu) : fpHash s = (s.flatMap ecuBytes).foldl fnvStep 2166136261 :=
  rfl

/-- **One responder's byte shows** in the hash of a table. -/
theorem fpHash_ne (before after : List VehEcu) (h : e.bitmap ≠ 0) :
    ∃ e', e'.id = e.id ∧ e'.bitmap ||| e.bitmap = e.bitmap ∧
      fpHash (before ++ e' :: after) ≠ fpHash (before ++ e :: after) := by
  obtain ⟨w, pre, a, post, hor, hbytes, hdropped, ha⟩ := wordBytes_drop h
  have htext : ∀ x : VehEcu, ∀ c, ecuBytes x = wordBytes e.id ++ (pre ++ c :: post) →
      (before ++ x :: after).flatMap ecuBytes = (before.flatMap ecuBytes ++ wordBytes e.id ++ pre) ++
        c :: (post ++ after.flatMap ecuBytes) := by
    intro x c hx
    rw [flatMap_append, flatMap_cons, hx]
    simp only [append_assoc, cons_append]
  refine ⟨⟨e.id, w⟩, rfl, hor, ?_⟩
  rw [fpHash_eq, fpHash_eq, htext ⟨e.id, w⟩ 0 (congrArg (wordBytes e.id ++ ·) hdropped),
    htext e a (congrArg (wordBytes e.id ++ ·) hbytes)]
  exact foldl_fnvStep_ne (Ne.symm ha) _ _

theorem hexVal_lowerHexChar : ∀ {d : ℕ}, d < 16 → hexVal (lowerHexChar d) = d := by decide

theorem lowerHexWord_inj {w' : UInt32} (h : lowerHexWord w = lowerHexWord w') : w = w' := by
  have hread : ∀ w : UInt32, hexNum (lowerHexWord w) = w.toNat := by
    intro w
    have hmap : (digitsBE 16 8 w.toNat).map (hexVal ∘ lowerHexChar) = digitsBE 16 8 w.toNat := by
      refine (map_congr_left fun d hd => ?_).trans (map_id _)
      exact hexVal_lowerHexChar (lt_of_mem_digitsBE (by decide) hd)
    rw [hexNum, lowerHexWord, List.map_map, hmap, ofDigitsBE_digitsBE]
    exact Nat.mod_eq_of_lt w.toNat_lt
  rw [← UInt32.toNat_inj, ← hread, ← hread, h]

/-! ## The fingerprint -/

theorem vehFingerprint_eq (hids : (respondingIds l).card ≤ respEcusMax)
    (h : (respondingIds l).card < respEcusMax ∨ ∀ e ∈ l, e.bitmap = 0) :
    vehFingerprint l = if l = [] then [] else lowerHexWord (fpHash (fpAll l [])) := by
  rw [vehFingerprint, fpTable_eq .nil hids h]

theorem sameResponders_again (before after : List VehEcu) {e' : VehEcu} (hid : e'.id = e.id)
    (hor : e'.bitmap ||| e.bitmap = e.bitmap) :
    SameResponders (before ++ e :: after) ((before ++ e' :: after) ++ [e]) := by
  constructor
  · ext id
    simp only [mem_respondingIds, List.mem_append, List.mem_cons, List.not_mem_nil, or_false]
    constructor
    · rintro ⟨x, hx | rfl | hx, rfl⟩
      · exact ⟨x, .inl (.inl hx), rfl⟩
      · exact ⟨x, .inr rfl, rfl⟩
      · exact ⟨x, .inl (.inr (.inr hx)), rfl⟩
    · rintro ⟨x, (hx | rfl | hx) | rfl, rfl⟩
      · exact ⟨x, .inl hx, rfl⟩
      · exact ⟨e, .inr (.inl rfl), hid.symm⟩
      · exact ⟨x, .inr (.inr hx), rfl⟩
      · exact ⟨x, .inr (.inl rfl), rfl⟩
  · intro id
    rw [bitsOf_append, bitsOf_append, bitsOf_append, bitsOf, bitsOf, bitsOf, hid]
    split_ifs
    · conv_lhs => rw [← hor]
      ac_rfl
    · rw [bitsOf, UInt32.or_zero]

theorem exists_fingerprint_ne (hids : (respondingIds l).card = respEcusMax)
    (h : ¬ ∀ e ∈ l, e.bitmap = 0) :
    ∃ l₁ l₂, SameResponders l l₁ ∧ SameResponders l l₂ ∧ vehFingerprint l₁ ≠ vehFingerprint l₂ := by
  obtain ⟨htable, hsameIds, hsameBits⟩ := fpAll_spec IsTable.nil l
  have hcard : (respondingIds (fpAll l [])).card = respEcusMax := by
    rw [hsameIds]
    exact hids
  obtain ⟨e, he, hne⟩ : ∃ e ∈ fpAll l [], e.bitmap ≠ 0 := by
    by_contra hno
    refine h (bitmap_eq_zero_of_bitsOf fun id => ?_)
    have hzero := bitsOf_of_bitmap_eq_zero (l := fpAll l []) (fun e he => by
      by_contra hb
      exact hno ⟨e, he, hb⟩) id
    rw [hsameBits] at hzero
    exact hzero
  obtain ⟨before, after, hsplit⟩ := append_of_mem he
  rw [hsplit] at htable hsameIds hsameBits hcard
  obtain ⟨e', hid, hor, hhash⟩ := fpHash_ne before after hne
  -- with a byte less it is a table, and together with what was there it is the same set
  have hids' : respondingIds (before ++ e' :: after) = respondingIds (before ++ e :: after) := by
    rw [respondingIds_append, respondingIds_append, respondingIds_cons, respondingIds_cons, hid]
  have htable' : IsTable (before ++ e' :: after) := by
    rw [IsTable, List.pairwise_append, List.pairwise_cons] at htable ⊢
    obtain ⟨hbefore, ⟨hafter, hrest⟩, hacross⟩ := htable
    refine ⟨hbefore, ⟨fun y hy => hid ▸ hafter y hy, hrest⟩, fun x hx y hy => ?_⟩
    rcases List.mem_cons.mp hy with rfl | hy
    · exact hid ▸ hacross x hx e mem_cons_self
    · exact hacross x hx y (mem_cons_of_mem e hy)
  have hfull : ∀ {t : List VehEcu} (rest : List VehEcu), IsTable t →
      (respondingIds t).card = respEcusMax → t ≠ [] →
      vehFingerprint (t ++ rest) = lowerHexWord (fpHash t) := by
    intro t rest ht hcard ht0
    rw [vehFingerprint, if_neg (by simp [ht0]), fpTable_full rest .nil hcard
      (by rw [ht.length_eq, hcard]; rfl), fpAll_table ht]
  have hagain := sameResponders_again before after hid hor
  refine ⟨before ++ e :: after, (before ++ e' :: after) ++ [e],
    ⟨hsameIds.symm, fun id => (hsameBits id).symm⟩,
    ⟨hsameIds.symm.trans hagain.1, fun id => (hsameBits id).symm.trans (hagain.2 id)⟩, ?_⟩
  have hfp := hfull [] htable hcard (by simp)
  rw [append_nil] at hfp
  rw [hfp, hfull [e] htable' (hids' ▸ hcard) (by simp)]
  exact fun heq => hhash (lowerHexWord_inj heq.symm)

/-- **The fingerprint is that of the set**: for up to eight ids, whatever their order and
pieces, exactly when there are fewer than eight, or no bits at all. -/
theorem fingerprint_of_set {l : List VehEcu} (hids : (respondingIds l).card ≤ respEcusMax) :
    (∀ l', SameResponders l l' → vehFingerprint l' = vehFingerprint l) ↔
      (respondingIds l).card < respEcusMax ∨ ∀ e ∈ l, e.bitmap = 0 := by
  constructor
  · intro hall
    by_contra hno
    rw [not_or] at hno
    obtain ⟨l₁, l₂, h₁, h₂, hne⟩ := exists_fingerprint_ne (by omega) hno.2
    exact hne ((hall l₁ h₁).trans (hall l₂ h₂).symm)
  · intro h l' hsame
    have hids' : respondingIds l' = respondingIds l := hsame.1.symm
    have h' : (respondingIds l').card < respEcusMax ∨ ∀ e ∈ l', e.bitmap = 0 := by
      rw [hids']
      refine h.imp_right fun hzero => bitmap_eq_zero_of_bitsOf fun id => ?_
      rw [← hsame.2]
      exact bitsOf_of_bitmap_eq_zero hzero id
    have hempty : l' = [] ↔ l = [] := by
      have hnil : ∀ {l : List VehEcu}, l = [] ↔ respondingIds l = ∅ := by
        intro l
        rw [respondingIds, toFinset_eq_empty_iff, map_eq_nil_iff]
      rw [hnil, hnil, hids']
    rw [vehFingerprint_eq (hids' ▸ hids) h', vehFingerprint_eq hids h, fpAll_same hsame]
    simp only [hempty]

/-- Two responders, in either order. -/
theorem fingerprint_of_set_two :
    vehFingerprint [⟨0x7E9, 0x98188011⟩, ⟨0x7E8, 0xBE3FA813⟩] =
      vehFingerprint [⟨0x7E8, 0xBE3FA813⟩, ⟨0x7E9, 0x98188011⟩] := by
  exact (fingerprint_of_set (l := [⟨0x7E8, 0xBE3FA813⟩, ⟨0x7E9, 0x98188011⟩]) (by decide)).mpr
    (.inl (by decide)) _ (.of_perm (.swap _ _ []))

/-- Eight responders; the last one's bits come in two pieces. -/
def eightResponders : List VehEcu := (List.range 8).map fun i => ⟨0x7E8 + UInt32.ofNat i, 3⟩

def eightInPieces : List VehEcu :=
  (List.range 7).map (fun i => ⟨0x7E8 + UInt32.ofNat i, 3⟩) ++ [⟨0x7EF, 1⟩, ⟨0x7EF, 3⟩]

theorem not_fingerprint_of_set :
    ¬ ∀ l : List VehEcu, (respondingIds l).card ≤ respEcusMax →
      ∀ l', SameResponders l l' → vehFingerprint l' = vehFingerprint l := by
  intro hall
  have hsame : SameResponders eightResponders eightInPieces :=
    sameResponders_again ((List.range 7).map fun i => ⟨0x7E8 + UInt32.ofNat i, 3⟩) [] rfl rfl
  exact absurd (hall eightResponders (by decide) eightInPieces hsame) (by decide +kernel)

end Meatpi
