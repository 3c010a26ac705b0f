import Meatpi.Library.JsonReads
import Meatpi.BleHttp.Stream

/-!
# The head of a response

`bleh_rsp_head` prints the content type between quotes as it is. The text is JSON
that gives everything back exactly if the content type needs no escape, is UTF-8,
and the whole fits the buffer (`blehRspHead_givesBack_iff`).
-/

namespace Meatpi

open JsonGrammar List

variable {x : List UInt8} {ct : List UInt8} {len status : ℤ}

/-! ## The printed text -/

/-- The text `bleh_rsp_head` prints, before it is cut. -/
def headText (status len : ℤ) (ct : List UInt8) : List UInt8 :=
  0x7B :: 0x22 :: ([0x73] ++ 0x22 :: 0x3A :: (intBytes status ++
    0x2C :: (0x22 :: ([0x63, 0x74] ++ 0x22 :: 0x3A :: 0x22 :: (ct ++
      0x22 :: 0x2C :: (0x22 :: ([0x6C, 0x65, 0x6E] ++ 0x22 :: 0x3A :: (intBytes len ++
        [0x7D]))))))))

theorem textBytes_append (s t : List Char) : textBytes (s ++ t) = textBytes s ++ textBytes t :=
  map_append

theorem textBytes_int (i : ℤ) : textBytes (toString i).toList = intBytes i := by
  cases i with
  | ofNat n =>
    rw [show toString (Int.ofNat n) = Nat.repr n from rfl, Nat.toList_repr]
    rfl
  | negSucc n =>
    have htext : toString (Int.negSucc n) = "-" ++ Nat.repr (n + 1) := rfl
    have hneg : Int.negSucc n < 0 := Int.negSucc_lt_zero n
    rw [htext, String.toList_append, Nat.toList_repr, intBytes, if_pos hneg]
    rfl

theorem textBytes_chars (s : List UInt8) : textBytes (chars s) = s := by
  rw [textBytes, chars, List.map_map]
  refine (List.map_congr_left fun b _ => ?_).trans (List.map_id s)
  have hb := b.toNat_lt
  have hvalid : b.toNat.isValidChar := Or.inl (by omega)
  rw [Function.comp_apply, Char.ofNat, dif_pos hvalid]
  exact UInt8.ofNat_toNat

theorem chars_injective : Function.Injective chars := by
  intro s t h
  rw [← textBytes_chars s, h, textBytes_chars]

theorem blehRspHead_eq (cap : ℕ) (status len : ℤ) (ct : List UInt8) :
    blehRspHead cap ⟨status, chars ct, len⟩ = (headText status len ct).take (cap - 1) := by
  rw [blehRspHead]
  congr 1
  simp only [String.toList_append, textBytes_append, textBytes_int, String.toList_ofList,
    textBytes_chars, List.append_assoc]
  rfl

/-! ## What the text says -/

/-- The bytes are a JSON object that gives the three back. -/
def HeadGivesBack (bytes : List UInt8) (status : ℤ) (ct : List UInt8) (len : ℤ) : Prop :=
  IsUtf8 bytes ∧ ∃ ms, Says bytes (.obj ms) ∧
    (Json.obj ms).getItem "s".toList = some (.num status) ∧
    (Json.obj ms).getItem "ct".toList = some (.str (chars ct)) ∧
    (Json.obj ms).getItem "len".toList = some (.num len)

/-- The content type needs no escape. -/
def BareCt (ct : List UInt8) : Prop := ∀ b ∈ ct, IsBare b

theorem bare_s : ∀ b ∈ ([0x73] : List UInt8), IsBare b := forall_mem_singleton.2 (by decide)

theorem bare_ct : ∀ b ∈ ([0x63, 0x74] : List UInt8), IsBare b :=
  forall_mem_cons.2 ⟨by decide, forall_mem_singleton.2 (by decide)⟩

theorem bare_len : ∀ b ∈ ([0x6C, 0x65, 0x6E] : List UInt8), IsBare b :=
  forall_mem_cons.2 ⟨by decide, forall_mem_cons.2 ⟨by decide, forall_mem_singleton.2 (by decide)⟩⟩

theorem ne_quote_of_mem_intBytes {i : ℤ} {d : UInt8} (hd : d ∈ intBytes i ++ [0x7D]) :
    d ≠ 0x22 := by
  obtain ⟨b, n, hi, -, hall⟩ := intBytes_cons i
  rw [hi] at hd
  rcases mem_append.mp hd with hd | hd
  · rintro rfl
    rcases hall _ hd with h | h <;> exact absurd h (by decide)
  · rw [mem_singleton.mp hd]
    decide

theorem quote_step {a : UInt8} {s y : List UInt8} (h : a :: s = x ++ 0x22 :: y) :
    a = 0x22 ∧ s = y ∨ ∃ x', s = x' ++ 0x22 :: y := by
  rcases cons_eq_append_iff.mp h with ⟨-, hquote⟩ | ⟨x', -, hrest⟩
  · obtain ⟨rfl, rfl⟩ := cons.inj hquote
    exact Or.inl ⟨rfl, rfl⟩
  · exact Or.inr ⟨x', hrest⟩

theorem behind_quote {u z : List UInt8} {e : UInt8} (hu : IsWs u)
    (he : e = 0x7D ∨ e = 0x2C)
    (h : 0x2C :: 0x22 :: 0x6C :: 0x65 :: 0x6E :: 0x22 :: 0x3A :: (intBytes len ++ [0x7D]) =
      x ++ 0x22 :: (u ++ e :: z)) : False := by
  have hsolid : IsSolid e := by rcases he with rfl | rfl <;> decide
  have hends : ∀ {d : UInt8} {t : List UInt8}, IsSolid d → d ≠ 0x7D → d ≠ 0x2C →
      d :: t ≠ u ++ e :: z := by
    intro d t hd h₁ h₂ heq
    obtain ⟨-, rfl, -⟩ := ws_unique hu hsolid hd heq.symm
    rcases he with rfl | rfl
    · exact h₁ rfl
    · exact h₂ rfl
  -- the quote is looked for byte by byte: what stands behind the two there are ends no member
  rcases quote_step h with ⟨hq, -⟩ | ⟨x₁, h₁⟩
  · exact absurd hq (by decide)
  rcases quote_step h₁ with ⟨-, hbehind⟩ | ⟨x₂, h₂⟩
  · exact hends (by decide) (by decide) (by decide) hbehind
  rcases quote_step h₂ with ⟨hq, -⟩ | ⟨x₃, h₃⟩
  · exact absurd hq (by decide)
  rcases quote_step h₃ with ⟨hq, -⟩ | ⟨x₄, h₄⟩
  · exact absurd hq (by decide)
  rcases quote_step h₄ with ⟨hq, -⟩ | ⟨x₅, h₅⟩
  · exact absurd hq (by decide)
  rcases quote_step h₅ with ⟨-, hbehind⟩ | ⟨x₆, h₆⟩
  · exact hends (by decide) (by decide) (by decide) hbehind
  rcases quote_step h₆ with ⟨hq, -⟩ | ⟨x₇, h₇⟩
  · exact absurd hq (by decide)
  · exact ne_quote_of_mem_intBytes (h₇ ▸ mem_append_right x₇ mem_cons_self) rfl

theorem isSolid_of_number {b : UInt8} (hb : isDigit b = true ∨ b = 0x2D) : IsSolid b := by
  rcases hb with hb | rfl
  · rintro (rfl | rfl | rfl | rfl) <;> exact absurd hb (by decide)
  · decide

theorem getItem_ct (v w : Json) (ms : List (List Char × Json)) :
    (Json.obj ((chars [0x73], v) :: (chars [0x63, 0x74], w) :: ms)).getItem "ct".toList =
      some w := rfl

/-- **What is read gives the content type back only if it needs no escape**, and
the whole text is read then. -/
theorem reads_headText {rest : List UInt8} {ms : List (List Char × Json)}
    (h : Reads (headText status len ct) (.value (.obj ms)) rest)
    (hct : (Json.obj ms).getItem "ct".toList = some (.str (chars ct))) : BareCt ct ∧ rest = [] := by
  obtain ⟨b, n, hstatus, hb, hn⟩ := intBytes_cons status
  obtain ⟨b', n', hlen, hb', hn'⟩ := intBytes_cons len
  have hmembers := h.object_inv (by decide) (by decide)
  rw [hstatus] at hmembers
  obtain ⟨v, u, r, hu, hv, hr⟩ := Reads.member_inv [0x73] bare_s (isSolid_of_number hb) hmembers
  obtain ⟨s', ms', rfl, hmembers, rfl⟩ : ∃ s' ms', r = 0x2C :: s' ∧ Reads s' (.members ms') rest ∧
      ms = (chars [0x73], v) :: ms' := by
    rcases hr with ⟨rfl, -⟩ | hr
    · have hwrong := (Reads.number_then hb hn (Or.inr rfl) (Or.inl rfl) hu hv).1
      exact absurd hwrong (by decide)
    · exact hr
  obtain ⟨-, rfl⟩ := Reads.number_then hb hn (Or.inr rfl) (Or.inr rfl) hu hv
  obtain ⟨w, u, r, hu, hw, hr⟩ := Reads.member_inv [0x63, 0x74] bare_ct (by decide) hmembers
  obtain ⟨t, rfl, hchars⟩ := Reads.string_inv hw
  have ht : t = ct := by
    have hfirst : (Json.obj ((chars [0x73], v) :: ms')).getItem "ct".toList =
        some (.str (chars t)) := by
      rcases hr with ⟨-, rfl⟩ | ⟨s', ms'', -, -, rfl⟩ <;> exact getItem_ct v _ _
    rw [hfirst] at hct
    exact chars_injective (by simpa using hct)
  obtain ⟨e, z, he, rfl⟩ : ∃ e z, (e = 0x7D ∨ e = 0x2C) ∧ r = e :: z := by
    rcases hr with ⟨rfl, -⟩ | ⟨s', -, rfl, -⟩
    · exact ⟨_, _, Or.inl rfl, rfl⟩
    · exact ⟨_, _, Or.inr rfl, rfl⟩
  -- the string ends at the quote behind the content type, or it is longer than that
  obtain ⟨raw, hraw, hsame | hlonger⟩ := hchars.raw_length
  · obtain ⟨rfl, hbare⟩ := hsame
    rw [ht] at hbare
    refine ⟨hbare, ?_⟩
    obtain ⟨-, hrest⟩ := hchars.plain_inv hbare
    obtain ⟨-, rfl, rfl⟩ := ws_unique hu (by rcases he with rfl | rfl <;> decide) (by decide) hrest
    obtain ⟨s', ms'', hsep, hmembers, -⟩ := hr.resolve_left fun h => absurd h.1 (by simp)
    obtain ⟨-, rfl⟩ := cons.inj hsep
    rw [hlen] at hmembers
    obtain ⟨v, u, r, hu, hv, hr⟩ :=
      Reads.member_inv [0x6C, 0x65, 0x6E] bare_len (isSolid_of_number hb') hmembers
    rcases hr with ⟨rfl, -⟩ | ⟨s', ms'', rfl, -⟩
    · exact (Reads.number_then hb' hn' (Or.inl rfl) (Or.inl rfl) hu hv).2.symm
    · have hwrong := (Reads.number_then hb' hn' (Or.inl rfl) (Or.inr rfl) hu hv).1
      exact absurd hwrong (by decide)
  · rw [ht] at hlonger
    obtain ⟨x, rfl, htail⟩ := Bleh.exists_append_of_le hraw.symm hlonger.le
    cases x with
    | nil =>
      rw [append_nil] at hlonger
      omega
    | cons d x => exact absurd (cons.inj htail).2.symm fun h => behind_quote hu he h

theorem HeadGivesBack.inv {cap : ℕ}
    (h : HeadGivesBack ((headText status len ct).take cap) status ct len) :
    BareCt ct ∧ (headText status len ct).length ≤ cap := by
  obtain ⟨-, ms, ⟨w, t, w', hw, -, htext, hreads⟩, -, hct, -⟩ := h
  have hwhole := take_append_drop cap (headText status len ct)
  generalize hrest : (headText status len ct).drop cap = rest at hwhole
  have hnil : w = [] := by
    cases w with
    | nil => rfl
    | cons d w =>
      rw [htext] at hwhole
      have hd := hw d mem_cons_self
      obtain ⟨rfl, -⟩ := cons.inj hwhole
      exact absurd hd (by decide)
  rw [hnil, nil_append] at htext
  have hmore := hreads.append rest
  rw [← htext, hwhole] at hmore
  obtain ⟨hbare, hend⟩ := reads_headText hmore hct
  refine ⟨hbare, ?_⟩
  obtain ⟨-, rfl⟩ := append_eq_nil_iff.mp hend
  exact drop_eq_nil_iff.mp hrest

/-- **A content type that needs no escape is given back** by the whole text. -/
theorem headText_says (hct : BareCt ct) :
    Says (headText status len ct) (.obj [(chars [0x73], .num status),
      (chars [0x63, 0x74], .str (chars ct)), (chars [0x6C, 0x65, 0x6E], .num len)]) := by
  have hnil : IsWs [] := fun b hb => absurd hb not_mem_nil
  refine ⟨[], _, [], hnil, hnil, rfl, .object ?_⟩
  refine Reads.member hnil hnil hnil hnil (.bare bare_s _) (.number (numberAt_intBytes status _)) ?_
  refine Reads.member hnil hnil hnil hnil (.bare bare_ct _) (.string (.bare hct _)) ?_
  exact Reads.lastMember hnil hnil hnil hnil (.bare bare_len _) (.number (numberAt_intBytes len _))

theorem length_headText (status len : ℤ) (ct : List UInt8) : (headText status len ct).length =
    (intBytes status).length + ct.length + (intBytes len).length + 21 := by
  rw [headText]
  simp only [List.length_cons, List.length_append, List.length_nil]
  omega

theorem isAscii_intBytes (i : ℤ) : IsAscii (intBytes i) := by
  obtain ⟨b, n, hi, -, hall⟩ := intBytes_cons i
  rw [hi]
  intro d hd
  rcases hall d hd with h | h
  · simp only [isDigit, Bool.and_eq_true, decide_eq_true_eq] at h
    have hle := UInt8.le_iff_toNat_le.mp h.2
    rw [show (0x39 : UInt8).toNat = 57 from rfl] at hle
    omega
  · simp only [mem_cons, not_mem_nil, or_false] at h
    rcases h with rfl | rfl | rfl | rfl | rfl <;> decide

theorem isUtf8_headText (status len : ℤ) (ct : List UInt8) :
    IsUtf8 (headText status len ct) ↔ IsUtf8 ct := by
  have hfront : headText status len ct =
      (0x7B :: 0x22 :: 0x73 :: 0x22 :: 0x3A :: (intBytes status ++ [0x2C, 0x22, 0x63, 0x74, 0x22,
        0x3A, 0x22])) ++ (ct ++ (0x22 :: 0x2C :: 0x22 :: 0x6C :: 0x65 :: 0x6E :: 0x22 :: 0x3A ::
          (intBytes len ++ [0x7D]))) := by
    simp [headText]
  have hlit : ∀ {a : List UInt8}, (a.all fun b => decide (b.toNat < 0x80)) = true → IsAscii a := by
    intro a ha b hb
    simpa using all_eq_true.mp ha b hb
  have happend : ∀ {a b : List UInt8}, IsAscii a → IsAscii b → IsAscii (a ++ b) := by
    intro a b ha hb d hd
    exact (mem_append.mp hd).elim (ha d) (hb d)
  rw [hfront, isUtf8_ascii_append, isUtf8_append_ascii]
  · exact happend (a := [0x22, 0x2C, 0x22, 0x6C, 0x65, 0x6E, 0x22, 0x3A]) (hlit rfl)
      (happend (isAscii_intBytes len) (hlit rfl))
  · exact happend (a := [0x7B, 0x22, 0x73, 0x22, 0x3A]) (hlit rfl)
      (happend (isAscii_intBytes status) (hlit rfl))

/-- **The head gives everything back** exactly if the content type is UTF-8 and
needs no escape, and it and the two printed numbers have room in the buffer. -/
theorem blehRspHead_givesBack_iff (status len : ℤ) (ct : List UInt8) :
    HeadGivesBack (blehRspHead 112 ⟨status, chars ct, len⟩) status ct len ↔
      IsUtf8 ct ∧ (∀ b ∈ ct, 0x20 ≤ b ∧ b ≠ 0x22 ∧ b ≠ 0x5C) ∧
        (toString status).length + ct.length + (toString len).length ≤ 90 := by
  have hlength : ∀ i : ℤ, (toString i).length = (intBytes i).length := by
    intro i
    rw [← textBytes_int, textBytes, List.length_map, String.length_toList]
  rw [blehRspHead_eq, hlength, hlength]
  constructor
  · intro h
    obtain ⟨hbare, hfits⟩ := h.inv
    have hutf8 := h.1
    rw [take_of_length_le hfits, isUtf8_headText] at hutf8
    rw [length_headText] at hfits
    exact ⟨hutf8, hbare, by omega⟩
  · rintro ⟨hutf8, hbare, hroom⟩
    have hfits : (headText status len ct).length ≤ 112 - 1 := by
      rw [length_headText]
      omega
    rw [take_of_length_le hfits]
    exact ⟨(isUtf8_headText status len ct).mpr hutf8, _, headText_says hbare, rfl, rfl, rfl⟩

/-- A quoted parameter ends the string. -/
theorem blehRspHead_quoted :
    ¬ ∀ (status len : ℤ) (ct : List UInt8),
      HeadGivesBack (blehRspHead 112 ⟨status, chars ct, len⟩) status ct len := by
  intro hclaim
  have hgives := hclaim 200 5 (textBytes "text/html; charset=\"utf-8\"".toList)
  rw [blehRspHead_eq] at hgives
  exact absurd (hgives.inv.1 0x22 (by decide)) not_isBare_quote

end Meatpi
