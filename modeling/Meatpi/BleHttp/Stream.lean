import Mathlib.Data.Nat.Bitwise
import Meatpi.BleHttp.Effects

/-!
# Frames in a stream of bytes

Whole frames that come as a stream of bytes are handled one by one and in order,
however the stream is cut into calls (`Bleh.Reading.rxData`).
-/

namespace Meatpi

open BlehFrame List Nat UInt16

variable {f : BlehFrame} {more : List UInt8}

/-! ## The header of a frame -/

theorem halves_or (x : UInt16) :
    (x &&& 0xFF).toUInt8.toUInt16 ||| ((x >>> 8).toUInt8.toUInt16 <<< 8) = x := by
  have hx := x.toNat_lt
  have hlow : (x &&& 0xFF).toUInt8.toUInt16.toNat = x.toNat % 2 ^ 8 := by
    rw [UInt8.toNat_toUInt16, toNat_toUInt8, UInt16.toNat_and,
      show (0xFF : UInt16).toNat = 2 ^ 8 - 1 from rfl, and_two_pow_sub_one_eq_mod]
    omega
  have hhigh : ((x >>> 8).toUInt8.toUInt16 <<< 8).toNat = 2 ^ 8 * (x.toNat / 2 ^ 8) := by
    rw [UInt16.toNat_shiftLeft, UInt8.toNat_toUInt16, toNat_toUInt8,
      UInt16.toNat_shiftRight, show (8 : UInt16).toNat % 16 = 8 from rfl]
    omega
  apply UInt16.toNat_inj.mp
  rw [UInt16.toNat_or, hlow, hhigh, lor_comm, ← two_pow_add_eq_or_of_lt (mod_lt _ (by omega))]
  omega

namespace BlehFrame

def hdr (f : BlehFrame) : BlehHdr :=
  ⟨f.type, f.flags, f.seq, UInt16.ofNat f.payload.length⟩

/-- A frame the header can describe. -/
structure Formed (f : BlehFrame) : Prop where
  le_type : blehTReq ≤ f.type
  type_le : f.type ≤ blehTCredit
  length_le : f.payload.length ≤ blehFrameMax

theorem length_bytes (f : BlehFrame) : f.bytes.length = blehHdrSize + f.payload.length := by
  rw [bytes, length_append]
  rfl

theorem toNat_hdr_len (hf : f.Formed) : f.hdr.len.toNat = f.payload.length := by
  have hle := hf.length_le
  rw [blehFrameMax] at hle
  rw [hdr, toNat_ofNat']
  omega

theorem blehHdrParse_hdr (hf : f.Formed) (rest : List UInt8) :
    blehHdrParse (blehHdrBuild f.type f.flags f.seq (UInt16.ofNat f.payload.length) ++ rest) =
      some f.hdr := by
  have htype : ¬ (f.type < blehTReq ∨ blehTCredit < f.type) := by
    rw [not_or]
    exact ⟨UInt8.not_lt.mpr hf.le_type, UInt8.not_lt.mpr hf.type_le⟩
  have hlen : ¬ blehFrameMax < (UInt16.ofNat f.payload.length).toNat := by
    have hle := hf.length_le
    rw [← toNat_hdr_len hf] at hle
    exact not_lt.mpr hle
  rw [blehHdrBuild]
  simp only [cons_append, nil_append]
  rw [blehHdrParse, if_neg htype, halves_or, halves_or, if_neg hlen]
  rfl

end BlehFrame

namespace Bleh

variable {β : Type} {env : BlehEnv β}

/-! ## The receive buffer -/

@[simp]
theorem emitError_rx (w : Bleh β) (seq : UInt16) (status : ℤ) (err : String) :
    (emitError env w seq status err).rx = w.rx := by
  obtain ⟨ctx, ctr, more, refused, heq, -⟩ := emitError_eq env w seq status err
  rw [heq]

@[simp]
theorem goIdle_rx (w : Bleh β) : (goIdle env w).rx = w.rx := by
  obtain ⟨ctx, heq⟩ := goIdle_eq env w
  rw [heq]

@[simp]
theorem upstreamClose_rx (w : Bleh β) : (upstreamClose env w).rx = w.rx := by
  obtain ⟨ctx, heq⟩ := upstreamClose_eq env w
  rw [heq]

@[simp]
theorem emitLast_rx (w : Bleh β) : (emitLast env w).rx = w.rx := by
  obtain ⟨ctx, ctr, refused, heq⟩ := emitLast_eq env w
  rw [heq]

@[simp]
theorem failBody_rx (w : Bleh β) (status : ℤ) (err : String) :
    (failBody env w status err).rx = w.rx := by
  rw [failBody, goIdle_rx, emitError_rx]

@[simp]
theorem finishRequest_rx (w : Bleh β) (nowMs : UInt32) : (finishRequest env w nowMs).rx = w.rx := by
  have hfinished := finishRequest_finished env w nowMs
  generalize finishRequest env w nowMs = w' at hfinished
  cases hfinished with
  | failed => rfl
  | refused => rfl
  | streams => rfl

@[simp]
theorem tookBody_rx (w : Bleh β) (h : BlehHdr) (nowMs : UInt32) :
    (tookBody env w h nowMs).rx = w.rx := by
  have htook := tookBody_took env w h nowMs
  generalize tookBody env w h nowMs = w' at htook
  cases htook with
  | short => exact failBody_rx w 400 "short"
  | whole => exact finishRequest_rx w nowMs
  | credit => rfl
  | refused => rfl
  | waits => rfl

theorem onReq_rx (w : Bleh β) (h : BlehHdr) (payload : List UInt8) (nowMs : UInt32) :
    (onReq env w h payload nowMs).rx = w.rx := by
  rw [onReq]
  split
  · exact emitError_rx _ h.seq 429 "busy"
  split
  · exact emitError_rx _ h.seq _ _
  dsimp only
  split
  · exact emitError_rx _ h.seq 502 "upstream"
  split
  · exact finishRequest_rx _ nowMs
  · rfl

theorem onReqBody_rx (w : Bleh β) (h : BlehHdr) (payload : List UInt8) (nowMs : UInt32) :
    (onReqBody env w h payload nowMs).rx = w.rx := by
  rw [onReqBody]
  split
  · rfl
  split
  · exact failBody_rx _ 400 "hole"
  split
  · exact failBody_rx _ 400 "len"
  obtain ⟨ctx, calls, ok, heq, -⟩ := writeBody_eq env { w with
    lastActivityMs := nowMs
    reqCtr := (w.reqCtr + 1) &&& 0x0F } payload
  rw [heq]
  cases ok with
  | false => exact failBody_rx _ 502 "upstream"
  | true => exact tookBody_rx _ h nowMs

theorem onAbort_rx (w : Bleh β) (h : BlehHdr) : (onAbort env w h).rx = w.rx := by
  rw [onAbort]
  split
  · rfl
  split
  · rw [failBody_rx, upstreamClose_rx]
  · rw [goIdle_rx, emitLast_rx, upstreamClose_rx]
  · rfl

theorem handleFrame_rx (w : Bleh β) (h : BlehHdr) (payload : List UInt8) (nowMs : UInt32) :
    (handleFrame env w h payload nowMs).rx = w.rx := by
  rw [handleFrame]
  split
  · exact onReq_rx _ h payload nowMs
  split
  · exact onReqBody_rx _ h payload nowMs
  split
  · exact onAbort_rx _ h
  split
  · rw [onCredit]
    split <;> rfl
  · rfl

/-! ## Reassembly -/

variable {frames : List BlehFrame} {I : List BlehFrame → Bleh β → Prop}

/-- Some of the frames are handled, with `I` of them, and the rest is what is in
the buffer, short of a frame, and what is still to come. -/
def Reading (frames : List BlehFrame) (I : List BlehFrame → Bleh β → Prop) (w : Bleh β)
    (more : List UInt8) : Prop :=
  ∃ done later, frames = done ++ later ∧ I done w ∧
    w.rx ++ more = later.flatMap BlehFrame.bytes ∧
    ∀ f rest, later = f :: rest → w.rx.length < f.bytes.length

theorem Reading.same {w w' : Bleh β} (h : Reading frames I w more)
    (hI : ∀ done, I done w → I done w') (hrx : w'.rx = w.rx) : Reading frames I w' more := by
  obtain ⟨done, later, hframes, hdone, hstream, hshort⟩ := h
  refine ⟨done, later, hframes, hI done hdone, ?_, ?_⟩
  · rw [hrx]
    exact hstream
  · rw [hrx]
    exact hshort

/-- What `I` has to do: it says nothing of the buffer, and the next frame keeps it. -/
structure Reads (env : BlehEnv β) (frames : List BlehFrame)
    (I : List BlehFrame → Bleh β → Prop) : Prop where
  formed : ∀ f ∈ frames, f.Formed
  rx : ∀ done w rx ctr, I done w → I done { w with
    rx := rx
    ctr := ctr }
  handle : ∀ done f later w nowMs, frames = done ++ f :: later → I done w →
    I (done ++ [f]) (handleFrame env w f.hdr f.payload nowMs)

theorem exists_append_of_le {α : Type} {a b c d : List α} (h : a ++ b = c ++ d)
    (hle : c.length ≤ a.length) : ∃ t, a = c ++ t ∧ t ++ b = d := by
  obtain ⟨t, rfl, rfl⟩ | ⟨t, rfl, rfl⟩ := append_eq_append_iff.mp h
  · rw [length_append] at hle
    obtain rfl := length_eq_zero_iff.mp (show t.length = 0 by omega)
    exact ⟨[], by simp⟩
  · exact ⟨t, rfl, rfl⟩

theorem Reads.rxFrames (hreads : Reads env frames I) (nowMs : UInt32) (more : List UInt8) (n : ℕ)
    (w : Bleh β) (done later : List BlehFrame) (hn : w.rx.length ≤ n)
    (hframes : frames = done ++ later) (hI : I done w)
    (hbytes : w.rx ++ more = later.flatMap BlehFrame.bytes) :
    Reading frames I (rxFrames env nowMs n w) more := by
  induction n generalizing w done later with
  | zero =>
    refine ⟨done, later, hframes, hI, hbytes, ?_⟩
    intro f rest _
    rw [length_bytes, blehHdrSize, show (Bleh.rxFrames env nowMs 0 w).rx = w.rx from rfl]
    omega
  | succ n ih =>
    rw [Bleh.rxFrames]
    by_cases hshort : w.rx.length < blehHdrSize
    · rw [if_pos hshort]
      refine ⟨done, later, hframes, hI, hbytes, fun f rest _ => ?_⟩
      rw [length_bytes]
      omega
    rw [if_neg hshort]
    cases later with
    | nil =>
      have hnil : w.rx = [] := (append_eq_nil_iff.mp hbytes).1
      rw [hnil] at hshort
      exact absurd (show 0 < blehHdrSize by decide) hshort
    | cons f rest =>
      have hf := hreads.formed f (by simp [hframes])
      rw [flatMap_cons, BlehFrame.bytes, append_assoc] at hbytes
      obtain ⟨tail, hrx, htail⟩ := exists_append_of_le hbytes (not_lt.mp hshort)
      have hparse : blehHdrParse w.rx = some f.hdr := by
        rw [hrx]
        exact blehHdrParse_hdr hf tail
      have hdrop : w.rx.drop blehHdrSize = tail := by
        rw [hrx]
        rfl
      have hlength : w.rx.length = blehHdrSize + tail.length := by
        rw [hrx, length_append]
        rfl
      rw [hparse]
      dsimp only
      rw [toNat_hdr_len hf]
      by_cases hpart : w.rx.length < blehHdrSize + f.payload.length
      · rw [if_pos hpart]
        refine ⟨done, f :: rest, hframes, hI, ?_, fun g gs hg => ?_⟩
        · rw [flatMap_cons, BlehFrame.bytes, append_assoc, hbytes]
        · obtain ⟨rfl, -⟩ := cons.inj hg
          rw [length_bytes]
          exact hpart
      rw [if_neg hpart]
      obtain ⟨last, rfl, hlast⟩ := exists_append_of_le htail (by omega)
      rw [hdrop, take_left, handleFrame_rx, ← drop_drop, hdrop, drop_left]
      have hhandled := hreads.handle done f rest w nowMs hframes hI
      apply ih _ (done ++ [f]) rest
      · dsimp only
        rw [length_append] at hlength
        rw [blehHdrSize] at hlength
        omega
      · rw [hframes, append_assoc]
        rfl
      · exact hreads.rx _ _ last _ hhandled
      · exact hlast

/-- **Reassembly**: a call that brings more of the stream handles the frames it
completes, and no others. -/
theorem Reading.rxData (hreads : Reads env frames I) {w : Bleh β} {data : List UInt8}
    (h : Reading frames I w (data ++ more)) (nowMs : UInt32) :
    Reading frames I (rxData env w data nowMs) more := by
  have hbytes : ∀ (n : ℕ) (w : Bleh β) (data : List UInt8), data.length ≤ n →
      Reading frames I w (data ++ more) → Reading frames I (rxBytes env nowMs n w data) more := by
    intro n
    induction n with
    | zero =>
      intro w data hn hreading
      obtain rfl := length_eq_zero_iff.mp (le_zero.mp hn)
      exact hreading
    | succ n ih =>
      intro w data hn hreading
      rw [rxBytes]
      by_cases hdata : data = []
      · rw [if_pos hdata]
        rw [hdata] at hreading
        exact hreading
      rw [if_neg hdata]
      obtain ⟨done, later, hframes, hI, hstream, hshort⟩ := hreading
      have hroom : w.rx.length < blehFrameBuf := by
        cases later with
        | nil =>
          rw [flatMap_nil, append_eq_nil_iff, append_eq_nil_iff] at hstream
          exact absurd hstream.2.1 hdata
        | cons f rest =>
          have hf := (hreads.formed f (by simp [hframes])).length_le
          have hlt := hshort f rest rfl
          rw [length_bytes] at hlt
          rw [blehFrameBuf]
          omega
      apply ih
      · rw [length_drop]
        omega
      · apply hreads.rxFrames nowMs _ _ _ done later (le_refl _) hframes (hreads.rx _ _ _ w.ctr hI)
        rw [append_assoc, ← append_assoc (data.take _), take_append_drop]
        exact hstream
  exact hbytes data.length w data (le_refl _) h

end Bleh

end Meatpi
