import Mathlib.Data.List.ReduceOption
import Mathlib.Data.List.TakeDrop

/-!
# ISO-TP segmentation

How a payload travels in frames (ISO 15765-2, normal addressing): a single
frame `0L` for up to seven bytes, else a first frame `1L LL` with the length
and six bytes, then consecutive frames `2N` of seven, the last padded in any
way.

`frameData` and `announced` are the receiver's two readings of a frame; the
main fact is that the data of the frames of a payload is the payload and some
padding, and that the length announced cuts the padding off.
-/

namespace Meatpi.IsoTp

open List

variable {f : List UInt8} {n : ℕ} {fs : List (List UInt8)} {payload : List UInt8}

/-- The consecutive frames of the rest of a payload, from sequence number `sn`;
the last one carries any padding that fits. -/
inductive Consecutive : ℕ → List UInt8 → List (List UInt8) → Prop
  | last (sn : ℕ) (data pad : List UInt8) :
      data ≠ [] → data.length + pad.length ≤ 7 →
      Consecutive sn data [UInt8.ofNat (0x20 + sn % 16) :: (data ++ pad)]
  | more (sn : ℕ) (data rest : List UInt8) (fs : List (List UInt8)) :
      data.length = 7 → rest ≠ [] → Consecutive (sn + 1) rest fs →
      Consecutive sn (data ++ rest) ((UInt8.ofNat (0x20 + sn % 16) :: data) :: fs)

/-- The first frame of a payload of `len` bytes that starts with `data`. -/
def firstFrame (len : ℕ) (data : List UInt8) : List UInt8 :=
  UInt8.ofNat (0x10 + len / 256) :: UInt8.ofNat (len % 256) :: data

/-- The frames of a payload, with any padding. -/
inductive Segmented : List UInt8 → List (List UInt8) → Prop
  | single (data pad : List UInt8) :
      data ≠ [] → data.length + pad.length ≤ 7 →
      Segmented data [UInt8.ofNat data.length :: (data ++ pad)]
  | multi (data rest : List UInt8) (fs : List (List UInt8)) :
      data.length = 6 → 2 ≤ rest.length → data.length + rest.length < 4096 →
      Consecutive 1 rest fs →
      Segmented (data ++ rest) (firstFrame (data.length + rest.length) data :: fs)

/-! ## The receiver's reading -/

/-- The payload bytes of a frame by its PCI nibble; a frame without one is data. -/
def frameData (f : List UInt8) : List UInt8 :=
  match (f.getD 0 0).toNat / 16 with
  | 0 => (f.drop 1).take ((f.getD 0 0).toNat % 16)
  | 1 => f.drop 2
  | 2 => f.drop 1
  | _ => f

/-- The length a first frame announces. -/
def announced (f : List UInt8) : Option ℕ :=
  if (f.getD 0 0).toNat / 16 = 1 then
    some (((f.getD 0 0).toNat % 16) * 256 + (f.getD 1 0).toNat)
  else none

/-- What frames of a well-formed transfer have in common: two to eight bytes
and a PCI that fits them. -/
structure Frame (f : List UInt8) : Prop where
  two_le : 2 ≤ f.length
  le_eight : f.length ≤ 8
  pci : (f.getD 0 0).toNat / 16 ≤ 2
  single : (f.getD 0 0).toNat / 16 = 0 →
    1 ≤ (f.getD 0 0).toNat % 16 ∧ (f.getD 0 0).toNat % 16 < f.length
  first : (f.getD 0 0).toNat / 16 = 1 → 3 ≤ f.length

theorem Frame.data (h : Frame f) : frameData f ≠ [] ∧ (frameData f).length ≤ 8 := by
  have h2 := h.two_le
  have h8 := h.le_eight
  have hpci := h.pci
  rw [← length_pos_iff]
  obtain h0 | h0 | h0 : (f.getD 0 0).toNat / 16 = 0 ∨ (f.getD 0 0).toNat / 16 = 1 ∨
      (f.getD 0 0).toNat / 16 = 2 := by omega
  · have := h.single h0
    simp only [frameData, h0, length_take, length_drop]
    omega
  · have := h.first h0
    simp only [frameData, h0, length_drop]
    omega
  · simp only [frameData, h0, length_drop]
    omega

theorem toNat_single (h : n ≤ 7) : (UInt8.ofNat n).toNat = n := by
  simp only [UInt8.toNat_ofNat']
  omega

theorem toNat_consecutive (sn : ℕ) : (UInt8.ofNat (0x20 + sn % 16)).toNat = 32 + sn % 16 := by
  simp only [UInt8.toNat_ofNat']
  omega

theorem toNat_first (h : n < 16) : (UInt8.ofNat (0x10 + n)).toNat = 16 + n := by
  simp only [UInt8.toNat_ofNat']
  omega

section Consecutive

variable (sn : ℕ) (data : List UInt8)

theorem frameData_consecutive : frameData (UInt8.ofNat (0x20 + sn % 16) :: data) = data := by
  have hpci : (32 + sn % 16) / 16 = 2 := by omega
  simp only [frameData, getD_cons_zero, toNat_consecutive, hpci, drop_succ_cons,
    drop_zero]

theorem announced_consecutive : announced (UInt8.ofNat (0x20 + sn % 16) :: data) = none := by
  have hpci : (32 + sn % 16) / 16 ≠ 1 := by omega
  simp only [announced, getD_cons_zero, toNat_consecutive, hpci, if_false]

theorem frame_consecutive (h : data ≠ []) (h7 : data.length ≤ 7) :
    Frame (UInt8.ofNat (0x20 + sn % 16) :: data) where
  two_le := by
    have := length_pos_of_ne_nil h
    simp only [length_cons]
    omega
  le_eight := by simp only [length_cons]; omega
  pci := by
    simp only [getD_cons_zero, toNat_consecutive]
    omega
  single := by
    simp only [getD_cons_zero, toNat_consecutive]
    omega
  first := by
    simp only [getD_cons_zero, toNat_consecutive]
    omega

end Consecutive

/-- The consecutive frames carry the rest of the payload and padding, announce
nothing, and are frames. -/
theorem Consecutive.read {sn : ℕ} {data : List UInt8} (h : Consecutive sn data fs) :
    (∃ pad, fs.flatMap frameData = data ++ pad) ∧ fs.filterMap announced = [] ∧
      ∀ f ∈ fs, Frame f := by
  induction h with
  | last sn data pad hne hlen =>
    refine ⟨⟨pad, ?_⟩, ?_, ?_⟩
    · simp only [flatMap_cons, frameData_consecutive, flatMap_nil, append_nil]
    · rw [filterMap_cons_none (announced_consecutive _ _), filterMap_nil]
    · intro f hf
      rw [mem_singleton.mp hf]
      exact frame_consecutive sn (data ++ pad) (by simp [hne])
        (by rw [length_append]; exact hlen)
  | more sn data rest fs hlen _ _ ih =>
    obtain ⟨⟨pad, hpad⟩, hann, hfs⟩ := ih
    refine ⟨⟨pad, ?_⟩, ?_, ?_⟩
    · rw [flatMap_cons, frameData_consecutive, hpad, append_assoc]
    · rw [filterMap_cons_none (announced_consecutive _ _), hann]
    · intro f hf
      rcases mem_cons.mp hf with rfl | hf
      · refine frame_consecutive sn data ?_ (by omega)
        rintro rfl
        simp at hlen
      · exact hfs f hf

section First

variable {len : ℕ} (hlen : len < 4096) (data : List UInt8)

include hlen

theorem frameData_firstFrame : frameData (firstFrame len data) = data := by
  have hpci : (16 + len / 256) / 16 = 1 := by omega
  simp only [frameData, firstFrame, getD_cons_zero,
    toNat_first (show len / 256 < 16 by omega), hpci, drop_succ_cons, drop_zero]

theorem announced_firstFrame : announced (firstFrame len data) = some len := by
  have hpci : (16 + len / 256) / 16 = 1 := by omega
  have hlow : (UInt8.ofNat (len % 256)).toNat = len % 256 := by
    simp only [UInt8.toNat_ofNat']
    omega
  simp only [announced, firstFrame, getD_cons_zero, getD_cons_succ,
    toNat_first (show len / 256 < 16 by omega), hpci, hlow, if_true, Option.some.injEq]
  omega

theorem frame_firstFrame (h6 : data.length = 6) : Frame (firstFrame len data) where
  two_le := by simp only [firstFrame, length_cons]; omega
  le_eight := by simp only [firstFrame, length_cons]; omega
  pci := by
    simp only [firstFrame, getD_cons_zero, toNat_first (show len / 256 < 16 by omega)]
    omega
  single := by
    simp only [firstFrame, getD_cons_zero, toNat_first (show len / 256 < 16 by omega)]
    omega
  first := by
    simp only [firstFrame, length_cons]
    omega

end First

/-- **Segmentation read back**: the frames carry the payload and padding; the
padding is empty, or the one length announced is the payload's. -/
theorem Segmented.read (h : Segmented payload fs) :
    (∃ pad, fs.flatMap frameData = payload ++ pad ∧
      (fs.filterMap announced = [] ∧ pad = [] ∨ fs.filterMap announced = [payload.length])) ∧
      ∀ f ∈ fs, Frame f := by
  cases h with
  | single _ pad hne hlen =>
    have h7 : payload.length ≤ 7 := by omega
    have hpci : payload.length / 16 = 0 := by omega
    have hmod : payload.length % 16 = payload.length := by omega
    have hpos := length_pos_of_ne_nil hne
    refine ⟨⟨[], ?_, .inl ⟨?_, rfl⟩⟩, ?_⟩
    · simp only [flatMap_cons, flatMap_nil, frameData, getD_cons_zero,
        toNat_single h7, hpci, hmod, drop_succ_cons, drop_zero, take_left,
        append_nil]
    · have hnone : announced (UInt8.ofNat payload.length :: (payload ++ pad)) = none := by
        simp only [announced, getD_cons_zero, toNat_single h7, hpci, Nat.zero_ne_one, if_false]
      rw [filterMap_cons_none hnone, filterMap_nil]
    · intro f hf
      rw [mem_singleton.mp hf]
      refine ⟨?_, ?_, ?_, ?_, ?_⟩
      · simp only [length_cons, length_append]; omega
      · simp only [length_cons, length_append]; omega
      · simp only [getD_cons_zero, toNat_single h7]; omega
      · simp only [getD_cons_zero, toNat_single h7, length_cons, length_append]
        omega
      · simp only [getD_cons_zero, toNat_single h7]; omega
  | multi data rest fs h6 _ hlt hcons =>
    obtain ⟨⟨pad, hpad⟩, hann, hfs⟩ := hcons.read
    refine ⟨⟨pad, ?_, .inr ?_⟩, ?_⟩
    · rw [flatMap_cons, frameData_firstFrame hlt, hpad, append_assoc]
    · rw [filterMap_cons_some (announced_firstFrame hlt data), hann, length_append]
    · intro f hf
      rcases mem_cons.mp hf with rfl | hf
      · exact frame_firstFrame hlt data h6
      · exact hfs f hf

/-- The bytes of a payload of `len` bytes that its first `k` frames carry. -/
def carried (len k : ℕ) : ℕ := if len ≤ 7 then len else 6 + 7 * (k - 1)

/-- The first consecutive frames carry the start of the rest; padding comes
after all of it. -/
theorem Consecutive.read_take {sn : ℕ} {data : List UInt8} (h : Consecutive sn data fs) :
    ∀ k, ∃ pad, (fs.take k).flatMap frameData = data.take (7 * k) ++ pad ∧
        (pad = [] ∨ data.length ≤ 7 * k) := by
  induction h with
  | last sn data pad hne hlen =>
    intro k
    cases k with
    | zero => exact ⟨[], rfl, .inl rfl⟩
    | succ k =>
      have hall : data.length ≤ 7 * (k + 1) := by omega
      refine ⟨pad, ?_, .inr hall⟩
      simp only [take_succ_cons, take_nil, flatMap_cons, frameData_consecutive,
        flatMap_nil, append_nil, take_of_length_le hall]
  | more sn data rest fs hlen _ _ ih =>
    intro k
    cases k with
    | zero => exact ⟨[], rfl, .inl rfl⟩
    | succ k =>
      obtain ⟨pad, hpad, hend⟩ := ih k
      refine ⟨pad, ?_, hend.imp_right fun hend => ?_⟩
      · have hcut : (data ++ rest).take (7 * (k + 1)) = data ++ rest.take (7 * k) := by
          rw [show 7 * (k + 1) = data.length + 7 * k by omega, take_length_add_append]
        rw [take_succ_cons, flatMap_cons, frameData_consecutive, hpad, hcut,
          append_assoc]
      · rw [length_append]
        omega

/-- **A transfer cut short**: the first frames carry the start of the payload,
and announce the whole of it. -/
theorem Segmented.read_take (h : Segmented payload fs) {k : ℕ} (hk : 0 < k) :
    ∃ pad, (fs.take k).flatMap frameData = payload.take (carried payload.length k) ++ pad ∧
      ((fs.take k).filterMap announced = [] ∧ pad = [] ∨
        (fs.take k).filterMap announced = [payload.length] ∧
          (pad = [] ∨ payload.length ≤ carried payload.length k)) := by
  obtain ⟨j, rfl⟩ : ∃ j, k = j + 1 := ⟨k - 1, by omega⟩
  cases h with
  | single _ pad hne hlen =>
    obtain ⟨⟨pad', hdata, hann⟩, -⟩ := (Segmented.single payload pad hne hlen).read
    have hcut : payload.take (carried payload.length (j + 1)) = payload := by
      rw [carried, if_pos (by omega), take_length]
    rw [take_succ_cons, take_nil, hcut]
    refine ⟨pad', hdata, hann.imp_right fun hann => ⟨hann, .inr ?_⟩⟩
    have hall : carried payload.length (j + 1) = payload.length := by
      rw [carried, if_pos (by omega)]
    exact Nat.le_of_eq hall.symm
  | multi data rest fs h6 h2 hlt hcons =>
    obtain ⟨pad, hpad, hend⟩ := hcons.read_take j
    have hcarried : carried (data ++ rest).length (j + 1) = data.length + 7 * j := by
      rw [carried, length_append, if_neg (by omega)]
      omega
    have hann : (fs.take j).filterMap announced = [] := by
      rw [filterMap_eq_nil_iff]
      intro f hf
      exact filterMap_eq_nil_iff.mp hcons.read.2.1 f (mem_of_mem_take hf)
    refine ⟨pad, ?_, .inr ⟨?_, hend.imp_right fun hend => ?_⟩⟩
    · rw [take_succ_cons, flatMap_cons, frameData_firstFrame hlt, hpad, hcarried,
        take_length_add_append, append_assoc]
    · rw [take_succ_cons, filterMap_cons_some (announced_firstFrame hlt data), hann,
        length_append]
    · rw [hcarried, length_append]
      omega

theorem Segmented.ne_nil (h : Segmented payload fs) : payload ≠ [] := by
  cases h with
  | single _ pad hne _ => exact hne
  | multi data rest fs _ h2 _ _ =>
    intro heq
    have hlen := congrArg length heq
    rw [length_append, length_nil] at hlen
    omega

theorem Consecutive.pci_ge {sn : ℕ} {data : List UInt8} (h : Consecutive sn data fs) :
    ∀ f ∈ fs, 32 ≤ (f.getD 0 0).toNat := by
  induction h with
  | last sn data pad _ _ =>
    intro f hf
    rw [mem_singleton.mp hf, getD_cons_zero, toNat_consecutive]
    omega
  | more sn data rest fs _ _ _ ih =>
    intro f hf
    rcases mem_cons.mp hf with rfl | hf
    · rw [getD_cons_zero, toNat_consecutive]
      omega
    · exact ih f hf

theorem Segmented.eq_single (h : Segmented payload fs) (hf : f ∈ fs)
    (hpci : (f.getD 0 0).toNat < 16) :
    payload.length ≤ 7 ∧ ∃ pad, f = UInt8.ofNat payload.length :: (payload ++ pad) := by
  cases h with
  | single _ pad hne hlen =>
    exact ⟨by omega, pad, mem_singleton.mp hf⟩
  | multi data rest fs _ _ hlt hcons =>
    exfalso
    rcases mem_cons.mp hf with rfl | hf
    · rw [firstFrame, getD_cons_zero,
        toNat_first (show (data.length + rest.length) / 256 < 16 by omega)] at hpci
      omega
    · have := hcons.pci_ge f hf
      omega

theorem Segmented.of_le_seven (h : Segmented payload fs) (h7 : payload.length ≤ 7) :
    ∃ pad, fs = [UInt8.ofNat payload.length :: (payload ++ pad)] := by
  cases h with
  | single _ pad hne hlen => exact ⟨pad, rfl⟩
  | multi data rest fs h6 h2 _ _ =>
    rw [length_append] at h7
    omega

theorem Consecutive.length_eq {sn : ℕ} {data : List UInt8} (h : Consecutive sn data fs) :
    fs.length = (data.length + 6) / 7 := by
  induction h with
  | last sn data pad hne hlen =>
    have := length_pos_of_ne_nil hne
    simp only [length_singleton]
    omega
  | more sn data rest fs hlen _ _ ih =>
    simp only [length_cons, length_append, ih]
    omega

theorem Segmented.length_eq {fs' : List (List UInt8)} (h : Segmented payload fs)
    (h' : Segmented payload fs') : fs.length = fs'.length := by
  have hlen : ∀ {fs : List (List UInt8)}, Segmented payload fs →
      fs.length = if payload.length ≤ 7 then 1 else 1 + payload.length / 7 := by
    intro fs h
    cases h with
    | single _ pad hne hlen => rw [if_pos (by omega)]; rfl
    | multi data rest fs h6 h2 hlt hcons =>
      rw [length_append, if_neg (by omega), length_cons, hcons.length_eq]
      omega
  rw [hlen h, hlen h']

/-! ## The segmentation a sender chooses -/

/-- The consecutive frames of `data`, the last padded with zeros; `n` bounds
their number. -/
def consecutives : ℕ → ℕ → List UInt8 → List (List UInt8)
  | 0, _, _ => []
  | n + 1, sn, data =>
    if data = [] then []
    else
      (UInt8.ofNat (0x20 + sn % 16) :: (data.take 7 ++ replicate (7 - data.length) 0)) ::
        consecutives n (sn + 1) (data.drop 7)

/-- A single frame trimmed to its length, or first and consecutive frames with
the last one padded with zeros. -/
def segment (payload : List UInt8) : List (List UInt8) :=
  if payload.length ≤ 7 then [UInt8.ofNat payload.length :: payload]
  else
    firstFrame payload.length (payload.take 6) ::
      consecutives payload.length 1 (payload.drop 6)

theorem consecutive_consecutives (sn : ℕ) {data : List UInt8} (hlen : data.length ≤ n)
    (hne : data ≠ []) : Consecutive sn data (consecutives n sn data) := by
  induction n generalizing sn data with
  | zero =>
    exact absurd (eq_nil_of_length_eq_zero (by omega)) hne
  | succ n ih =>
    rw [consecutives, if_neg hne]
    by_cases h7 : data.length ≤ 7
    · have hrest : data.drop 7 = [] := drop_eq_nil_of_le h7
      have hnil : consecutives n (sn + 1) [] = [] := by cases n <;> simp [consecutives]
      rw [hrest, hnil, take_of_length_le h7]
      exact .last sn data _ hne (by rw [length_replicate]; omega)
    · have hlen7 : (data.take 7).length = 7 := by
        rw [length_take]
        omega
      have hrest : (data.drop 7).length ≤ n := by
        rw [length_drop]
        omega
      have hrne : data.drop 7 ≠ [] := by
        intro h
        have := congrArg length h
        rw [length_drop, length_nil] at this
        omega
      have hpad : 7 - data.length = 0 := by omega
      have := Consecutive.more sn (data.take 7) (data.drop 7) _ hlen7 hrne (ih (sn + 1) hrest hrne)
      rw [hpad, replicate_zero, append_nil]
      rwa [take_append_drop] at this

/-- **Every payload is segmented.** -/
theorem segmented_segment (hne : payload ≠ []) (hlen : payload.length < 4096) :
    Segmented payload (segment payload) := by
  rw [segment]
  split_ifs with h7
  · have := Segmented.single payload [] hne (by simpa using h7)
    rwa [append_nil] at this
  · have hdrop : (payload.drop 6).length = payload.length - 6 := length_drop
    have hrne : payload.drop 6 ≠ [] := by
      intro h
      have := congrArg length h
      rw [length_nil] at this
      omega
    have hlen6 : (payload.take 6).length = 6 := by
      rw [length_take]
      omega
    have hcons := consecutive_consecutives (n := payload.length) 1 (by rw [hdrop]; omega) hrne
    have := Segmented.multi (payload.take 6) (payload.drop 6) _ hlen6 (by omega) (by omega) hcons
    rwa [← length_append, take_append_drop] at this

end Meatpi.IsoTp
