import Meatpi.J2534.Proto

/-!
# Frames come through whole

The reader asks for the twelve bytes of a header and then for exactly as many as
it says, so a frame never runs into the next one, however the transport cuts up
the bytes: as long as it does not stay silent for the idle limit, a frame's reads
come to an end (`readExact_link`), and the frames of a link are read one by one.
-/

namespace Meatpi

open List

variable {msg : PassthruMsg} {done : ℕ} {cap : ℕ}

/-! ## Encodings read back -/

theorem length_j2534HdrEncode (type : UInt8) (seq channel : UInt16) (length : UInt32) :
    (j2534HdrEncode type seq channel length).length = j2534HdrSize := rfl

theorem j2534HdrDecode_encode (type : UInt8) (seq channel : UInt16) (length : UInt32)
    (rest : List UInt8) :
    j2534HdrDecode (j2534HdrEncode type seq channel length ++ rest) =
      some ⟨type, seq, channel, length⟩ := by
  have hseq : getLe (j2534HdrEncode type seq channel length ++ rest) 4 2 = seq.toNat :=
    ofLeBytes_leBytes (w := 2) seq.toNat_lt
  have hchannel : getLe (j2534HdrEncode type seq channel length ++ rest) 6 2 = channel.toNat :=
    ofLeBytes_leBytes (w := 2) channel.toNat_lt
  have hlength : getLe (j2534HdrEncode type seq channel length ++ rest) 8 4 = length.toNat :=
    ofLeBytes_leBytes (w := 4) length.toNat_lt
  have hlong : ¬(j2534HdrEncode type seq channel length ++ rest).length < j2534HdrSize := by
    rw [length_append, length_j2534HdrEncode]
    omega
  have hmagic : getLe (j2534HdrEncode type seq channel length ++ rest) 0 2 = j2534Magic :=
    ofLeBytes_leBytes (w := 2) (by decide)
  rw [j2534HdrDecode, if_neg hlong, if_neg, hseq, hchannel, hlength, UInt16.ofNat_toNat,
    UInt16.ofNat_toNat, UInt32.ofNat_toNat]
  · rfl
  · rw [hmagic]
    intro h
    rcases h with h | h
    · exact h rfl
    · exact h rfl

theorem length_j2534MsgEncode (hdata : msg.data.length ≤ j2534MaxData)
    (hcap : j2534MsgFixed + msg.data.length ≤ cap) :
    (j2534MsgEncode msg cap).length = j2534MsgFixed + msg.data.length := by
  rw [j2534MsgEncode, if_neg (by omega), if_neg (by omega)]
  simp only [length_append, length_leBytes]
  rfl

/-- **A message is read back**, whatever follows it in the buffer. -/
theorem j2534MsgDecode_encode (rest : List UInt8) (hdata : msg.data.length ≤ j2534MaxData)
    (hcap : j2534MsgFixed + msg.data.length ≤ cap) :
    j2534MsgDecode (j2534MsgEncode msg cap ++ rest) = some msg := by
  have hlen : (j2534MsgEncode msg cap ++ rest).length =
      j2534MsgFixed + msg.data.length + rest.length := by
    rw [length_append, length_j2534MsgEncode hdata hcap]
  have hbytes : j2534MsgEncode msg cap ++ rest =
      leBytes 4 msg.protocolId.toNat ++ (leBytes 4 msg.rxStatus.toNat ++
        (leBytes 4 msg.txFlags.toNat ++ (leBytes 4 msg.timestamp.toNat ++
          (leBytes 4 msg.extraDataIndex.toNat ++ (leBytes 4 msg.data.length ++
            (msg.data ++ rest)))))) := by
    rw [j2534MsgEncode, if_neg (by omega), if_neg (by omega)]
    simp only [append_assoc]
  rw [hbytes] at hlen ⊢
  generalize hbuf : leBytes 4 msg.protocolId.toNat ++ (leBytes 4 msg.rxStatus.toNat ++
    (leBytes 4 msg.txFlags.toNat ++ (leBytes 4 msg.timestamp.toNat ++
      (leBytes 4 msg.extraDataIndex.toNat ++ (leBytes 4 msg.data.length ++
        (msg.data ++ rest)))))) = buf at hlen
  -- each word lies behind the ones before it
  have hprotocol : getLe buf 0 4 = msg.protocolId.toNat := by
    rw [← hbuf]
    exact ofLeBytes_leBytes (w := 4) msg.protocolId.toNat_lt
  have hstatus : getLe buf 4 4 = msg.rxStatus.toNat := by
    rw [← hbuf]
    exact ofLeBytes_leBytes (w := 4) msg.rxStatus.toNat_lt
  have hflags : getLe buf 8 4 = msg.txFlags.toNat := by
    rw [← hbuf]
    exact ofLeBytes_leBytes (w := 4) msg.txFlags.toNat_lt
  have htime : getLe buf 12 4 = msg.timestamp.toNat := by
    rw [← hbuf]
    exact ofLeBytes_leBytes (w := 4) msg.timestamp.toNat_lt
  have hextra : getLe buf 16 4 = msg.extraDataIndex.toNat := by
    rw [← hbuf]
    exact ofLeBytes_leBytes (w := 4) msg.extraDataIndex.toNat_lt
  have hsize : getLe buf 20 4 = msg.data.length := by
    rw [← hbuf]
    refine ofLeBytes_leBytes (w := 4) (lt_of_le_of_lt hdata ?_)
    decide
  have hkept : (buf.drop j2534MsgFixed).take msg.data.length = msg.data := by
    rw [← hbuf]
    exact take_left
  rw [j2534MsgDecode, if_neg (by omega), hsize]
  rw [if_neg (by omega), hprotocol, hstatus, hflags, htime, hextra, hkept]
  simp only [UInt32.ofNat_toNat]

theorem j2534MsgDecode_isSome (buf : List UInt8) :
    (j2534MsgDecode buf).isSome = true ↔
      j2534MsgFixed ≤ buf.length ∧ getLe buf 20 4 ≤ j2534MaxData ∧
        j2534MsgFixed + getLe buf 20 4 ≤ buf.length := by
  rw [j2534MsgDecode]
  by_cases hshort : buf.length < j2534MsgFixed
  · rw [if_pos hshort]
    constructor
    · intro h
      exact absurd h Bool.false_ne_true
    · intro h
      omega
  · rw [if_neg hshort]
    by_cases hbad : j2534MaxData < getLe buf 20 4 ∨ buf.length - j2534MsgFixed < getLe buf 20 4
    · rw [if_pos hbad]
      constructor
      · intro h
        exact absurd h Bool.false_ne_true
      · intro h
        omega
    · rw [if_neg hbad]
      constructor
      · intro _
        omega
      · intro _
        rfl

/-! ## Frames -/

/-- A frame whose payload has a length that the header can say. -/
structure J2534Frame where
  type : UInt8
  seq : UInt16
  channel : UInt16
  payload : List UInt8
  fits : payload.length < 2 ^ 32

namespace J2534Frame

/-- The header in front of a frame's payload. -/
def hdr (f : J2534Frame) : J2534Hdr :=
  ⟨f.type, f.seq, f.channel, UInt32.ofNat f.payload.length⟩

/-- A frame as it is sent. -/
def bytes (f : J2534Frame) : List UInt8 :=
  j2534HdrEncode f.type f.seq f.channel (UInt32.ofNat f.payload.length) ++ f.payload

/-- What a reader makes of a frame; without a buffer the payload is dropped. -/
def asRead (keep : Bool) (f : J2534Frame) : J2534Read :=
  ⟨.ok, some f.hdr, if keep then f.payload else []⟩

theorem length_bytes (f : J2534Frame) : f.bytes.length = j2534HdrSize + f.payload.length := by
  rw [bytes, length_append, length_j2534HdrEncode]

theorem toNat_length (f : J2534Frame) : f.hdr.length.toNat = f.payload.length :=
  UInt32.toNat_ofNat_of_lt' f.fits

/-- The frame of an acknowledgement. -/
def ack (seq channel : UInt16) (status : UInt32) (result : Option UInt32) : J2534Frame where
  type := j2534MtAck
  seq := seq
  channel := channel
  payload := leBytes 4 status.toNat ++ (result.map fun r => leBytes 4 r.toNat).getD []
  fits := by
    cases result with
    | none => exact (by decide : 4 < 2 ^ 32)
    | some r => exact (by decide : 8 < 2 ^ 32)

theorem bytes_ack (cap : ℕ) (seq channel : UInt16) (status : UInt32) (result : Option UInt32) :
    j2534AckEncode cap seq channel status result =
      if (ack seq channel status result).bytes.length ≤ cap then
        (ack seq channel status result).bytes
      else [] := by
  rw [length_bytes]
  cases result with
  | none =>
    by_cases hcap : cap < j2534HdrSize + 4
    · exact (if_pos hcap).trans (if_neg (by simpa [ack] using hcap)).symm
    · exact (if_neg hcap).trans (if_pos (by simpa [ack] using hcap)).symm
  | some r =>
    by_cases hcap : cap < j2534HdrSize + 8
    · exact (if_pos hcap).trans (if_neg (by simpa [ack] using hcap)).symm
    · exact (if_neg hcap).trans (if_pos (by simpa [ack] using hcap)).symm

end J2534Frame

/-! ## A link that stays up -/

/-- What a link still has to hand over, and how often it was read. -/
structure J2534Link where
  wire : List UInt8
  done : ℕ

/-- The reader of a link whose `i`-th read has at most `reads i` bytes. -/
def linkReader (reads : ℕ → ℕ) : J2534Reader J2534Link where
  read := fun l n =>
    (⟨l.wire.drop (min (reads l.done) n), l.done + 1⟩, some (l.wire.take (min (reads l.done) n)))
  run := fun _ => true

/-- Never are that many reads in a row empty (0: some read always brings something). -/
def WithinIdle (maxIdle : ℕ) (reads : ℕ → ℕ) : Prop :=
  ∀ i, ∃ j, reads (i + j) ≠ 0 ∧ (maxIdle ≠ 0 → j < maxIdle)

section Reading

variable {maxIdle n : ℕ} {keep : Bool} {reads : ℕ → ℕ} {wire got : List UInt8}

theorem readExact_empty {k idle : ℕ} (hgot : got.length < n) (hread : reads done = 0)
    (hidle : maxIdle ≠ 0 → idle + 1 < maxIdle) :
    readExact (linkReader reads) maxIdle keep n (k + 1) ⟨wire, done⟩ got idle =
      readExact (linkReader reads) maxIdle keep n k ⟨wire, done + 1⟩ got
        (if maxIdle = 0 then idle else idle + 1) := by
  rw [readExact, if_neg (by omega), if_neg (by rintro ⟨⟩)]
  simp only [linkReader, hread, Nat.zero_min, take_zero, drop_zero]
  by_cases hmax : maxIdle = 0
  · rw [if_pos hmax, if_pos hmax]
  · rw [if_neg hmax, if_neg hmax, if_neg (by omega)]

theorem readExact_idle (keep : Bool) (wire : List UInt8) (hgot : got.length < n) {j idle : ℕ}
    (hzero : (∀ i < j, reads (done + i) = 0)) (hidle : (maxIdle ≠ 0 → idle + j < maxIdle)) :
    ∃ idle', ∀ k, readExact (linkReader reads) maxIdle keep n (k + j) ⟨wire, done⟩ got idle =
      readExact (linkReader reads) maxIdle keep n k ⟨wire, done + j⟩ got idle' := by
  induction j generalizing done idle with
  | zero =>
    exact ⟨idle, fun k => rfl⟩
  | succ j ih =>
    have hnext : ∀ i < j, reads (done + 1 + i) = 0 := by
      intro i hi
      have h := hzero (i + 1) (by omega)
      rwa [← Nat.add_assoc, Nat.add_right_comm] at h
    obtain ⟨idle', h⟩ := @ih (done + 1) (if maxIdle = 0 then idle else idle + 1) hnext (by
      intro hmax
      rw [if_neg hmax]
      omega)
    refine ⟨idle', fun k => ?_⟩
    have hnow : reads done = 0 := hzero 0 (by omega)
    rw [← Nat.add_assoc, readExact_empty hgot hnow (by omega), h, Nat.add_right_comm, Nat.add_assoc]

theorem readExact_some (maxIdle : ℕ) (keep : Bool) (idle : ℕ) (hgot : got.length < n)
    (hwire : wire ≠ []) (hread : reads done ≠ 0) :
    ∃ w, 0 < w ∧ w ≤ n - got.length ∧ ∀ k,
      readExact (linkReader reads) maxIdle keep n (k + 1) ⟨wire, done⟩ got idle =
        readExact (linkReader reads) maxIdle keep n k ⟨wire.drop w, done + 1⟩
          (got ++ wire.take w) 0 := by
  have hwant : 0 < (if keep then n - got.length else min (n - got.length) 32) ∧
      (if keep then n - got.length else min (n - got.length) 32) ≤ n - got.length := by
    cases keep with
    | true =>
      rw [if_pos rfl]
      omega
    | false =>
      rw [if_neg Bool.false_ne_true]
      omega
  refine ⟨min (reads done) (if keep then n - got.length else min (n - got.length) 32),
    by omega, by omega, fun k => ?_⟩
  rw [readExact, if_neg (by omega)]
  simp only [linkReader]
  generalize hw : min (reads done)
    (if keep then n - got.length else min (n - got.length) 32) = w
  cases htake : wire.take w with
  | nil =>
    exfalso
    have hlen := congrArg List.length htake
    rw [length_take, length_nil] at hlen
    exact hwire (eq_nil_of_length_eq_zero (by omega))
  | cons b bytes => rfl

/-- **The reads of so many bytes** take these bytes off the wire and no others, in
however many rounds they come. -/
theorem readExact_link (keep : Bool) (hlively : WithinIdle maxIdle reads) :
    ∀ {m : ℕ} (done : ℕ) (wire got : List UInt8), got.length + m = n → m ≤ wire.length →
      ∃ N done', ∀ k ≥ N, readExact (linkReader reads) maxIdle keep n k ⟨wire, done⟩ got 0 =
        some (⟨wire.drop m, done'⟩, .ok, got ++ wire.take m) := by
  intro m
  induction m using Nat.strong_induction_on with
  | _ m ih =>
    intro done wire got hn hm
    by_cases hzero : m = 0
    · subst hzero
      refine ⟨1, done, fun k hk => ?_⟩
      obtain ⟨k, rfl⟩ := Nat.exists_eq_add_of_le' hk
      rw [readExact, if_pos (by omega), drop_zero, take_zero, append_nil]
    · -- silent rounds, then one that brings `w` of the `m` bytes
      have hsome : ∃ j, reads (done + j) ≠ 0 :=
        let ⟨j, hj⟩ := hlively done
        ⟨j, hj.1⟩
      have hquiet : ∀ i < Nat.find hsome, reads (done + i) = 0 := fun i hi =>
        of_not_not (Nat.find_min hsome hi)
      have hlimit : maxIdle ≠ 0 → 0 + Nat.find hsome < maxIdle := by
        intro hmax
        obtain ⟨j, hj, hbelow⟩ := hlively done
        have hle := Nat.find_min' hsome hj
        omega
      obtain ⟨idle', hidle⟩ := readExact_idle keep wire (show got.length < n by omega) hquiet hlimit
      have hwire : wire ≠ [] := by
        rintro rfl
        rw [length_nil] at hm
        omega
      obtain ⟨w, hpos, hle, hround⟩ := readExact_some maxIdle keep idle'
        (show got.length < n by omega) hwire (Nat.find_spec hsome)
      have htake : (wire.take w).length = w := length_take_of_le (by omega)
      obtain ⟨N, done', h⟩ := ih (m - w) (by omega) (done + Nat.find hsome + 1) (wire.drop w)
        (got ++ wire.take w)
        (by rw [length_append]; omega) (by rw [length_drop]; omega)
      refine ⟨N + 1 + Nat.find hsome, done', fun k hk => ?_⟩
      obtain ⟨k, rfl⟩ := Nat.exists_eq_add_of_le' hk
      have hall : w + (m - w) = m := by omega
      rw [← Nat.add_assoc, hidle, ← Nat.add_assoc, hround, h (k + N) (by omega), drop_drop,
        append_assoc, ← take_add, hall]

theorem j2534FrameRead_link (keep : Bool) (hlively : WithinIdle maxIdle reads) (f : J2534Frame)
    (hcap : f.payload.length ≤ cap) (rest : List UInt8) (done : ℕ) :
    ∃ N done', ∀ k ≥ N,
      j2534FrameRead (linkReader reads) maxIdle keep cap k ⟨f.bytes ++ rest, done⟩ =
        some (⟨rest, done'⟩, f.asRead keep) := by
  have hhdr : (f.bytes ++ rest).length = j2534HdrSize + (f.payload.length + rest.length) := by
    rw [length_append, f.length_bytes, Nat.add_assoc]
  obtain ⟨N, done₁, hread⟩ := readExact_link true hlively done (f.bytes ++ rest) []
    (Nat.zero_add j2534HdrSize) (by omega)
  have htake : (f.bytes ++ rest).take j2534HdrSize =
      j2534HdrEncode f.type f.seq f.channel (UInt32.ofNat f.payload.length) := by
    rw [J2534Frame.bytes, append_assoc]
    exact take_left' (length_j2534HdrEncode _ _ _ _)
  have hdrop : (f.bytes ++ rest).drop j2534HdrSize = f.payload ++ rest := by
    rw [J2534Frame.bytes, append_assoc]
    exact drop_left' (length_j2534HdrEncode _ _ _ _)
  have hdecode := j2534HdrDecode_encode f.type f.seq f.channel (UInt32.ofNat f.payload.length) []
  rw [append_nil] at hdecode
  rw [htake, hdrop, nil_append] at hread
  have hlength : (UInt32.ofNat f.payload.length).toNat = f.payload.length := f.toNat_length
  by_cases hempty : f.payload = []
  · refine ⟨N, done₁, fun k hk => ?_⟩
    have hnone : UInt32.ofNat f.payload.length = 0 := by
      rw [hempty]
      rfl
    have hrest : f.payload ++ rest = rest := by
      rw [hempty]
      rfl
    have hasRead : f.asRead keep = ⟨.ok, some f.hdr, []⟩ := by
      rw [J2534Frame.asRead, hempty, ite_self]
    rw [j2534FrameRead, hread k hk]
    dsimp only
    rw [hdecode]
    dsimp only
    rw [if_neg (by omega), if_pos hnone, hasRead, hrest]
    rfl
  · have hpos : 0 < f.payload.length := length_pos_of_ne_nil hempty
    have hsome : UInt32.ofNat f.payload.length ≠ 0 := by
      intro h
      rw [h] at hlength
      exact absurd hlength (by
        rw [UInt32.toNat_zero]
        omega)
    obtain ⟨M, done₂, hpayload⟩ := readExact_link keep hlively done₁ (f.payload ++ rest) []
      (Nat.zero_add f.payload.length) (by
        rw [length_append]
        omega)
    rw [take_left, drop_left] at hpayload
    refine ⟨max N M, done₂, fun k hk => ?_⟩
    rw [j2534FrameRead, hread k (by omega)]
    dsimp only
    rw [hdecode]
    dsimp only
    rw [hlength, if_neg (by omega), if_neg hsome, hpayload k (by omega)]
    rfl

theorem j2534FrameReads_link (hlively : WithinIdle maxIdle reads) (rest : List UInt8)
    (frames : List J2534Frame) (done : ℕ) (hcap : (∀ f ∈ frames, f.payload.length ≤ cap)) :
    ∃ N done', ∀ k ≥ N,
      j2534FrameReads (linkReader reads) maxIdle keep cap k frames.length
        ⟨frames.flatMap J2534Frame.bytes ++ rest, done⟩ =
        some (⟨rest, done'⟩, frames.map (J2534Frame.asRead keep)) := by
  induction frames generalizing done with
  | nil =>
    exact ⟨0, done, fun k _ => rfl⟩
  | cons f frames ih =>
    obtain ⟨N, done₁, hfirst⟩ := j2534FrameRead_link keep hlively f
      (hcap f mem_cons_self) (frames.flatMap J2534Frame.bytes ++ rest) done
    obtain ⟨M, done₂, hothers⟩ := ih done₁ fun g hg => hcap g (mem_cons_of_mem f hg)
    refine ⟨max N M, done₂, fun k hk => ?_⟩
    rw [flatMap_cons, append_assoc, length_cons, j2534FrameReads, hfirst k (by omega)]
    dsimp only
    rw [hothers k (by omega)]
    rfl

end Reading

/-- **Frames come through whole.** However a link cuts up its bytes, as long as it
is not silent for the idle limit, reading as many frames as were sent brings these
frames in order, each with its header's twelve bytes and its payload's and no
more, and stops in front of what follows; a frame of the acknowledge encoder is
such a frame. A message is read back from what the encoder made of it, which fits a
frame, and a buffer is taken for a message exactly if the size it declares fits both
the limit and the buffer. -/
theorem j2534Wire_roundTrip :
    (∀ (maxIdle cap done : ℕ) (keep : Bool) (reads : ℕ → ℕ), WithinIdle maxIdle reads →
      ∀ (frames : List J2534Frame) (rest : List UInt8), (∀ f ∈ frames, f.payload.length ≤ cap) →
        ∃ N done', ∀ fuel ≥ N,
          j2534FrameReads (linkReader reads) maxIdle keep cap fuel frames.length
            ⟨frames.flatMap J2534Frame.bytes ++ rest, done⟩ =
          some (⟨rest, done'⟩, frames.map (J2534Frame.asRead keep))) ∧
      (∀ f : J2534Frame, f.bytes.length = j2534HdrSize + f.hdr.length.toNat) ∧
      (∀ cap seq channel status result, j2534AckEncode cap seq channel status result =
          if (J2534Frame.ack seq channel status result).bytes.length ≤ cap then
            (J2534Frame.ack seq channel status result).bytes
          else []) ∧
      (∀ (msg : PassthruMsg) (cap : ℕ) (rest : List UInt8), msg.data.length ≤ j2534MaxData →
        j2534MsgFixed + msg.data.length ≤ cap →
        j2534MsgDecode (j2534MsgEncode msg cap ++ rest) = some msg ∧
          (j2534MsgEncode msg cap).length ≤ j2534RxCap) ∧
      ∀ buf : List UInt8, (j2534MsgDecode buf).isSome = true ↔
        j2534MsgFixed ≤ buf.length ∧ getLe buf 20 4 ≤ j2534MaxData ∧
          j2534MsgFixed + getLe buf 20 4 ≤ buf.length := by
  refine ⟨?_, ?_, ?_, ?_, ?_⟩
  · intro maxIdle cap done keep reads hlively frames rest hcap
    exact j2534FrameReads_link hlively rest frames done hcap
  · intro f
    rw [f.length_bytes, f.toNat_length]
  · intro cap seq channel status result
    exact J2534Frame.bytes_ack cap seq channel status result
  · intro msg cap rest hdata hcap
    refine ⟨j2534MsgDecode_encode rest hdata hcap, ?_⟩
    have hlen := length_j2534MsgEncode hdata hcap
    have hrx : j2534RxCap = j2534MaxData + 256 := rfl
    have hfixed : j2534MsgFixed = 24 := rfl
    omega
  · intro buf
    exact j2534MsgDecode_isSome buf

/-- Two acknowledgements over a link that brings three bytes in every other read. -/
theorem j2534Wire_roundTrip_acks :
    (∃ N done', ∀ fuel ≥ N,
      j2534FrameReads (linkReader fun i => if i % 2 = 0 then 3 else 0) 2 true 8 fuel 2
        ⟨[J2534Frame.ack 1 0 0 none, J2534Frame.ack 2 0 9 (some 7)].flatMap J2534Frame.bytes ++
          [0x35], 0⟩ =
      some (⟨[0x35], done'⟩, [J2534Frame.ack 1 0 0 none, J2534Frame.ack 2 0 9 (some 7)].map
        (J2534Frame.asRead true))) ∧
      j2534MsgDecode (j2534MsgEncode ⟨6, 0, 0, 0, 0, [0, 0, 7, 0xE0]⟩ 28 ++ []) =
        some ⟨6, 0, 0, 0, 0, [0, 0, 7, 0xE0]⟩ := by
  obtain ⟨hframes, -, -, hmsg, -⟩ := j2534Wire_roundTrip
  constructor
  · refine hframes 2 8 0 true (fun i => if i % 2 = 0 then 3 else 0) ?_
      [J2534Frame.ack 1 0 0 none, J2534Frame.ack 2 0 9 (some 7)] [0x35] ?_
    · intro i
      rcases Nat.mod_two_eq_zero_or_one i with h | h
      · exact ⟨0, by simp [h], fun _ => by omega⟩
      · exact ⟨1, by simp [Nat.add_mod, h], fun _ => by omega⟩
    · intro f hf
      rcases mem_cons.1 hf with rfl | hf
      · exact Nat.le_of_ble_eq_true rfl
      · obtain rfl := mem_singleton.1 hf
        exact Nat.le_of_ble_eq_true rfl
  · exact (hmsg ⟨6, 0, 0, 0, 0, [0, 0, 7, 0xE0]⟩ 28 [] (by decide) (by decide)).1

end Meatpi
