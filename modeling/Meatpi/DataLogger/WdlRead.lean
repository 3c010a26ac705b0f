import Meatpi.DataLogger.Wdl

/-!
# A `.wdl` file is self-contained

A sequential reader recovers what was written to a file, over any number of opens:
an open cuts nothing off a file of complete records, and it forgets every number of
every parameter, so that the first value of each parameter defines its number anew.
-/

namespace Meatpi

open Library Function Int64 List Nat Option

variable {text : List UInt8}

variable {frames : Bool} {i : DlParam} {item : DlWdlItem} {written : List DlWdlEntry}
  {items : List DlWdlItem} {fuel : ℕ}

/-! ## Records -/

/-- The bytes of a record. -/
def recordBytes : DlWdlItem → List UInt8
  | .define id full => dlWdlEncodeDef id full
  | .keyed id (ts, value) => dlWdlEncodeParam ts.toInt id value
  | .bare (.frame ts f) =>
    dlWdlEncodeFrame ts.toInt f.id
      ((if f.ext then dlFrameExt else 0) ||| (if f.rtr then dlFrameRtr else 0))
      (f.data ++ List.replicate (8 - f.data.length) 0) (UInt8.ofNat f.data.length)
  | .bare (.mark wall delta source) =>
    0x04 :: i64Bytes wall.toInt ++ i64Bytes delta.toInt ++ [source]

/-- A record whose numbers have room in their fields. -/
def RecordFits : DlWdlItem → Prop
  | .define id full => id < 65536 ∧ full.length < 256
  | .keyed id _ => id < 65536
  | .bare _ => True

theorem length_i64Bytes (n : ℤ) : (i64Bytes n).length = 8 := length_leBytes _ _

theorem readI64_i64Bytes (n : ℤ) : readI64 (i64Bytes n) = Int64.ofInt n := by
  have hlt : (Int64.ofInt n).toUInt64.toNat < 256 ^ 8 := UInt64.toNat_lt _
  rw [readI64, i64Bytes, ofLeBytes_leBytes hlt, UInt64.ofNat_toNat]
  rfl

theorem ofNat_length {bytes : List UInt8} (h : bytes.length < 256) :
    (UInt8.ofNat bytes.length).toNat = bytes.length := by
  rw [UInt8.toNat_ofNat', mod_eq_of_lt h]

theorem or_and (a b m : UInt32) : (a ||| b) &&& m = (a &&& m) ||| (b &&& m) :=
  UInt32.toBitVec_inj.mp BitVec.and_or_distrib_right

/-- The flags of a frame. -/
def DlFrame.flags (f : DlFrame) : UInt8 :=
  (if f.ext then dlFrameExt else 0) ||| (if f.rtr then dlFrameRtr else 0)

/-- The word of a frame. -/
def DlFrame.word (f : DlFrame) : UInt32 :=
  (f.id &&& 0x1FFFFFFF) ||| (if f.flags &&& dlFrameExt ≠ 0 then 0x80000000 else 0) |||
    (if f.flags &&& dlFrameRtr ≠ 0 then 0x40000000 else 0)

theorem readFrame_word (f : DlFrame) : readFrame f.word f.data = some f := by
  have hword : f.word = (f.id &&& 0x1FFFFFFF) ||| (if f.ext then 0x80000000 else 0) |||
      (if f.rtr then 0x40000000 else 0) := by
    rw [DlFrame.word, DlFrame.flags]
    cases f.ext <;> cases f.rtr <;> rfl
  have hid : f.word &&& 0x1FFFFFFF = f.id := by
    have hext : (if f.ext then (0x80000000 : UInt32) else 0) &&& 0x1FFFFFFF = 0 := by
      cases f.ext <;> rfl
    have hrtr : (if f.rtr then (0x40000000 : UInt32) else 0) &&& 0x1FFFFFFF = 0 := by
      cases f.rtr <;> rfl
    rw [hword, or_and, or_and, UInt32.and_assoc, UInt32.and_self, f.id_fits, hext, hrtr,
      UInt32.or_zero, UInt32.or_zero]
  have hext : decide (f.word &&& 0x80000000 ≠ 0) = f.ext := by
    have hmask : (0x1FFFFFFF &&& 0x80000000 : UInt32) = 0 := rfl
    rw [hword, or_and, or_and, UInt32.and_assoc, hmask, UInt32.and_zero]
    cases f.ext <;> cases f.rtr <;> rfl
  have hrtr : decide (f.word &&& 0x40000000 ≠ 0) = f.rtr := by
    have hmask : (0x1FFFFFFF &&& 0x40000000 : UInt32) = 0 := rfl
    rw [hword, or_and, or_and, UInt32.and_assoc, hmask, UInt32.and_zero]
    cases f.ext <;> cases f.rtr <;> rfl
  obtain ⟨id, ext, rtr, data, hfits, hle⟩ := f
  rw [readFrame, dif_pos hle]
  simp only [hid, hext, hrtr]

theorem frameBytes (ts : Int64) (f : DlFrame) :
    recordBytes (.bare (.frame ts f)) = 0x03 :: i64Bytes ts.toInt ++ leBytes 4 f.word.toNat ++
        UInt8.ofNat f.data.length :: f.data := by
  have hlen := ofNat_length (Nat.lt_of_le_of_lt f.data_le (by decide))
  have hdlc : ¬8 < UInt8.ofNat f.data.length := by
    rw [UInt8.lt_iff_toNat_lt, hlen]
    exact Nat.not_lt.mpr f.data_le
  rw [recordBytes, dlWdlEncodeFrame]
  rw [if_neg hdlc, hlen, take_left]
  rfl

/-- **A record is read back.** -/
theorem readItem_recordBytes (h : RecordFits item) : readItem (recordBytes item) = some item := by
  cases item with
  | define id full =>
    have hid : ofLeBytes (leBytes 2 id) = id := ofLeBytes_leBytes h.1
    change some (Inline.define (ofLeBytes (leBytes 2 id)) full) = _
    rw [hid]
  | keyed id tv =>
    obtain ⟨ts, value⟩ := tv
    have hid : ofLeBytes (leBytes 2 id) = id := ofLeBytes_leBytes h
    have hvalue : ofLeBytes (leBytes 8 value.toNat) = value.toNat :=
      ofLeBytes_leBytes (UInt64.toNat_lt value)
    change some (Inline.keyed (ofLeBytes (leBytes 2 id))
      (readI64 (i64Bytes ts.toInt), UInt64.ofNat (ofLeBytes (leBytes 8 value.toNat)))) = _
    rw [hid, hvalue, readI64_i64Bytes, ofInt_toInt, UInt64.ofNat_toNat]
  | bare record =>
    cases record with
    | frame ts f =>
      have hword : ofLeBytes (leBytes 4 f.word.toNat) = f.word.toNat :=
        ofLeBytes_leBytes (UInt32.toNat_lt f.word)
      rw [frameBytes]
      change (readFrame (UInt32.ofNat (ofLeBytes (leBytes 4 f.word.toNat))) f.data).map
        (fun f => (Inline.bare (DlBare.frame (readI64 (i64Bytes ts.toInt)) f) : DlWdlItem)) = _
      rw [hword, UInt32.ofNat_toNat, readFrame_word, readI64_i64Bytes, ofInt_toInt]
      rfl
    | mark wall delta source =>
      change some (Inline.bare (DlBare.mark (readI64 (i64Bytes wall.toInt))
        (readI64 (i64Bytes delta.toInt)) source)) = _
      rw [readI64_i64Bytes, readI64_i64Bytes, ofInt_toInt, ofInt_toInt]

theorem dlWdlHead_recordBytes (h : RecordFits item) (rest : List UInt8) :
    dlWdlHead (recordBytes item ++ rest) = .need (recordBytes item).length := by
  cases item with
  | define id full =>
    have hlen := ofNat_length h.2
    change DlWdlHead.need (4 + (UInt8.ofNat full.length).toNat) = _
    rw [hlen]
    simp [recordBytes, dlWdlEncodeDef]
    omega
  | keyed id tv =>
    change DlWdlHead.need 19 = _
    simp [recordBytes, dlWdlEncodeParam, length_i64Bytes]
  | bare record =>
    cases record with
    | frame ts f =>
      have hlen := ofNat_length (Nat.lt_of_le_of_lt f.data_le (by decide))
      have hdlc : ¬8 < UInt8.ofNat f.data.length := by
        rw [UInt8.lt_iff_toNat_lt, hlen]
        exact Nat.not_lt.mpr f.data_le
      rw [frameBytes]
      change (if 8 < UInt8.ofNat f.data.length then DlWdlHead.bad
        else .need (14 + (UInt8.ofNat f.data.length).toNat)) = _
      rw [if_neg hdlc, hlen]
      simp [length_i64Bytes]
      omega
    | mark wall delta source =>
      change DlWdlHead.need dlWdlStepLen = _
      simp [recordBytes, length_i64Bytes, dlWdlStepLen]

theorem recordBytes_pos (item : DlWdlItem) : 0 < (recordBytes item).length := by
  cases item with
  | define id full => exact succ_pos _
  | keyed id tv => exact succ_pos _
  | bare record => cases record <;> exact succ_pos _

theorem recordBytes_le (h : RecordFits item) : (recordBytes item).length ≤ 260 := by
  cases item with
  | define id full =>
    have := h.2
    simp [recordBytes, dlWdlEncodeDef]
    omega
  | keyed id tv =>
    simp [recordBytes, dlWdlEncodeParam, length_i64Bytes]
  | bare record =>
    cases record with
    | frame ts f =>
      have := f.data_le
      rw [frameBytes]
      simp [length_i64Bytes]
      omega
    | mark wall delta source => simp [recordBytes, length_i64Bytes]

/-! ## Scans -/

/-- The bytes of some records. -/
def recordsBytes (items : List DlWdlItem) : List UInt8 := items.flatMap recordBytes

theorem recordsBytes_nil : recordsBytes [] = [] := rfl

theorem recordsBytes_cons (item : DlWdlItem) (items : List DlWdlItem) :
    recordsBytes (item :: items) = recordBytes item ++ recordsBytes items := rfl

theorem recordsBytes_append (items more : List DlWdlItem) :
    recordsBytes (items ++ more) = recordsBytes items ++ recordsBytes more :=
  flatMap_append

/-- **A reader finds the records.** -/
theorem readItems_recordsBytes (hfits : ∀ item ∈ items, RecordFits item)
    (hfuel : (recordsBytes items).length ≤ fuel) :
    readItems fuel (recordsBytes items) = some items := by
  induction items generalizing fuel with
  | nil => cases fuel <;> rfl
  | cons item items ih =>
    obtain ⟨hitem, hitems⟩ := forall_mem_cons.mp hfits
    have hpos := recordBytes_pos item
    rw [recordsBytes_cons, length_append] at hfuel
    rw [recordsBytes_cons]
    cases fuel with
    | zero => omega
    | succ fuel =>
      rw [readItems, if_neg (append_ne_nil_of_left_ne_nil (ne_nil_of_length_pos hpos) _),
        dlWdlHead_recordBytes hitem]
      dsimp only
      rw [if_neg (by rw [length_append]; omega), take_left, drop_left,
        readItem_recordBytes hitem, ih hitems (by omega)]
      rfl

theorem dlWdlHead_take {whole : List UInt8} {k n : ℕ} (hn : 0 < n) (h : dlWdlHead whole = .need k) :
    dlWdlHead (whole.take n) = .cut ∨ dlWdlHead (whole.take n) = .need k := by
  rw [dlWdlHead] at h ⊢
  simp only [List.getElem?_take, if_pos hn]
  split
  · rename_i htype
    rw [if_pos htype] at h
    by_cases hthird : 3 < n
    · rw [if_pos hthird]
      exact Or.inr h
    · rw [if_neg hthird]
      exact Or.inl rfl
  · rename_i htype
    rw [if_neg htype] at h
    split
    · rename_i htype'
      rw [if_pos htype'] at h
      exact Or.inr h
    · rename_i htype'
      rw [if_neg htype'] at h
      split
      · rename_i hframe
        rw [if_pos hframe] at h
        by_cases hdlc : 13 < n
        · rw [if_pos hdlc]
          exact Or.inr h
        · rw [if_neg hdlc]
          exact Or.inl rfl
      · rename_i hframe
        rw [if_neg hframe] at h
        exact Or.inr h

theorem dlRecoverWdlScan_take (hfits : ∀ item ∈ items, RecordFits item) (n : ℕ)
    (hfuel : ((recordsBytes items).take n).length ≤ fuel) :
    ∃ front back, items = front ++ back ∧ dlRecoverWdlScan fuel ((recordsBytes items).take n) =
        ((recordsBytes front).length, false) ∧
      (recordsBytes front).length ≤ n ∧
      (back = [] ∨ ∃ item later, back = item :: later ∧
        n < (recordsBytes front).length + (recordBytes item).length) := by
  induction items generalizing n fuel with
  | nil =>
    refine ⟨[], [], rfl, ?_, Nat.zero_le n, Or.inl rfl⟩
    rw [recordsBytes_nil, take_nil]
    cases fuel <;> rfl
  | cons item items ih =>
    obtain ⟨hitem, hitems⟩ := forall_mem_cons.mp hfits
    have hpos := recordBytes_pos item
    rw [recordsBytes_cons] at hfuel ⊢
    by_cases hn : n < (recordBytes item).length
    · refine ⟨[], item :: items, rfl, ?_, Nat.zero_le n, Or.inr ⟨item, items, rfl, ?_⟩⟩
      · rw [take_append_of_le_length (Nat.le_of_lt hn)]
        have hhead := dlWdlHead_recordBytes hitem []
        rw [append_nil] at hhead
        cases fuel with
        | zero => rfl
        | succ fuel =>
          rw [dlRecoverWdlScan]
          split
          · rfl
          · rename_i hsome
            have hsome' : 0 < n := by
              refine Nat.pos_of_ne_zero fun h => hsome ?_
              rw [h, take_zero]
            rcases dlWdlHead_take hsome' hhead with hcut | hneed
            · rw [hcut]
              rfl
            · rw [hneed]
              dsimp only
              rw [if_pos (by rw [length_take]; omega)]
              rfl
      · rw [recordsBytes_nil, length_nil, Nat.zero_add]
        exact hn
    · rw [Nat.not_lt] at hn
      have hwindow : (recordBytes item ++ recordsBytes items).take n =
          recordBytes item ++ (recordsBytes items).take (n - (recordBytes item).length) := by
        rw [take_append, take_of_length_le hn]
      rw [hwindow, length_append] at hfuel
      cases fuel with
      | zero => omega
      | succ fuel =>
        have hfuel' : ((recordsBytes items).take (n - (recordBytes item).length)).length ≤ fuel := by
          omega
        obtain ⟨front, back, hsplit, hscan, hle, hnext⟩ := ih hitems _ hfuel'
        refine ⟨item :: front, back, congrArg (item :: ·) hsplit, ?_, ?_, ?_⟩
        · rw [hwindow, dlRecoverWdlScan,
            if_neg (append_ne_nil_of_left_ne_nil (ne_nil_of_length_pos hpos) _),
            dlWdlHead_recordBytes hitem]
          dsimp only
          rw [if_neg (by rw [length_append]; omega), drop_left, hscan, recordsBytes_cons,
            length_append]
        · rw [recordsBytes_cons, length_append]
          omega
        · rcases hnext with hnil | ⟨item', later, hback, hlong⟩
          · exact Or.inl hnil
          · refine Or.inr ⟨item', later, hback, ?_⟩
            rw [recordsBytes_cons, length_append]
            omega

/-- **The torn-tail check keeps complete records.** -/
theorem apRepairScan_keeps
    (hfits : ∀ item ∈ items, RecordFits item) {carry rest : List UInt8}
    (hbytes : carry ++ rest = recordsBytes items)
    (hcarry : items = [] ∨ ∃ item later, items = item :: later ∧
      carry.length < (recordBytes item).length)
    (hfuel : rest.length < fuel) (keep : ℕ) :
    apRepairScan fuel carry rest keep = keep + (recordsBytes items).length := by
  induction fuel generalizing items carry rest keep with
  | zero => cases hfuel
  | succ fuel ih =>
    have hshort : carry.length ≤ 260 := by
      rcases hcarry with hnil | ⟨item, later, hitems, hlt⟩
      · subst hnil
        obtain ⟨rfl, _⟩ := append_eq_nil_iff.mp hbytes
        exact Nat.zero_le _
      · have := recordBytes_le (hfits item (hitems ▸ mem_cons_self))
        omega
    have hcap : apBufSz = 4096 := rfl
    rw [apRepairScan]
    dsimp only
    split
    · rename_i hchunk
      -- the file ends, and a record that is begun has its end in it
      have hrest : rest = [] := (take_eq_nil_iff.mp hchunk).resolve_left (by omega)
      rw [hrest, append_nil] at hbytes
      rcases hcarry with hnil | ⟨item, later, hitems, hlt⟩
      · rw [hnil]
        rfl
      · have hlen := congrArg List.length hbytes
        rw [hitems, recordsBytes_cons, length_append] at hlen
        omega
    · rename_i hchunk
      have hwindow : carry ++ rest.take (apBufSz - carry.length) =
          (recordsBytes items).take apBufSz := by
        have hle : carry.length ≤ apBufSz := by omega
        rw [← hbytes, take_append, take_of_length_le hle]
      have hremains : rest.drop (apBufSz - carry.length) = (recordsBytes items).drop apBufSz := by
        have hle : carry.length ≤ apBufSz := by omega
        rw [← hbytes, drop_append, drop_of_length_le hle, nil_append]
      rw [hwindow, hremains]
      obtain ⟨front, back, rfl, hscan, hfront, hnext⟩ :=
        dlRecoverWdlScan_take hfits apBufSz (Nat.le_refl _)
      rw [hscan]
      have hdrop : ((recordsBytes (front ++ back)).take apBufSz).drop (recordsBytes front).length =
          (recordsBytes back).take (apBufSz - (recordsBytes front).length) := by
        rw [drop_take, recordsBytes_append, drop_left]
      rw [hdrop]
      have hcarry' : back = [] ∨ ∃ item later, back = item :: later ∧
          ((recordsBytes back).take (apBufSz - (recordsBytes front).length)).length <
            (recordBytes item).length := by
        rcases hnext with hnil | ⟨item, later, hback, hlong⟩
        · exact Or.inl hnil
        · refine Or.inr ⟨item, later, hback, ?_⟩
          rw [length_take]
          omega
      have hfits' : ∀ item ∈ back, RecordFits item :=
        fun item hmem => hfits item (mem_append_right _ hmem)
      have hless :
          ((recordsBytes back).take (apBufSz - (recordsBytes front).length)).length ≤ 260 := by
        rcases hcarry' with hnil | ⟨item, later, hback, hlt⟩
        · rw [hnil, recordsBytes_nil, take_nil]
          exact Nat.zero_le _
        · have := recordBytes_le (hfits' item (hback ▸ mem_cons_self))
          omega
      rw [if_neg (by
        rintro (h | h)
        · omega
        · cases h)]
      have hrest : (recordsBytes back).take (apBufSz - (recordsBytes front).length) ++
          (recordsBytes (front ++ back)).drop apBufSz = recordsBytes back := by
        rw [recordsBytes_append, drop_append, drop_of_length_le hfront, nil_append,
          take_append_drop]
      rw [ih hfits' hrest hcarry' ?_, recordsBytes_append, length_append, Nat.add_assoc]
      have hsome : 0 < rest.length := by
        refine length_pos_iff.mpr fun h => hchunk ?_
        rw [h, take_nil]
      rw [← hremains, length_drop]
      omega

/-! ## Opens -/

/-- A file of complete records. -/
def wdlFile (items : List DlWdlItem) : List UInt8 := wdlMagic ++ recordsBytes items

theorem wdlFile_append (items more : List DlWdlItem) :
    wdlFile (items ++ more) = wdlFile items ++ recordsBytes more := by
  rw [wdlFile, wdlFile, recordsBytes_append, append_assoc]

/-- **An open cuts nothing off** a file of complete records. -/
theorem apOpen_keeps (hfits : ∀ item ∈ items, RecordFits item) (mem : Bool) :
    apOpen mem (some (wdlFile items)) = wdlFile items := by
  have hlength : (wdlFile items).length = 4 + (recordsBytes items).length := by
    rw [wdlFile, length_append]
    rfl
  have hrepair : apRepairTail mem (wdlFile items) = wdlFile items := by
    rw [apRepairTail]
    split
    · rfl
    · have hdrop : (wdlFile items).drop 4 = recordsBytes items := rfl
      have hcarry : items = [] ∨ ∃ item later, items = item :: later ∧
          ([] : List UInt8).length < (recordBytes item).length := by
        cases items with
        | nil => exact Or.inl rfl
        | cons item later => exact Or.inr ⟨item, later, rfl, recordBytes_pos item⟩
      rw [if_neg (by omega), hdrop,
        apRepairScan_keeps hfits (nil_append _) hcarry (by omega), ← hlength, take_length]
  rw [apOpen, hrepair]
  exact if_neg fun h => by cases h

theorem wdlRead_wdlFile (hfits : ∀ item ∈ items, RecordFits item)
    {found : List (List UInt8 × (Int64 × UInt64) ⊕ DlBare)}
    (hread : readInline (fun _ => none) items = some found) :
    wdlRead (wdlFile items) = some (found.filterMap DlWdlEntry.ofFound) := by
  have hlength : (recordsBytes items).length ≤ (wdlFile items).length := by
    rw [wdlFile, length_append]
    exact Nat.le_add_left _ _
  have hmagic : wdlMagic <+: wdlFile items := prefix_append _ _
  rw [wdlRead, if_pos hmagic]
  have hdrop : (wdlFile items).drop wdlMagic.length = recordsBytes items := drop_left
  rw [hdrop, readItems_recordsBytes hfits hlength, bind_some, hread]
  rfl

/-! ## Writes -/

/-- The numbers of the parameters. -/
def DlWdl.ids (s : DlWdl) : DlParam → ℕ := fun i => (s.params i).dbId

/-- The names of the parameters. -/
def DlWdl.fulls (s : DlWdl) : DlParam → List UInt8 := fun i => (s.params i).full

theorem full_eq (p : DlParamEntry) : p.full = p.source ++ asciiBytes "." ++ p.name := by
  have hsource := p.source_lt
  have hname := p.name_lt
  rw [DlParamEntry.full, take_of_length_le]
  rw [length_append, length_append]
  have hdot : (asciiBytes ".").length = 1 := rfl
  omega

theorem full_lt (p : DlParamEntry) : p.full.length < 256 := by
  rw [DlParamEntry.full, length_take, dlSourceMax, dlNameMax]
  omega

/-- The registry between two operations on an open file, whose reader has this
dictionary. -/
structure DlWdl.Numbered (s : DlWdl) (dict : ℕ → Option (List UInt8)) : Prop where
  known : Known s.ids s.nextId.toNat s.fulls dict
  unused : ∀ i, (s.params i).used = false → (s.params i).dbId = 0

/-- The records of a value. -/
def DlWdl.valueRecords (s : DlWdl) (i : DlParam) (ts : Int64) (value : UInt64) :
    List DlWdlItem :=
  writeInline s.ids s.nextId.toNat s.fulls i (ts, value)

variable {s s' : DlWdl} {dict : ℕ → Option (List UInt8)}

theorem DlWdl.Numbered.nextId_le (h : s.Numbered dict) : s.nextId.toNat ≤ 256 := by
  have hle := h.known.next_le
  rw [Fintype.card_fin] at hle
  exact hle

theorem DlWdl.Numbered.valueRecords_fit (h : s.Numbered dict) (i : DlParam) (ts : Int64)
    (value : UInt64) : ∀ item ∈ s.valueRecords i ts value, RecordFits item := by
  have hnext := h.nextId_le
  have hid := h.known.le i
  intro item hitem
  rw [DlWdl.valueRecords, writeInline] at hitem
  split at hitem
  · rcases mem_cons.mp hitem with rfl | hitem
    · refine ⟨?_, full_lt _⟩
      omega
    · rw [mem_singleton.mp hitem]
      change s.nextId.toNat + 1 < 65536
      omega
  · rw [mem_singleton.mp hitem]
    change s.ids i < 65536
    omega

theorem intern_numbered (hid : (s.params i).dbId ≠ 0) : s.intern i = s := by
  rw [DlWdl.intern, if_neg hid]

theorem intern_new (hid : (s.params i).dbId = 0) (hfile : s.file = some text) :
    (s.intern i).ids = update s.ids i (s.nextId + 1).toNat ∧
      (s.intern i).nextId = s.nextId + 1 ∧ (s.intern i).fulls = s.fulls ∧
      (∀ j, ((s.intern i).params j).used = (s.params j).used) ∧
      (s.intern i).file = some (text ++ dlWdlEncodeDef (s.nextId + 1).toNat (s.params i).full) ∧
      (s.intern i).isOpen = s.isOpen := by
  rw [DlWdl.intern, if_pos hid]
  refine ⟨?_, rfl, ?_, ?_, ?_, rfl⟩
  · funext j
    rcases eq_or_ne j i with rfl | hne
    · simp [DlWdl.ids, DlWdl.append]
    · simp [DlWdl.ids, DlWdl.append, hne]
  · funext j
    rcases eq_or_ne j i with rfl | hne
    · simp [DlWdl.fulls, DlWdl.append, DlParamEntry.full]
    · simp [DlWdl.fulls, DlWdl.append, hne]
  · intro j
    rcases eq_or_ne j i with rfl | hne
    · simp [DlWdl.append]
    · simp [DlWdl.append, hne]
  · rw [hfile]
    rfl

theorem binWrite_value (i : DlParam) (ts : Int64) (value : UInt64) :
    binWrite s (dlParamRecord i ts.toInt value) (some i) =
      (s.intern i).append (dlWdlEncodeParam ts.toInt ((s.intern i).ids i) value) := rfl

/-- **A value is written.** Its records are at the end of the file, and the reader
knows the numbers in use. -/
theorem binWrite_param (h : s.Numbered dict) (hused : (s.params i).used = true)
    (hfile : s.file = some text) (ts : Int64) (value : UInt64)
    (hwrite : binWrite s (dlParamRecord i ts.toInt value) (some i) = s') :
    s'.file = some (text ++ recordsBytes (s.valueRecords i ts value)) ∧ s'.isOpen = s.isOpen ∧
      s'.Numbered (learn dict (s.valueRecords i ts value)) := by
  rw [binWrite_value] at hwrite
  subst hwrite
  by_cases hid : (s.params i).dbId = 0
  · obtain ⟨hids, hnextId, hfulls, hsame, hfile', hopen⟩ := intern_new hid hfile
    have hwrap : (s.nextId + 1).toNat = s.nextId.toNat + 1 := by
      have hnext := h.nextId_le
      refine mod_eq_of_lt ?_
      change s.nextId.toNat + 1 < 65536
      omega
    have hrecords : s.valueRecords i ts value =
        [.define (s.nextId.toNat + 1) (s.params i).full, .keyed (s.nextId.toNat + 1) (ts, value)] :=
      if_pos hid
    refine ⟨?_, hopen, ?_, ?_⟩
    · rw [DlWdl.append, hfile', hids, update_self, hwrap, hrecords, recordsBytes_cons,
        recordsBytes_cons, recordsBytes_nil, append_nil, ← append_assoc]
      rfl
    · have hknown := h.known.write_new (V := Int64 × UInt64) (W := DlBare) hid (ts, value)
      change Known (s.intern i).ids (s.intern i).nextId.toNat (s.intern i).fulls _
      rw [hids, hnextId, hfulls, hwrap]
      exact hknown
    · intro j hj
      change ((s.intern i).params j).used = false at hj
      change (s.intern i).ids j = 0
      rw [hsame] at hj
      have hne : j ≠ i := by
        rintro rfl
        rw [hused] at hj
        cases hj
      rw [hids, update_of_ne hne]
      exact h.unused j hj
  · rw [intern_numbered hid]
    have hrecords : s.valueRecords i ts value = [.keyed (s.ids i) (ts, value)] := if_neg hid
    refine ⟨?_, rfl, ?_, h.unused⟩
    · rw [DlWdl.append, hfile, hrecords]
      rfl
    · exact h.known.write_numbered hid (ts, value)

theorem DlWdl.Numbered.register (h : s.Numbered dict) (hunused : (s.params i).used = false)
    {e : DlParamEntry} (hnew : e.dbId = 0) :
    DlWdl.Numbered { s with params := update s.params i e } dict := by
  have hid := h.unused i hunused
  have hids : DlWdl.ids { s with params := update s.params i e } = s.ids := by
    funext j
    rcases eq_or_ne j i with rfl | hne
    · simp [DlWdl.ids, hid, hnew]
    · simp [DlWdl.ids, hne]
  refine ⟨?_, ?_⟩
  · rw [hids]
    refine h.known.congr fun j hj => ?_
    have hne : j ≠ i := by
      rintro rfl
      exact hj hid
    simp [DlWdl.fulls, hne]
  · intro j hj
    change DlWdl.ids { s with params := update s.params i e } j = 0
    rw [hids]
    rcases eq_or_ne j i with rfl | hne
    · exact hid
    · dsimp only at hj
      rw [update_of_ne hne] at hj
      exact h.unused j hj

theorem dataLoggerRegisterParam_keeps (source name : List UInt8)
    (hregister : (dataLoggerRegisterParam s source name).2 = s') :
    s'.file = s.file ∧ s'.isOpen = s.isOpen ∧ ∀ dict, s.Numbered dict → s'.Numbered dict := by
  subst hregister
  rw [dataLoggerRegisterParam]
  split
  · split
    · exact ⟨rfl, rfl, fun _ => id⟩
    · split
      · exact ⟨rfl, rfl, fun _ => id⟩
      · split
        · exact ⟨rfl, rfl, fun _ => id⟩
        · rename_i hunused
          rw [Bool.not_eq_true] at hunused
          exact ⟨rfl, rfl, fun _ h => h.register hunused rfl⟩
  · exact ⟨rfl, rfl, fun _ => id⟩

/-! ## Runs -/

/-- What a file and its stream are, `written` having been written. -/
structure DlWdl.Logs (frames : Bool) (s : DlWdl) (written : List DlWdlEntry) : Prop where
  new : s.file = none → s.isOpen = false ∧ written = []
  holds : ∀ text, s.file = some text → ∃ items found, text = wdlFile items ∧
    (∀ item ∈ items, RecordFits item) ∧ readInline (fun _ => none) items = some found ∧
    found.filterMap DlWdlEntry.ofFound = written ∧
    (s.isOpen = true → frames = false → s.Numbered (learn (fun _ => none) items))

theorem DlWdl.Logs.write {more : List DlWdlEntry}
    (h : s.Logs frames written) (hopen : s.isOpen = true) (records : List DlWdlItem)
    (found' : List (List UInt8 × (Int64 × UInt64) ⊕ DlBare))
    (hmore : found'.filterMap DlWdlEntry.ofFound = more)
    (hrecords : ∀ dict, (frames = false → s.Numbered dict) →
      (∀ item ∈ records, RecordFits item) ∧ readInline dict records = some found' ∧
        (frames = false → s'.Numbered (learn dict records)))
    (hfile : ∀ text, s.file = some text → s'.file = some (text ++ recordsBytes records)) :
    s'.Logs frames (written ++ more) := by
  cases hs : s.file with
  | none =>
    rw [(h.new hs).1] at hopen
    cases hopen
  | some text =>
    obtain ⟨items, found, rfl, hfits, hread, hfound, hnumbered⟩ := h.holds text hs
    obtain ⟨hrecords, hread', hnumbered'⟩ := hrecords _ (hnumbered hopen)
    refine ⟨fun hnone => ?_, fun text' htext' => ?_⟩
    · rw [hfile _ hs] at hnone
      cases hnone
    · rw [hfile _ hs] at htext'
      refine ⟨items ++ records, found ++ found', ?_, ?_, readInline_append hread hread', ?_, ?_⟩
      · rw [← some.inj htext', wdlFile_append]
      · intro item hitem
        rcases mem_append.mp hitem with hitem | hitem
        · exact hfits item hitem
        · exact hrecords item hitem
      · rw [filterMap_append, hfound, hmore]
      · intro _ hframes
        rw [learn_append]
        exact hnumbered' hframes

theorem DlWdl.Logs.write_bare (h : s.Logs frames written) (hopen : s.isOpen = true)
    (record : DlBare) :
    (s.append (recordBytes (.bare record))).Logs frames
      (written ++ (DlWdlEntry.ofFound (.inr record)).toList) := by
  refine h.write hopen [.bare record] [.inr record] ?_ ?_ ?_
  · cases hrecord : DlWdlEntry.ofFound (.inr record) with
    | none => rw [filterMap_cons_none hrecord]; rfl
    | some entry => rw [filterMap_cons_some hrecord]; rfl
  · intro dict hnumbered
    refine ⟨forall_mem_singleton.mpr trivial, rfl, fun hframes => ?_⟩
    exact ⟨(hnumbered hframes).known, (hnumbered hframes).unused⟩
  · intro text htext
    rw [DlWdl.append, htext, recordsBytes_cons, recordsBytes_nil, append_nil]
    rfl

theorem DlWdl.Logs.closed (h : s.Logs frames written) (hfile : s'.file = s.file)
    (hclosed : s'.isOpen = false) : s'.Logs frames written := by
  refine ⟨fun hnone => ⟨hclosed, (h.new (hfile ▸ hnone)).2⟩, fun text htext => ?_⟩
  obtain ⟨items, found, hwhole, hfits, hread, hfound, _⟩ := h.holds text (hfile ▸ htext)
  refine ⟨items, found, hwhole, hfits, hread, hfound, fun hopen => ?_⟩
  rw [hclosed] at hopen
  cases hopen

theorem DlWdl.Logs.opened (h : s.Logs frames written) (mem : Bool) :
    (s.dlStoreOpen frames mem).Logs frames written := by
  have hnumbered : ∀ dict, frames = false → (s.dlStoreOpen frames mem).Numbered dict := by
    rintro dict rfl
    exact ⟨known_forget _ dict, fun _ _ => rfl⟩
  refine ⟨fun hnone => absurd hnone (some_ne_none _), fun text htext => ?_⟩
  cases hs : s.file with
  | none =>
    have hnew : text = wdlFile [] := by
      rw [DlWdl.dlStoreOpen, hs] at htext
      exact (some.inj htext).symm
    exact ⟨[], [], hnew, forall_mem_nil _, rfl, (h.new hs).2.symm, fun _ => hnumbered _⟩
  | some text' =>
    obtain ⟨items, found, rfl, hfits, hread, hfound, _⟩ := h.holds text' hs
    have hsame : text = wdlFile items := by
      rw [DlWdl.dlStoreOpen, hs] at htext
      exact (some.inj htext).symm.trans (apOpen_keeps hfits mem)
    exact ⟨items, found, hsame, hfits, hread, hfound, fun _ => hnumbered _⟩

/-- **One step.** What is written can be recovered. -/
theorem DlWdl.Logs.step (h : s.Logs frames written) {op : DlWdlOp}
    (hstep : s.step frames op = some s') : s'.Logs frames (written ++ op.written.toList) := by
  cases op with
  | register source name =>
    change s'.Logs frames (written ++ [])
    rw [append_nil]
    obtain ⟨hfile, hopen, hnumbered⟩ := dataLoggerRegisterParam_keeps source name (some.inj hstep)
    refine ⟨fun hnone => ?_, fun text htext => ?_⟩
    · rw [hopen]
      exact h.new (hfile ▸ hnone)
    · obtain ⟨items, found, htext, hfits, hread, hfound, hknown⟩ := h.holds text (hfile ▸ htext)
      refine ⟨items, found, htext, hfits, hread, hfound, fun hopen' hframes => ?_⟩
      exact hnumbered _ (hknown (hopen ▸ hopen') hframes)
  | param i full ts value =>
    rw [DlWdl.step] at hstep
    split at hstep
    · rename_i hguard
      obtain ⟨hopen, hframes, hused, hname⟩ := hguard
      have hwrite := some.inj hstep
      obtain ⟨text, hfile⟩ : ∃ text, s.file = some text := by
        refine ne_none_iff_exists'.mp fun hnone => ?_
        rw [(h.new hnone).1] at hopen
        cases hopen
      obtain ⟨_, _, _, _, _, _, hknown⟩ := h.holds text hfile
      refine h.write hopen (s.valueRecords i ts value) [.inl (full, ts, value)] rfl ?_ ?_
      · intro dict hnumbered
        have hnumbered := hnumbered hframes
        refine ⟨hnumbered.valueRecords_fit i ts value, ?_, fun _ => ?_⟩
        · rw [DlWdl.valueRecords, hnumbered.known.read_write, DlWdl.fulls, full_eq, hname]
        · exact (binWrite_param hnumbered hused hfile ts value hwrite).2.2
      · intro text' hfile'
        exact (binWrite_param (hknown hopen hframes) hused hfile' ts value hwrite).1
    · cases hstep
  | frame ts f =>
    rw [DlWdl.step] at hstep
    split at hstep
    · rename_i hopen
      rw [← some.inj hstep]
      exact h.write_bare hopen (.frame ts f)
    · cases hstep
  | mark step =>
    rw [DlWdl.step] at hstep
    split at hstep
    · rename_i hopen
      have hbytes : ∀ n, i64Bytes (Int64.ofInt n).toInt = i64Bytes n := by
        intro n
        rw [i64Bytes, ofInt_toInt, i64Bytes]
      have hmark : dlWdlEncodeStep step = recordBytes (.bare (.mark (Int64.ofInt step.wallMs)
          (Int64.ofInt step.deltaMs) step.source)) := by
        rw [dlWdlEncodeStep, recordBytes, hbytes, hbytes]
      rw [← some.inj hstep, binMark, hmark]
      exact h.write_bare hopen _
    · cases hstep
  | close =>
    change s'.Logs frames (written ++ [])
    rw [append_nil, ← some.inj hstep]
    exact h.closed rfl rfl
  | elsewhere ids nextId =>
    change s'.Logs frames (written ++ [])
    rw [DlWdl.step] at hstep
    split at hstep
    · cases hstep
    · rename_i hopen
      rw [append_nil, ← some.inj hstep]
      exact h.closed rfl (Bool.eq_false_iff.mpr hopen)
  | resume mem =>
    change s'.Logs frames (written ++ [])
    rw [DlWdl.step] at hstep
    split at hstep
    · cases hstep
    · rw [append_nil, ← some.inj hstep]
      exact h.opened mem

/-- **A run.** What is written can be recovered. -/
theorem DlWdl.Logs.run {ops : List DlWdlOp}
    (hrun : Run (fun s op s' => DlWdl.step frames s op = some s') s ops s')
    (h : s.Logs frames written) : s'.Logs frames (written ++ ops.filterMap DlWdlOp.written) := by
  induction hrun generalizing written with
  | nil s =>
    rw [filterMap_nil, append_nil]
    exact h
  | cons hstep _ ih =>
    rename_i op ops _
    have hlogs := ih (h.step hstep)
    cases hwritten : op.written with
    | none =>
      rw [hwritten, toList_none, append_nil] at hlogs
      rw [filterMap_cons_none hwritten]
      exact hlogs
    | some entry =>
      rw [hwritten, append_assoc] at hlogs
      rw [filterMap_cons_some hwritten]
      exact hlogs

/-- **A `.wdl` file is self-contained.** After any registrations, writes, closes and
opens, a sequential reader recovers what was written, in order. -/
theorem wdl_self_contained {frames : Bool} {ops : List DlWdlOp} (hnew : s.New)
    (hrun : Run (fun s op s' => DlWdl.step frames s op = some s') s ops s') {text : List UInt8}
    (hfile : s'.file = some text) : wdlRead text = some (ops.filterMap DlWdlOp.written) := by
  have hstart : s.Logs frames [] := by
    refine ⟨fun _ => ⟨hnew.closed, rfl⟩, fun text htext => ?_⟩
    rw [hnew.file] at htext
    cases htext
  obtain ⟨items, found, rfl, hfits, hread, hfound, _⟩ := (hstart.run hrun).holds text hfile
  rw [wdlRead_wdlFile hfits hread, hfound]
  rfl

/-! ## Two parameters and a resume -/

/-- A stream whose registry is empty. -/
def emptyWdl : DlWdl where
  params := fun _ => .free
  nextId := 0
  file := none
  isOpen := false

/-- A parameter, a close, and after the resume the other parameter first: it takes
the number of the first one over. -/
def swapOps : List DlWdlOp :=
  [.register (asciiBytes "a") (asciiBytes "x"), .register (asciiBytes "a") (asciiBytes "y"),
    .resume true, .param 0 (asciiBytes "a.x") 1 7, .close, .resume true,
    .param 1 (asciiBytes "a.y") 2 8, .param 0 (asciiBytes "a.x") 3 9]

/-- Both parameters have had the number one, and the reader tells them apart. -/
theorem wdl_self_contained_swap : ∃ s' text,
    Run (fun s op s' => DlWdl.step false s op = some s') emptyWdl swapOps s' ∧ s'.file = some text ∧
      wdlRead text = some
        [.value (asciiBytes "a.x") 1 7, .value (asciiBytes "a.y") 2 8,
          .value (asciiBytes "a.x") 3 9] := by
  have hrun : ∃ s' text, Run (fun s op s' => DlWdl.step false s op = some s') emptyWdl swapOps s' ∧
      s'.file = some text := by
    exact ⟨_, _, .cons rfl (.cons rfl (.cons rfl (.cons rfl (.cons rfl (.cons rfl (.cons rfl (.cons rfl
      (.nil _)))))))), rfl⟩
  obtain ⟨s', text, hrun, hfile⟩ := hrun
  exact ⟨s', text, hrun, hfile, wdl_self_contained ⟨rfl, rfl⟩ hrun hfile⟩

end Meatpi
