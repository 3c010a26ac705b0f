import Meatpi.DataLogger.Store

/-!
# Names and scans

The names of a stream come in the order of their times, as long as ten digits hold
them (`lt_of_time_lt`), and a new name of such a time is read back. A scan finds the
first and the last name of its stream, in whatever order the folder is read
(`scanDir_readdir`).
-/

namespace Meatpi

open List Option UInt8

variable {name' xs ys : List UInt8} {c : UInt8} {epoch' : ℕ}

variable {digits ext name : List UInt8} {epoch : ℕ}

variable {st : DlStreamId}

/-! ## Names -/

theorem behindStart (st : DlStreamId) (rest : List UInt8) :
    dlBehindStart (st.start ++ rest) = some rest := by
  cases st with
  | param => rw [dlBehindStart, if_pos (prefix_append _ _), drop_left]
  | can =>
    have hother : ¬DlStreamId.param.start <+: DlStreamId.can.start ++ rest := by
      intro h
      have hfirst := (cons_prefix_cons.1 h).1
      exact absurd hfirst (by decide)
    rw [dlBehindStart, if_neg hother, if_pos (prefix_append _ _), drop_left]

theorem start_inj {st st' : DlStreamId} (h : st.start <+: name) (h' : st'.start <+: name) :
    st = st' := by
  have hdiff : ∀ rest, ¬DlStreamId.param.start <+: DlStreamId.can.start ++ rest := by
    intro rest h
    exact absurd (cons_prefix_cons.1 h).1 (by decide)
  cases st with
  | param =>
    cases st' with
    | param => rfl
    | can =>
      obtain ⟨rest, rfl⟩ := h'
      exact absurd h (hdiff rest)
  | can =>
    cases st' with
    | param =>
      obtain ⟨rest, rfl⟩ := h
      exact absurd h' (hdiff rest)
    | can => rfl

/-- A file of a stream with a time. -/
structure IsLogName (st : DlStreamId) (name digits ext : List UInt8) (epoch : ℕ) : Prop where
  name_eq : name = st.start ++ (digits ++ ext)
  length_eq : digits.length = dlEpochLen
  isDigit : ∀ c ∈ digits, IsDigitByte c
  known : ext ∈ dlExts
  epoch_eq : epoch = ofDigitsBE 10 (digits.map digitOf)

theorem IsLogName.parse (h : IsLogName st name digits ext epoch) :
    dlFilesParse name = some epoch := by
  have htake : (digits ++ ext).take dlEpochLen = digits := take_left' h.length_eq
  have hdrop : (digits ++ ext).drop dlEpochLen = ext := drop_left' h.length_eq
  have hdigits : digits.all (fun c => IsDigitByte c) = true :=
    all_eq_true.mpr fun c hc => decide_eq_true (h.isDigit c hc)
  rw [h.name_eq, dlFilesParse, behindStart, bind_some, dlParseTime, htake, hdrop,
    if_pos ⟨h.length_eq, hdigits⟩, if_pos (contains_iff_mem.mpr h.known), h.epoch_eq]

theorem isLogName_of_parse (hstart : st.start <+: name) (h : dlFilesParse name = some epoch) :
    ∃ digits ext, IsLogName st name digits ext epoch := by
  obtain ⟨rest, rfl⟩ := hstart
  rw [dlFilesParse, behindStart, bind_some, dlParseTime, ite_none_right_eq_some] at h
  obtain ⟨⟨hlength, hdigits⟩, h⟩ := h
  rw [ite_none_right_eq_some] at h
  obtain ⟨hext, h⟩ := h
  exact ⟨rest.take dlEpochLen, rest.drop dlEpochLen, by rw [take_append_drop], hlength,
    fun c hc => of_decide_eq_true (all_eq_true.mp hdigits c hc),
    contains_iff_mem.mp hext, (some.inj h).symm⟩

theorem digitOf_lt (h : IsDigitByte c) : digitOf c < 10 := by
  have hle : c.toNat ≤ 57 := le_iff_toNat_le.1 h.2
  rw [digitOf]
  omega

theorem digitOf_order {c' : UInt8} (h : IsDigitByte c) (h' : IsDigitByte c') :
    (digitOf c < digitOf c' → c < c') ∧ (digitOf c = digitOf c' → c = c') := by
  have hle : 48 ≤ c.toNat := le_iff_toNat_le.1 h.1
  have hle' : 48 ≤ c'.toNat := le_iff_toNat_le.1 h'.1
  rw [digitOf, digitOf]
  refine ⟨fun hlt => lt_iff_toNat_lt.2 (by omega), fun heq => UInt8.toNat_inj.1 (by omega)⟩

theorem lt_append_of_lt (hlen : xs.length = ys.length) (h : xs < ys) (zs ws : List UInt8) :
    xs ++ zs < ys ++ ws := by
  induction xs generalizing ys with
  | nil =>
    rw [length_eq_zero_iff.1 hlen.symm] at h
    exact absurd h (List.lt_irrefl [])
  | cons x xs ih =>
    cases ys with
    | nil => cases hlen
    | cons y ys =>
      rw [cons_append, cons_append, cons_lt_cons_iff]
      rcases cons_lt_cons_iff.1 h with hlt | ⟨heq, hlt⟩
      · exact .inl hlt
      · exact .inr ⟨heq, ih (Nat.succ.inj hlen) hlt⟩

theorem append_lt_append (front : List UInt8) (h : xs < ys) : front ++ xs < front ++ ys := by
  induction front with
  | nil => exact h
  | cons c front ih => exact cons_lt_cons_iff.2 (.inr ⟨rfl, ih⟩)

/-- **Files of a stream come in the order of their times.** -/
theorem lt_of_time_lt {digits' ext' : List UInt8} (h : IsLogName st name digits ext epoch)
    (h' : IsLogName st name' digits' ext' epoch') (hlt : epoch < epoch') : name < name' := by
  rw [h.epoch_eq, h'.epoch_eq] at hlt
  have hlen : digits.length = digits'.length := h.length_eq.trans h'.length_eq.symm
  have hdigits := lt_of_ofDigitsBE_lt hlen (fun c hc => digitOf_lt (h.isDigit c hc))
    (fun c hc => digitOf_lt (h'.isDigit c hc))
    (fun c hc c' hc' => digitOf_order (h.isDigit c hc) (h'.isDigit c' hc')) hlt
  rw [h.name_eq, h'.name_eq]
  exact append_lt_append _ (lt_append_of_lt hlen hdigits ext ext')

theorem IsLogFile.logName (h : IsLogFile st name) :
    ∃ epoch digits ext, IsLogName st name digits ext epoch ∧ dlFilesParse name = some epoch := by
  obtain ⟨epoch, hepoch⟩ := isSome_iff_exists.1 h.1.1
  obtain ⟨digits, ext, hname⟩ := isLogName_of_parse h.2 hepoch
  exact ⟨epoch, digits, ext, hname, hepoch⟩

theorem time_le_of_le (h : IsLogFile st name) (h' : IsLogFile st name') (hle : name ≤ name')
    (hepoch : dlFilesParse name = some epoch) (hepoch' : dlFilesParse name' = some epoch') :
    epoch ≤ epoch' := by
  by_contra hlt
  obtain ⟨digits, ext, hname⟩ := isLogName_of_parse h.2 hepoch
  obtain ⟨digits', ext', hname'⟩ := isLogName_of_parse h'.2 hepoch'
  exact hle (lt_of_time_lt hname' hname (Nat.not_le.1 hlt))

/-! ## New names -/

theorem isDigitByte_digit {d : ℕ} (h : d < 10) :
    IsDigitByte (48 + d).toUInt8 ∧ digitOf (48 + d).toUInt8 = d := by
  have hnat : (48 + d).toUInt8.toNat = 48 + d := toNat_ofNat_of_lt' (by
    change 48 + d < 256
    omega)
  refine ⟨⟨le_iff_toNat_le.2 ?_, le_iff_toNat_le.2 ?_⟩, ?_⟩
  · rw [hnat]
    exact Nat.le_add_right 48 d
  · rw [hnat]
    change 48 + d ≤ 57
    omega
  · rw [digitOf, hnat, Nat.add_sub_cancel_left]

theorem isDigit_dlEpochText (n : ℕ) : ∀ c ∈ dlEpochText n, IsDigitByte c := by
  intro c hc
  obtain ⟨d, hd, rfl⟩ := mem_map.1 hc
  exact (isDigitByte_digit (lt_of_mem_digitsBE (by decide) hd)).1

theorem length_dlEpochText (n : ℕ) :
    (dlEpochText n).length = max dlEpochLen (Nat.log 10 n + 1) := by
  rw [dlEpochText, length_map, length_digitsBE]

theorem dlEpochText_fits {n : ℕ} (h : n < 10 ^ dlEpochLen) :
    (dlEpochText n).length = dlEpochLen ∧ ofDigitsBE 10 ((dlEpochText n).map digitOf) = n := by
  have hlog : Nat.log 10 n < dlEpochLen := Nat.log_lt_of_lt_pow' (by decide) h
  have hwidth : max dlEpochLen (Nat.log 10 n + 1) = dlEpochLen := Nat.max_eq_left hlog
  refine ⟨(length_dlEpochText n).trans hwidth, ?_⟩
  have hdigits : (dlEpochText n).map digitOf = digitsBE 10 dlEpochLen n := by
    rw [dlEpochText, hwidth, List.map_map]
    refine (List.map_congr_left fun d hd => ?_).trans (List.map_id _)
    exact (isDigitByte_digit (lt_of_mem_digitsBE (by decide) hd)).2
  rw [hdigits, ofDigitsBE_digitsBE, Nat.mod_eq_of_lt h]

theorem isLogName_make (st : DlStreamId) {epoch : ℤ} (hext : ext ∈ dlExts)
    (h : epoch.toNat < 10 ^ dlEpochLen) :
    IsLogName st (st.dlFilesMake epoch ext) (dlEpochText epoch.toNat) ext epoch.toNat where
  name_eq := append_assoc _ _ _
  length_eq := (dlEpochText_fits h).1
  isDigit := isDigit_dlEpochText _
  known := hext
  epoch_eq := (dlEpochText_fits h).2.symm

theorem IsLogName.isLogFile (h : IsLogName st name digits ext epoch) : IsLogFile st name := by
  refine ⟨⟨by rw [h.parse]; rfl, ?_⟩, h.name_eq ▸ prefix_append _ _⟩
  have hstart : st.start.length ≤ 4 := by
    cases st <;> decide
  have hext : ext.length ≤ 6 := by
    have hall : ∀ e ∈ dlExts, e.length ≤ 6 := by decide
    exact hall ext h.known
  have hlen : dlScanName = 48 := rfl
  have hdigits : digits.length = 10 := h.length_eq
  rw [h.name_eq, length_append, length_append]
  omega

theorem parse_make_long (st : DlStreamId) {epoch : ℤ} (h : 10 ^ dlEpochLen ≤ epoch.toNat) :
    dlFilesParse (st.dlFilesMake epoch ext) = none := by
  have hlog : dlEpochLen ≤ Nat.log 10 epoch.toNat := Nat.le_log_of_pow_le (by decide) h
  have hlength : dlEpochLen < (dlEpochText epoch.toNat).length := by
    rw [length_dlEpochText]
    omega
  -- a digit stands where the extension should
  have hext : (dlEpochText epoch.toNat ++ ext).drop dlEpochLen ∉ dlExts := by
    intro hmem
    have hpoint : ∀ e ∈ dlExts, e.head? = some 46 := by decide
    have hhead := hpoint _ hmem
    rw [drop_append_of_le_length (Nat.le_of_lt hlength), drop_eq_getElem_cons hlength] at hhead
    have hdigit := isDigit_dlEpochText epoch.toNat _ (getElem_mem hlength)
    rw [some.inj hhead] at hdigit
    exact absurd hdigit (by decide)
  rw [dlFilesParse, DlStreamId.dlFilesMake, append_assoc, behindStart, bind_some,
    dlParseTime, if_neg fun hmem => hext (contains_iff_mem.mp hmem), ite_self]

/-! ## The scan -/

/-- The first and the last file of a stream among some names, and their number. -/
structure DlScan.Of (st : DlStreamId) (names : List (List UInt8)) (s : DlScan) : Prop where
  count : s.count = names.countP fun name => IsLogFile st name
  oldest : 0 < s.count → s.oldest ∈ names ∧ IsLogFile st s.oldest
  oldest_le : ∀ name ∈ names, IsLogFile st name → s.oldest ≤ name
  newest : 0 < s.count → s.newest ∈ names ∧ IsLogFile st s.newest
  le_newest : ∀ name ∈ names, IsLogFile st name → name ≤ s.newest

theorem dlScanAdd_other (h : ¬IsLogFile st name) (s : DlScan) : dlScanAdd st s name = s := by
  rw [dlScanAdd]
  by_cases hname : (dlFilesParse name).isSome = true ∧ name.length < dlScanName
  · rw [if_neg (not_not.2 hname), if_pos fun hstart => h ⟨hname, hstart⟩]
  · rw [if_pos hname]

theorem dlScanAdd_file (h : IsLogFile st name) (s : DlScan) :
    dlScanAdd st s name =
      { count := s.count + 1
        oldest := if s.count = 0 ∨ name < s.oldest then name else s.oldest
        newest := if s.count = 0 ∨ s.newest < name then name else s.newest } := by
  rw [dlScanAdd, if_neg (not_not.2 h.1), if_neg (not_not.2 h.2)]

theorem best_concat (le : List UInt8 → List UInt8 → Prop) (better : Prop) [Decidable better]
    {names : List (List UInt8)} {best : List UInt8} {count : ℕ} (hname : IsLogFile st name)
    (hrefl : ∀ name, le name name) (htrans : ∀ {a b c}, le a b → le b c → le a c)
    (hbetter : better → le name best) (hworse : ¬better → le best name)
    (hempty : count = 0 → ∀ other ∈ names, ¬IsLogFile st other)
    (hmem : 0 < count → best ∈ names ∧ IsLogFile st best)
    (hbest : ∀ other ∈ names, IsLogFile st other → le best other) :
    ((if count = 0 ∨ better then name else best) ∈ names ++ [name] ∧
        IsLogFile st (if count = 0 ∨ better then name else best)) ∧
      ∀ other ∈ names ++ [name], IsLogFile st other →
        le (if count = 0 ∨ better then name else best) other := by
  by_cases htake : count = 0 ∨ better
  · rw [if_pos htake]
    refine ⟨⟨mem_append_right names mem_cons_self, hname⟩, fun other hother hlog => ?_⟩
    rcases mem_append.1 hother with hother | hother
    · rcases htake with hzero | htake
      · exact absurd hlog (hempty hzero other hother)
      · exact htrans (hbetter htake) (hbest other hother hlog)
    · rw [mem_singleton.1 hother]
      exact hrefl name
  · rw [if_neg htake]
    obtain ⟨hsome, hno⟩ := not_or.1 htake
    obtain ⟨hold, hlog⟩ := hmem (Nat.pos_of_ne_zero hsome)
    refine ⟨⟨mem_append_left _ hold, hlog⟩, fun other hother hlog => ?_⟩
    rcases mem_append.1 hother with hother | hother
    · exact hbest other hother hlog
    · rw [mem_singleton.1 hother]
      exact hworse hno

theorem scanDir_of (st : DlStreamId) (names : List (List UInt8)) :
    (scanDir st names).Of st names := by
  induction names using List.reverseRecOn with
  | nil => exact ⟨rfl, nofun, nofun, nofun, nofun⟩
  | append_singleton names name ih =>
    have hstep : scanDir st (names ++ [name]) = dlScanAdd st (scanDir st names) name := by
      rw [scanDir, foldl_append]
      rfl
    rw [hstep]
    generalize scanDir st names = s at ih
    have hempty : s.count = 0 → ∀ other ∈ names, ¬IsLogFile st other := by
      intro hzero other hmem hother
      rw [ih.count] at hzero
      exact countP_eq_zero.1 hzero other hmem (decide_eq_true hother)
    by_cases hname : IsLogFile st name
    · rw [dlScanAdd_file hname]
      have hold := best_concat (fun a b => a ≤ b) (name < s.oldest) hname
        List.le_refl List.le_trans List.le_of_lt List.not_lt.1 hempty ih.oldest ih.oldest_le
      have hnew := best_concat (fun a b => b ≤ a) (s.newest < name) hname
        List.le_refl (fun h h' => List.le_trans h' h) List.le_of_lt List.not_lt.1 hempty ih.newest
        ih.le_newest
      refine ⟨?_, fun _ => hold.1, hold.2, fun _ => hnew.1, hnew.2⟩
      rw [countP_append, ← ih.count, countP_singleton, if_pos (decide_eq_true hname)]
    · rw [dlScanAdd_other hname]
      have hlast : ∀ {other}, other ∈ names ++ [name] → IsLogFile st other → other ∈ names := by
        intro other hmem hother
        rcases mem_append.1 hmem with hmem | hmem
        · exact hmem
        · rw [mem_singleton.1 hmem] at hother
          exact absurd hother hname
      refine ⟨?_, fun hpos => ?_, fun other hmem hother => ?_, fun hpos => ?_,
        fun other hmem hother => ?_⟩
      · rw [countP_append, ← ih.count, countP_singleton,
          if_neg (mt of_decide_eq_true hname), Nat.add_zero]
      · exact ⟨mem_append_left _ (ih.oldest hpos).1, (ih.oldest hpos).2⟩
      · exact ih.oldest_le other (hlast hmem hother) hother
      · exact ⟨mem_append_left _ (ih.newest hpos).1, (ih.newest hpos).2⟩
      · exact ih.le_newest other (hlast hmem hother) hother

theorem scanDir_readdir (sys : DlSystem) (st : DlStreamId) (d : DlFolder) :
    (scanDir st (sys.readdir d)).Of st d.names := by
  have hperm := sys.readdir_perm d
  obtain ⟨hcount, hold, hle, hnew, hge⟩ := scanDir_of st (sys.readdir d)
  refine ⟨hcount.trans (hperm.countP_eq _), fun h => ?_, fun name hmem => ?_, fun h => ?_,
    fun name hmem => ?_⟩
  · exact ⟨hperm.mem_iff.1 (hold h).1, (hold h).2⟩
  · exact hle name (hperm.mem_iff.2 hmem)
  · exact ⟨hperm.mem_iff.1 (hnew h).1, (hnew h).2⟩
  · exact hge name (hperm.mem_iff.2 hmem)

end Meatpi
