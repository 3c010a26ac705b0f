import Meatpi.Autopid.DtcDb

/-!
# Reading a stored database back (`autopid_dtc_db_codec.c`)

The stored text is delimited text, and the importer reads it as such: it takes
every code back as it is, and every description through the unquoting and
trimming of `field_content` (`import_serialize`). A description that begins with
a blank or stands in quotes is another one afterwards, and no other is
(`dbReread_eq_self_iff`).
-/

namespace Meatpi

open DbParse Except Function List Option

variable {c : Char} {text : List Char} {cap : ℕ}

variable {it : DbItem} {d input scratch : List Char} {items : List DbItem}

/-! ## Codes -/

theorem dtcLetter_letter : ∀ n < 4, dtcLetter (['P', 'C', 'B', 'U'].getD n 'P') = some n := by
  decide

theorem toNat_dtcDigit : ∀ n < 4, (Char.ofNat (48 + n)).toNat = 48 + n := by
  decide

theorem dtcNibble_dtcHex : ∀ n < 16, dtcNibble (dtcHex n) = some n := by
  decide

theorem apDtcUnformat_format (hi lo : UInt8) :
    apDtcUnformat (apDtcFormat hi lo) = some (hi, lo) := by
  have hhi := hi.toNat_lt
  have hlo := lo.toNat_lt
  rw [apDtcFormat, apDtcUnformat, dtcLetter_letter _ (by omega), dtcNibble_dtcHex _ (by omega),
    dtcNibble_dtcHex _ (by omega), dtcNibble_dtcHex _ (by omega), toNat_dtcDigit _ (by omega)]
  rw [bind_some, if_neg (by omega), bind_some, bind_some, map_some]
  have hhi' : hi.toNat / 64 * 64 + (48 + hi.toNat / 16 % 4 - 48) * 16 + hi.toNat % 16 =
      hi.toNat := by omega
  have hlo' : lo.toNat / 16 * 16 + lo.toNat % 16 = lo.toNat := by omega
  rw [hhi', hlo', UInt8.ofNat_toNat, UInt8.ofNat_toNat]

@[simp] theorem length_apDtcFormat (hi lo : UInt8) : (apDtcFormat hi lo).length = 5 := rfl

theorem dtcHex_alphanum : ∀ n < 16, (dtcHex n).isAlphanum = true := by
  decide

theorem isAlphanum_of_mem_format {hi lo : UInt8} (hc : c ∈ apDtcFormat hi lo) :
    c.isAlphanum = true := by
  have hletter : ∀ n < 4, (['P', 'C', 'B', 'U'].getD n 'P').isAlphanum = true := by decide
  have hdigit : ∀ n < 4, (Char.ofNat (48 + n)).isAlphanum = true := by decide
  have hhi := hi.toNat_lt
  have hlo := lo.toNat_lt
  simp only [apDtcFormat, mem_cons, not_mem_nil, or_false] at hc
  rcases hc with rfl | rfl | rfl | rfl | rfl
  · exact hletter _ (by omega)
  · exact hdigit _ (by omega)
  · exact dtcHex_alphanum _ (by omega)
  · exact dtcHex_alphanum _ (by omega)
  · exact dtcHex_alphanum _ (by omega)

theorem dbBase_format (hi lo : UInt8) : dbBase (apDtcFormat hi lo) = apDtcFormat hi lo := by
  rw [dbBase, if_neg]
  rw [length_apDtcFormat]
  omega

/-! ## Descriptions -/

/-- A description as the emitter stores it. -/
structure StoredDesc (d : List Char) : Prop where
  fits : d.length ≤ apDtcDescMax
  /-- control characters are gone -/
  printable : ∀ c ∈ d, 32 ≤ c.toNat
  /-- trailing blanks are gone -/
  trimmed : d.getLast? ≠ some ' '

theorem length_dbDescChars (w : ℕ) (desc : List Char) :
    (dbDescChars w desc).length ≤ desc.length ∧
      (w ≤ apDtcDescMax → w + (dbDescChars w desc).length ≤ apDtcDescMax) := by
  induction desc generalizing w with
  | nil => exact ⟨le_refl _, fun h => h⟩
  | cons c rest ih =>
    rw [dbDescChars]
    split_ifs
    · exact ⟨Nat.zero_le _, fun h => h⟩
    · have := ih (w + 1)
      simp only [length_cons]
      omega
    · have := ih (w + 1)
      simp only [length_cons]
      omega
    · have := ih w
      simp only [length_cons]
      omega

theorem printable_dbDescChars (w : ℕ) (desc : List Char) :
    ∀ c ∈ dbDescChars w desc, 32 ≤ c.toNat := by
  induction desc generalizing w with
  | nil =>
    intro c hc
    cases hc
  | cons x rest ih =>
    intro c hc
    rw [dbDescChars] at hc
    split_ifs at hc with hfull htab hx
    · cases hc
    · rcases mem_cons.mp hc with rfl | hc
      · decide
      · exact ih _ c hc
    · rcases mem_cons.mp hc with rfl | hc
      · exact hx
      · exact ih _ c hc
    · exact ih _ c hc

theorem length_rdropWhile_le (p : Char → Bool) (d : List Char) :
    (d.rdropWhile p).length ≤ d.length :=
  IsPrefix.length_le <| rdropWhile_prefix p d

theorem length_dbDesc_le (desc : List Char) : (dbDesc desc).length ≤ desc.length :=
  le_trans (length_rdropWhile_le _ _) (length_dbDescChars 0 desc).1

theorem storedDesc_dbDesc (desc : List Char) : StoredDesc (dbDesc desc) where
  fits := by
    have hlen := (length_dbDescChars 0 desc).2 (Nat.zero_le _)
    rw [Nat.zero_add] at hlen
    exact le_trans (length_rdropWhile_le _ _) hlen
  printable := fun c hc =>
    have hsub := IsPrefix.subset <| rdropWhile_prefix _ _
    printable_dbDescChars 0 desc c (hsub hc)
  trimmed := by
    intro hlast
    have hne : dbDesc desc ≠ [] := by
      intro h
      rw [h] at hlast
      cases hlast
    have hnot := rdropWhile_last_not _ _ hne
    rw [List.getLast?_eq_some_getLast hne] at hlast
    exact hnot (decide_eq_true (some.inj hlast))

theorem dbDescChars_eq_self (hprint : ∀ c ∈ d, 32 ≤ c.toNat) (w : ℕ)
    (hw : w + d.length ≤ apDtcDescMax) : dbDescChars w d = d := by
  induction d generalizing w with
  | nil => rfl
  | cons c rest ih =>
    rw [length_cons] at hw
    have hc := hprint c (mem_cons_self ..)
    have htab : c ≠ '\t' := by
      rintro rfl
      revert hc
      decide
    rw [dbDescChars, if_neg (by omega), if_neg htab, if_pos hc,
      ih (fun x hx => hprint x (mem_cons_of_mem _ hx)) (w + 1) (by omega)]

theorem StoredDesc.dbDesc_eq (h : StoredDesc d) : dbDesc d = d := by
  have hchars := dbDescChars_eq_self h.printable 0 (by rw [Nat.zero_add]; exact h.fits)
  rw [dbDesc, hchars, rdropWhile_eq_self_iff]
  intro hne hlast
  apply h.trimmed
  rw [List.getLast?_eq_some_getLast hne, of_decide_eq_true hlast]

/-! ## What a field becomes -/

theorem length_dbUnquote (cap : ℕ) (out f : List Char) :
    (dbUnquote cap out f).length ≤ out.length + (f.length - 1) := by
  fun_induction dbUnquote cap out f with
  | case1 => omega
  | case2 out c d rest _ _ ih =>
    simp only [length_append, length_cons, length_nil] at ih ⊢
    omega
  | case3 out c d rest _ _ ih =>
    simp only [length_append, length_cons, length_nil] at ih ⊢
    omega
  | case4 => omega

/-- The field of a description that was stored. -/
def dbReread (d : List Char) : List Char := dbDesc (dbField (apDtcDescMax + 8) d)

/-- A text in quotes. -/
def Quoted (d : List Char) : Prop := 2 ≤ d.length ∧ d.head? = some '"' ∧ d.getLast? = some '"'

instance (d : List Char) : Decidable (Quoted d) := by
  unfold Quoted
  infer_instance

theorem length_dbField_le (cap : ℕ) (f : List Char) :
    (dbField cap f).length ≤ (f.dropWhile isDbBlank).length := by
  have htrim := length_rdropWhile_le isDbBlank (f.dropWhile isDbBlank)
  rw [dbField]
  split_ifs with hq
  · have := length_dbUnquote cap [] ((f.dropWhile isDbBlank).rdropWhile isDbBlank).tail
    rw [length_nil, length_tail] at this
    omega
  · exact htrim

theorem StoredDesc.rdropWhile_eq (h : StoredDesc d) : d.rdropWhile isDbBlank = d := by
  rw [rdropWhile_eq_self_iff]
  intro hne hblank
  have hprint := h.printable _ (getLast_mem hne)
  simp only [isDbBlank, Bool.or_eq_true, decide_eq_true_eq] at hblank
  rcases hblank with hsp | hcr
  · exact h.trimmed (by rw [List.getLast?_eq_some_getLast hne, hsp])
  · rw [hcr] at hprint
    revert hprint
    decide

theorem StoredDesc.dropWhile_eq (h : StoredDesc d) (hhead : d.head? ≠ some ' ') :
    d.dropWhile isDbBlank = d := by
  cases d with
  | nil => rfl
  | cons c rest =>
    rw [dropWhile_cons_of_neg]
    have hprint := h.printable c (mem_cons_self ..)
    simp only [isDbBlank, Bool.or_eq_true, decide_eq_true_eq, not_or]
    constructor
    · rintro rfl
      exact hhead rfl
    · rintro rfl
      revert hprint
      decide

/-- **Which descriptions come back**: those that neither begin with a blank nor
stand in quotes. -/
theorem dbReread_eq_self_iff (h : StoredDesc d) :
    dbReread d = d ↔ d.head? ≠ some ' ' ∧ ¬ Quoted d := by
  by_cases hhead : d.head? = some ' '
  · -- the blank is trimmed, and nothing takes its place
    obtain ⟨rest, rfl⟩ : ∃ rest, d = ' ' :: rest := by
      cases d with
      | nil => cases hhead
      | cons c rest => exact ⟨rest, by rw [some.inj hhead]⟩
    have hlen : (dbReread (' ' :: rest)).length < (' ' :: rest).length := by
      have hfield := length_dbField_le (apDtcDescMax + 8) (' ' :: rest)
      have hdrop := (dropWhile_suffix isDbBlank (l := rest)).length_le
      have hdesc := length_dbDesc_le (dbField (apDtcDescMax + 8) (' ' :: rest))
      rw [dropWhile_cons_of_pos (by decide)] at hfield
      rw [dbReread, length_cons]
      omega
    constructor
    · intro heq
      rw [heq] at hlen
      exact absurd hlen (lt_irrefl _)
    · exact fun hno => absurd rfl hno.1
  · have hfield : dbField (apDtcDescMax + 8) d =
        if Quoted d then dbUnquote (apDtcDescMax + 8) [] d.tail else d := by
      rw [dbField, h.dropWhile_eq hhead, h.rdropWhile_eq]
      rfl
    rw [dbReread, hfield]
    by_cases hq : Quoted d
    · have hlen := length_dbUnquote (apDtcDescMax + 8) [] d.tail
      have hdesc := length_dbDesc_le (dbUnquote (apDtcDescMax + 8) [] d.tail)
      have hlong := hq.1
      rw [length_nil, length_tail] at hlen
      rw [if_pos hq]
      constructor
      · intro heq
        rw [heq] at hdesc
        omega
      · exact fun hno => absurd hq hno.2
    · rw [if_neg hq, h.dbDesc_eq]
      exact ⟨fun _ => ⟨hhead, hq⟩, fun _ => rfl⟩

/-! ## What the emitter keeps -/

/-- The entries of a table over a scratch buffer. -/
def dbEntries (scratch : List Char) (items : List DbItem) : List (List Char × List Char) :=
  items.map fun it => (it.code, it.desc scratch)

/-- What is stored of an entry, when its code is one. -/
def dbEntry (e : List Char × List Char) : Option (List Char × List Char) :=
  (apDtcUnformat (dbBase e.1)).map fun b => (apDtcFormat b.1 b.2, dbDesc e.2)

theorem dbEntry_format (hi lo : UInt8) (desc : List Char) :
    dbEntry (apDtcFormat hi lo, desc) = some (apDtcFormat hi lo, dbDesc desc) := by
  rw [dbEntry, dbBase_format, apDtcUnformat_format, map_some]

/-- The characters of the descriptions. -/
def descsLength (es : List (List Char × List Char)) : ℕ := (es.map fun e => e.2.length).sum

@[simp] theorem descsLength_cons (e : List Char × List Char) (es : List (List Char × List Char)) :
    descsLength (e :: es) = e.2.length + descsLength es := by
  rw [descsLength, map_cons, sum_cons, descsLength]

/-- A table over a scratch buffer as the emitter builds it. -/
structure DbTable (scratch : List Char) (items : List DbItem) : Prop where
  placed : ∀ it ∈ items, it.off + it.len ≤ scratch.length
  codes : ∀ it ∈ items, ∃ hi lo, it.code = apDtcFormat hi lo
  descs : ∀ it ∈ items, StoredDesc (it.desc scratch)

theorem DbItem.desc_append (h : it.off + it.len ≤ scratch.length) (more : List Char) :
    it.desc (scratch ++ more) = it.desc scratch := by
  rw [desc, desc, drop_append_of_le_length (by omega),
    take_append_of_le_length (by rw [length_drop]; omega)]

theorem DbItem.length_desc (h : it.off + it.len ≤ scratch.length) :
    (it.desc scratch).length = it.len := by
  rw [desc, length_take, length_drop]
  omega

namespace DbParse

variable {caps : DbCaps} {p : DbParse} {e : List Char × List Char}

theorem emit_cases (caps : DbCaps) (p : DbParse) (e : List Char × List Char) :
    ((p.emit caps e).scratch = p.scratch ∧ (p.emit caps e).items = p.items) ∨
      ∃ b, apDtcUnformat (dbBase e.1) = some b ∧ (p.emit caps e).scratch = p.scratch ++ dbDesc e.2 ∧
        (p.emit caps e).items = p.items ++
          [⟨apDtcFormat b.1 b.2, p.scratch.length, p.items.length, (dbDesc e.2).length⟩] := by
  cases hcode : apDtcUnformat (dbBase e.1) with
  | none =>
    left
    simp [emit, hcode, reject]
  | some b =>
    by_cases hfull :
        caps.items ≤ p.items.length ∨ caps.scratch < p.scratch.length + apDtcDescMax + 2
    · left
      simp only [emit, hcode, if_pos hfull, and_self]
    · right
      refine ⟨b, rfl, ?_, ?_⟩ <;> simp only [emit, hcode, if_neg hfull]

theorem emit_room {b : UInt8 × UInt8} (hcode : apDtcUnformat (dbBase e.1) = some b)
    (hitems : p.items.length < caps.items)
    (hscratch : p.scratch.length + apDtcDescMax + 2 ≤ caps.scratch) :
    (p.emit caps e).scratch = p.scratch ++ dbDesc e.2 ∧ (p.emit caps e).items = p.items ++
        [⟨apDtcFormat b.1 b.2, p.scratch.length, p.items.length, (dbDesc e.2).length⟩] := by
  have hroom :
      ¬ (caps.items ≤ p.items.length ∨ caps.scratch < p.scratch.length + apDtcDescMax + 2) := by
    omega
  constructor <;> simp only [emit, hcode, if_neg hroom]

theorem table_concat (h : DbTable p.scratch p.items) (hi lo : UInt8) (desc : List Char) (seq : ℕ) :
    DbTable (p.scratch ++ dbDesc desc)
        (p.items ++ [⟨apDtcFormat hi lo, p.scratch.length, seq, (dbDesc desc).length⟩]) ∧
      dbEntries (p.scratch ++ dbDesc desc)
        (p.items ++ [⟨apDtcFormat hi lo, p.scratch.length, seq, (dbDesc desc).length⟩]) =
          dbEntries p.scratch p.items ++ [(apDtcFormat hi lo, dbDesc desc)] := by
  have hold : ∀ it ∈ p.items, it.desc (p.scratch ++ dbDesc desc) = it.desc p.scratch :=
    fun it hit => DbItem.desc_append (h.placed it hit) _
  have hnew : DbItem.desc (p.scratch ++ dbDesc desc)
      ⟨apDtcFormat hi lo, p.scratch.length, seq, (dbDesc desc).length⟩ = dbDesc desc := by
    rw [DbItem.desc, drop_left, take_length]
  refine ⟨⟨?_, ?_, ?_⟩, ?_⟩
  · intro it hit
    rw [length_append]
    rcases mem_append.mp hit with hit | hit
    · have := h.placed it hit
      omega
    · rw [mem_singleton.mp hit]
  · intro it hit
    rcases mem_append.mp hit with hit | hit
    · exact h.codes it hit
    · rw [mem_singleton.mp hit]
      exact ⟨hi, lo, rfl⟩
  · intro it hit
    rcases mem_append.mp hit with hit | hit
    · rw [hold it hit]
      exact h.descs it hit
    · rw [mem_singleton.mp hit, hnew]
      exact storedDesc_dbDesc desc
  · rw [dbEntries, map_append, map_singleton, hnew]
    congr 1
    exact map_congr_left fun it hit => by rw [hold it hit]

theorem table_emit (h : DbTable p.scratch p.items) (caps : DbCaps) (e : List Char × List Char) :
    DbTable (p.emit caps e).scratch (p.emit caps e).items := by
  rcases emit_cases caps p e with ⟨hs, hi⟩ | ⟨b, _, hs, hi⟩
  · rw [hs, hi]
    exact h
  · rw [hs, hi]
    exact (table_concat h b.1 b.2 e.2 p.items.length).1

/-- **Every run of the emitter** builds such a table. -/
theorem table_foldl (h : DbTable p.scratch p.items) (caps : DbCaps)
    (es : List (List Char × List Char)) :
    DbTable (es.foldl (emit caps) p).scratch (es.foldl (emit caps) p).items := by
  induction es generalizing p with
  | nil => exact h
  | cons e es ih => exact ih (table_emit h caps e)

theorem table_init : DbTable init.scratch init.items :=
  ⟨fun _ h => (not_mem_nil h).elim, fun _ h => (not_mem_nil h).elim,
    fun _ h => (not_mem_nil h).elim⟩

theorem entries_foldl (h : DbTable p.scratch p.items) {es : List (List Char × List Char)}
    (hitems : p.items.length + (es.filterMap dbEntry).length ≤ caps.items)
    (hscratch : p.scratch.length + descsLength es + apDtcDescMax + 2 ≤ caps.scratch) :
    dbEntries (es.foldl (emit caps) p).scratch (es.foldl (emit caps) p).items =
      dbEntries p.scratch p.items ++ es.filterMap dbEntry := by
  induction es generalizing p with
  | nil => rw [filterMap_nil, append_nil, foldl_nil]
  | cons e es ih =>
    rw [descsLength_cons] at hscratch
    rw [foldl_cons, filterMap_cons]
    cases hcode : apDtcUnformat (dbBase e.1) with
    | none =>
      -- rejected: the table stays
      have hno : dbEntry e = none := by rw [dbEntry, hcode, map_none]
      have hsame : (p.emit caps e).scratch = p.scratch ∧ (p.emit caps e).items = p.items := by
        simp [emit, hcode, reject]
      rw [filterMap_cons, hno] at hitems
      have htable : DbTable (p.emit caps e).scratch (p.emit caps e).items := by
        rw [hsame.1, hsame.2]
        exact h
      have hroom : (p.emit caps e).items.length + (es.filterMap dbEntry).length ≤ caps.items := by
        rw [hsame.2]
        exact hitems
      have hspace : (p.emit caps e).scratch.length + descsLength es + apDtcDescMax + 2 ≤
          caps.scratch := by
        rw [hsame.1]
        omega
      rw [hno, ih htable hroom hspace, hsame.1, hsame.2]
    | some b =>
      have hyes : dbEntry e = some (apDtcFormat b.1 b.2, dbDesc e.2) := by
        rw [dbEntry, hcode, map_some]
      rw [filterMap_cons, hyes] at hitems
      rw [length_cons] at hitems
      have hroom : p.items.length < caps.items := by omega
      have hspace : p.scratch.length + apDtcDescMax + 2 ≤ caps.scratch := by omega
      obtain ⟨hs, his⟩ := emit_room hcode hroom hspace
      obtain ⟨htable, hentries⟩ := table_concat h b.1 b.2 e.2 p.items.length
      rw [← hs, ← his] at htable hentries
      have hdesc := length_dbDesc_le e.2
      rw [ih htable, hentries, hyes, append_assoc, singleton_append]
      · rw [his, length_append, length_singleton]
        omega
      · rw [hs, length_append]
        omega

end DbParse

/-! ## What an import leaves -/

/-- The entries that the readers pass on. -/
def dbRead (input : List Char) : Option (List (List Char × List Char)) :=
  if (dbWs input).head? = some '\x7b' then dbJsonMap input
  else if (dbWs input).head? = some '[' then dbJsonArray input
  else some ((input.splitOn '\n').filterMap fun l => (dbLine l).map Prod.fst)

theorem foldl_dbParseLine (caps : DbCaps) (lines : List (List Char)) (s : DbParse × Option Char) :
    (lines.foldl (dbParseLine caps) s).1 =
      (lines.filterMap fun l => (dbLine l).map Prod.fst).foldl (DbParse.emit caps) s.1 := by
  induction lines generalizing s with
  | nil => rfl
  | cons l lines ih =>
    rw [foldl_cons, ih, filterMap_cons, dbParseLine]
    cases dbLine l with
    | none => rfl
    | some r => rfl

theorem dbParse_ok {caps : DbCaps} {p : DbParse} {fmt : String}
    (h : dbParse caps input = .ok (p, fmt)) :
    ∃ es, dbRead input = some es ∧ p = es.foldl (DbParse.emit caps) .init := by
  unfold dbParse at h
  unfold dbRead
  dsimp only at h
  split_ifs at h ⊢ with hmap harray
  · cases hes : dbJsonMap input with
    | none =>
      rw [hes] at h
      cases h
    | some es =>
      rw [hes] at h
      cases h
      exact ⟨es, rfl, rfl⟩
  · cases hes : dbJsonArray input with
    | none =>
      rw [hes] at h
      cases h
    | some es =>
      rw [hes] at h
      cases h
      exact ⟨es, rfl, rfl⟩
  · cases h
    exact ⟨_, rfl, foldl_dbParseLine caps _ _⟩

instance : Std.Total DbItem.Before where
  total a b := by
    unfold DbItem.Before
    rcases lt_trichotomy a.code b.code with h | h | h
    · exact Or.inl (Or.inl h)
    · rcases Nat.le_total a.seq b.seq with hseq | hseq
      · exact Or.inl (Or.inr ⟨h, hseq⟩)
      · exact Or.inr (Or.inr ⟨h.symm, hseq⟩)
    · exact Or.inr (Or.inl h)

instance : IsTrans DbItem DbItem.Before where
  trans a b c hab hbc := by
    rcases hab with hab | ⟨hab, hseq⟩
    · rcases hbc with hbc | ⟨hbc, _⟩
      · exact Or.inl (lt_trans hab hbc)
      · exact Or.inl (hbc ▸ hab)
    · rcases hbc with hbc | ⟨hbc, hseq'⟩
      · exact Or.inl (hab ▸ hbc)
      · exact Or.inr ⟨hab.trans hbc, hseq.trans hseq'⟩

theorem DbItem.Before.le {a b : DbItem} (h : a.Before b) : a.code ≤ b.code := by
  rcases h with h | h
  · exact le_of_lt h
  · exact le_of_eq h.1

/-- The items behind the sort and the dedup. -/
def dbSorted (items : List DbItem) : List DbItem := dbDedup (items.insertionSort DbItem.Before)

theorem mem_of_mem_sorted (h : it ∈ dbSorted items) : it ∈ items :=
  (mem_insertionSort _).mp (mem_of_mem_lastOfRuns h)

theorem pairwise_dbSorted (items : List DbItem) :
    (dbSorted items).Pairwise fun a b => a.code < b.code := by
  have hsorted := pairwise_insertionSort DbItem.Before items
  exact pairwise_lastOfRuns (hsorted.imp fun h => h.le)

theorem dbSorted_eq_self (h : items.Pairwise fun a b => a.code < b.code) :
    dbSorted items = items := by
  have hbefore : items.Pairwise DbItem.Before := h.imp fun hab => Or.inl hab
  rw [dbSorted, hbefore.insertionSort_eq]
  exact lastOfRuns_eq_self h

variable {r : DbImport}

theorem apDtcDbImport_eq_ok_iff {caps : DbCaps} :
    apDtcDbImport caps input = .ok r ↔ ∃ p, dbParse caps input = .ok (p, r.fmt) ∧ p.items ≠ [] ∧
        r = ⟨r.fmt, p.scratch, dbSorted p.items⟩ := by
  rw [apDtcDbImport]
  constructor
  · intro h
    split_ifs at h with hempty
    cases hparse : dbParse caps input with
    | error e =>
      rw [hparse] at h
      cases h
    | ok s =>
      rw [hparse] at h
      dsimp only at h
      split_ifs at h with hnone
      cases h
      exact ⟨s.1, rfl, fun hnil => hnone (by rw [hnil]; rfl), rfl⟩
  · rintro ⟨p, hparse, hne, hr⟩
    have hinput : ¬ input.length = 0 := by
      intro hlen
      rw [eq_nil_of_length_eq_zero hlen] at hparse
      obtain ⟨rfl, _⟩ := Prod.mk.inj (ok.inj hparse)
      exact hne rfl
    have hsome : ¬ p.items.length = 0 := fun hlen => hne (eq_nil_of_length_eq_zero hlen)
    rw [if_neg hinput, hparse]
    dsimp only
    rw [if_neg hsome]
    exact congrArg Except.ok hr.symm

/-- **A database**: strictly ascending codes with descriptions in stored form. -/
structure DbImport.Canonical (r : DbImport) : Prop where
  table : DbTable r.scratch r.items
  ascending : r.items.Pairwise fun a b => a.code < b.code
  nonempty : r.items ≠ []

theorem apDtcDbImport_canonical {caps : DbCaps} (h : apDtcDbImport caps input = .ok r) :
    r.Canonical := by
  obtain ⟨p, hparse, hne, hr⟩ := apDtcDbImport_eq_ok_iff.mp h
  obtain ⟨es, _, rfl⟩ := dbParse_ok hparse
  have htable := table_foldl table_init caps es
  rw [hr]
  refine ⟨⟨?_, ?_, ?_⟩, pairwise_dbSorted _, ?_⟩
  · exact fun it hit => htable.placed it (mem_of_mem_sorted hit)
  · exact fun it hit => htable.codes it (mem_of_mem_sorted hit)
  · exact fun it hit => htable.descs it (mem_of_mem_sorted hit)
  · apply lastOfRuns_ne_nil
    intro hnil
    apply hne
    rw [← length_eq_zero_iff, ← length_insertionSort DbItem.Before, hnil]
    rfl

theorem DbImport.Canonical.entry (h : r.Canonical) {e : List Char × List Char}
    (he : e ∈ r.entries) : (∃ hi lo, e.1 = apDtcFormat hi lo) ∧ StoredDesc e.2 := by
  obtain ⟨it, hit, rfl⟩ := mem_map.mp he
  exact ⟨h.table.codes it hit, h.table.descs it hit⟩

/-! ## The stored text -/

/-- The line of an entry. -/
def dbEntryLine (e : List Char × List Char) : List Char := e.1 ++ '\t' :: e.2

/-- The first line of a stored text, without its end. -/
def dbHeaderLine (n : ℕ) : List Char := "#dtcdb1 ".toList ++ Nat.toDigits 10 n

theorem dbHeader_eq (n : ℕ) : dbHeader n = dbHeaderLine n ++ ['\n'] := by
  rfl

/-- The stored text, as it is put together. -/
def dbText (entries : List (List Char × List Char)) : List Char :=
  dbHeader entries.length ++ entries.flatMap fun e => dbEntryLine e ++ ['\n']

theorem dbSerializeLoop_some {out : List Char} (h : dbSerializeLoop scratch cap out items = some text) :
    text = out ++ (dbEntries scratch items).flatMap fun e => dbEntryLine e ++ ['\n'] := by
  induction items generalizing out with
  | nil =>
    rw [dbEntries, List.map_nil, flatMap_nil, append_nil, some.inj h]
  | cons it items ih =>
    rw [dbSerializeLoop] at h
    split_ifs at h with hfull
    rw [ih h]
    simp [dbEntries, dbEntryLine]

theorem apDtcDbSerialize_some (h : apDtcDbSerialize r cap = some text) :
    text = dbText r.entries := by
  rw [dbSerializeLoop_some h, dbText, DbImport.entries, length_map]
  rfl

theorem not_newline_header (n : ℕ) : '\n' ∉ dbHeaderLine n := by
  unfold dbHeaderLine
  rw [mem_append, not_or]
  refine ⟨by decide, ?_⟩
  intro hmem
  have hdigit := Nat.isDigit_of_mem_toDigits (by decide) (by decide) hmem
  revert hdigit
  decide

section

variable {e : List Char × List Char}

theorem not_newline_entryLine (hcode : ∃ hi lo, e.1 = apDtcFormat hi lo) (hdesc : StoredDesc e.2) :
    '\n' ∉ dbEntryLine e := by
  obtain ⟨hi, lo, hcode⟩ := hcode
  rw [dbEntryLine, hcode, mem_append, mem_cons, not_or, not_or]
  refine ⟨?_, by decide, ?_⟩
  · intro hmem
    have halpha := isAlphanum_of_mem_format hmem
    revert halpha
    decide
  · intro hmem
    have hprint := hdesc.printable _ hmem
    revert hprint
    decide

theorem isText_line (l : List Char) {ls : List (List Char)} {t : List Char}
    (h : IsText (· == '\n') ls t) : IsText (· == '\n') (l :: ls) (l ++ '\n' :: t) :=
  IsText.cons l '\n' [] rfl (fun _ hd => (not_mem_nil hd).elim) h

theorem isText_entryLines (entries : List (List Char × List Char)) :
    IsText (· == '\n') (entries.map dbEntryLine)
      (entries.flatMap fun e => dbEntryLine e ++ ['\n']) := by
  induction entries with
  | nil => exact IsText.nil
  | cons e es ih =>
    rw [flatMap_cons, append_assoc]
    exact isText_line _ ih

theorem isText_dbText (entries : List (List Char × List Char)) :
    IsText (· == '\n') (dbHeaderLine entries.length :: entries.map dbEntryLine)
      (dbText entries) := by
  rw [dbText, dbHeader_eq, append_assoc]
  exact isText_line _ (isText_entryLines entries)

theorem dbSplit_code {code : List Char} (hcode : ∀ c ∈ code, c.isAlphanum = true)
    (rest : List Char) : dbSplit false (code ++ '\t' :: rest) = some (code, '\t', rest) := by
  induction code with
  | nil => simp [dbSplit]
  | cons c code ih =>
    have hc := hcode c (mem_cons_self ..)
    have hquote : c ≠ '"' := by
      rintro rfl
      revert hc
      decide
    have hdelim : ¬ (false = false ∧ (c = '\t' ∨ c = ';' ∨ c = ',')) := by
      rintro ⟨_, rfl | rfl | rfl⟩ <;> revert hc <;> decide
    rw [cons_append, dbSplit, if_neg hquote, if_neg hdelim,
      ih fun x hx => hcode x (mem_cons_of_mem _ hx)]
    rfl

theorem not_isDbBlank (hc : c.isAlphanum = true) : ¬ isDbBlank c = true := by
  simp only [isDbBlank, Bool.or_eq_true, decide_eq_true_eq]
  rintro (rfl | rfl) <;> revert hc <;> decide

theorem dbField_format (cap : ℕ) (hi lo : UInt8) :
    dbField cap (apDtcFormat hi lo) = apDtcFormat hi lo := by
  have hblank : ∀ c ∈ apDtcFormat hi lo, ¬ isDbBlank c = true :=
    fun c hc => not_isDbBlank (isAlphanum_of_mem_format hc)
  have hleft : (apDtcFormat hi lo).dropWhile isDbBlank = apDtcFormat hi lo :=
    dropWhile_cons_of_neg (hblank _ (mem_cons_self ..))
  have hright : (apDtcFormat hi lo).rdropWhile isDbBlank = apDtcFormat hi lo :=
    rdropWhile_eq_self_iff.mpr fun hne => hblank _ (getLast_mem hne)
  have hquoted : ¬ (2 ≤ (apDtcFormat hi lo).length ∧ (apDtcFormat hi lo).head? = some '"' ∧
      (apDtcFormat hi lo).getLast? = some '"') := by
    rintro ⟨_, hhead, _⟩
    have halpha := isAlphanum_of_mem_format (List.mem_of_head? hhead)
    revert halpha
    decide
  rw [dbField, hleft, hright, if_neg hquoted]

theorem dbLine_entryLine (hcode : ∃ hi lo, e.1 = apDtcFormat hi lo) :
    dbLine (dbEntryLine e) =
      some ((e.1, dbField (apDtcDescMax + 8) e.2), some '\t') := by
  obtain ⟨hi, lo, hcode⟩ := hcode
  have halpha : ∀ c ∈ e.1, c.isAlphanum = true := by
    rw [hcode]
    exact fun c hc => isAlphanum_of_mem_format hc
  have hfirst : ∃ c rest, dbEntryLine e = c :: rest ∧ c.isAlphanum = true := by
    rw [dbEntryLine, hcode]
    have hmem : ['P', 'C', 'B', 'U'].getD (hi.toNat / 64) 'P' ∈ apDtcFormat hi lo :=
      mem_cons_self ..
    exact ⟨_, _, rfl, isAlphanum_of_mem_format hmem⟩
  obtain ⟨c, rest, hline, hc⟩ := hfirst
  have hdrop : (dbEntryLine e).dropWhile isDbBlank = dbEntryLine e := by
    rw [hline]
    exact dropWhile_cons_of_neg (not_isDbBlank hc)
  have hskip : ¬ (dbEntryLine e = [] ∨ (dbEntryLine e).head? = some '#') := by
    rw [hline]
    rintro (hnil | hhash)
    · cases hnil
    · rw [some.inj hhash] at hc
      revert hc
      decide
  rw [dbLine, hdrop, if_neg hskip, dbEntryLine, dbSplit_code halpha, hcode]
  dsimp only
  rw [dbField_format]

end

theorem dbLine_header (n : ℕ) : dbLine (dbHeaderLine n) = none := by
  rw [dbLine]
  exact if_pos (Or.inr rfl)

/-! ## The round trip -/

theorem dbRead_dbText {entries : List (List Char × List Char)}
    (hentries : ∀ e ∈ entries, (∃ hi lo, e.1 = apDtcFormat hi lo) ∧ StoredDesc e.2) (caps : DbCaps) :
    ∃ fmt, dbParse caps (dbText entries) =
      .ok ((entries.map fun e => (e.1, dbField (apDtcDescMax + 8) e.2)).foldl
        (DbParse.emit caps) .init, fmt) := by
  have hhash : (dbWs (dbText entries)).head? = some '#' := rfl
  have hlines : ∀ l ∈ dbHeaderLine entries.length :: entries.map dbEntryLine,
      ∀ c ∈ l, (c == '\n') = false := by
    have hno : ∀ l : List Char, '\n' ∉ l → ∀ c ∈ l, (c == '\n') = false := by
      intro l hl c hc
      exact beq_eq_false_iff_ne.mpr fun h => hl (h ▸ hc)
    intro l hl
    rcases mem_cons.mp hl with rfl | hl
    · exact hno _ (not_newline_header _)
    · obtain ⟨e, he, rfl⟩ := mem_map.mp hl
      exact hno _ (not_newline_entryLine (hentries e he).1 (hentries e he).2)
  have hfold := (isText_dbText entries).foldl_splitOnP (f := dbParseLine caps) (fun _ => rfl)
    hlines (.init, none)
  have hread : (dbHeaderLine entries.length :: entries.map dbEntryLine).filterMap
      (fun l => (dbLine l).map Prod.fst) =
        entries.map fun e => (e.1, dbField (apDtcDescMax + 8) e.2) := by
    rw [filterMap_cons, dbLine_header, filterMap_map]
    rw [← filterMap_eq_map]
    exact filterMap_congr fun e he => by
      rw [comp_apply, dbLine_entryLine (hentries e he).1]
      rfl
  refine ⟨dbFmt ((dbText entries).splitOn '\n' |>.foldl (dbParseLine caps) (.init, none)).2, ?_⟩
  have hmap : ¬ some '#' = some '\x7b' := by decide
  have harray : ¬ some '#' = some '[' := by decide
  rw [dbParse, hhash, if_neg hmap, if_neg harray]
  dsimp only
  rw [splitOn_eq_splitOnP, hfold, foldl_dbParseLine, hread]

theorem descsLength_dbField_le (entries : List (List Char × List Char)) :
    descsLength (entries.map fun e => (e.1, dbField (apDtcDescMax + 8) e.2)) ≤
      (dbText entries).length := by
  have hlines : ∀ es : List (List Char × List Char),
      descsLength (es.map fun e => (e.1, dbField (apDtcDescMax + 8) e.2)) ≤
        (es.flatMap fun e => dbEntryLine e ++ ['\n']).length := by
    intro es
    induction es with
    | nil => exact Nat.zero_le _
    | cons e es ih =>
      have hfield : (dbField (apDtcDescMax + 8) e.2).length ≤ e.2.length :=
        le_trans (length_dbField_le _ _) (dropWhile_suffix _).length_le
      have hline : (dbEntryLine e).length = e.1.length + (e.2.length + 1) := by
        rw [dbEntryLine, length_append, length_cons]
      simp only [map_cons, descsLength_cons, flatMap_cons, length_append, hline]
      omega
  have := hlines entries
  rw [dbText, length_append]
  omega

theorem pairwise_code_iff :
    (items.Pairwise fun a b => a.code < b.code) ↔ (items.map DbItem.code).Pairwise (· < ·) :=
  pairwise_map.symm

theorem map_fst_dbEntries (scratch : List Char) (items : List DbItem) :
    (dbEntries scratch items).map Prod.fst = items.map DbItem.code := by
  rw [dbEntries, List.map_map]
  rfl

/-- **Importing what was stored** gives every code back, with the field of its
description. -/
theorem import_serialize (h : r.Canonical) {caps : DbCaps}
    (hscratch : (dbText r.entries).length + apDtcDescMax + 16 ≤ caps.scratch)
    (hitems : r.items.length ≤ caps.items) :
    ∃ r', apDtcDbImport caps (dbText r.entries) = .ok r' ∧
      r'.entries = r.entries.map fun e => (e.1, dbReread e.2) := by
  obtain ⟨fmt, hparse⟩ := dbRead_dbText (fun e he => h.entry he) caps
  have hread : (r.entries.map fun e => (e.1, dbField (apDtcDescMax + 8) e.2)).filterMap dbEntry =
      r.entries.map fun e => (e.1, dbReread e.2) := by
    rw [filterMap_map, ← filterMap_eq_map]
    refine filterMap_congr fun e he => ?_
    obtain ⟨hi, lo, hcode⟩ := (h.entry he).1
    rw [comp_apply, comp_apply, hcode, dbEntry_format]
    rfl
  have hsum := descsLength_dbField_le r.entries
  have hroom : 0 + ((r.entries.map fun e => (e.1, dbField (apDtcDescMax + 8) e.2)).filterMap
      dbEntry).length ≤ caps.items := by
    rw [hread, Nat.zero_add, length_map, DbImport.entries, length_map]
    exact hitems
  have hentries := entries_foldl table_init hroom
    (show 0 + _ + apDtcDescMax + 2 ≤ caps.scratch by omega)
  rw [hread] at hentries
  generalize (r.entries.map fun e => (e.1, dbField (apDtcDescMax + 8) e.2)).foldl
    (DbParse.emit caps) .init = p at hparse hentries
  -- the codes come back in their order, so sorting and thinning leave them as they are
  have hcode : p.items.map DbItem.code = r.items.map DbItem.code := by
    rw [← map_fst_dbEntries p.scratch, hentries]
    simp only [DbParse.init, dbEntries, List.map_nil, List.nil_append, List.map_map,
      DbImport.entries]
    rfl
  have hsorted : dbSorted p.items = p.items := by
    apply dbSorted_eq_self
    rw [pairwise_code_iff, hcode, ← pairwise_code_iff]
    exact h.ascending
  have hne : p.items ≠ [] := by
    intro hnil
    rw [hnil] at hcode
    exact h.nonempty (map_eq_nil_iff.mp hcode.symm)
  refine ⟨⟨fmt, p.scratch, p.items⟩, ?_, hentries⟩
  exact apDtcDbImport_eq_ok_iff.mpr ⟨p, hparse, hne, by rw [hsorted]⟩

/-- **When a stored text is a fixed point**: the re-import of what an import
stored has the same codes and descriptions exactly when no description begins
with a blank or stands in quotes. -/
theorem apDtcDbReimport_iff (caps caps' : DbCaps) (cap : ℕ) (input text : List Char) (r : DbImport)
    (himport : apDtcDbImport caps input = .ok r) (hserialize : apDtcDbSerialize r cap = some text)
    (hscratch : text.length + apDtcDescMax + 16 ≤ caps'.scratch)
    (hitems : r.items.length ≤ caps'.items) :
    (∃ r', apDtcDbImport caps' text = .ok r' ∧ r'.entries = r.entries) ↔
      ∀ e ∈ r.entries, e.2.head? ≠ some ' ' ∧
        ¬ (2 ≤ e.2.length ∧ e.2.head? = some '"' ∧ e.2.getLast? = some '"') := by
  have hcanon := apDtcDbImport_canonical himport
  have htext := apDtcDbSerialize_some hserialize
  rw [htext] at hscratch
  obtain ⟨r', hok, hentries⟩ := import_serialize hcanon hscratch hitems
  have hsame : (∃ r', apDtcDbImport caps' text = .ok r' ∧ r'.entries = r.entries) ↔
      r.entries.map (fun e => (e.1, dbReread e.2)) = r.entries := by
    rw [htext]
    constructor
    · rintro ⟨r₂, hok₂, heq⟩
      rw [hok] at hok₂
      rw [← hentries, ok.inj hok₂, heq]
    · exact fun heq => ⟨r', hok, hentries.trans heq⟩
  have hself : r.entries.map (fun e => (e.1, dbReread e.2)) = r.entries ↔
      ∀ e ∈ r.entries, (e.1, dbReread e.2) = e := by
    have hid : r.entries.map (fun e => (e.1, dbReread e.2)) = r.entries.map id ↔
        ∀ e ∈ r.entries, (e.1, dbReread e.2) = e := List.map_inj_left
    rwa [List.map_id] at hid
  rw [hsame, hself]
  have hiff : ∀ e ∈ r.entries, (e.1, dbReread e.2) = e ↔ e.2.head? ≠ some ' ' ∧ ¬ Quoted e.2 := by
    intro e he
    rw [← dbReread_eq_self_iff (hcanon.entry he).2]
    exact ⟨fun heq => congrArg Prod.snd heq, fun heq => Prod.ext rfl heq⟩
  exact forall₂_congr hiff

/-- What an import leaves of one line. -/
def plainImport : DbImport :=
  ⟨"semicolon", "Catalyst".toList, [⟨"P0420".toList, 0, 0, 8⟩]⟩

theorem apDtcDbReimport_iff_plain :
    ∃ r', apDtcDbImport ⟨200, 8⟩ "#dtcdb1 1\nP0420\tCatalyst\n".toList = .ok r' ∧
      r'.entries = plainImport.entries := by
  have himport : apDtcDbImport ⟨200, 8⟩ "P0420;Catalyst".toList = .ok plainImport := by decide
  have hserialize : apDtcDbSerialize plainImport 100 =
      some "#dtcdb1 1\nP0420\tCatalyst\n".toList := by
    decide
  have hdescs : ∀ e ∈ plainImport.entries, e.2.head? ≠ some ' ' ∧
      ¬ (2 ≤ e.2.length ∧ e.2.head? = some '"' ∧ e.2.getLast? = some '"') := by decide
  exact (apDtcDbReimport_iff ⟨200, 8⟩ ⟨200, 8⟩ 100 "P0420;Catalyst".toList
    "#dtcdb1 1\nP0420\tCatalyst\n".toList plainImport himport hserialize (by decide)
    (by decide)).mpr hdescs

/-- A JSON file with a description that begins with a blank and one in quotes. -/
def rewrittenFile : List Char :=
  "\x7b\"P0420\":\" Catalyst\",\"P0171\":\"\\\"Lean\\\"\"\x7d".toList

/-- What an import leaves of it. -/
def rewrittenImport : DbImport :=
  ⟨"json-map", " Catalyst\"Lean\"".toList,
    [⟨"P0171".toList, 9, 1, 6⟩, ⟨"P0420".toList, 0, 0, 9⟩]⟩

/-- The text that is stored does not come back. -/
theorem not_apDtcDbReimport :
    ¬ ∀ (caps caps' : DbCaps) (cap : ℕ) (input text : List Char) (r : DbImport),
      apDtcDbImport caps input = .ok r → apDtcDbSerialize r cap = some text →
      text.length + apDtcDescMax + 16 ≤ caps'.scratch → r.items.length ≤ caps'.items →
        ∃ r', apDtcDbImport caps' text = .ok r' ∧ r'.entries = r.entries := by
  intro h
  have himport : apDtcDbImport ⟨200, 8⟩ rewrittenFile = .ok rewrittenImport := by
    decide +kernel
  have hserialize : apDtcDbSerialize rewrittenImport 100 =
      some "#dtcdb1 2\nP0171\t\"Lean\"\nP0420\t Catalyst\n".toList := by
    decide
  obtain ⟨r', hok, hentries⟩ := h ⟨200, 8⟩ ⟨200, 8⟩ 100 rewrittenFile
    "#dtcdb1 2\nP0171\t\"Lean\"\nP0420\t Catalyst\n".toList rewrittenImport himport hserialize
    (by decide) (by decide)
  rw [← ok.inj hok] at hentries
  revert hentries
  decide

end Meatpi
