import Meatpi.Autopid.DtcDbReaders

/-!
# Loading and searching a database (`autopid_dtc_db_codec.c`, `autopid_dtc_db.c`)

`ap_dtc_db_index` finds the lines of a stored text again, taking the bytes
behind each tab as they are, and `db_bsearch` searches the index. Together with
the import: the index of what an import stored holds exactly the codes of the
input, each with its last description, and the search finds exactly these
(`apDtcDbImport_index`).
-/

namespace Meatpi

open DbParse List Nat Option

variable {entries : List (List Char × List Char)} {code scratch : List Char}

variable {r : DbImport} {it : DbItem} {items : List DbItem} {cap fuel : ℕ}

/-! ## The index -/

def isAtoiSpace (c : Char) : Bool :=
  c = ' ' || c = '\t' || c = '\n' || c = '\x0b' || c = '\x0c' || c = '\r'

def atoi (s : List Char) : ℤ :=
  let s := s.dropWhile isAtoiSpace
  let digits (s : List Char) : ℕ := Nat.ofDigitChars 10 (s.takeWhile Char.isDigit) 0
  if s.head? = some '-' then -(digits s.tail : ℤ)
  else if s.head? = some '+' then digits s.tail
  else digits s

/-- The loop of `ap_dtc_db_index` over the rest of the buffer, from offset `pos`,
with `n` items found. -/
def dbIndexLoop (cap : ℕ) : ℕ → ℕ → ℕ → List Char → List DbItem
  | 0, _, _, _ => []
  | fuel + 1, pos, n, rest =>
    let eol := (rest.takeWhile (· ≠ '\n')).length
    if rest = [] ∨ cap ≤ n then []
    else if 6 ≤ eol ∧ rest[5]? = some '\t' then
      ⟨rest.take 5, pos + 6, n, eol - 6⟩ ::
        dbIndexLoop cap fuel (pos + eol + 1) (n + 1) (rest.drop (eol + 1))
    else dbIndexLoop cap fuel (pos + eol + 1) n (rest.drop (eol + 1))

/-- `ap_dtc_db_index`; the items point into the buffer. -/
def apDtcDbIndex (cap : ℕ) (buf : List Char) : Option (List DbItem) :=
  if buf.length < 8 ∨ buf.take 8 ≠ "#dtcdb1 ".toList then none
  else
    let pos := (buf.takeWhile (· ≠ '\n')).length + 1
    let items := dbIndexLoop cap buf.length pos 0 (buf.drop pos)
    if (items.length : ℤ) = atoi (buf.drop 8) then some items else none

/-! ## The search -/

/-- The loop of `db_bsearch`. The bounds are C `int`s: `hi` starts at `-1` when
there are no items. -/
def dbBsearchLoop (items : List DbItem) (code : List Char) : ℕ → ℤ → ℤ → Option DbItem
  | 0, _, _ => none
  | fuel + 1, lo, hi =>
    if lo ≤ hi then
      (items[((lo + hi) / 2).toNat]?).bind fun it =>
        if code = it.code then some it
        else if code < it.code then dbBsearchLoop items code fuel lo ((lo + hi) / 2 - 1)
        else dbBsearchLoop items code fuel ((lo + hi) / 2 + 1) hi
    else none

/-- `db_bsearch`. Every turn halves the range, so the number of items is fuel
enough. -/
def dbBsearch (items : List DbItem) (code : List Char) : Option DbItem :=
  dbBsearchLoop items code (items.length + 1) 0 (items.length - 1)

theorem dbBsearchLoop_mem {lo hi : ℤ} (h : dbBsearchLoop items code fuel lo hi = some it) :
    it ∈ items ∧ it.code = code := by
  induction fuel generalizing lo hi with
  | zero => cases h
  | succ fuel ih =>
    rw [dbBsearchLoop] at h
    split_ifs at h
    obtain ⟨mid, hmid, h⟩ := bind_eq_some_iff.mp h
    split_ifs at h with heq
    · rw [← some.inj h]
      exact ⟨mem_of_getElem? hmid, heq.symm⟩
    · exact ih h
    · exact ih h

theorem dbBsearchLoop_found (hasc : items.Pairwise fun a b => a.code < b.code) {i : ℕ}
    (hi : items[i]? = some it) {l u : ℤ} (hl : 0 ≤ l) (hu : u < items.length) (hli : l ≤ i)
    (hiu : i ≤ u) (hfuel : u - l < fuel) : dbBsearchLoop items it.code fuel l u = some it := by
  induction fuel generalizing l u with
  | zero => omega
  | succ fuel ih =>
    obtain ⟨hilt, hit⟩ := List.getElem?_eq_some_iff.mp hi
    have hmid : ((l + u) / 2).toNat < items.length := by omega
    have hget : items[((l + u) / 2).toNat]? = some items[((l + u) / 2).toNat] :=
      List.getElem?_eq_getElem hmid
    have hlt : ∀ {a b : ℕ} (ha : a < items.length) (hb : b < items.length), a < b →
        items[a].code < items[b].code :=
      fun ha hb hab => pairwise_iff_getElem.mp hasc _ _ ha hb hab
    rw [dbBsearchLoop, if_pos (le_trans hli hiu), hget, bind_some]
    rcases lt_trichotomy i ((l + u) / 2).toNat with hbelow | heq | habove
    · have hcode : it.code < items[((l + u) / 2).toNat].code := by
        rw [← hit]
        exact hlt hilt hmid hbelow
      rw [if_neg (ne_of_lt hcode), if_pos hcode]
      exact ih hl (by omega) hli (by omega) (by omega)
    · subst heq
      rw [if_pos (by rw [hit]), hit]
    · have hcode : items[((l + u) / 2).toNat].code < it.code := by
        rw [← hit]
        exact hlt hmid hilt habove
      rw [if_neg (ne_of_gt hcode), if_neg (lt_asymm hcode)]
      exact ih (by omega) hu (by omega) hiu (by omega)

/-- **The search finds exactly the items.** -/
theorem dbBsearch_eq_some_iff (hasc : items.Pairwise fun a b => a.code < b.code) :
    dbBsearch items code = some it ↔ it ∈ items ∧ it.code = code := by
  constructor
  · exact dbBsearchLoop_mem
  · rintro ⟨hmem, rfl⟩
    obtain ⟨i, hi⟩ := List.getElem?_of_mem hmem
    have hlt := (List.getElem?_eq_some_iff.mp hi).1
    exact dbBsearchLoop_found hasc hi (le_refl _) (by omega) (by omega) (by omega) (by omega)

/-! ## The index of a stored text -/

theorem atoi_toDigits (n : ℕ) (rest : List Char) :
    atoi (Nat.toDigits 10 n ++ '\n' :: rest) = n := by
  have hdigit : ∀ c ∈ Nat.toDigits 10 n, c.isDigit = true :=
    fun c hc => isDigit_of_mem_toDigits (by decide) (by decide) hc
  have htake : (Nat.toDigits 10 n ++ '\n' :: rest).takeWhile Char.isDigit = Nat.toDigits 10 n := by
    rw [takeWhile_append_of_pos hdigit, takeWhile_cons_of_neg (by decide), append_nil]
  have hread : Nat.ofDigitChars 10 (Nat.toDigits 10 n) 0 = n := ofDigitChars_ten_toDigits
  obtain ⟨c, ds, hds⟩ := exists_cons_of_ne_nil (toDigits_ne_nil (b := 10) (n := n))
  have hc : c.isDigit = true := hdigit c (by rw [hds]; exact mem_cons_self ..)
  have hspace : ¬ isAtoiSpace c = true := by
    intro h
    simp only [isAtoiSpace, Bool.or_eq_true, decide_eq_true_eq] at h
    rcases h with ((((rfl | rfl) | rfl) | rfl) | rfl) | rfl <;> revert hc <;> decide
  have hdrop : (Nat.toDigits 10 n ++ '\n' :: rest).dropWhile isAtoiSpace =
      Nat.toDigits 10 n ++ '\n' :: rest := by
    rw [hds, cons_append, dropWhile_cons_of_neg hspace]
  have hhead : ∀ x : Char, x.isDigit = false →
      (Nat.toDigits 10 n ++ '\n' :: rest).head? ≠ some x := by
    intro x hx h
    rw [hds, cons_append, List.head?_cons, some.injEq] at h
    rw [h, hx] at hc
    cases hc
  rw [atoi]
  simp only [hdrop]
  rw [if_neg (hhead '-' (by decide)), if_neg (hhead '+' (by decide)), htake, hread]

/-- An entry whose line the index finds: five characters of code, and no line
end in either part. -/
structure IsDbLine (e : List Char × List Char) : Prop where
  code : e.1.length = 5
  noEnd : '\n' ∉ dbEntryLine e

theorem takeWhile_line {l : List Char} (hl : '\n' ∉ l) (rest : List Char) :
    (l ++ '\n' :: rest).takeWhile (· ≠ '\n') = l := by
  have hall : ∀ c ∈ l, decide (c ≠ '\n') = true := fun c hc => decide_eq_true fun h => hl (h ▸ hc)
  rw [takeWhile_append_of_pos hall, takeWhile_cons_of_neg (by decide), append_nil]

theorem dbIndexLoop_lines (hentries : ∀ e ∈ entries, IsDbLine e) (pre : List Char) {n : ℕ}
    (hcap : n + entries.length ≤ cap) (hfuel : entries.length < fuel) :
    dbEntries (pre ++ entries.flatMap fun e => dbEntryLine e ++ ['\n'])
      (dbIndexLoop cap fuel pre.length n
        (entries.flatMap fun e => dbEntryLine e ++ ['\n'])) = entries := by
  induction entries generalizing pre n fuel with
  | nil =>
    obtain ⟨fuel, rfl⟩ : ∃ f, fuel = f + 1 := ⟨fuel - 1, by omega⟩
    rfl
  | cons e es ih =>
    obtain ⟨fuel, rfl⟩ : ∃ f, fuel = f + 1 := ⟨fuel - 1, by omega⟩
    rw [length_cons] at hcap hfuel
    have he := hentries e (mem_cons_self ..)
    have hrest : ((e :: es).flatMap fun e => dbEntryLine e ++ ['\n']) =
        dbEntryLine e ++ '\n' :: es.flatMap fun e => dbEntryLine e ++ ['\n'] := by
      rw [flatMap_cons, append_assoc, singleton_append]
    rw [hrest]
    generalize htail : (es.flatMap fun e => dbEntryLine e ++ ['\n']) = tail at ih ⊢
    have hline : (dbEntryLine e).length = 6 + e.2.length := by
      rw [dbEntryLine, length_append, length_cons, he.code]
      omega
    have hne : ¬ (dbEntryLine e ++ '\n' :: tail = [] ∨ cap ≤ n) := by
      rintro (hnil | hfull)
      · simp at hnil
      · omega
    have hsplit : dbEntryLine e ++ '\n' :: tail = e.1 ++ '\t' :: (e.2 ++ '\n' :: tail) := by
      rw [dbEntryLine, append_assoc, cons_append]
    have htab : 6 ≤ (dbEntryLine e).length ∧ (dbEntryLine e ++ '\n' :: tail)[5]? = some '\t' := by
      refine ⟨by omega, ?_⟩
      rw [hsplit, List.getElem?_append_right (by rw [he.code]), he.code]
      rfl
    have hcode : (dbEntryLine e ++ '\n' :: tail).take 5 = e.1 := by
      rw [hsplit, take_left' he.code]
    have hnext : (dbEntryLine e ++ '\n' :: tail).drop ((dbEntryLine e).length + 1) = tail := by
      rw [drop_length_add_append]
      rfl
    -- the next line begins behind this one
    have hpre : pre ++ (dbEntryLine e ++ '\n' :: tail) =
        (pre ++ dbEntryLine e ++ ['\n']) ++ tail := by
      simp
    have hpos : pre.length + (dbEntryLine e).length + 1 =
        (pre ++ dbEntryLine e ++ ['\n']).length := by
      rw [length_append, length_append, length_singleton]
    have hdesc : DbItem.desc (pre ++ (dbEntryLine e ++ '\n' :: tail))
        ⟨e.1, pre.length + 6, n, (dbEntryLine e).length - 6⟩ = e.2 := by
      have hlead : pre ++ (dbEntryLine e ++ '\n' :: tail) =
          (pre ++ e.1 ++ ['\t']) ++ (e.2 ++ '\n' :: tail) := by
        rw [hsplit]
        simp
      have hoff : pre.length + 6 = (pre ++ e.1 ++ ['\t']).length := by
        simp only [length_append, he.code, length_singleton]
      rw [DbItem.desc, hlead]
      rw [hoff, drop_left, hline, Nat.add_sub_cancel_left, take_left]
    rw [dbIndexLoop, takeWhile_line he.noEnd, if_neg hne, if_pos htab, hcode, hnext, dbEntries,
      map_cons, hdesc, hpre, hpos]
    congr 1
    exact ih (fun x hx => hentries x (mem_cons_of_mem _ hx)) _ (by omega) (by omega)

/-- **The index of a stored text** holds its entries. -/
theorem apDtcDbIndex_dbText (hentries : ∀ e ∈ entries, IsDbLine e) (hcap : entries.length ≤ cap) :
    ∃ items, apDtcDbIndex cap (dbText entries) = some items ∧
      dbEntries (dbText entries) items = entries := by
  have hbuf : dbText entries = dbHeaderLine entries.length ++
      '\n' :: entries.flatMap fun e => dbEntryLine e ++ ['\n'] := by
    rw [dbText, dbHeader_eq, append_assoc, singleton_append]
  have hmagic : "#dtcdb1 ".toList.length = 8 := by decide
  have hheader : dbText entries = "#dtcdb1 ".toList ++ (Nat.toDigits 10 entries.length ++
      '\n' :: entries.flatMap fun e => dbEntryLine e ++ ['\n']) := by
    rw [hbuf]
    rfl
  have hshort : ¬ ((dbText entries).length < 8 ∨ (dbText entries).take 8 ≠ "#dtcdb1 ".toList) := by
    rw [hheader, length_append, not_or]
    exact ⟨by omega, fun h => h rfl⟩
  have hatoi : atoi ((dbText entries).drop 8) = entries.length := by
    rw [hheader, drop_left' hmagic, atoi_toDigits]
  have hpos : ((dbText entries).takeWhile (· ≠ '\n')).length + 1 =
      (dbHeaderLine entries.length ++ ['\n']).length := by
    rw [hbuf, takeWhile_line (not_newline_header _), length_append, length_singleton]
  have hpre : dbText entries = (dbHeaderLine entries.length ++ ['\n']) ++
      entries.flatMap fun e => dbEntryLine e ++ ['\n'] := by
    rw [hbuf, append_assoc, singleton_append]
  have hfuel : entries.length < (dbText entries).length := by
    have hlines : ∀ es : List (List Char × List Char),
        es.length ≤ (es.flatMap fun e => dbEntryLine e ++ ['\n']).length := by
      intro es
      induction es with
      | nil => exact Nat.zero_le _
      | cons e es ih =>
        rw [flatMap_cons, length_append, length_append, length_singleton, length_cons]
        omega
    have := hlines entries
    rw [hbuf, length_append, length_cons]
    omega
  have hroom : 0 + entries.length ≤ cap := by omega
  have hloop := dbIndexLoop_lines hentries (dbHeaderLine entries.length ++ ['\n']) hroom hfuel
  unfold apDtcDbIndex
  rw [if_neg hshort]
  simp only [hpos, hatoi]
  have hdrop : (dbText entries).drop (dbHeaderLine entries.length ++ ['\n']).length =
      entries.flatMap fun e => dbEntryLine e ++ ['\n'] := by
    rw [hpre, drop_left]
  rw [hdrop]
  generalize dbIndexLoop _ _ _ _ _ = items at hloop ⊢
  refine ⟨items, ?_, hloop⟩
  have hlen : items.length = entries.length := by
    rw [← hloop, dbEntries, length_map]
  rw [if_pos (by rw [hlen])]

theorem dbSerializeLoop_room {out : List Char} (hitems : DbTable scratch items)
    (h : (out ++ (dbEntries scratch items).flatMap fun e => dbEntryLine e ++ ['\n']).length < cap) :
    ∃ text, dbSerializeLoop scratch cap out items = some text := by
  induction items generalizing out with
  | nil => exact ⟨out, rfl⟩
  | cons it items ih =>
    have htail : DbTable scratch items := ⟨fun x hx => hitems.placed x (mem_cons_of_mem _ hx),
        fun x hx => hitems.codes x (mem_cons_of_mem _ hx),
        fun x hx => hitems.descs x (mem_cons_of_mem _ hx)⟩
    obtain ⟨hi, lo, hcode⟩ := hitems.codes it (mem_cons_self ..)
    have hdesc := DbItem.length_desc (hitems.placed it (mem_cons_self ..))
    have hlen : it.code.length = 5 := by rw [hcode, length_apDtcFormat]
    have hline : (dbEntryLine (it.code, it.desc scratch) ++ ['\n']).length =
        5 + 1 + it.len + 1 := by
      rw [dbEntryLine, length_append, length_append, length_cons, length_singleton, hlen, hdesc]
      omega
    rw [dbEntries, map_cons, flatMap_cons, length_append, length_append, hline] at h
    rw [dbSerializeLoop, if_neg (by omega)]
    apply ih htail
    have hout : (out ++ it.code ++ '\t' :: it.desc scratch ++ ['\n']).length =
        out.length + (5 + 1 + it.len + 1) := by
      simp only [length_append, length_cons, length_nil, hlen, hdesc]
      omega
    rw [length_append, hout]
    exact lt_of_le_of_lt (le_of_eq (Nat.add_assoc ..)) h

theorem apDtcDbSerialize_room (h : r.Canonical) (hcap : (dbText r.entries).length < cap) :
    apDtcDbSerialize r cap = some (dbText r.entries) := by
  have hlen : r.entries.length = r.items.length := by rw [DbImport.entries, length_map]
  rw [dbText, hlen] at hcap
  obtain ⟨text, htext⟩ := dbSerializeLoop_room h.table hcap
  have hser : apDtcDbSerialize r cap = some text := htext
  rw [hser, apDtcDbSerialize_some hser]

/-! ## The last entry of each code -/

/-- An entry with no later one of its code. -/
def IsLastEntry (e : List Char × List Char) (es : List (List Char × List Char)) : Prop :=
  ∃ pre post, es = pre ++ e :: post ∧ ∀ x ∈ post, x.1 ≠ e.1

/-- The items in the order of their arrival. -/
def InOrder (items : List DbItem) : Prop := items.Pairwise fun a b => a.seq < b.seq

theorem inOrder_foldl (caps : DbCaps) (es : List (List Char × List Char)) {p : DbParse}
    (h : InOrder p.items) (hseq : ∀ it ∈ p.items, it.seq < p.items.length) :
    InOrder (es.foldl (DbParse.emit caps) p).items := by
  induction es generalizing p with
  | nil => exact h
  | cons e es ih =>
    rcases emit_cases caps p e with ⟨_, hi⟩ | ⟨b, _, _, hi⟩
    · rw [← hi] at h hseq
      exact ih h hseq
    · apply ih
      · rw [hi, InOrder, pairwise_append]
        refine ⟨h, pairwise_singleton .., ?_⟩
        intro x hx y hy
        rw [mem_singleton.mp hy]
        exact hseq x hx
      · intro it hit
        rw [hi, length_append]
        rw [hi] at hit
        rcases mem_append.mp hit with hit | hit
        · exact lt_succ_of_lt (hseq it hit)
        · rw [mem_singleton.mp hit]
          exact lt_succ_self _

theorem InOrder.around {pre post : List DbItem} (h : InOrder (pre ++ it :: post)) :
    (∀ x ∈ pre, x.seq < it.seq) ∧ ∀ x ∈ post, it.seq < x.seq := by
  obtain ⟨_, hcons, hpre⟩ := pairwise_append.mp h
  exact ⟨fun x hx => hpre x hx it (mem_cons_self ..), (pairwise_cons.mp hcons).1⟩

theorem InOrder.eq_of_seq (h : InOrder items) {a b : DbItem} (ha : a ∈ items) (hb : b ∈ items)
    (heq : a.seq = b.seq) : a = b := by
  obtain ⟨pre, post, rfl⟩ := append_of_mem ha
  obtain ⟨hpre, hpost⟩ := h.around
  rcases mem_append.mp hb with hb | hb
  · have := hpre b hb
    omega
  · rcases mem_cons.mp hb with rfl | hb
    · rfl
    · have := hpost b hb
      omega

theorem mem_dbSorted_iff (h : InOrder items) :
    it ∈ dbSorted items ↔ ∃ pre post, items = pre ++ it :: post ∧ ∀ x ∈ post, x.code ≠ it.code := by
  have hanti : ∀ a ∈ items.insertionSort DbItem.Before, ∀ b ∈ items.insertionSort DbItem.Before,
      a.Before b → b.Before a → a = b := by
    intro a ha b hb hab hba
    rw [mem_insertionSort] at ha hb
    rcases hab with hab | ⟨hcode, hab⟩
    · exact absurd hab (not_lt_of_ge hba.le)
    · rcases hba with hba | ⟨_, hba⟩
      · exact absurd hba (not_lt_of_ge (le_of_eq hcode))
      · exact h.eq_of_seq ha hb (Nat.le_antisymm hab hba)
  have hmem := mem_lastOfRuns (fun a : DbItem => (Or.inr ⟨rfl, le_refl _⟩ : a.Before a))
    (fun hab => hab.le) hanti (pairwise_insertionSort DbItem.Before items) (a := it)
  simp only [mem_insertionSort] at hmem
  rw [dbSorted, dbDedup, hmem]
  constructor
  · rintro ⟨hit, hlast⟩
    obtain ⟨pre, post, rfl⟩ := append_of_mem hit
    refine ⟨pre, post, rfl, ?_⟩
    intro x hx hcode
    have hlater := h.around.2 x hx
    rcases hlast x (mem_append_right _ (mem_cons_of_mem _ hx)) hcode with hlt | ⟨_, hle⟩
    · exact absurd hlt (not_lt_of_ge (le_of_eq hcode.symm))
    · omega
  · rintro ⟨pre, post, rfl, hpost⟩
    refine ⟨mem_append_right _ (mem_cons_self ..), ?_⟩
    intro b hb hcode
    refine Or.inr ⟨hcode, ?_⟩
    rcases mem_append.mp hb with hb | hb
    · exact Nat.le_of_lt (h.around.1 b hb)
    · rcases mem_cons.mp hb with rfl | hb
      · exact le_refl _
      · exact absurd hcode (hpost b hb)

theorem isLastEntry_dbEntries {e : List Char × List Char} :
    IsLastEntry e (dbEntries scratch items) ↔ ∃ it, (it.code, it.desc scratch) = e ∧
        ∃ pre post, items = pre ++ it :: post ∧ ∀ x ∈ post, x.code ≠ it.code := by
  constructor
  · rintro ⟨pre, post, hsplit, hpost⟩
    obtain ⟨ipre, irest, rfl, rfl, hrest⟩ := map_eq_append_iff.mp hsplit
    obtain ⟨it, ipost, rfl, rfl, rfl⟩ := map_eq_cons_iff.mp hrest
    exact ⟨it, rfl, ipre, ipost, rfl, fun x hx => hpost _ (mem_map_of_mem hx)⟩
  · rintro ⟨it, rfl, pre, post, rfl, hpost⟩
    refine ⟨dbEntries scratch pre, dbEntries scratch post, ?_, ?_⟩
    · simp [dbEntries]
    · intro x hx
      obtain ⟨y, hy, rfl⟩ := List.mem_map.mp hx
      exact hpost y hy

/-! ## The import as a whole -/

/-- The entries of an input that have a code, as they are stored. -/
def dbValid (input : List Char) : List (List Char × List Char) :=
  ((dbRead input).getD []).filterMap dbEntry

theorem mem_entries_iff {caps : DbCaps} {input : List Char}
    (himport : apDtcDbImport caps input = .ok r)
    (hscratch : input.length + apDtcDescMax + 16 ≤ caps.scratch)
    (hitems : (dbValid input).length ≤ caps.items) (e : List Char × List Char) :
    e ∈ r.entries ↔ IsLastEntry e (dbValid input) := by
  obtain ⟨p, hparse, _, hr⟩ := apDtcDbImport_eq_ok_iff.mp himport
  obtain ⟨es, hread, rfl⟩ := dbParse_ok hparse
  have hdescs := descsLength_dbRead_le hread
  have hvalid : dbValid input = es.filterMap dbEntry := by
    rw [dbValid, hread, getD_some]
  rw [hvalid] at hitems
  have hroom : DbParse.init.items.length + (es.filterMap dbEntry).length ≤ caps.items := by
    show 0 + _ ≤ caps.items
    omega
  have hspace : DbParse.init.scratch.length + descsLength es + apDtcDescMax + 2 ≤ caps.scratch := by
    show 0 + descsLength es + apDtcDescMax + 2 ≤ caps.scratch
    omega
  have hentries := entries_foldl table_init hroom hspace
  have horder : InOrder (es.foldl (DbParse.emit caps) .init).items :=
    inOrder_foldl caps es List.Pairwise.nil fun _ h => (not_mem_nil h).elim
  generalize es.foldl (DbParse.emit caps) .init = p at hentries horder hr
  have hnil : dbEntries DbParse.init.scratch DbParse.init.items = [] := rfl
  have hlist : r.entries = dbEntries p.scratch (dbSorted p.items) := by rw [hr]; rfl
  rw [hnil, List.nil_append] at hentries
  rw [hvalid, ← hentries, isLastEntry_dbEntries, hlist, dbEntries, List.mem_map]
  constructor
  · rintro ⟨it, hit, rfl⟩
    exact ⟨it, rfl, (mem_dbSorted_iff horder).mp hit⟩
  · rintro ⟨it, rfl, hlast⟩
    exact ⟨it, (mem_dbSorted_iff horder).mpr hlast, rfl⟩

theorem DbImport.Canonical.isDbLine (h : r.Canonical) : ∀ e ∈ r.entries, IsDbLine e := by
  intro e he
  obtain ⟨hcode, hdesc⟩ := h.entry he
  refine ⟨?_, not_newline_entryLine hcode hdesc⟩
  obtain ⟨hi, lo, hcode⟩ := hcode
  rw [hcode, length_apDtcFormat]

/-- **An import is canonical**: its entries ascend strictly by code and are the
last valid entries of the input; its stored text is written into every longer
buffer, its index has as many items with the same codes and descriptions, and
the search over the index finds exactly these. -/
theorem apDtcDbImport_index (caps : DbCaps) (input : List Char) (r : DbImport)
    (himport : apDtcDbImport caps input = .ok r)
    (hscratch : input.length + apDtcDescMax + 16 ≤ caps.scratch)
    (hitems : (dbValid input).length ≤ caps.items) :
    (r.items.map DbItem.code).Pairwise (· < ·) ∧
      (∀ e, e ∈ r.entries ↔ IsLastEntry e (dbValid input)) ∧
      ∃ text, (∀ cap, text.length < cap → apDtcDbSerialize r cap = some text) ∧
        ∀ idxCap, r.items.length ≤ idxCap → ∃ items, apDtcDbIndex idxCap text = some items ∧
            items.length = r.items.length ∧
            items.map (fun it => (it.code, it.desc text)) =
              r.items.map (fun it => (it.code, it.desc r.scratch)) ∧
            ∀ code e, (dbBsearch items code).map (fun it => (it.code, it.desc text)) = some e ↔
              e ∈ r.entries ∧ e.1 = code := by
  have hcanon := apDtcDbImport_canonical himport
  refine ⟨pairwise_code_iff.mp hcanon.ascending, mem_entries_iff himport hscratch hitems,
    dbText r.entries, fun cap hcap => apDtcDbSerialize_room hcanon hcap, ?_⟩
  intro idxCap hidx
  have hlen : r.entries.length = r.items.length := by rw [DbImport.entries, length_map]
  obtain ⟨items, hindex, hentries⟩ := apDtcDbIndex_dbText hcanon.isDbLine (hlen ▸ hidx)
  have hcodes : items.map DbItem.code = r.items.map DbItem.code := by
    rw [← map_fst_dbEntries (dbText r.entries), hentries, ← map_fst_dbEntries r.scratch]
    rfl
  have hasc : items.Pairwise fun a b => a.code < b.code := by
    rw [pairwise_code_iff, hcodes]
    exact pairwise_code_iff.mp hcanon.ascending
  refine ⟨items, hindex, ?_, hentries, ?_⟩
  · have hlength := congrArg List.length hcodes
    rwa [length_map, length_map] at hlength
  · intro code e
    have hentry : e ∈ r.entries ↔ e ∈ dbEntries (dbText r.entries) items := by rw [hentries]
    rw [Option.map_eq_some_iff, hentry, dbEntries, List.mem_map]
    constructor
    · rintro ⟨it, hit, rfl⟩
      obtain ⟨hmem, hcode⟩ := (dbBsearch_eq_some_iff hasc).mp hit
      exact ⟨⟨it, hmem, rfl⟩, hcode⟩
    · rintro ⟨⟨it, hmem, rfl⟩, hcode⟩
      exact ⟨it, (dbBsearch_eq_some_iff hasc).mpr ⟨hmem, hcode⟩, rfl⟩

/-- Three lines, two of them for one code. -/
def twiceFile : List Char := "p0420;Old\nP0171;Lean\nP0420-00;New".toList

def twiceImport : DbImport :=
  ⟨"semicolon", "OldLeanNew".toList, [⟨"P0171".toList, 3, 1, 4⟩, ⟨"P0420".toList, 7, 2, 3⟩]⟩

theorem apDtcDbImport_index_twice :
    IsLastEntry ("P0420".toList, "New".toList) (dbValid twiceFile) := by
  have himport : apDtcDbImport ⟨200, 8⟩ twiceFile = .ok twiceImport := by decide +kernel
  have hvalid : (dbValid twiceFile).length ≤ 8 := by decide +kernel
  have hmem : ("P0420".toList, "New".toList) ∈ twiceImport.entries := by decide
  exact ((apDtcDbImport_index ⟨200, 8⟩ twiceFile twiceImport himport (by decide) hvalid).2.1 _).mp
    hmem

end Meatpi
