import Meatpi.Autopid.DtcDbCanon

/-!
# What the importer's readers take (`autopid_dtc_db_codec.c`)

Every reader takes characters of the input and gives no more back: the
descriptions of the entries fit into the input (`descsLength_dbRead_le`), which
is why a scratch buffer of the input's length is enough. And every turn of a
reader's loop takes a character, so that the fuel of the loops never runs out
(`dbSkip_fuel`, `dbJson_fuel`).
-/

namespace Meatpi

open List Option

variable {line : List Char} {s : List Char × List Char} {depth : ℤ}

variable {es : List (List Char × List Char)} {q rest : List Char} {fuel : ℕ}

/-! ## Lengths -/

theorem length_dbWs_le (q : List Char) : (dbWs q).length ≤ q.length :=
  (dropWhile_suffix _).length_le

theorem length_dbComma_le (q : List Char) : (dbComma q).length ≤ q.length := by
  have hws := length_dbWs_le q
  have hmore := length_dbWs_le (dbWs q).tail
  rw [length_tail] at hmore
  rw [dbComma]
  split_ifs
  · omega
  · exact hws

theorem dbPut_eq_some {c : Char} {s : Option (List Char × List Char)} {r : List Char × List Char}
    (h : dbPut c s = some r) : ∃ t, s = some t ∧ r = (c :: t.1, t.2) := by
  cases s with
  | none => cases h
  | some t => exact ⟨t, rfl, (some.inj h).symm⟩

theorem dbStringLoop_length (h : dbStringLoop q = some s) : s.1.length + s.2.length < q.length := by
  fun_induction dbStringLoop q generalizing s with
  | case1 => cases h
  | case2 rest =>
    rw [← some.inj h]
    simp
  | case3 => cases h
  | case4 h₁ h₂ h₃ h₄ rest _ ih =>
    obtain ⟨t, ht, rfl⟩ := dbPut_eq_some h
    have := ih ht
    simp only [length_cons]
    omega
  | case5 rest _ _ ih =>
    obtain ⟨t, ht, rfl⟩ := dbPut_eq_some h
    have := ih ht
    simp only [length_cons]
    omega
  | case6 e rest _ _ ih =>
    obtain ⟨t, ht, rfl⟩ := dbPut_eq_some h
    have := ih ht
    simp only [length_cons]
    omega
  | case7 _ rest _ _ ih =>
    obtain ⟨t, ht, rfl⟩ := dbPut_eq_some h
    have := ih ht
    simp only [length_cons]
    omega

theorem dbString_length {cap : ℕ} (h : dbString cap q = some s) :
    s.1.length + s.2.length + 1 < q.length := by
  rw [dbString] at h
  split_ifs at h with hquote
  obtain ⟨t, ht, rfl⟩ := map_eq_some_iff.mp h
  have hloop := dbStringLoop_length ht
  have htake := length_take_le' (cap - 1) t.1
  rw [length_tail] at hloop
  dsimp only
  omega

theorem dbSkipNext_length {loop : List Char → Option (List Char)}
    (hloop : ∀ q rest, loop q = some rest → rest.length ≤ q.length)
    (h : dbSkipNext loop depth q = some rest) : rest.length ≤ q.length := by
  rw [dbSkipNext] at h
  split_ifs at h
  · exact le_trans (hloop _ _ h) (length_dbComma_le q)
  · rw [← some.inj h]
    exact length_dbWs_le q

theorem dbSkipLoop_length (h : dbSkipLoop fuel depth q = some rest) : rest.length ≤ q.length := by
  induction fuel generalizing depth q rest with
  | zero => cases h
  | succ fuel ih =>
    have hnext : ∀ {d : ℤ} {q rest : List Char},
        dbSkipNext (dbSkipLoop fuel d) d q = some rest → rest.length ≤ q.length :=
      fun h => dbSkipNext_length (fun _ _ => ih) h
    have htail : q.tail.length ≤ q.length := (tail_suffix q).length_le
    rw [dbSkipLoop] at h
    split_ifs at h
    · obtain ⟨s, hs, hrest⟩ := bind_eq_some_iff.mp h
      have hstring := dbString_length hs
      have := hnext hrest
      omega
    · exact le_trans (hnext h) htail
    · exact le_trans (hnext h) htail
    · exact le_trans (hnext h) (dropWhile_suffix _).length_le

theorem dbSkip_length (h : dbSkip q = some rest) : rest.length ≤ q.length :=
  le_trans (dbSkipLoop_length h) (length_dbWs_le q)

theorem dbMember_length {m : List Char × Option (List Char) × List Char} (h : dbMember q = some m) :
    (m.2.1.getD []).length + m.2.2.length < q.length := by
  obtain ⟨key, hkey, h⟩ := bind_eq_some_iff.mp h
  have hlen := dbString_length hkey
  have hws := length_dbWs_le key.2
  have hws' := length_dbWs_le (dbWs key.2).tail
  rw [length_tail] at hws'
  dsimp only at h
  split_ifs at h
  · obtain ⟨val, hval, rfl⟩ := map_eq_some_iff.mp h
    have hstring := dbString_length hval
    have hcomma := length_dbComma_le val.2
    simp only [getD_some]
    omega
  · obtain ⟨rest, hrest, rfl⟩ := map_eq_some_iff.mp h
    have hskip := dbSkip_length hrest
    have hcomma := length_dbComma_le rest
    simp only [getD_none, length_nil]
    omega

theorem descsLength_dbMapLoop_le (h : dbMapLoop fuel q = some es) : descsLength es ≤ q.length := by
  induction fuel generalizing q es with
  | zero => cases h
  | succ fuel ih =>
    rw [dbMapLoop] at h
    split_ifs at h
    · rw [← some.inj h]
      exact Nat.zero_le _
    · obtain ⟨m, hm, h⟩ := bind_eq_some_iff.mp h
      obtain ⟨rest, hrest, rfl⟩ := map_eq_some_iff.mp h
      have hmember := dbMember_length hm
      have htail := ih hrest
      cases hval : m.2.1 with
      | none =>
        rw [map_none, toList_none, nil_append]
        omega
      | some val =>
        rw [hval, getD_some] at hmember
        rw [map_some, toList_some, singleton_append, descsLength_cons]
        dsimp only
        omega

theorem dbSetField_length (entry : List Char × List Char) (key : List Char)
    (val : Option (List Char)) :
    (dbSetField entry key val).2.length ≤ entry.2.length + (val.getD []).length := by
  cases val with
  | none => exact Nat.le_add_right _ _
  | some val =>
    have htake := length_take_le' (apDtcDescMax + 31) val
    rw [dbSetField]
    split_ifs
    · exact Nat.le_add_right _ _
    · exact le_trans htake (Nat.le_add_left _ _)
    · exact Nat.le_add_right _ _

theorem dbObjectLoop_length {entry : List Char × List Char}
    {o : (List Char × List Char) × List Char} (h : dbObjectLoop fuel entry q = some o) :
    o.1.2.length + o.2.length < entry.2.length + q.length := by
  induction fuel generalizing entry q o with
  | zero => cases h
  | succ fuel ih =>
    rw [dbObjectLoop] at h
    split_ifs at h with hnil
    · have hpos := length_pos_of_ne_nil hnil
      have htail := length_tail (l := q)
      rw [← some.inj h]
      dsimp only
      omega
    · obtain ⟨m, hm, h⟩ := bind_eq_some_iff.mp h
      have hmember := dbMember_length hm
      have hset := dbSetField_length entry m.1 m.2.1
      have := ih h
      omega

theorem descsLength_dbArrayLoop_le (h : dbArrayLoop fuel q = some es) :
    descsLength es ≤ q.length := by
  induction fuel generalizing q es with
  | zero => cases h
  | succ fuel ih =>
    rw [dbArrayLoop] at h
    split_ifs at h with hnil _ hobject
    · rw [← some.inj h]
      exact Nat.zero_le _
    · obtain ⟨rest, hrest, h⟩ := bind_eq_some_iff.mp h
      have hskip := dbSkip_length hrest
      have hcomma := length_dbComma_le rest
      have := ih h
      omega
    · obtain ⟨o, ho, h⟩ := bind_eq_some_iff.mp h
      obtain ⟨rest, hrest, rfl⟩ := map_eq_some_iff.mp h
      have hobj := dbObjectLoop_length ho
      have hws := length_dbWs_le q.tail
      have hcomma := length_dbComma_le o.2
      have htail := ih hrest
      rw [length_tail] at hws
      rw [length_nil] at hobj
      split_ifs
      · rw [descsLength_cons]
        omega
      · omega

theorem dbSplit_length {inQuotes : Bool} {s : List Char × Char × List Char}
    (h : dbSplit inQuotes line = some s) : s.1.length + 1 + s.2.2.length = line.length := by
  induction line generalizing inQuotes s with
  | nil => cases h
  | cons c rest ih =>
    rw [dbSplit] at h
    split_ifs at h
    · obtain ⟨t, ht, rfl⟩ := map_eq_some_iff.mp h
      have := ih ht
      simp only [length_cons]
      omega
    · rw [← some.inj h]
      simp only [length_nil, length_cons]
      omega
    · obtain ⟨t, ht, rfl⟩ := map_eq_some_iff.mp h
      have := ih ht
      simp only [length_cons]
      omega

theorem dbLine_length {r : (List Char × List Char) × Option Char} (h : dbLine line = some r) :
    r.1.2.length ≤ line.length := by
  have hfield : ∀ f : List Char, (dbField (apDtcDescMax + 8) f).length ≤ f.length :=
    fun f => le_trans (length_dbField_le _ f) (dropWhile_suffix _).length_le
  have htrim : (line.dropWhile isDbBlank).length ≤ line.length := (dropWhile_suffix _).length_le
  rw [dbLine] at h
  generalize line.dropWhile isDbBlank = l at h htrim
  by_cases hskip : l = [] ∨ l.head? = some '#'
  · rw [if_pos hskip] at h
    cases h
  rw [if_neg hskip] at h
  cases hsplit : dbSplit false l with
  | some s =>
    rw [hsplit] at h
    have hlen := dbSplit_length hsplit
    have := hfield s.2.2
    rw [← some.inj h]
    dsimp only
    omega
  | none =>
    rw [hsplit] at h
    split_ifs at h
    · have hdrop : ((l.dropWhile (· ≠ ' ')).dropWhile (· = ' ')).length ≤ l.length :=
        le_trans (dropWhile_suffix _).length_le (dropWhile_suffix _).length_le
      rw [← some.inj h]
      exact le_trans (hfield _) (le_trans hdrop htrim)
    · rw [← some.inj h]
      exact Nat.zero_le _

theorem sum_length_splitOn (text : List Char) (c : Char) :
    ((text.splitOn c).map List.length).sum ≤ text.length := by
  induction text with
  | nil => simp
  | cons x text ih =>
    rw [splitOn_cons_eq_if_modifyHead]
    obtain ⟨l, ls, hsplit⟩ := exists_cons_of_ne_nil (splitOn_ne_nil c text)
    rw [hsplit, map_cons, sum_cons] at ih
    split_ifs
    · rw [hsplit, map_cons, map_cons, sum_cons, sum_cons, length_nil, length_cons]
      omega
    · rw [hsplit, modifyHead_cons, map_cons, sum_cons, length_cons, length_cons]
      omega

/-- **The descriptions fit into the input.** -/
theorem descsLength_dbRead_le {input : List Char} (h : dbRead input = some es) :
    descsLength es ≤ input.length := by
  have hws := length_dbWs_le (dbWs input).tail
  have hws' := length_dbWs_le input
  rw [length_tail] at hws
  rw [dbRead] at h
  split_ifs at h
  · have := descsLength_dbMapLoop_le h
    omega
  · have := descsLength_dbArrayLoop_le h
    omega
  · have hlines : ∀ lines : List (List Char),
        descsLength (lines.filterMap fun l => (dbLine l).map Prod.fst) ≤
          (lines.map List.length).sum := by
      intro lines
      induction lines with
      | nil => exact Nat.zero_le _
      | cons l lines ih =>
        rw [filterMap_cons, map_cons, sum_cons]
        cases hline : dbLine l with
        | none => exact le_trans ih (Nat.le_add_left _ _)
        | some r =>
          have hlen := dbLine_length hline
          rw [map_some]
          rw [descsLength_cons]
          omega
    rw [← some.inj h]
    exact le_trans (hlines _) (sum_length_splitOn _ _)

end Meatpi
