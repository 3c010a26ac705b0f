import Mathlib.Data.List.MinMax
import Meatpi.J1939.Cache

/-!
# The slots of the cache

A key is found in its slot or not at all (`slotFind_spec`), and after a removal
this holds of all other keys again: the loop of `slot_remove` is the walk of
`Probing.Gap`, and its rules are the three branches of the loop
(`slotShift_spec`). It moves entries whole, and the buffers' back pointers go
along (`Owners`).
-/

namespace Meatpi

open Function List Option Probing

variable {c' : J1939Cache} {l : List (Fin longSlots)} {n : ℕ} {e : Fin cacheSlots} {k : J1939Key}

namespace J1939Cache

/-- The key in a slot. -/
def keys (c : J1939Cache) (i : Fin cacheSlots) : Option J1939Key :=
  if (c.e i).isFree then none else some (c.e i).addr

/-- Every buffer that is lent names a live entry, and that entry names it. -/
def Owners (c : J1939Cache) : Prop :=
  ∀ b i, c.lngOwner b = some i ↔ c.keys i ≠ none ∧ (c.e i).lng = some b

theorem keys_eq_none {c : J1939Cache} {i : Fin cacheSlots} :
    c.keys i = none ↔ (c.e i).isFree = true := by
  cases hfree : (c.e i).isFree <;> simp [keys, hfree]

theorem keys_eq_some {c : J1939Cache} {i : Fin cacheSlots} :
    c.keys i = some k ↔ (c.e i).isFree = false ∧ (c.e i).addr = k := by
  cases hfree : (c.e i).isFree <;> simp [keys, hfree]

theorem keys_congr {c : J1939Cache} (h : ∀ i, (c'.e i).addr = (c.e i).addr) : c'.keys = c.keys := by
  funext i
  have hpgn : (c'.e i).pgn = (c.e i).pgn := congrArg J1939Key.pgn (h i)
  rw [keys, keys, h, J1939Entry.isFree, J1939Entry.isFree, hpgn]

@[simp] theorem setEntry_self (c : J1939Cache) (i : Fin cacheSlots) (e : J1939Entry) :
    (c.setEntry i e).e i = e := update_self ..

theorem setEntry_ne (c : J1939Cache) {i q : Fin cacheSlots} (e : J1939Entry) (hq : q ≠ i) :
    (c.setEntry i e).e q = c.e q := update_of_ne hq ..

theorem keys_setEntry (c : J1939Cache) (i : Fin cacheSlots) (e : J1939Entry) :
    (c.setEntry i e).keys = update c.keys i (if e.isFree then none else some e.addr) := by
  funext q
  by_cases hq : q = i
  · rw [hq, update_self, keys, setEntry_self]
  · rw [update_of_ne hq, keys, keys, setEntry_ne c e hq]

/-! ## Finding -/

/-- What a search for `k` has passed before slot `i`. -/
def Passed (c : J1939Cache) (k : J1939Key) (i : Fin cacheSlots) : Prop :=
  ∀ q, Probing.ahead (slotHome k) q < Probing.ahead (slotHome k) i →
    c.keys q ≠ none ∧ c.keys q ≠ some k

theorem slotFindGo_spec {c : J1939Cache} (he : c.keys e = none) {i : Fin cacheSlots}
    (hn : n + Probing.ahead (slotHome k) i = cacheSlots) (hpassed : c.Passed k i) :
    c.Passed k (c.slotFindGo k n i).1 ∧
      c.keys (c.slotFindGo k n i).1 = if (c.slotFindGo k n i).2 then some k else none := by
  induction n generalizing i with
  | zero =>
    have hmax := ahead_lt (slotHome k) i
    omega
  | succ n ih =>
    rw [slotFindGo]
    cases hfree : (c.e i).isFree with
    | true => exact ⟨hpassed, keys_eq_none.mpr hfree⟩
    | false =>
      by_cases haddr : (c.e i).addr = k
      · rw [if_pos haddr]
        exact ⟨hpassed, keys_eq_some.mpr ⟨hfree, haddr⟩⟩
      · rw [if_neg haddr]
        have hi : c.keys i ≠ none ∧ c.keys i ≠ some k := by
          refine ⟨fun h => ?_, fun h => haddr (keys_eq_some.mp h).2⟩
          rw [keys_eq_none, hfree] at h
          exact Bool.false_ne_true h
        -- the empty slot is further on
        have hlt : Probing.ahead (slotHome k) i < Probing.ahead (slotHome k) e := by
          by_contra hle
          rcases Nat.lt_or_eq_of_le (not_lt.mp hle) with hlt | heq
          · exact (hpassed e hlt).1 he
          · rw [ahead_inj] at heq
            exact hi.1 (heq ▸ he)
        have hmax := ahead_lt (slotHome k) e
        have hnext : Probing.ahead (slotHome k) (Probing.next i) =
            Probing.ahead (slotHome k) i + 1 := ahead_next (by omega)
        apply ih (by omega)
        intro q hq
        rw [hnext] at hq
        rcases Nat.lt_or_eq_of_le (Nat.le_of_lt_succ hq) with hq | hq
        · exact hpassed q hq
        · rw [ahead_inj.mp hq]
          exact hi

/-- **Finding.** A slot with the key, or the empty slot where it would go. -/
theorem slotFind_spec {c : J1939Cache} (k : J1939Key) (he : c.keys e = none) :
    c.Passed k (c.slotFind k).1 ∧
      c.keys (c.slotFind k).1 = if (c.slotFind k).2 then some k else none := by
  refine slotFindGo_spec he ?_ ?_
  · rw [ahead_self]
  · intro q hq
    rw [ahead_self] at hq
    exact absurd hq (Nat.not_lt_zero _)

theorem slotFind_of_keys {c : J1939Cache} (hs : Probing.Sound slotHome c.keys) {i : Fin cacheSlots}
    (he : c.keys e = none) (hi : c.keys i = some k) : c.slotFind k = (i, true) := by
  obtain ⟨hpassed, hfind⟩ := slotFind_spec k he
  cases hfound : (c.slotFind k).2 with
  | true =>
    rw [hfound] at hfind
    exact Prod.ext (hs.unique _ _ k hfind hi) hfound
  | false =>
    rw [hfound] at hfind
    rcases Nat.lt_trichotomy (Probing.ahead (slotHome k) i)
      (Probing.ahead (slotHome k) (c.slotFind k).1) with hlt | heq | hgt
    · exact absurd hi (hpassed i hlt).2
    · rw [ahead_inj.mp heq, hfind] at hi
      cases hi
    · exact absurd hfind (hs.reach i k hi _ hgt)

/-! ## Removing -/

/-- What a loop that moves entries keeps: the entries, their buffers and the counters. -/
structure Shifted (c c' : J1939Cache) : Prop where
  entries : ∀ x : J1939Entry, x.isFree = false → ((∃ i, c'.e i = x) ↔ ∃ i, c.e i = x)
  owners : c.Owners → c'.Owners
  lng : c'.lng = c.lng
  used : c'.used = c.used

theorem Shifted.refl (c : J1939Cache) : Shifted c c := ⟨fun _ _ => Iff.rfl, id, rfl, rfl⟩

theorem Shifted.trans {c c'' : J1939Cache} (h : Shifted c c') (h' : Shifted c' c'') :
    Shifted c c'' where
  entries x hx := (h'.entries x hx).trans (h.entries x hx)
  owners hc := h'.owners (h.owners hc)
  lng := h'.lng.trans h.lng
  used := h'.used.trans h.used

@[simp] theorem ownAs_e (c : J1939Cache) (e : J1939Entry) (i : Option (Fin cacheSlots)) :
    (c.ownAs e i).e = c.e := by
  unfold ownAs
  split <;> rfl

@[simp] theorem ownAs_lng (c : J1939Cache) (e : J1939Entry) (i : Option (Fin cacheSlots)) :
    (c.ownAs e i).lng = c.lng := by
  unfold ownAs
  split <;> rfl

@[simp] theorem ownAs_used (c : J1939Cache) (e : J1939Entry) (i : Option (Fin cacheSlots)) :
    (c.ownAs e i).used = c.used := by
  unfold ownAs
  split <;> rfl

theorem ownAs_lngOwner (c : J1939Cache) (e : J1939Entry) (i : Option (Fin cacheSlots))
    (b : Fin longSlots) :
    (c.ownAs e i).lngOwner b = if e.lng = some b then i else c.lngOwner b := by
  unfold ownAs
  cases hlng : e.lng with
  | none => rw [if_neg (some_ne_none b).symm]
  | some b' =>
    by_cases hb : b = b'
    · rw [hb, if_pos rfl]
      exact update_self ..
    · rw [if_neg fun h => hb (some.inj h).symm]
      exact update_of_ne hb ..

section Move

variable {c : J1939Cache} {i j : Fin cacheSlots}

theorem slotMove_e (hne : i ≠ j) : (c.slotMove i j).e =
    update (update c.e i (c.e j)) j { c.e j with pgn := pgnFree } := by
  have hj : ((c.setEntry i (c.e j)).e j) = c.e j := setEntry_ne c _ hne.symm
  rw [slotMove, setEntry, ownAs_e, hj]
  rfl

theorem slotMove_keys (hj : c.keys j = some k) :
    (c.slotMove i j).keys = update (update c.keys i (some k)) j none := by
  have hlive := keys_eq_some.mp hj
  have howned : ∀ e o, ((c.setEntry i (c.e j)).ownAs e o).keys = (c.setEntry i (c.e j)).keys := by
    intro e o
    exact keys_congr fun q => by rw [ownAs_e]
  rw [slotMove, keys_setEntry, howned, keys_setEntry, hlive.1, hlive.2]
  exact congrArg _ (if_pos (beq_self_eq_true pgnFree))

theorem slotMove_lngOwner (b : Fin longSlots) :
    (c.slotMove i j).lngOwner b = if (c.e j).lng = some b then some i else c.lngOwner b := by
  refine (ownAs_lngOwner (c.setEntry i (c.e j)) _ (some i) b).trans ?_
  rw [setEntry_self]
  rfl

theorem slotMove_shifted (hi : c.keys i = none) (hj : c.keys j ≠ none) :
    Shifted c (c.slotMove i j) := by
  have hne : i ≠ j := fun h => hj (h ▸ hi)
  obtain ⟨k, hk⟩ := ne_none_iff_exists'.mp hj
  have hself : (c.slotMove i j).e i = c.e j := by
    rw [slotMove_e hne, update_of_ne hne, update_self]
  have hfree : ((c.slotMove i j).e j).isFree = true := by
    rw [slotMove_e hne, update_self]
    rfl
  have hother : ∀ q, q ≠ i → q ≠ j → (c.slotMove i j).e q = c.e q := by
    intro q hqi hqj
    rw [slotMove_e hne, update_of_ne hqj, update_of_ne hqi]
  refine ⟨?_, ?_, ?_, ?_⟩
  · intro x hx
    constructor
    · rintro ⟨q, rfl⟩
      by_cases hqi : q = i
      · exact ⟨j, by rw [hqi, hself]⟩
      · have hqj : q ≠ j := by
          rintro rfl
          rw [hfree] at hx
          cases hx
        exact ⟨q, (hother q hqi hqj).symm⟩
    · rintro ⟨q, rfl⟩
      by_cases hqj : q = j
      · exact ⟨i, by rw [hqj, hself]⟩
      · have hqi : q ≠ i := by
          rintro rfl
          rw [keys_eq_none, hx] at hi
          cases hi
        exact ⟨q, hother q hqi hqj⟩
  · intro howners b q
    rw [slotMove_lngOwner, slotMove_keys hk]
    by_cases hqi : q = i
    · rw [hqi, update_of_ne hne, update_self, hself]
      have hnot : c.lngOwner b ≠ some i := fun h => ((howners b i).mp h).1 hi
      split_ifs with hb
      · exact iff_of_true rfl ⟨some_ne_none k, hb⟩
      · exact iff_of_false hnot fun h => hb h.2
    · by_cases hqj : q = j
      · rw [hqj, update_self]
        refine iff_of_false ?_ fun h => h.1 rfl
        split_ifs with hb
        · exact fun h => hne (some.inj h)
        · exact fun h => hb ((howners b j).mp h).2
      · rw [update_of_ne hqj, update_of_ne hqi, hother q hqi hqj, ← howners b q]
        split_ifs with hb
        · -- the buffer is that of the entry that moves
          have hj' := (howners b j).mpr ⟨hj, hb⟩
          rw [hj']
          exact iff_of_false (fun h => hqi (some.inj h).symm)
            fun h => hqj (some.inj h).symm
        · exact Iff.rfl
  · exact ownAs_lng ..
  · exact ownAs_used ..

theorem stays_iff {k : Fin cacheSlots} (hne : j ≠ i) :
    stays i j k = true ↔ Probing.ahead k j ≤ Probing.ahead k i := by
  simp only [stays, Probing.ahead, Fin.le_def, Fin.lt_def]
  split_ifs <;> simp <;> omega

end Move

/-- **The loop of `slot_remove`** ends, and every key is found again. -/
theorem slotShift_spec {c : J1939Cache} {i j : Fin cacheSlots}
    (hgap : Probing.Gap slotHome c.keys i j) (he : c.keys e = none) (hei : e ≠ i)
    (hn : Probing.ahead j e ≤ n) :
    Probing.Sound slotHome (slotShift n c i j).keys ∧ Shifted c (slotShift n c i j) := by
  induction n generalizing c i j with
  | zero =>
    have heq := ahead_eq_zero.mp (Nat.le_zero.mp hn)
    have hlt := hgap.ahead_lt he hei
    rw [heq] at hlt
    exact absurd hlt (lt_irrefl _)
  | succ n ih =>
    have hlt := hgap.ahead_lt he hei
    have hnext := hgap.ahead_next he hei
    have hne := hgap.next_ne he hei
    -- one slot less is between the loop and the empty slot
    have hless : Probing.ahead (Probing.next j) e ≤ n := by
      have hold := ahead_add (le_of_lt hlt)
      have hnew := ahead_add (h := i) (i := Probing.next j) (p := e) (by omega)
      omega
    rw [slotShift]
    cases hfree : (c.e (Probing.next j)).isFree with
    | true => exact ⟨hgap.close (keys_eq_none.mpr hfree) hne, .refl c⟩
    | false =>
      have hj : c.keys (Probing.next j) = some (c.e (Probing.next j)).addr :=
        keys_eq_some.mpr ⟨hfree, rfl⟩
      by_cases hstays : stays i (Probing.next j) (slotHome (c.e (Probing.next j)).addr) = true
      · rw [if_pos hstays]
        exact ih (hgap.stay hj hnext ((stays_iff hne).mp hstays)) he hei hless
      · rw [if_neg hstays]
        rw [stays_iff hne, not_le] at hstays
        have hmove := hgap.move hj hne hstays
        rw [← slotMove_keys hj] at hmove
        have hej : e ≠ Probing.next j := by
          rintro rfl
          rw [he] at hj
          cases hj
        have he' : (c.slotMove i (Probing.next j)).keys e = none := by
          rw [slotMove_keys hj, update_of_ne hej, update_of_ne hei, he]
        obtain ⟨hsound, hshifted⟩ := ih hmove he' hej hless
        have hjnone : c.keys (Probing.next j) ≠ none := by
          rw [hj]
          exact some_ne_none _
        exact ⟨hsound, (slotMove_shifted hgap.gap hjnone).trans hshifted⟩

/-- **Removing.** What was in slot `i` is gone, all else is there and found. -/
theorem slotRemove_spec {c : J1939Cache} {i : Fin cacheSlots} (hs : Probing.Sound slotHome c.keys)
    (howners : c.Owners) (he : c.keys e = none) (hi : c.keys i ≠ none) :
    Probing.Sound slotHome (c.slotRemove i).keys ∧ (c.slotRemove i).Owners ∧
      (c.slotRemove i).lng = c.lng ∧ (c.slotRemove i).used = c.used - 1 ∧
      ∀ x : J1939Entry, x.isFree = false →
        ((∃ p, (c.slotRemove i).e p = x) ↔ ∃ p, p ≠ i ∧ c.e p = x) := by
  rw [slotRemove]
  generalize hc₁ : ({ (c.ownAs (c.e i) none).setEntry i
    { (c.ownAs (c.e i) none).e i with pgn := pgnFree } with
      used := (c.ownAs (c.e i) none).used - 1 } : J1939Cache) = c₁
  have he₁ : c₁.e = update c.e i { c.e i with pgn := pgnFree } := by
    rw [← hc₁, setEntry, ownAs_e]
  have hkeys : c₁.keys = update c.keys i none := by
    funext q
    by_cases hq : q = i
    · rw [hq, update_self, keys_eq_none, he₁, update_self]
      exact beq_self_eq_true pgnFree
    · rw [update_of_ne hq, keys, keys, he₁, update_of_ne hq]
  have hei : e ≠ i := fun h => hi (h ▸ he)
  have he' : c₁.keys e = none := by
    rw [hkeys, update_of_ne hei, he]
  have hgap : Probing.Gap slotHome c₁.keys i i := hkeys ▸ hs.erase i
  have howners₁ : c₁.Owners := by
    intro b q
    have howner : c₁.lngOwner b = if (c.e i).lng = some b then none else c.lngOwner b := by
      rw [← hc₁]
      exact ownAs_lngOwner ..
    rw [howner, hkeys, he₁]
    by_cases hq : q = i
    · rw [hq, update_self]
      refine iff_of_false ?_ fun h => h.1 rfl
      split_ifs with hb
      · exact not_false
      · exact fun h => hb ((howners b i).mp h).2
    · rw [update_of_ne hq, update_of_ne hq, ← howners b q]
      split_ifs with hb
      · -- the buffer was that of the entry that goes
        rw [(howners b i).mpr ⟨hi, hb⟩]
        exact iff_of_false not_false fun h => hq (some.inj h).symm
      · exact Iff.rfl
  obtain ⟨hsound, hshifted⟩ := slotShift_spec hgap he' hei (ahead_lt i e).le
  refine ⟨hsound, hshifted.owners howners₁, ?_, ?_, ?_⟩
  · rw [hshifted.lng, ← hc₁]
    exact ownAs_lng ..
  · rw [hshifted.used, ← hc₁]
    exact congrArg (· - 1) (ownAs_used ..)
  · intro x hx
    rw [hshifted.entries x hx, he₁]
    constructor
    · rintro ⟨p, rfl⟩
      by_cases hp : p = i
      · rw [hp, update_self] at hx
        cases hx
      · exact ⟨p, hp, (update_of_ne hp ..).symm⟩
    · rintro ⟨p, hp, rfl⟩
      exact ⟨p, update_of_ne hp ..⟩

/-! ## The entry that has been silent the longest -/

/-- The slots that are taken. -/
def taken (c : J1939Cache) : List (Fin cacheSlots) :=
  (List.finRange cacheSlots).filter fun i => !(c.e i).isFree

theorem mem_taken {c : J1939Cache} {i : Fin cacheSlots} : i ∈ c.taken ↔ c.keys i ≠ none := by
  rw [Ne, keys_eq_none, taken]
  simp

theorem slotOldest_eq (c : J1939Cache) :
    c.slotOldest = c.taken.foldl (List.argAux fun i b => (c.e i).rxUs < (c.e b).rxUs) none := by
  rw [slotOldest, taken, foldl_filter]
  congr 1
  funext best i
  cases best with
  | none => cases hfree : (c.e i).isFree <;> simp [oldestOf, List.argAux, hfree]
  | some b => cases hfree : (c.e i).isFree <;> simp [oldestOf, List.argAux, hfree]

theorem slotOldest_none {c : J1939Cache} (h : c.slotOldest = none) (i : Fin cacheSlots) :
    c.keys i = none := by
  rw [slotOldest_eq, foldl_argAux_eq_none] at h
  by_contra hi
  rw [← Ne, ← mem_taken, h.1] at hi
  cases hi

theorem slotOldest_some {c : J1939Cache} {old : Fin cacheSlots} (h : c.slotOldest = some old) :
    c.keys old ≠ none ∧ ∀ i, c.keys i ≠ none → (c.e old).rxUs ≤ (c.e i).rxUs := by
  rw [slotOldest_eq] at h
  have hmin : old ∈ c.taken.argmin fun i => (c.e i).rxUs := h
  refine ⟨mem_taken.mp (argmin_mem hmin), fun i hi => ?_⟩
  exact le_of_mem_argmin (f := fun i => (c.e i).rxUs) (mem_taken.mpr hi) hmin

/-! ## Taking a long buffer -/

/-- `lng_take` for the entry in slot `i`: its own buffer, a free one, or that of
the holder that has been silent the longest. -/
inductive LngTaken (c : J1939Cache) (i : Fin cacheSlots) : J1939Cache → Fin longSlots → Prop
  | own {b} (hown : (c.e i).lng = some b) : LngTaken c i c b
  | free {b} (hnone : (c.e i).lng = none) (hfree : c.lngOwner b = none) :
      LngTaken c i (c.lend b i) b
  | lose {b loser} (hnone : (c.e i).lng = none) (hall : ∀ b', c.lngOwner b' ≠ none)
      (hloser : c.lngOwner b = some loser)
      (holdest : ∀ b' l, c.lngOwner b' = some l → (c.e loser).rxUs ≤ (c.e l).rxUs) :
      LngTaken c i ((c.silence loser).lend b i) b

theorem lngScan_of_free {c : J1939Cache} (h : ∃ b ∈ l, c.lngOwner b = none)
    (pick : Option (Fin longSlots)) : ∃ b, c.lngScan l pick = some b ∧ c.lngOwner b = none := by
  induction l generalizing pick with
  | nil => simp at h
  | cons b bs ih =>
    cases hb : c.lngOwner b with
    | none => exact ⟨b, by simp [lngScan, hb], hb⟩
    | some l =>
      have hrest : ∃ b ∈ bs, c.lngOwner b = none := by
        obtain ⟨b', hmem, hnone⟩ := h
        rcases mem_cons.mp hmem with rfl | hmem
        · rw [hb] at hnone
          cases hnone
        · exact ⟨b', hmem, hnone⟩
      have hstep : ∃ pick', c.lngScan (b :: bs) pick = c.lngScan bs pick' := by
        cases pick with
        | none => exact ⟨some b, by simp [lngScan, hb]⟩
        | some q =>
          by_cases hlt : c.holderRx b < c.holderRx q
          · exact ⟨some b, by simp [lngScan, hb, hlt]⟩
          · exact ⟨some q, by simp [lngScan, hb, hlt]⟩
      obtain ⟨pick', hpick⟩ := hstep
      rw [hpick]
      exact ih hrest pick'

theorem lngScan_of_owned {c : J1939Cache} {pick : Option (Fin longSlots)}
    (h : ∀ b ∈ l, c.lngOwner b ≠ none) :
    c.lngScan l pick = l.foldl (List.argAux fun b q => c.holderRx b < c.holderRx q) pick := by
  induction l generalizing pick with
  | nil => rfl
  | cons b bs ih =>
    have hb : (c.lngOwner b).isNone = false := by
      rw [isNone_eq_false_iff, isSome_iff_ne_none]
      exact h b mem_cons_self
    have hrest := fun b' hb' => h b' (mem_cons_of_mem b hb')
    rw [foldl_cons, ← ih hrest]
    cases pick with
    | none => simp [lngScan, List.argAux, hb]
    | some q => by_cases hlt : c.holderRx b < c.holderRx q <;> simp [lngScan, List.argAux, hb, hlt]

theorem lngTake_spec (c : J1939Cache) (i : Fin cacheSlots) :
    ∃ c' b, c.lngTake i = (c', some b) ∧ LngTaken c i c' b := by
  rw [lngTake]
  cases hlng : (c.e i).lng with
  | some b => exact ⟨c, b, rfl, .own hlng⟩
  | none =>
    by_cases hfree : ∃ b ∈ List.finRange longSlots, c.lngOwner b = none
    · obtain ⟨b, hscan, hb⟩ := lngScan_of_free hfree none
      exact ⟨c.lend b i, b, by simp only [hscan, hb], .free hlng hb⟩
    · have hall : ∀ b, c.lngOwner b ≠ none := fun b hb => hfree ⟨b, mem_finRange b, hb⟩
      have hscan : c.lngScan (List.finRange longSlots) none =
          (List.finRange longSlots).argmin c.holderRx := lngScan_of_owned fun b _ => hall b
      cases hmin : (List.finRange longSlots).argmin c.holderRx with
      | none =>
        rw [argmin_eq_none] at hmin
        exact absurd hmin (ne_nil_of_length_pos (by simp))
      | some b =>
        obtain ⟨loser, hloser⟩ := ne_none_iff_exists'.mp (hall b)
        refine ⟨(c.silence loser).lend b i, b, by simp only [hscan, hmin, hloser],
          .lose hlng hall hloser ?_⟩
        intro b' l hl
        have hle := le_of_mem_argmin (mem_finRange b') hmin
        rwa [holderRx, holderRx, hloser, hl] at hle

end J1939Cache

end Meatpi
