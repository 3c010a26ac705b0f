import Mathlib.Data.Set.Card
import Mathlib.Data.Set.Finite.Range
import Meatpi.J1939.CacheSlots
import Meatpi.Library.Run

/-!
# The cache as a bounded map

What the cache is for: a map from keys to the newest message of each
(`J1939Map`), with room for 384 messages of which 12 are longer than a frame. A
put of a new key into a full map takes the place of the message that is the
oldest, if it is old enough, and a long message takes the buffer of the oldest
long one when all are lent.

`Rep c m` says that the cache `c` holds the map `m`; every put keeps it
(`Rep.put`), so a run of the cache is a run of the map.
-/

namespace Meatpi

open Function List Option Set

variable {k' : J1939Key} {b : Fin longSlots}

/-- A message that is kept. -/
structure J1939Msg where
  data : List UInt8
  rxUs : ℤ

/-- The newest message of each key. -/
abbrev J1939Map := J1939Key → Option J1939Msg

/-- The message that is put. -/
def CachePut.msg (p : CachePut) : J1939Msg := ⟨(List.range p.len).map p.bytes, p.nowUs⟩

namespace J1939Map

def dom (m : J1939Map) : Set J1939Key := { k | m k ≠ none }

/-- The keys of messages longer than a frame. -/
def long (m : J1939Map) : Set J1939Key := { k | ∃ r, m k = some r ∧ entryBytes < r.data.length }

/-- `r`, of key `k`, is an oldest message of those with a key in `s`. -/
structure Oldest (m : J1939Map) (s : Set J1939Key) (k : J1939Key) (r : J1939Msg) : Prop where
  mem : k ∈ s
  eq : m k = some r
  le : ∀ k' r', k' ∈ s → m k' = some r' → r.rxUs ≤ r'.rxUs

/-- There is an entry for `k`, of the time `nowUs`. -/
inductive Enter (m : J1939Map) (k : J1939Key) (nowUs : ℤ) : J1939Map → Prop
  | known {r} (hk : m k = some r) :
      Enter m k nowUs (update m k (some { r with rxUs := nowUs }))
  | spare (hk : m k = none) (hsize : m.dom.ncard < cacheMax) :
      Enter m k nowUs (update m k (some ⟨[], nowUs⟩))
  | evict {old r} (hk : m k = none) (hsize : cacheMax ≤ m.dom.ncard)
      (hold : m.Oldest m.dom old r) (hage : evictAgeUs ≤ nowUs - r.rxUs) :
      Enter m k nowUs (update (update m old none) k (some ⟨[], nowUs⟩))

/-- There is a long buffer for `k`. -/
inductive Lend (m : J1939Map) (k : J1939Key) : J1939Map → Prop
  | own (hk : k ∈ m.long) : Lend m k m
  | spare (hk : k ∉ m.long) (hsize : m.long.ncard < longSlots) : Lend m k m
  | lose {loser r} (hk : k ∉ m.long) (hsize : longSlots ≤ m.long.ncard)
      (hloser : m.Oldest m.long loser r) :
      Lend m k (update m loser (some { r with data := [] }))

/-- A put, and whether the message is kept. -/
inductive Put (m : J1939Map) (p : CachePut) : Bool → J1939Map → Prop
  | refused (h : J1939Cache.refuses p = true) : Put m p false m
  | full (h : J1939Cache.refuses p = false) (hk : m p.key = none) (hsize : cacheMax ≤ m.dom.ncard)
      (hyoung : ∀ k r, m k = some r → p.nowUs - r.rxUs < evictAgeUs) : Put m p false m
  | short {m'} (h : J1939Cache.refuses p = false) (hlen : p.len ≤ entryBytes)
      (henter : Enter m p.key p.nowUs m') :
      Put m p true (update m' p.key (some p.msg))
  | long {m' m''} (h : J1939Cache.refuses p = false) (hlen : entryBytes < p.len)
      (henter : Enter m p.key p.nowUs m') (hlend : Lend m' p.key m'') :
      Put m p true (update m'' p.key (some p.msg))

end J1939Map

variable {p : CachePut}

namespace J1939Cache

/-- The message of an entry. -/
def entryMsg (c : J1939Cache) (e : J1939Entry) : J1939Msg :=
  ⟨(List.range e.len).map (c.payload e), e.rxUs⟩

/-- The message in a slot. -/
def msg (c : J1939Cache) (i : Fin cacheSlots) : J1939Msg := c.entryMsg (c.e i)

theorem length_msg_data (c : J1939Cache) (i : Fin cacheSlots) :
    (c.msg i).data.length = (c.e i).len := by
  rw [msg, entryMsg, length_map, length_range]

theorem entryMsg_congr {c c' : J1939Cache} {e : J1939Entry}
    (hlng : ∀ b, e.lng = some b → c'.lng b = c.lng b) : c'.entryMsg e = c.entryMsg e := by
  have hpayload : c'.payload e = c.payload e := by
    cases hb : e.lng with
    | none => simp only [payload, hb]
    | some b =>
      simp only [payload, hb]
      exact hlng b hb
  rw [entryMsg, entryMsg, hpayload]

/-- The cache holds the map. -/
structure Rep (c : J1939Cache) (m : J1939Map) : Prop where
  sound : Probing.Sound slotHome c.keys
  owners : c.Owners
  used : c.used = m.dom.ncard
  used_le : c.used ≤ cacheMax
  long : ∀ i, c.keys i ≠ none → ((c.e i).lng ≠ none ↔ entryBytes < (c.e i).len)
  agree : ∀ k r, m k = some r ↔ ∃ i, c.keys i = some k ∧ c.msg i = r

section

variable {c c' : J1939Cache} {m : J1939Map} {i : Fin cacheSlots} {k : J1939Key}

theorem Rep.mem_dom (h : Rep c m) : k ∈ m.dom ↔ ∃ i, c.keys i = some k := by
  constructor
  · intro hk
    obtain ⟨r, hr⟩ := ne_none_iff_exists'.mp hk
    obtain ⟨i, hi, -⟩ := (h.agree k r).mp hr
    exact ⟨i, hi⟩
  · rintro ⟨i, hi⟩ hnone
    rw [(h.agree k (c.msg i)).mpr ⟨i, hi, rfl⟩] at hnone
    cases hnone

theorem Rep.eq_msg (h : Rep c m) (hi : c.keys i = some k) : m k = some (c.msg i) :=
  (h.agree k _).mpr ⟨i, hi, rfl⟩

theorem Rep.mem_long (h : Rep c m) : k ∈ m.long ↔ ∃ i, c.keys i = some k ∧ (c.e i).lng ≠ none := by
  constructor
  · rintro ⟨r, hr, hlen⟩
    obtain ⟨i, hi, rfl⟩ := (h.agree k r).mp hr
    rw [length_msg_data] at hlen
    exact ⟨i, hi, (h.long i (hi ▸ some_ne_none k)).mpr hlen⟩
  · rintro ⟨i, hi, hlng⟩
    refine ⟨c.msg i, h.eq_msg hi, ?_⟩
    rw [length_msg_data]
    exact (h.long i (hi ▸ some_ne_none k)).mp hlng

theorem Rep.dom_finite (h : Rep c m) : m.dom.Finite := by
  refine (finite_range fun i => (c.e i).addr).subset ?_
  intro k hk
  obtain ⟨i, hi⟩ := h.mem_dom.mp hk
  exact ⟨i, (keys_eq_some.mp hi).2⟩

theorem Rep.exists_free (h : Rep c m) : ∃ e, c.keys e = none := by
  by_contra hall
  rw [not_exists] at hall
  have hkeys : ∀ i, c.keys i = some (c.e i).addr := by
    intro i
    obtain ⟨k, hk⟩ := ne_none_iff_exists'.mp (hall i)
    rw [hk, (keys_eq_some.mp hk).2]
  have hinj : Function.Injective fun i => (c.e i).addr := by
    intro i j hij
    have haddr : (c.e i).addr = (c.e j).addr := hij
    exact h.sound.unique i j _ (hkeys i) (haddr ▸ hkeys j)
  have hsub : (Set.range fun i => (c.e i).addr) ⊆ m.dom := by
    rintro k ⟨i, rfl⟩
    exact h.mem_dom.mpr ⟨i, hkeys i⟩
  have hcard := ncard_le_ncard hsub h.dom_finite
  rw [ncard_range_of_injective hinj, Nat.card_fin, ← h.used] at hcard
  exact absurd (hcard.trans h.used_le) (by decide)

theorem Rep.write (h : Rep c m) (hi : c.keys i = some k) (hkeys : c'.keys = c.keys)
    (howners : c'.Owners) (hused : c'.used = c.used)
    (hlong : ∀ q, c.keys q ≠ none → ((c'.e q).lng ≠ none ↔ entryBytes < (c'.e q).len))
    (hmsg : ∀ q, q ≠ i → c.keys q ≠ none → c'.msg q = c.msg q) :
    Rep c' (update m k (some (c'.msg i))) := by
  have hdom : J1939Map.dom (update m k (some (c'.msg i))) = m.dom := by
    ext k'
    by_cases hk : k' = k
    · rw [hk]
      refine iff_of_true ?_ (h.mem_dom.mpr ⟨i, hi⟩)
      exact (update_self k (some (c'.msg i)) m).trans_ne (some_ne_none _)
    · exact not_congr (by rw [update_of_ne hk])
  refine ⟨hkeys ▸ h.sound, howners, ?_, ?_, ?_, ?_⟩
  · rw [hused, hdom]
    exact h.used
  · rw [hused]
    exact h.used_le
  · rw [hkeys]
    exact hlong
  · intro k' r
    rw [hkeys]
    by_cases hk : k' = k
    · rw [hk, update_self, some_inj]
      constructor
      · intro hr
        exact ⟨i, hi, hr⟩
      · rintro ⟨q, hq, hr⟩
        rw [h.sound.unique i q k hi hq, hr]
    · rw [update_of_ne hk, h.agree]
      refine exists_congr fun q => and_congr_right fun hq => ?_
      have hqi : q ≠ i := by
        rintro rfl
        rw [hi] at hq
        exact hk (some.inj hq).symm
      rw [hmsg q hqi (hq ▸ some_ne_none k')]

/-! ## Room for an entry -/

theorem Rep.init : Rep J1939Cache.init fun _ => none := by
  have hnone : J1939Cache.init.keys = fun _ => none := by
    funext i
    exact keys_eq_none.mpr (beq_self_eq_true pgnFree)
  refine ⟨hnone ▸ Probing.Sound.empty, ?_, ?_, Nat.zero_le _, ?_, ?_⟩
  · intro b i
    exact iff_of_false (some_ne_none i).symm fun h => h.1 rfl
  · have hdom : J1939Map.dom (fun _ => none) = ∅ := eq_empty_of_forall_notMem fun k hk => hk rfl
    rw [hdom, ncard_empty]
    rfl
  · intro i hi
    exact absurd rfl hi
  · intro k r
    exact iff_of_false (some_ne_none r).symm fun ⟨i, hi, _⟩ => some_ne_none k hi.symm

theorem Rep.evict (h : Rep c m) (hi : c.keys i = some k) :
    Rep (c.evict i) (update m k none) ∧ (c.evict i).used < cacheMax := by
  obtain ⟨e, he⟩ := h.exists_free
  obtain ⟨hsound, howners, hlng, hused, hentries⟩ :=
    slotRemove_spec h.sound h.owners he (hi ▸ some_ne_none k)
  have hmem : k ∈ m.dom := h.mem_dom.mpr ⟨i, hi⟩
  have hpos : 0 < c.used := by
    rw [h.used]
    exact (ncard_pos h.dom_finite).mpr ⟨k, hmem⟩
  have hdom : J1939Map.dom (update m k none) = m.dom \ {k} := by
    ext k'
    by_cases hk : k' = k
    · rw [hk]
      exact iff_of_false (not_not_intro (update_self k none m)) fun h => h.2 rfl
    · have hne : update m k none k' = m k' := update_of_ne hk ..
      exact ⟨fun h => ⟨hne.symm.trans_ne h, hk⟩, fun h => hne.trans_ne h.1⟩
  -- what is in a slot was in a slot, and not in the one that was emptied
  have hslot : ∀ {q k'}, (c.slotRemove i).keys q = some k' →
      ∃ p, p ≠ i ∧ c.e p = (c.slotRemove i).e q ∧ c.keys p = some k' := by
    intro q k' hq
    obtain ⟨hlive, haddr⟩ := keys_eq_some.mp hq
    obtain ⟨p, hp, heq⟩ := (hentries _ hlive).mp ⟨q, rfl⟩
    exact ⟨p, hp, heq, keys_eq_some.mpr ⟨heq ▸ hlive, heq ▸ haddr⟩⟩
  have hmsg : ∀ e, (c.slotRemove i).entryMsg e = c.entryMsg e :=
    fun e => entryMsg_congr fun b _ => congrFun hlng b
  refine ⟨⟨hsound, howners, ?_, ?_, ?_, ?_⟩, ?_⟩
  · rw [hdom, ncard_sdiff_singleton_of_mem hmem, ← h.used]
    exact hused
  · have hmax := h.used_le
    have hless : (c.evict i).used = c.used - 1 := hused
    omega
  · intro q hq
    obtain ⟨k', hk'⟩ := ne_none_iff_exists'.mp hq
    obtain ⟨p, -, heq, hp⟩ := hslot hk'
    have hlong := h.long p (hp ▸ some_ne_none k')
    rwa [heq] at hlong
  · intro k' r
    by_cases hk : k' = k
    · rw [hk, update_self]
      refine iff_of_false (some_ne_none r).symm ?_
      rintro ⟨q, hq, -⟩
      obtain ⟨p, hp, -, hpk⟩ := hslot hq
      exact hp (h.sound.unique p i k hpk hi)
    · rw [update_of_ne hk, h.agree]
      constructor
      · rintro ⟨p, hp, hr⟩
        have hpi : p ≠ i := by
          rintro rfl
          rw [hi] at hp
          exact hk (some.inj hp).symm
        obtain ⟨hlive, haddr⟩ := keys_eq_some.mp hp
        obtain ⟨q, hq⟩ := (hentries _ hlive).mpr ⟨p, hpi, rfl⟩
        refine ⟨q, keys_eq_some.mpr ⟨hq ▸ hlive, hq ▸ haddr⟩, ?_⟩
        have hqr : (c.slotRemove i).msg q = r := by
          rw [msg, hq, hmsg]
          exact hr
        exact hqr
      · rintro ⟨q, hq, hr⟩
        obtain ⟨p, -, heq, hp⟩ := hslot hq
        refine ⟨p, hp, ?_⟩
        have hqr : (c.slotRemove i).msg q = r := hr
        rw [← hqr, msg, msg, heq, hmsg]
  · have hmax := h.used_le
    have hless : (c.evict i).used = c.used - 1 := hused
    omega

theorem Rep.newEntry (h : Rep c m) (hpgn : p.key.pgn ≠ pgnFree) (hk : m p.key = none)
    (hsize : c.used < cacheMax) (hi : c.keys i = none) (hpassed : c.Passed p.key i) :
    Rep (c.newEntry i p) (update m p.key (some ⟨[], p.nowUs⟩)) ∧
      (c.newEntry i p).keys i = some p.key := by
  have hself : (c.newEntry i p).e i = { c.e i with
        pgn := p.key.pgn
        sa := p.key.sa
        da := p.key.da
        lng := none
        len := 0
        count := 0
        periodUs := 0
        rxUs := p.nowUs } := setEntry_self ..
  have hother : ∀ q, q ≠ i → (c.newEntry i p).e q = c.e q := fun q hq => setEntry_ne c _ hq
  have hkeyi : (c.newEntry i p).keys i = some p.key := by
    rw [keys_eq_some, hself]
    exact ⟨beq_false_of_ne hpgn, rfl⟩
  have hkeys : (c.newEntry i p).keys = update c.keys i (some p.key) := by
    funext q
    by_cases hq : q = i
    · rw [hq, update_self, hkeyi]
    · rw [update_of_ne hq, keys, keys, hother q hq]
  have hnew : ∀ q, c.keys q ≠ some p.key := by
    intro q hq
    rw [h.eq_msg hq] at hk
    cases hk
  have hdom : J1939Map.dom (update m p.key (some ⟨[], p.nowUs⟩)) = insert p.key m.dom := by
    ext k'
    by_cases hk' : k' = p.key
    · rw [hk']
      refine iff_of_true ?_ (mem_insert _ _)
      exact (update_self p.key (some (J1939Msg.mk [] p.nowUs)) m).trans_ne (some_ne_none _)
    · rw [mem_insert_iff, or_iff_right hk']
      exact not_congr (by rw [update_of_ne hk'])
  refine ⟨⟨?_, ?_, ?_, hsize, ?_, ?_⟩, hkeyi⟩
  · rw [hkeys]
    exact h.sound.insert (fun q hq => (hpassed q hq).1) hnew
  · intro b q
    by_cases hq : q = i
    · have hnot : c.lngOwner b ≠ some i := fun hb => ((h.owners b i).mp hb).1 hi
      rw [hq]
      refine iff_of_false hnot fun hb => ?_
      rw [hself] at hb
      exact some_ne_none b hb.2.symm
    · rw [hkeys, update_of_ne hq, hother q hq]
      exact h.owners b q
  · have hnotMem : p.key ∉ m.dom := fun hmem => hmem hk
    rw [hdom, ncard_insert_of_notMem hnotMem h.dom_finite, ← h.used]
    rfl
  · intro q hq
    by_cases hqi : q = i
    · rw [hqi, hself]
      exact iff_of_false (fun hb => hb rfl) (Nat.not_lt_zero _)
    · rw [hkeys, update_of_ne hqi] at hq
      rw [hother q hqi]
      exact h.long q hq
  · intro k' r
    rw [hkeys]
    by_cases hk' : k' = p.key
    · rw [hk', update_self, some_inj]
      have hmsg : (c.newEntry i p).msg i = ⟨[], p.nowUs⟩ := by
        rw [msg, hself]
        rfl
      constructor
      · rintro rfl
        exact ⟨i, update_self .., hmsg⟩
      · rintro ⟨q, hq, rfl⟩
        by_cases hqi : q = i
        · rw [hqi, hmsg]
        · rw [update_of_ne hqi] at hq
          exact absurd hq (hnew q)
    · rw [update_of_ne hk', h.agree]
      refine exists_congr fun q => ?_
      by_cases hqi : q = i
      · rw [hqi, update_self, hi]
        refine iff_of_false (fun hq => some_ne_none k' hq.1.symm) fun hq => ?_
        exact hk' (some.inj hq.1).symm
      · rw [update_of_ne hqi]
        refine and_congr_right fun _ => ?_
        have hmsg : (c.newEntry i p).msg q = c.msg q := by
          rw [msg, hother q hqi]
          exact entryMsg_congr fun _ _ => rfl
        rw [hmsg]

/-! ## Storing a message -/

theorem Rep.stamp (h : Rep c m) (hi : c.keys i = some k) (nowUs : ℤ) :
    Rep (c.stamp i nowUs) (update m k (some ⟨(c.msg i).data, nowUs⟩)) := by
  have haddr : ∀ q, ((c.stamp i nowUs).e q).addr = (c.e q).addr ∧
      ((c.stamp i nowUs).e q).lng = (c.e q).lng ∧ ((c.stamp i nowUs).e q).len = (c.e q).len := by
    intro q
    by_cases hq : q = i
    · rw [hq, J1939Cache.stamp, setEntry_self]
      exact ⟨rfl, rfl, rfl⟩
    · rw [J1939Cache.stamp, setEntry_ne c _ hq]
      exact ⟨rfl, rfl, rfl⟩
  have hkeys : (c.stamp i nowUs).keys = c.keys := keys_congr fun q => (haddr q).1
  have hmsg : (c.stamp i nowUs).msg i = ⟨(c.msg i).data, nowUs⟩ := by
    rw [msg, J1939Cache.stamp, setEntry_self]
    rfl
  rw [← hmsg]
  refine h.write hi hkeys ?_ rfl ?_ ?_
  · intro b q
    rw [hkeys, (haddr q).2.1]
    exact h.owners b q
  · intro q hq
    rw [(haddr q).2.1, (haddr q).2.2]
    exact h.long q hq
  · intro q hqi _
    rw [msg, J1939Cache.stamp, setEntry_ne c _ hqi]
    exact entryMsg_congr fun _ _ => rfl

theorem memcpy_take (dst src : ℕ → UInt8) (len : ℕ) :
    (List.range len).map (memcpy dst src len) = (List.range len).map src := by
  apply map_congr_left
  intro j hj
  rw [memcpy, if_pos (mem_range.mp hj)]

theorem Rep.storeShort (h : Rep c m) (hi : c.keys i = some k) (hrx : (c.e i).rxUs = p.nowUs)
    (hlen : p.len ≤ entryBytes) :
    Rep ((c.storeShort i p).setLen i p.len) (update m k (some p.msg)) := by
  have hother : ∀ q, q ≠ i → ((c.storeShort i p).setLen i p.len).e q = c.e q := by
    intro q hq
    rw [J1939Cache.setLen, setEntry_ne _ _ hq, J1939Cache.storeShort, setEntry_ne _ _ hq, ownAs_e]
  have hself : ((c.storeShort i p).setLen i p.len).e i =
      { c.e i with
        lng := none
        data := if 0 < p.len then memcpy (c.e i).data p.bytes p.len else (c.e i).data
        len := p.len } := by
    rw [J1939Cache.setLen, setEntry_self, J1939Cache.storeShort, setEntry_self, ownAs_e]
  have hlng : ((c.storeShort i p).setLen i p.len).lng = c.lng := ownAs_lng ..
  have hkeys : ((c.storeShort i p).setLen i p.len).keys = c.keys := by
    refine keys_congr fun q => ?_
    by_cases hq : q = i
    · rw [hq, hself]
      rfl
    · rw [hother q hq]
  have hmsg : ((c.storeShort i p).setLen i p.len).msg i = p.msg := by
    rw [msg, hself, entryMsg]
    congr 1
    rcases Nat.eq_zero_or_pos p.len with hzero | hpos
    · rw [hzero]
      rfl
    · simp only [payload, if_pos hpos]
      exact memcpy_take ..
  rw [← hmsg]
  refine h.write hi hkeys ?_ (ownAs_used ..) ?_ ?_
  · intro b q
    have howner : ((c.storeShort i p).setLen i p.len).lngOwner b =
        if (c.e i).lng = some b then none else c.lngOwner b := ownAs_lngOwner ..
    rw [howner, hkeys]
    by_cases hq : q = i
    · rw [hq, hself]
      refine iff_of_false ?_ fun hb => some_ne_none b hb.2.symm
      split_ifs with hb
      · exact not_false
      · exact fun hown => hb ((h.owners b i).mp hown).2
    · rw [hother q hq, ← h.owners b q]
      split_ifs with hb
      · -- the buffer was that of this entry
        rw [(h.owners b i).mpr ⟨hi ▸ some_ne_none k, hb⟩]
        exact iff_of_false not_false fun hown => hq (some.inj hown).symm
      · exact Iff.rfl
  · intro q hq
    by_cases hqi : q = i
    · rw [hqi, hself]
      exact iff_of_false (fun hb => hb rfl) (not_lt.mpr hlen)
    · rw [hother q hqi]
      exact h.long q hq
  · intro q hqi _
    rw [msg, hother q hqi]
    exact entryMsg_congr fun b _ => congrFun hlng b

theorem Rep.storeLong (h : Rep c m) (hi : c.keys i = some k) (hrx : (c.e i).rxUs = p.nowUs)
    (hlen : entryBytes < p.len) (hlng : ∀ b', (c.e i).lng = some b' → b' = b)
    (howner : ∀ q, c.lngOwner b = some q → q = i) :
    Rep (({ c.lend b i with
        lng := update c.lng b (memcpy (c.lng b) p.bytes p.len) } : J1939Cache).setLen i p.len)
      (update m k (some p.msg)) := by
  generalize hc' : ({ c.lend b i with
    lng := update c.lng b (memcpy (c.lng b) p.bytes p.len) } : J1939Cache).setLen i p.len = c'
  have hother : ∀ q, q ≠ i → c'.e q = c.e q := by
    intro q hq
    rw [← hc', J1939Cache.setLen, setEntry_ne _ _ hq]
    exact setEntry_ne _ _ hq
  have hself : c'.e i = { c.e i with
      lng := some b
      len := p.len } := by
    rw [← hc', J1939Cache.setLen, setEntry_self, lend, setEntry_self]
    rfl
  have hlngSelf : c'.lng b = memcpy (c.lng b) p.bytes p.len := by
    rw [← hc']
    exact update_self ..
  have hlngOther : ∀ b', b' ≠ b → c'.lng b' = c.lng b' := by
    intro b' hb'
    rw [← hc']
    exact update_of_ne hb' ..
  have hownSelf : c'.lngOwner b = some i := by
    rw [← hc']
    exact update_self ..
  have hownOther : ∀ b', b' ≠ b → c'.lngOwner b' = c.lngOwner b' := by
    intro b' hb'
    rw [← hc']
    exact update_of_ne hb' ..
  have hkeys : c'.keys = c.keys := by
    refine keys_congr fun q => ?_
    by_cases hq : q = i
    · rw [hq, hself]
      rfl
    · rw [hother q hq]
  have hlive : c.keys i ≠ none := hi ▸ some_ne_none k
  -- no other entry has the buffer
  have hfree : ∀ q, q ≠ i → c.keys q ≠ none → (c.e q).lng ≠ some b :=
    fun q hqi hq hb => hqi (howner q ((h.owners b q).mpr ⟨hq, hb⟩))
  have hmsg : c'.msg i = p.msg := by
    rw [msg, hself, entryMsg, CachePut.msg, hrx]
    simp only [payload, hlngSelf]
    rw [memcpy_take]
  rw [← hmsg]
  refine h.write hi hkeys ?_ ?_ ?_ ?_
  · intro b' q
    rw [hkeys]
    by_cases hb : b' = b
    · rw [hb, hownSelf]
      by_cases hq : q = i
      · rw [hq, hself]
        exact iff_of_true rfl ⟨hlive, rfl⟩
      · rw [hother q hq]
        exact iff_of_false (fun hown => hq (some.inj hown).symm)
          fun hown => hfree q hq hown.1 hown.2
    · rw [hownOther b' hb]
      by_cases hq : q = i
      · rw [hq, hself]
        refine iff_of_false ?_ fun hown => hb (some.inj hown.2).symm
        exact fun hown => hb (hlng b' ((h.owners b' i).mp hown).2)
      · rw [hother q hq]
        exact h.owners b' q
  · rw [← hc']
    rfl
  · intro q hq
    by_cases hqi : q = i
    · rw [hqi, hself]
      exact iff_of_true (some_ne_none b) hlen
    · rw [hother q hqi]
      exact h.long q hq
  · intro q hqi hq
    rw [msg, hother q hqi]
    refine entryMsg_congr fun b' hb' => hlngOther b' ?_
    rintro rfl
    exact hfree q hqi hq hb'

/-! ## Long buffers -/

theorem Rep.silence (h : Rep c m) (hb : c.lngOwner b = some i) (hi : c.keys i = some k) :
    Rep ((c.silence i).setOwner b none) (update m k (some ⟨[], (c.msg i).rxUs⟩)) := by
  have hself : ((c.silence i).setOwner b none).e i = { c.e i with
      lng := none
      len := 0 } := setEntry_self ..
  have hother : ∀ q, q ≠ i → ((c.silence i).setOwner b none).e q = c.e q :=
    fun q hq => setEntry_ne c _ hq
  have hkeys : ((c.silence i).setOwner b none).keys = c.keys := by
    refine keys_congr fun q => ?_
    by_cases hq : q = i
    · rw [hq, hself]
      rfl
    · rw [hother q hq]
  have hmsg : ((c.silence i).setOwner b none).msg i = ⟨[], (c.msg i).rxUs⟩ := by
    rw [msg, hself]
    rfl
  have hlng : (c.e i).lng = some b := ((h.owners b i).mp hb).2
  rw [← hmsg]
  refine h.write hi hkeys ?_ rfl ?_ ?_
  · intro b' q
    rw [hkeys]
    by_cases hbb : b' = b
    · have hnone : ((c.silence i).setOwner b none).lngOwner b = none := update_self ..
      rw [hbb, hnone]
      refine iff_of_false (some_ne_none q).symm fun hown => ?_
      by_cases hq : q = i
      · rw [hq, hself] at hown
        exact some_ne_none b hown.2.symm
      · rw [hother q hq, ← h.owners b q, hb] at hown
        exact hq (some.inj hown).symm
    · have hsame : ((c.silence i).setOwner b none).lngOwner b' = c.lngOwner b' :=
        update_of_ne hbb ..
      rw [hsame]
      by_cases hq : q = i
      · rw [hq, hself]
        refine iff_of_false (fun hown => ?_) fun hown => some_ne_none b' hown.2.symm
        have hlng' := ((h.owners b' i).mp hown).2
        rw [hlng] at hlng'
        exact hbb (some.inj hlng').symm
      · rw [hother q hq]
        exact h.owners b' q
  · intro q hq
    by_cases hqi : q = i
    · rw [hqi, hself]
      exact iff_of_false (fun hb => hb rfl) (Nat.not_lt_zero _)
    · rw [hother q hqi]
      exact h.long q hq
  · intro q hqi _
    rw [msg, hother q hqi]
    exact entryMsg_congr fun _ _ => rfl

theorem Rep.long_lt (h : Rep c m) (i : Fin cacheSlots) (hb : c.lngOwner b = none) :
    m.long.ncard < longSlots := by
  have hsub : m.long ⊆ (fun b' => (c.e ((c.lngOwner b').getD i)).addr) '' {b}ᶜ := by
    intro k' hk'
    obtain ⟨q, hq, hlng⟩ := h.mem_long.mp hk'
    obtain ⟨b', hb'⟩ := ne_none_iff_exists'.mp hlng
    have howner := (h.owners b' q).mpr ⟨hq ▸ some_ne_none k', hb'⟩
    refine ⟨b', ?_, ?_⟩
    · rintro rfl
      rw [hb] at howner
      cases howner
    · dsimp only
      rw [howner, getD_some, (keys_eq_some.mp hq).2]
  have hle := (ncard_le_ncard hsub).trans ncard_image_le
  rw [ncard_compl, ncard_singleton, Nat.card_fin] at hle
  exact Nat.lt_of_le_of_lt hle (by decide)

theorem Rep.le_long (h : Rep c m) (hall : ∀ b, c.lngOwner b ≠ none) : longSlots ≤ m.long.ncard := by
  have hheld : ∀ b, ∃ k, k ∈ m.long ∧ ∃ i, c.lngOwner b = some i ∧ c.keys i = some k := by
    intro b
    obtain ⟨i, hi⟩ := ne_none_iff_exists'.mp (hall b)
    obtain ⟨hlive, hlng⟩ := (h.owners b i).mp hi
    obtain ⟨k, hk⟩ := ne_none_iff_exists'.mp hlive
    exact ⟨k, h.mem_long.mpr ⟨i, hk, hlng ▸ some_ne_none b⟩, i, hi, hk⟩
  choose f hmem hf using hheld
  have hinj : Function.Injective f := by
    intro b b' hbb
    obtain ⟨i, hi, hk⟩ := hf b
    obtain ⟨i', hi', hk'⟩ := hf b'
    rw [← hbb] at hk'
    have hii := h.sound.unique i i' _ hk hk'
    have hlng := ((h.owners b i).mp hi).2
    rw [hii, ((h.owners b' i').mp hi').2] at hlng
    exact (some.inj hlng).symm
  have hsub : Set.range f ⊆ m.long := by
    rintro k ⟨b, rfl⟩
    exact hmem b
  have hfinite : m.long.Finite := h.dom_finite.subset fun k hk => by
    obtain ⟨r, hr, -⟩ := hk
    exact hr.trans_ne (some_ne_none r)
  have hcard := ncard_le_ncard hsub hfinite
  rwa [ncard_range_of_injective hinj, Nat.card_fin] at hcard

theorem Rep.lngTaken (h : Rep c m) (hi : c.keys i = some k) (ht : LngTaken c i c' b) :
    ∃ m' c₁, J1939Map.Lend m k m' ∧ Rep c₁ m' ∧ c₁.keys i = some k ∧ c₁.e i = c.e i ∧
      c' = c₁.lend b i ∧ (∀ b', (c₁.e i).lng = some b' → b' = b) ∧
      ∀ q, c₁.lngOwner b = some q → q = i := by
  have hnotLong : (c.e i).lng = none → k ∉ m.long := by
    intro hnone hk
    obtain ⟨q, hq, hlng⟩ := h.mem_long.mp hk
    rw [h.sound.unique q i k hq hi, hnone] at hlng
    exact hlng rfl
  cases ht with
  | own hown =>
    have howner := (h.owners b i).mpr ⟨hi ▸ some_ne_none k, hown⟩
    refine ⟨m, c, .own ?_, h, hi, rfl, ?_, ?_, ?_⟩
    · exact h.mem_long.mpr ⟨i, hi, hown ▸ some_ne_none b⟩
    · have hsame : update c.lngOwner b (some i) = c.lngOwner := by
        rw [← howner]
        exact update_eq_self b c.lngOwner
      have hsame' : update c.e i { c.e i with lng := some b } = c.e := by
        rw [← hown]
        exact update_eq_self i c.e
      rw [lend, setOwner, hsame, setEntry, hsame']
    · intro b' hb'
      rw [hown] at hb'
      exact (some.inj hb').symm
    · intro q hq
      rw [howner] at hq
      exact (some.inj hq).symm
  | free hnone hfree =>
    refine ⟨m, c, .spare (hnotLong hnone) (h.long_lt i hfree), h, hi, rfl, rfl, ?_, ?_⟩
    · intro b' hb'
      rw [hnone] at hb'
      cases hb'
    · intro q hq
      rw [hfree] at hq
      cases hq
  | @lose _ loser hnone hall hloser holdest =>
    obtain ⟨hlive, hlng⟩ := (h.owners b loser).mp hloser
    obtain ⟨kl, hkl⟩ := ne_none_iff_exists'.mp hlive
    have hne : i ≠ loser := by
      rintro rfl
      rw [hnone] at hlng
      cases hlng
    have hsilent := h.silence hloser hkl
    have hei : ((c.silence loser).setOwner b none).e i = c.e i := setEntry_ne c _ hne
    refine ⟨_, _, .lose (hnotLong hnone) (h.le_long hall) ⟨?_, h.eq_msg hkl, ?_⟩, hsilent, ?_, hei, ?_,
      ?_, ?_⟩
    · exact h.mem_long.mpr ⟨loser, hkl, hlng ▸ some_ne_none b⟩
    · intro k' r' hk' hr'
      obtain ⟨q, hq, hqlng⟩ := h.mem_long.mp hk'
      obtain ⟨b', hb'⟩ := ne_none_iff_exists'.mp hqlng
      have howner := (h.owners b' q).mpr ⟨hq ▸ some_ne_none k', hb'⟩
      rw [h.eq_msg hq] at hr'
      rw [← some.inj hr']
      exact holdest b' q howner
    · rw [keys, hei]
      exact hi
    · rw [lend, lend, setOwner, setOwner, setOwner, update_idem]
    · intro b' hb'
      rw [hei, hnone] at hb'
      cases hb'
    · intro q hq
      have hfree : ((c.silence loser).setOwner b none).lngOwner b = none := update_self ..
      rw [hfree] at hq
      cases hq

/-! ## A put -/

theorem Rep.putEntry (h : Rep c m) (hi : c.keys i = some p.key)
    (hrefuses : refuses p = false) {m₀ : J1939Map}
    (henter : J1939Map.Enter m₀ p.key p.nowUs
      (update m p.key (some ⟨(c.msg i).data, p.nowUs⟩))) :
    ∃ m', J1939Map.Put m₀ p true m' ∧ Rep (c.putEntry i p) m' := by
  have hstamp := h.stamp hi p.nowUs
  have hkey : (c.stamp i p.nowUs).keys i = some p.key := by
    rw [keys_eq_some, J1939Cache.stamp, setEntry_self]
    exact keys_eq_some.mp hi
  have hrx : ((c.stamp i p.nowUs).e i).rxUs = p.nowUs := by
    rw [J1939Cache.stamp, setEntry_self]
  rw [J1939Cache.putEntry]
  split_ifs with hlen
  · exact ⟨_, .short hrefuses hlen henter, hstamp.storeShort hkey hrx hlen⟩
  · obtain ⟨c', b, htake, htaken⟩ := lngTake_spec (c.stamp i p.nowUs) i
    obtain ⟨m', c₁, hlend, hrep, hkey₁, he₁, rfl, hlng, howner⟩ := hstamp.lngTaken hkey htaken
    refine ⟨_, .long hrefuses (not_le.mp hlen) henter hlend, ?_⟩
    rw [J1939Cache.storeLong, htake]
    exact hrep.storeLong hkey₁ (he₁ ▸ hrx) (not_le.mp hlen) hlng howner

theorem Rep.putNew (h : Rep c m) (hrefuses : refuses p = false) (hk : m p.key = none)
    (hsize : c.used < cacheMax) {m₀ : J1939Map}
    (henter : J1939Map.Enter m₀ p.key p.nowUs (update m p.key (some ⟨[], p.nowUs⟩))) :
    ∃ m', J1939Map.Put m₀ p true m' ∧
      Rep ((c.newEntry (c.slotFind p.key).1 p).putEntry (c.slotFind p.key).1 p) m' := by
  obtain ⟨e, he⟩ := h.exists_free
  obtain ⟨hpassed, hfind⟩ := slotFind_spec p.key he
  have hpgn : p.key.pgn ≠ pgnFree := by
    intro heq
    simp [refuses, heq] at hrefuses
  have hempty : c.keys (c.slotFind p.key).1 = none := by
    cases hfound : (c.slotFind p.key).2 with
    | false => rwa [hfound] at hfind
    | true =>
      rw [hfound] at hfind
      rw [h.eq_msg hfind] at hk
      cases hk
  obtain ⟨hnew, hkey⟩ := h.newEntry hpgn hk hsize hempty hpassed
  have hmsg := hnew.eq_msg hkey
  rw [update_self, some_inj] at hmsg
  refine hnew.putEntry hkey hrefuses ?_
  rw [update_idem, ← hmsg]
  exact henter

/-- **A put** of the cache is a put of the map. -/
theorem Rep.put (h : Rep c m) (p : CachePut) :
    ∃ m', J1939Map.Put m p (c.put p).2.isSome m' ∧ Rep (c.put p).1 m' := by
  rw [J1939Cache.put]
  cases hrefuses : refuses p with
  | true => exact ⟨m, .refused hrefuses, h⟩
  | false =>
    obtain ⟨e, he⟩ := h.exists_free
    obtain ⟨-, hfind⟩ := slotFind_spec p.key he
    rw [if_neg Bool.false_ne_true]
    rcases hslot : c.slotFind p.key with ⟨i, _ | _⟩
    · -- the key has no entry
      have hk : m p.key = none := by
        by_contra hsome
        obtain ⟨q, hq⟩ := h.mem_dom.mp hsome
        rw [slotFind_of_keys h.sound he hq] at hslot
        cases hslot
      have hi : (c.slotFind p.key).1 = i := congrArg Prod.fst hslot
      split_ifs with hsize
      · rw [← hi]
        exact h.putNew hrefuses hk hsize (.spare hk (h.used ▸ hsize))
      · have hfull : cacheMax ≤ m.dom.ncard := h.used ▸ not_lt.mp hsize
        cases hold : c.slotOldest with
        | none =>
          refine ⟨m, .full hrefuses hk hfull ?_, ?_⟩
          · intro k r hr
            obtain ⟨q, hq, -⟩ := (h.agree k r).mp hr
            rw [slotOldest_none hold q] at hq
            cases hq
          · exact ⟨h.sound, h.owners, h.used, h.used_le, h.long, h.agree⟩
        | some old =>
          obtain ⟨hlive, holdest⟩ := slotOldest_some hold
          obtain ⟨ko, hko⟩ := ne_none_iff_exists'.mp hlive
          dsimp only
          split_ifs with hage
          · refine ⟨m, .full hrefuses hk hfull ?_, ?_⟩
            · intro k r hr
              obtain ⟨q, hq, rfl⟩ := (h.agree k r).mp hr
              have hle := holdest q (hq ▸ some_ne_none k)
              have hrx : (c.msg q).rxUs = (c.e q).rxUs := rfl
              omega
            · exact ⟨h.sound, h.owners, h.used, h.used_le, h.long, h.agree⟩
          · obtain ⟨hevict, hless⟩ := h.evict hko
            have hne : p.key ≠ ko := by
              rintro hkk
              rw [hkk, h.eq_msg hko] at hk
              cases hk
            refine hevict.putNew hrefuses ?_ hless ?_
            · rw [update_of_ne hne, hk]
            · refine .evict hk hfull ⟨h.mem_dom.mpr ⟨old, hko⟩, h.eq_msg hko, ?_⟩ (not_lt.mp hage)
              intro k' r' _ hr'
              obtain ⟨q, hq, rfl⟩ := (h.agree k' r').mp hr'
              exact holdest q (hq ▸ some_ne_none k')
    · -- the key has its entry
      rw [hslot] at hfind
      exact h.putEntry hfind hrefuses (.known (h.eq_msg hfind))

/-! ## Getting -/

theorem ofNat_toNat_cast (n : UInt8) : UInt8.ofNat ((n.toNat : ℤ).toNat) = n := by
  rw [Int.toNat_natCast, UInt8.ofNat_toNat]

/-- **A get** of a key returns the map's message, if it has a payload. -/
theorem Rep.get (h : Rep c m) (k : J1939Key) (nowUs : ℤ) :
    (c.get k.pgn k.sa.toNat k.da.toNat nowUs).map c.msg =
      (m k).filter fun r => decide (0 < r.data.length) := by
  obtain ⟨e, he⟩ := h.exists_free
  obtain ⟨-, hfind⟩ := slotFind_spec k he
  rw [J1939Cache.get, if_pos ⟨Int.natCast_nonneg _, Int.natCast_nonneg _⟩, ofNat_toNat_cast,
    ofNat_toNat_cast]
  rcases hslot : c.slotFind k with ⟨i, _ | _⟩
  · have hk : m k = none := by
      by_contra hsome
      obtain ⟨q, hq⟩ := h.mem_dom.mp hsome
      rw [slotFind_of_keys h.sound he hq] at hslot
      cases hslot
    rw [hk]
    rfl
  · rw [hslot] at hfind
    rw [h.eq_msg hfind, filter_some, length_msg_data]
    by_cases hlen : 0 < (c.e i).len <;> simp [hlen]

end

end J1939Cache

/-! ## Runs -/

/-- A call and what it returned: whether a message was kept, what a get of a key found. -/
inductive CacheEvent where
  | put (p : CachePut) (kept : Bool)
  | get (k : J1939Key) (r : Option J1939Msg)

/-- A call on the cache. -/
def CacheStep (c : J1939Cache) : CacheEvent → J1939Cache → Prop
  | .put p kept, c' => c' = (c.put p).1 ∧ kept = (c.put p).2.isSome
  | .get k r, c' => c' = c ∧ ∃ nowUs, r = (c.get k.pgn k.sa.toNat k.da.toNat nowUs).map c.msg

/-- A call on the map. -/
def J1939Map.Step (m : J1939Map) : CacheEvent → J1939Map → Prop
  | .put p kept, m' => m.Put p kept m'
  | .get k r, m' => m' = m ∧ r = (m k).filter fun r => decide (0 < r.data.length)

/-- The last put of each key that was kept, an event further. -/
def noteLatest (last : J1939Key → Option CachePut) : CacheEvent → J1939Key → Option CachePut
  | .put p true => update last p.key (some p)
  | .put _ false => last
  | .get _ _ => last

def latest (es : List CacheEvent) : J1939Key → Option CachePut :=
  es.foldl noteLatest fun _ => none

/-- The messages of a map are the latest ones, but for payloads that were lost. -/
def J1939Map.Newest (m : J1939Map) (last : J1939Key → Option CachePut) : Prop :=
  ∀ k r, m k = some r → ∃ p, last k = some p ∧ r.rxUs = p.nowUs ∧ (r.data = [] ∨ r = p.msg)

theorem J1939Map.Enter.of_ne {m m' : J1939Map} {k : J1939Key} {nowUs : ℤ} {r : J1939Msg}
    (h : m.Enter k nowUs m') (hne : k' ≠ k) (hr : m' k' = some r) : m k' = some r := by
  cases h with
  | known hk => rwa [update_of_ne hne] at hr
  | spare hk hsize => rwa [update_of_ne hne] at hr
  | @evict old _ hk hsize hold hage =>
    rw [update_of_ne hne] at hr
    by_cases hko : k' = old
    · rw [hko, update_self] at hr
      cases hr
    · rwa [update_of_ne hko] at hr

theorem J1939Map.Lend.of_eq {m m' : J1939Map} {k : J1939Key} {r : J1939Msg} (h : m.Lend k m')
    (hr : m' k' = some r) : m k' = some r ∨ ∃ r', m k' = some r' ∧ r = { r' with data := [] } := by
  cases h with
  | own hk => exact .inl hr
  | spare hk hsize => exact .inl hr
  | @lose loser r' hk hsize hloser =>
    by_cases hkl : k' = loser
    · rw [hkl, update_self] at hr
      exact .inr ⟨r', hkl ▸ hloser.eq, (some.inj hr).symm⟩
    · rw [update_of_ne hkl] at hr
      exact .inl hr

variable {last : J1939Key → Option CachePut}

theorem J1939Map.Newest.step {m m' : J1939Map} {e : CacheEvent} (h : m.Newest last)
    (hstep : m.Step e m') : m'.Newest (noteLatest last e) := by
  -- a message that is stored is the latest, the others were there
  have hstored : ∀ {p m₁}, (∀ k r, k ≠ p.key → m₁ k = some r →
      m k = some r ∨ ∃ r', m k = some r' ∧ r = { r' with data := [] }) →
      J1939Map.Newest (update m₁ p.key (some p.msg)) (update last p.key (some p)) := by
    intro p m₁ hother k r hr
    by_cases hk : k = p.key
    · rw [hk, update_self] at hr
      rw [hk, update_self, ← some.inj hr]
      exact ⟨p, rfl, rfl, .inr rfl⟩
    · rw [update_of_ne hk] at hr
      rw [update_of_ne hk]
      rcases hother k r hk hr with hr | ⟨r', hr', rfl⟩
      · exact h k r hr
      · obtain ⟨p', hp', hrx, -⟩ := h k r' hr'
        exact ⟨p', hp', hrx, .inl rfl⟩
  cases e with
  | get k r =>
    obtain ⟨rfl, -⟩ := hstep
    exact h
  | put p kept =>
    cases hstep with
    | refused _ => exact h
    | full _ _ _ _ => exact h
    | short _ _ henter => exact hstored fun k r hk hr => .inl (henter.of_ne hk hr)
    | long _ _ henter hlend =>
      refine hstored fun k r hk hr => ?_
      rcases hlend.of_eq hr with hr | ⟨r', hr', rfl⟩
      · exact .inl (henter.of_ne hk hr)
      · exact .inr ⟨r', henter.of_ne hk hr', rfl⟩

theorem J1939Map.Newest.run {m m' : J1939Map} {es : List CacheEvent}
    (hrun : Run J1939Map.Step m es m') (h : m.Newest last) :
    m'.Newest (es.foldl noteLatest last) := by
  induction hrun generalizing last with
  | nil => exact h
  | cons hstep _ ih => exact ih (h.step hstep)

theorem J1939Cache.Rep.step {c c' : J1939Cache} {m : J1939Map} {e : CacheEvent} (h : c.Rep m)
    (hstep : CacheStep c e c') : ∃ m', m.Step e m' ∧ c'.Rep m' := by
  cases e with
  | put p kept =>
    obtain ⟨rfl, rfl⟩ := hstep
    exact h.put p
  | get k r =>
    obtain ⟨rfl, nowUs, rfl⟩ := hstep
    exact ⟨m, ⟨rfl, h.get k nowUs⟩, h⟩

theorem J1939Cache.Rep.run {c c' : J1939Cache} {es : List CacheEvent} (hrun : Run CacheStep c es c')
    {m : J1939Map} (h : c.Rep m) : ∃ m', Run J1939Map.Step m es m' ∧ c'.Rep m' := by
  induction hrun generalizing m with
  | nil => exact ⟨m, .nil m, h⟩
  | cons hstep _ ih =>
    obtain ⟨m₁, hm₁, h₁⟩ := h.step hstep
    obtain ⟨m', hm', h'⟩ := ih h₁
    exact ⟨m', .cons hm₁ hm', h'⟩

/-- **The cache refines a bounded map.** What a run of calls on an initialised
cache returns, a run of the map returns; a get finds the latest message of its
key that was kept, unless the map lost it or it has no payload. Every key is in
one slot and is found there, and the buffers that are lent are those the live
entries of long messages name. -/
theorem j1939Cache_refines {es : List CacheEvent} {c : J1939Cache}
    (hrun : Run CacheStep J1939Cache.init es c) :
    (∃ m, Run J1939Map.Step (fun _ => none) es m ∧ m.Newest (latest es) ∧
      ∀ k nowUs, (c.get k.pgn k.sa.toNat k.da.toNat nowUs).map c.msg =
        (m k).filter fun r => decide (0 < r.data.length)) ∧
    (∀ i k, c.keys i = some k → c.slotFind k = (i, true)) ∧
    (∀ i j k, c.keys i = some k → c.keys j = some k → i = j) ∧
    (∀ b i, c.lngOwner b = some i ↔ c.keys i ≠ none ∧ (c.e i).lng = some b) ∧
    ∀ i, c.keys i ≠ none → ((c.e i).lng ≠ none ↔ entryBytes < (c.e i).len) := by
  obtain ⟨m, hm, h⟩ := J1939Cache.Rep.init.run hrun
  have hnewest : m.Newest (latest es) :=
    J1939Map.Newest.run hm fun _ _ hr => absurd hr.symm (some_ne_none _)
  obtain ⟨e, he⟩ := h.exists_free
  exact ⟨⟨m, hm, hnewest, h.get⟩, fun i k hi => J1939Cache.slotFind_of_keys h.sound he hi,
    h.sound.unique, h.owners, h.long⟩

/-- An engine message, and a long message of another source whose slot is the same. -/
def enginePut : CachePut where
  key := ⟨0xF004, 0, 255⟩
  data := some fun i => UInt8.ofNat (16 * i)
  len := 8
  nowUs := 1

def longPut : CachePut where
  key := ⟨0xFE40, 45, 255⟩
  data := some UInt8.ofNat
  len := 10
  nowUs := 2

/-- Both are kept, and a get returns each. -/
def twoEvents : List CacheEvent :=
  [.put enginePut true, .put longPut true, .get longPut.key (some longPut.msg),
    .get enginePut.key (some enginePut.msg)]

theorem j1939Cache_refines_two : slotHome enginePut.key = slotHome longPut.key ∧
    ∃ c, Run CacheStep J1939Cache.init twoEvents c ∧ c.lngOwner 0 = some (c.slotFind longPut.key).1 ∧
      (∃ m, Run J1939Map.Step (fun _ => none) twoEvents m ∧ m.Newest (latest twoEvents) ∧
        ∀ k nowUs, (c.get k.pgn k.sa.toNat k.da.toNat nowUs).map c.msg =
          (m k).filter fun r => decide (0 < r.data.length)) ∧
      (∀ i k, c.keys i = some k → c.slotFind k = (i, true)) ∧
      (∀ i j k, c.keys i = some k → c.keys j = some k → i = j) ∧
      (∀ b i, c.lngOwner b = some i ↔ c.keys i ≠ none ∧ (c.e i).lng = some b) ∧
      ∀ i, c.keys i ≠ none → ((c.e i).lng ≠ none ↔ entryBytes < (c.e i).len) := by
  have hrun : Run CacheStep J1939Cache.init twoEvents
      ((J1939Cache.init.put enginePut).1.put longPut).1 :=
    .cons ⟨rfl, rfl⟩ (.cons ⟨rfl, rfl⟩ (.cons ⟨rfl, 3, rfl⟩ (.cons ⟨rfl, 3, rfl⟩ (.nil _))))
  exact ⟨rfl, _, hrun, rfl, j1939Cache_refines hrun⟩

/-- An engine message without data. -/
def emptyPut : CachePut where
  key := ⟨0xF004, 0, 255⟩
  data := none
  len := 0
  nowUs := 1

/-- A message without payload is kept, nothing was removed, and a get does not find it. -/
theorem j1939Cache_empty :
    (J1939Cache.init.put emptyPut).2.isSome = true ∧ (J1939Cache.init.put emptyPut).1.evicted = 0 ∧
      (J1939Cache.init.put emptyPut).1.lngEvicted = 0 ∧
      (J1939Cache.init.put emptyPut).1.get emptyPut.key.pgn emptyPut.key.sa.toNat
        emptyPut.key.da.toNat 2 = none :=
  ⟨rfl, rfl, rfl, rfl⟩

end Meatpi
