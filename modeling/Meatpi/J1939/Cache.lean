import Meatpi.J1939.Tp
import Meatpi.Library.Probing

/-!
# The newest message of each key (`j1939_cache_core.c`)

A table of 512 slots with linear probing keeps one entry for a group, a source and a
destination. A payload of up to 8 bytes lies in the entry, a longer one in one of twelve
buffers, each with the slot of its holder. A removal shifts the entries behind it back.
The functions take the store and give it back; an entry's pointer is the number of its
slot, and what a payload's pointer points to is a function of the position.
-/

namespace Meatpi

/-- `J1939_CACHE_SLOTS` -/
abbrev cacheSlots : ℕ := 512
/-- `J1939_LONG_SLOTS` -/
abbrev longSlots : ℕ := 12
/-- `J1939_CACHE_MAX` -/
def cacheMax : ℕ := 384
/-- `J1939_FRESH_US` -/
def freshUs : ℤ := 5000000
/-- `J1939_EVICT_AGE_US` -/
def evictAgeUs : ℤ := 30000000
/-- `J1939_PGN_FREE` -/
def pgnFree : UInt32 := 0xFFFFFFFF
/-- `sizeof(e->data)` -/
def entryBytes : ℕ := 8
def slotMask : UInt32 := 511
/-- `UINT32_MAX`, the longest period -/
def periodMax : ℤ := 4294967295

/-- `j1939_entry_t`; `lng` is the long buffer in use. -/
structure J1939Entry where
  pgn : UInt32
  sa : UInt8
  da : UInt8
  lng : Option (Fin longSlots)
  len : ℕ
  data : ℕ → UInt8
  count : UInt32
  periodUs : ℤ
  rxUs : ℤ

structure J1939Cache where
  e : Fin cacheSlots → J1939Entry
  lng : Fin longSlots → ℕ → UInt8
  lngOwner : Fin longSlots → Option (Fin cacheSlots)
  used : ℕ
  seq : UInt32
  full : UInt32
  evicted : UInt32
  lngEvicted : UInt32

/-- What an entry is kept for. -/
structure J1939Key where
  pgn : UInt32
  sa : UInt8
  da : UInt8
  deriving DecidableEq

/-- The arguments of `j1939_cache_put`; `data` is `none` for `NULL`. -/
structure CachePut where
  key : J1939Key
  data : Option (ℕ → UInt8)
  len : ℕ
  nowUs : ℤ

/-- The bytes at `data`; of `NULL` none is read. -/
def CachePut.bytes (p : CachePut) : ℕ → UInt8 := p.data.getD fun _ => 0

/-- `memcpy(dst, src, len)` -/
def memcpy (dst src : ℕ → UInt8) (len : ℕ) : ℕ → UInt8 := fun i => if i < len then src i else dst i

theorem and_slotMask_lt (h : UInt32) : (h &&& slotMask).toNat < cacheSlots := by
  exact Nat.lt_succ_of_le Nat.and_le_right

def slotHome (k : J1939Key) : Fin cacheSlots :=
  let h := k.pgn * 0x9E3779B1
  let h := h ^^^ ((k.sa.toUInt32 <<< 8 ||| k.da.toUInt32) * 0x85EBCA6B)
  let h := h ^^^ (h >>> 15)
  ⟨(h &&& slotMask).toNat, and_slotMask_lt h⟩

namespace J1939Entry

/-- The key fields of an entry. -/
def addr (e : J1939Entry) : J1939Key := ⟨e.pgn, e.sa, e.da⟩

def isFree (e : J1939Entry) : Bool := e.pgn == pgnFree

end J1939Entry

namespace J1939Cache

def setEntry (c : J1939Cache) (i : Fin cacheSlots) (e : J1939Entry) : J1939Cache :=
  { c with e := Function.update c.e i e }

def setOwner (c : J1939Cache) (b : Fin longSlots) (i : Option (Fin cacheSlots)) : J1939Cache :=
  { c with lngOwner := Function.update c.lngOwner b i }

/-- `if (e->lng >= 0) lng_owner[e->lng] = i` -/
def ownAs (c : J1939Cache) (e : J1939Entry) (i : Option (Fin cacheSlots)) : J1939Cache :=
  match e.lng with
  | none => c
  | some b => c.setOwner b i

/-! ## Slots -/

/-- The loop of `slot_find` from slot `i` on. -/
def slotFindGo (c : J1939Cache) (k : J1939Key) : ℕ → Fin cacheSlots → Fin cacheSlots × Bool
  | 0, i => (i, false)
  | n + 1, i =>
    if (c.e i).isFree then (i, false)
    else if (c.e i).addr = k then (i, true)
    else c.slotFindGo k n (Probing.next i)

/-- `slot_find`: the slot, and whether the key is in it. -/
def slotFind (c : J1939Cache) (k : J1939Key) : Fin cacheSlots × Bool :=
  c.slotFindGo k cacheSlots (slotHome k)

/-- `stays`: the home `k` lies in the slots from `i` (without it) up to `j`. -/
def stays (i j k : Fin cacheSlots) : Bool :=
  if i ≤ j then decide (i < k) && decide (k ≤ j) else decide (i < k) || decide (k ≤ j)

/-- The entry of `j` moves to `i`. -/
def slotMove (c : J1939Cache) (i j : Fin cacheSlots) : J1939Cache :=
  let c := c.setEntry i (c.e j)
  let c := c.ownAs (c.e i) (some i)
  c.setEntry j { c.e j with pgn := pgnFree }

/-- The loop of `slot_remove`, with the gap at `i` and `j` the slot looked at
last. It ends at an empty slot, within the rounds it is given
(`J1939Cache.slotShift_spec`). -/
def slotShift : ℕ → J1939Cache → Fin cacheSlots → Fin cacheSlots → J1939Cache
  | 0, c, _, _ => c
  | n + 1, c, i, j =>
    let j := Probing.next j
    if (c.e j).isFree then c
    else if stays i j (slotHome (c.e j).addr) then slotShift n c i j
    else slotShift n (c.slotMove i j) j j

def slotRemove (c : J1939Cache) (i : Fin cacheSlots) : J1939Cache :=
  let c := c.ownAs (c.e i) none
  let c := { c.setEntry i { c.e i with pgn := pgnFree } with used := c.used - 1 }
  slotShift cacheSlots c i i

/-- One round of `slot_oldest`. -/
def oldestOf (c : J1939Cache) (best : Option (Fin cacheSlots)) (i : Fin cacheSlots) :
    Option (Fin cacheSlots) :=
  if (c.e i).isFree then best
  else
    match best with
    | none => some i
    | some b => if (c.e i).rxUs < (c.e b).rxUs then some i else best

def slotOldest (c : J1939Cache) : Option (Fin cacheSlots) :=
  (List.finRange cacheSlots).foldl c.oldestOf none

/-! ## Long buffers -/

/-- `e[lng_owner[b]].rx_us`; it is read of a buffer that has a holder. -/
def holderRx (c : J1939Cache) (b : Fin longSlots) : ℤ :=
  match c.lngOwner b with
  | none => 0
  | some i => (c.e i).rxUs

/-- The loop of `lng_take`: a free buffer ends it. -/
def lngScan (c : J1939Cache) : List (Fin longSlots) → Option (Fin longSlots) →
    Option (Fin longSlots)
  | [], pick => pick
  | b :: bs, pick =>
    if (c.lngOwner b).isNone then some b
    else
      match pick with
      | none => c.lngScan bs (some b)
      | some q => if c.holderRx b < c.holderRx q then c.lngScan bs (some b) else c.lngScan bs pick

/-- The holder in slot `i` loses its payload. -/
def silence (c : J1939Cache) (i : Fin cacheSlots) : J1939Cache :=
  { c.setEntry i { c.e i with lng := none, len := 0 } with lngEvicted := c.lngEvicted + 1 }

/-- Buffer `b` goes to the entry in slot `i`. -/
def lend (c : J1939Cache) (b : Fin longSlots) (i : Fin cacheSlots) : J1939Cache :=
  let c := c.setOwner b (some i)
  c.setEntry i { c.e i with lng := some b }

/-- `lng_take` for the entry in slot `i`; there is always a buffer to pick. -/
def lngTake (c : J1939Cache) (i : Fin cacheSlots) : J1939Cache × Option (Fin longSlots) :=
  match (c.e i).lng with
  | some b => (c, some b)
  | none =>
    match c.lngScan (List.finRange longSlots) none with
    | none => (c, none)
    | some b =>
      match c.lngOwner b with
      | none => (c.lend b i, some b)
      | some loser => ((c.silence loser).lend b i, some b)

/-! ## The calls -/

def freeEntry : J1939Entry where
  pgn := pgnFree
  sa := 0
  da := 0
  lng := none
  len := 0
  data := fun _ => 0
  count := 0
  periodUs := 0
  rxUs := 0

/-- `j1939_cache_init` -/
def init : J1939Cache where
  e := fun _ => freeEntry
  lng := fun _ _ => 0
  lngOwner := fun _ => none
  used := 0
  seq := 0
  full := 0
  evicted := 0
  lngEvicted := 0

/-- The entry of a key that had none, in slot `i`. -/
def newEntry (c : J1939Cache) (i : Fin cacheSlots) (p : CachePut) : J1939Cache :=
  { c.setEntry i
      { c.e i with
        pgn := p.key.pgn
        sa := p.key.sa
        da := p.key.da
        lng := none
        len := 0
        count := 0
        periodUs := 0
        rxUs := p.nowUs } with
    used := c.used + 1 }

/-- The time from `rxUs` to `nowUs`, as far as 32 bits go. -/
def periodOf (nowUs rxUs : ℤ) : ℤ :=
  let gap := nowUs - rxUs
  if gap < 0 then 0 else if periodMax < gap then periodMax else gap

/-- The message counts and its time is kept. -/
def stamp (c : J1939Cache) (i : Fin cacheSlots) (nowUs : ℤ) : J1939Cache :=
  let e := c.e i
  c.setEntry i
    { e with
      periodUs := if 0 < e.count then periodOf nowUs e.rxUs else e.periodUs
      count := e.count + 1
      rxUs := nowUs }

/-- A payload that fits the entry; a long buffer it had is free again. -/
def storeShort (c : J1939Cache) (i : Fin cacheSlots) (p : CachePut) : J1939Cache :=
  let c := c.ownAs (c.e i) none
  c.setEntry i
    { c.e i with
      lng := none
      data := if 0 < p.len then memcpy (c.e i).data p.bytes p.len else (c.e i).data }

/-- A payload that needs a long buffer. -/
def storeLong (c : J1939Cache) (i : Fin cacheSlots) (p : CachePut) : J1939Cache :=
  match c.lngTake i with
  | (c, none) => c
  | (c, some b) => { c with lng := Function.update c.lng b (memcpy (c.lng b) p.bytes p.len) }

/-- `e->len = len` and the count of messages stored. -/
def setLen (c : J1939Cache) (i : Fin cacheSlots) (len : ℕ) : J1939Cache :=
  { c.setEntry i { c.e i with len := len } with seq := c.seq + 1 }

/-- The part of `j1939_cache_put` from the entry on. -/
def putEntry (c : J1939Cache) (i : Fin cacheSlots) (p : CachePut) : J1939Cache :=
  let c := c.stamp i p.nowUs
  let c := if p.len ≤ entryBytes then c.storeShort i p else c.storeLong i p
  c.setLen i p.len

/-- The message is not kept. -/
def countFull (c : J1939Cache) : J1939Cache := { c with full := c.full + 1 }

/-- The entry in slot `i` makes room. -/
def evict (c : J1939Cache) (i : Fin cacheSlots) : J1939Cache :=
  let c := c.slotRemove i
  { c with evicted := c.evicted + 1 }

/-- The checks at the start of `j1939_cache_put`. -/
def refuses (p : CachePut) : Bool :=
  p.key.pgn == pgnFree || decide (j1939MsgMax < p.len) || (decide (0 < p.len) && p.data.isNone)

/-- `j1939_cache_put`, and the entry it returns. -/
def put (c : J1939Cache) (p : CachePut) : J1939Cache × Option (Fin cacheSlots) :=
  if refuses p then (c, none)
  else
    match c.slotFind p.key with
    | (i, true) => (c.putEntry i p, some i)
    | (i, false) =>
      if c.used < cacheMax then ((c.newEntry i p).putEntry i p, some i)
      else
        match c.slotOldest with
        | none => (c.countFull, none)
        | some old =>
          if p.nowUs - (c.e old).rxUs < evictAgeUs then (c.countFull, none)
          else
            let c := c.evict old
            -- the table moved
            let i := (c.slotFind p.key).1
            ((c.newEntry i p).putEntry i p, some i)

/-- `e` is the better pick than `best`: a lower source, or a later message of it. -/
def picks (c : J1939Cache) (best : Option (Fin cacheSlots)) (i : Fin cacheSlots) :
    Option (Fin cacheSlots) :=
  match best with
  | none => some i
  | some b =>
    if (c.e i).sa < (c.e b).sa ∨ (c.e i).sa = (c.e b).sa ∧ (c.e b).rxUs < (c.e i).rxUs then some i
    else best

/-- The slots `j1939_cache_get` with a wildcard looks at. -/
def isMatch (e : J1939Entry) (pgn : UInt32) (sa da : ℤ) : Bool :=
  e.pgn == pgn && e.len != 0 && (decide (sa < 0) || decide ((e.sa.toNat : ℤ) = sa)) &&
    (decide (da < 0) || decide ((e.da.toNat : ℤ) = da))

/-- `j1939_cache_get`: the slot of the entry it returns. -/
def get (c : J1939Cache) (pgn : UInt32) (sa da nowUs : ℤ) : Option (Fin cacheSlots) :=
  if 0 ≤ sa ∧ 0 ≤ da then
    let r := c.slotFind ⟨pgn, UInt8.ofNat sa.toNat, UInt8.ofNat da.toNat⟩
    if r.2 && decide (0 < (c.e r.1).len) then some r.1 else none
  else
    let found := (List.finRange cacheSlots).filter fun i => isMatch (c.e i) pgn sa da
    let lowest := found.foldl c.picks none
    let fresh := (found.filter fun i => decide (nowUs - (c.e i).rxUs ≤ freshUs)).foldl c.picks none
    if fresh.isSome then fresh else lowest

/-- `j1939_cache_payload` -/
def payload (c : J1939Cache) (e : J1939Entry) : ℕ → UInt8 :=
  match e.lng with
  | none => e.data
  | some b => c.lng b

end J1939Cache

end Meatpi
