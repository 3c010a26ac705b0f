import Meatpi.DataLogger.Clock
import Meatpi.Library.Ring

/-!
# The rings over a warm reset (`data_logger.c`, `data_logger_recover.c`)

The rings live in memory that a warm reset keeps. A push and a pop store the
indices one after another, so a reset may come between two of them. The next
boot takes the ring over: it distrusts the count when it does not fit the head
and the tail, and cuts the queue at the first record that does not look like
one.
-/

namespace Meatpi

open Function Library List

/-! ## The ring -/

def dlMaxParams : ℤ := 256
def dlFrameExt : UInt8 := 0x01
def dlFrameRtr : UInt8 := 0x02

structure DlRing where
  buf : ℕ → DlRecord
  cap : ℕ
  head : ℕ
  tail : ℕ
  fill : ℕ
  dropped : UInt32

/-- The queued records, the oldest first. -/
def DlRing.queue (r : DlRing) : List DlRecord := window r.buf r.cap r.tail r.fill

/-- A ring between two operations. -/
structure DlRing.Sound (limit : ℕ) (r : DlRing) : Prop where
  cap_pos : 0 < r.cap
  cap_le : r.cap ≤ limit
  tail_lt : r.tail < r.cap
  fill_le : r.fill ≤ r.cap
  head_eq : r.head = (r.tail + r.fill) % r.cap

/-- One store to the ring. -/
inductive DlRingStore where
  /-- `r->tail = (r->tail + 1) % r->cap` -/
  | tailNext
  /-- `r->fill--` -/
  | fillDown
  /-- `r->dropped++` -/
  | droppedUp
  /-- `r->buf[r->head] = ...` -/
  | slot (rec : DlRecord)
  /-- `r->head = (r->head + 1) % r->cap` -/
  | headNext
  /-- `r->fill++` -/
  | fillUp
  deriving DecidableEq

/-- The ring after a store. -/
def DlRing.store (r : DlRing) : DlRingStore → DlRing
  | .tailNext => { r with tail := (r.tail + 1) % r.cap }
  | .fillDown => { r with fill := r.fill - 1 }
  | .droppedUp => { r with dropped := r.dropped + 1 }
  | .slot rec => { r with buf := update r.buf r.head rec }
  | .headNext => { r with head := (r.head + 1) % r.cap }
  | .fillUp => { r with fill := r.fill + 1 }

/-- The ring after some stores. -/
def DlRing.stores (r : DlRing) (stores : List DlRingStore) : DlRing :=
  stores.foldl DlRing.store r

/-- The stores of `ring_push`. While the record is copied the slot holds
`torn`. -/
def ringPushStores (r : DlRing) (rec torn : DlRecord) : List DlRingStore :=
  (if r.fill = r.cap then [.tailNext, .fillDown, .droppedUp] else []) ++
    [.slot torn, .slot rec, .headNext, .fillUp]

def ringPush (r : DlRing) (rec : DlRecord) : DlRing := r.stores (ringPushStores r rec rec)

/-- The stores of `ring_pop`. -/
def ringPopStores (r : DlRing) : List DlRingStore :=
  if 0 < r.fill then [.tailNext, .fillDown] else []

def ringPop (r : DlRing) : DlRing × Option DlRecord :=
  (r.stores (ringPopStores r), if 0 < r.fill then some (r.buf r.tail) else none)

/-- An operation on the ring. -/
inductive DlRingOp where
  | push (rec torn : DlRecord)
  | pop

/-- The stores of an operation, in their order. -/
def DlRing.storesOf (r : DlRing) : DlRingOp → List DlRingStore
  | .push rec torn => ringPushStores r rec torn
  | .pop => ringPopStores r

/-- The ring when a reset comes after `k` stores of an operation. -/
def DlRing.interrupted (r : DlRing) (op : DlRingOp) (k : ℕ) : DlRing :=
  r.stores ((r.storesOf op).take k)

/-- The ring after an operation. -/
def DlRing.after (r : DlRing) : DlRingOp → DlRing
  | .push rec _ => ringPush r rec
  | .pop => (ringPop r).1

/-! ## Taking a ring over -/

def dlRecoverRecordSane (rec : DlRecord) : Bool :=
  if rec.tsMs < 0 ∨ 4000000000000 < rec.tsMs ∨ rec.flags &&& ~~~dlRecAbs ≠ 0 then
    false
  else
    match rec.payload with
    | .param _ param => decide (0 ≤ param.toInt ∧ param.toInt < dlMaxParams)
    | .frame id _ dlc flags =>
      decide (dlc ≤ 8 ∧ id ≤ 0x1FFFFFFF ∧ flags &&& ~~~(dlFrameExt ||| dlFrameRtr) = 0)
    | .other _ => false

/-- `dl_recover_ring_sane`: the count to trust, if the ring is taken over. -/
def dlRecoverRingSane (cap capLimit head tail fill : ℕ) : Option ℕ :=
  if cap = 0 ∨ capLimit < cap ∨ cap ≤ head ∨ cap ≤ tail then
    none
  else if cap < fill ∨
      (fill ≠ (head + cap - tail) % cap ∧ ¬(fill = cap ∧ (head + cap - tail) % cap = 0)) then
    some ((head + cap - tail) % cap)
  else
    some fill

/-- The loop of `ring_trim`, from the `i`-th record on. -/
def ringTrimFrom (r : DlRing) : ℕ → ℕ → DlRing
  | 0, _ => r
  | left + 1, i =>
    if dlRecoverRecordSane (r.buf ((r.tail + i) % r.cap)) then
      ringTrimFrom r left (i + 1)
    else
      { r with fill := i, head := (r.tail + i) % r.cap }

def ringTrim (r : DlRing) : DlRing := ringTrimFrom r r.fill 0

/-- A ring that is taken over: `dl_recover_ring_sane`, then `ring_trim`. -/
def ringAdopt (limit : ℕ) (r : DlRing) : Option DlRing :=
  (dlRecoverRingSane r.cap limit r.head r.tail r.fill).map fun fill =>
    ringTrim { r with fill := fill }

/-! ## Pushes and pops -/

theorem ringPush_room {limit : ℕ} {r : DlRing} (hr : r.Sound limit) (rec : DlRecord)
    (hroom : r.fill < r.cap) :
    (ringPush r rec).Sound limit ∧ (ringPush r rec).queue = r.queue ++ [rec] := by
  have hpush : ringPush r rec = { r with
        buf := update r.buf r.head rec
        head := (r.head + 1) % r.cap
        fill := r.fill + 1 } := by
    rw [ringPush, ringPushStores, if_neg (by omega)]
    simp only [DlRing.stores, List.nil_append, foldl_cons, foldl_nil, DlRing.store,
      update_idem]
  rw [hpush]
  constructor
  · refine ⟨hr.cap_pos, hr.cap_le, hr.tail_lt, hroom, ?_⟩
    rw [hr.head_eq, Nat.mod_add_mod, Nat.add_assoc]
  · rw [hr.head_eq]
    exact window_push r.buf r.tail rec hroom

theorem ringPop_some {limit : ℕ} {r : DlRing} (hr : r.Sound limit) (hfill : 0 < r.fill) :
    (ringPop r).1.Sound limit ∧ r.queue = r.buf r.tail :: (ringPop r).1.queue ∧
      (ringPop r).2 = some (r.buf r.tail) := by
  have hpop : ringPop r =
      ({ r with tail := (r.tail + 1) % r.cap, fill := r.fill - 1 }, some (r.buf r.tail)) := by
    rw [ringPop, ringPopStores, if_pos hfill, if_pos hfill]
    rfl
  rw [hpop]
  refine ⟨⟨hr.cap_pos, hr.cap_le, Nat.mod_lt _ hr.cap_pos, ?_, ?_⟩, ?_, rfl⟩
  · exact (Nat.sub_le _ _).trans hr.fill_le
  · dsimp only
    rw [Nat.mod_add_mod, hr.head_eq]
    congr 1
    omega
  · rw [DlRing.queue, DlRing.queue]
    have hsucc : r.fill = r.fill - 1 + 1 := by omega
    rw [hsucc, window_cons, Nat.mod_eq_of_lt hr.tail_lt, ← hsucc]

theorem ringPop_none {r : DlRing} (hfill : r.fill = 0) : ringPop r = (r, none) := by
  rw [ringPop, ringPopStores, if_neg (by omega), if_neg (by omega)]
  rfl

/-- A full ring when a push has dropped its oldest record: a pop, and a count of
the drop. -/
def DlRing.dropOldest (r : DlRing) : DlRing := r.stores [.tailNext, .fillDown, .droppedUp]

theorem dropOldest_sound {limit : ℕ} {r : DlRing} (hr : r.Sound limit) (hfull : r.fill = r.cap) :
    r.dropOldest.Sound limit ∧ r.dropOldest.fill < r.dropOldest.cap ∧
      r.dropOldest.queue = r.queue.tail := by
  have hfill : 0 < r.fill := hfull ▸ hr.cap_pos
  obtain ⟨hsound, hqueue, -⟩ := ringPop_some hr hfill
  rw [ringPop, ringPopStores, if_pos hfill] at hsound hqueue
  refine ⟨⟨hsound.cap_pos, hsound.cap_le, hsound.tail_lt, hsound.fill_le, hsound.head_eq⟩, ?_, ?_⟩
  · change r.fill - 1 < r.cap
    omega
  · rw [hqueue]
    rfl

theorem ringPush_full {limit : ℕ} {r : DlRing} (hr : r.Sound limit) (rec : DlRecord)
    (hfull : r.fill = r.cap) :
    (ringPush r rec).Sound limit ∧ (ringPush r rec).queue = r.queue.tail ++ [rec] := by
  obtain ⟨hsound, hroom, hqueue⟩ := dropOldest_sound hr hfull
  have hpush : ringPush r rec = ringPush r.dropOldest rec := by
    rw [ringPush, ringPush, ringPushStores, ringPushStores, if_pos hfull,
      if_neg (Nat.ne_of_lt hroom)]
    rfl
  rw [hpush, ← hqueue]
  exact ringPush_room hsound rec hroom

theorem ringPush_dropped_room {r : DlRing} (hroom : r.fill < r.cap) (rec : DlRecord) :
    (ringPush r rec).dropped = r.dropped := by
  rw [ringPush, ringPushStores, if_neg (Nat.ne_of_lt hroom)]
  rfl

theorem ringPush_dropped_full {r : DlRing} (hfull : r.fill = r.cap) (rec : DlRecord) :
    (ringPush r rec).dropped = r.dropped + 1 := by
  rw [ringPush, ringPushStores, if_pos hfull]
  rfl

theorem ringPop_dropped {r : DlRing} (hfill : 0 < r.fill) : (ringPop r).1.dropped = r.dropped := by
  rw [ringPop, ringPopStores, if_pos hfill]
  rfl

/-! ## What the recovery sees -/

/-- The queued records that an operation does not concern. -/
def DlRing.others (r : DlRing) : DlRingOp → List DlRecord
  | .push _ _ => if r.fill = r.cap then r.queue.tail else r.queue
  | .pop => r.queue.tail

/-- A queue as before or after an operation, up to the record it concerns. -/
def DlRing.Kept (r : DlRing) (op : DlRingOp) (queue : List DlRecord) : Prop :=
  queue = r.queue ∨ queue = (r.after op).queue ∨ queue = r.others op

/-- The reset comes in a push that leaves the ring full, when only its count is
still to be stored. -/
def DlRing.overlooked (r : DlRing) (op : DlRingOp) (k : ℕ) : Prop :=
  (r.storesOf op)[k]? = some .fillUp ∧ r.cap ≤ r.fill + 1 ∧ 1 < r.cap

theorem ring_span {cap tail n : ℕ} (htail : tail < cap) :
    ((tail + n) % cap + cap - tail) % cap = n % cap := by
  have hsplit : (tail + n) % cap + cap - tail = (tail + n) % cap + (cap - tail) := by omega
  rw [hsplit, Nat.mod_add_mod]
  have hround : tail + n + (cap - tail) = n + cap := by omega
  rw [hround, Nat.add_mod_right]

variable {cap limit tail n count : ℕ}

theorem ringSane_fits (hcap : cap ≤ limit) (htail : tail < cap) (hn : n ≤ cap) :
    dlRecoverRingSane cap limit ((tail + n) % cap) tail n = some n := by
  have hhead : (tail + n) % cap < cap := Nat.mod_lt _ (by omega)
  rw [dlRecoverRingSane, if_neg (by omega), ring_span htail, if_neg]
  rcases Nat.lt_or_eq_of_le hn with hlt | rfl
  · rw [Nat.mod_eq_of_lt hlt]
    omega
  · rw [Nat.mod_self]
    omega

theorem ringSane_span (hcap : cap ≤ limit) (htail : tail < cap) (hn : n < cap) (hcount : count ≠ n)
    (hfull : ¬(count = cap ∧ n = 0)) :
    dlRecoverRingSane cap limit ((tail + n) % cap) tail count = some n := by
  have hhead : (tail + n) % cap < cap := Nat.mod_lt _ (by omega)
  rw [dlRecoverRingSane, if_neg (by omega), ring_span htail, Nat.mod_eq_of_lt hn, if_pos]
  exact Or.inr ⟨hcount, hfull⟩

theorem ringSane_short (hcap : cap ≤ limit) (htail : tail < cap) (hcount : count < cap)
    (hpos : 0 < count) : dlRecoverRingSane cap limit ((tail + cap) % cap) tail count = some 0 := by
  have hhead : (tail + cap) % cap < cap := Nat.mod_lt _ (by omega)
  rw [dlRecoverRingSane, if_neg (by omega), ring_span htail, Nat.mod_self, if_pos]
  exact Or.inr ⟨by omega, by omega⟩

theorem queue_ringTrimFrom (r : DlRing) (left i : ℕ) (h : i + left = r.fill) :
    (ringTrimFrom r left i).queue =
      window r.buf r.cap r.tail i ++ (r.queue.drop i).takeWhile dlRecoverRecordSane := by
  induction left generalizing i with
  | zero =>
    rw [ringTrimFrom, drop_eq_nil_of_le, takeWhile_nil, List.append_nil, DlRing.queue,
      ← h, Nat.add_zero]
    rw [DlRing.queue, length_window]
    omega
  | succ left ih =>
    have hi : i < r.queue.length := by
      rw [DlRing.queue, length_window]
      omega
    have hget : r.queue[i] = r.buf ((r.tail + i) % r.cap) := by
      simp only [DlRing.queue, window, getElem_map, getElem_range]
    rw [ringTrimFrom, drop_eq_getElem_cons hi, hget, List.takeWhile_cons]
    cases hsane : dlRecoverRecordSane (r.buf ((r.tail + i) % r.cap)) with
    | true =>
      rw [if_pos rfl, if_pos rfl, ih (i + 1) (by omega), window_succ, append_assoc,
        List.singleton_append]
    | false =>
      rw [if_neg Bool.false_ne_true, if_neg Bool.false_ne_true, List.append_nil]
      rfl

theorem queue_ringTrim (r : DlRing) :
    (ringTrim r).queue = r.queue.takeWhile dlRecoverRecordSane := by
  rw [ringTrim, queue_ringTrimFrom r r.fill 0 (Nat.zero_add _), window_zero, List.nil_append,
    drop_zero]

/-- What a ring is taken over with, before the trim. -/
def DlRing.seen (limit : ℕ) (r : DlRing) : Option (List DlRecord) :=
  (dlRecoverRingSane r.cap limit r.head r.tail r.fill).map (window r.buf r.cap r.tail)

theorem ringAdopt_of_seen {limit : ℕ} {r : DlRing} {seen : List DlRecord}
    (h : r.seen limit = some seen) : ∃ r', ringAdopt limit r = some r' ∧
      r'.queue = seen.takeWhile dlRecoverRecordSane := by
  obtain ⟨fill, hfill, rfl⟩ := Option.map_eq_some_iff.mp h
  refine ⟨ringTrim { r with fill := fill }, ?_, queue_ringTrim _⟩
  rw [ringAdopt, hfill, Option.map_some]

theorem seen_sound {r : DlRing} (hr : r.Sound limit) : r.seen limit = some r.queue := by
  rw [DlRing.seen, hr.head_eq, ringSane_fits hr.cap_le hr.tail_lt hr.fill_le]
  rfl

/-! ## A reset in a push -/

theorem storesOf_push_room {r : DlRing} (hroom : r.fill < r.cap) (rec torn : DlRecord) :
    r.storesOf (.push rec torn) = [.slot torn, .slot rec, .headNext, .fillUp] := by
  rw [DlRing.storesOf, ringPushStores, if_neg (Nat.ne_of_lt hroom)]
  rfl

theorem seen_push_room {r : DlRing} (hr : r.Sound limit) (hroom : r.fill < r.cap)
    (rec torn : DlRecord) (k : ℕ) (h : ¬r.overlooked (.push rec torn) k) :
    ∃ pushed, (pushed = [] ∨ pushed = [rec]) ∧
      (r.interrupted (.push rec torn) k).seen limit = some (r.queue ++ pushed) := by
  have hcap := hr.cap_le
  have htail := hr.tail_lt
  -- a record that is written behind the queue is not seen
  have hbehind : ∀ buf : ℕ → DlRecord, window buf r.cap r.tail r.fill = r.queue →
        DlRing.seen limit { r with buf := buf } = some (r.queue ++ []) := by
    intro buf hbuf
    rw [DlRing.seen, hr.head_eq, ringSane_fits hcap htail hr.fill_le, Option.map_some, hbuf,
      List.append_nil]
  have hslot : ∀ x : DlRecord,
      window (update r.buf r.head x) r.cap r.tail r.fill = r.queue := by
    intro x
    rw [hr.head_eq]
    exact window_update r.buf r.tail x hroom
  have hpushed : window (update (update r.buf r.head torn) r.head rec)
      r.cap r.tail (r.fill + 1) = r.queue ++ [rec] := by
    rw [update_idem, hr.head_eq]
    exact window_push r.buf r.tail rec hroom
  have hnext : (r.head + 1) % r.cap = (r.tail + (r.fill + 1)) % r.cap := by
    rw [hr.head_eq, Nat.mod_add_mod, Nat.add_assoc]
  rw [DlRing.overlooked, storesOf_push_room hroom] at h
  rw [DlRing.interrupted, storesOf_push_room hroom]
  match k with
  | 0 => exact ⟨[], Or.inl rfl, hbehind r.buf rfl⟩
  | 1 => exact ⟨[], Or.inl rfl, hbehind _ (hslot torn)⟩
  | 2 =>
    refine ⟨[], Or.inl rfl, hbehind _ ?_⟩
    dsimp only [DlRing.store]
    rw [update_idem]
    exact hslot rec
  | 3 =>
    change ∃ pushed, (pushed = [] ∨ pushed = [rec]) ∧ Option.map
      (window (update (update r.buf r.head torn) r.head rec) r.cap r.tail)
        (dlRecoverRingSane r.cap limit ((r.head + 1) % r.cap) r.tail r.fill) =
          some (r.queue ++ pushed)
    rw [hnext]
    by_cases hone : r.cap = 1
    · -- the only slot: the ring is taken for an empty one, as it was
      have hzero : r.fill = 0 := by omega
      refine ⟨[], Or.inl rfl, ?_⟩
      have hempty : (r.tail + (r.fill + 1)) % r.cap = (r.tail + 0) % r.cap := by
        rw [hone, Nat.mod_one, Nat.mod_one]
      rw [hempty, hzero, ringSane_fits hcap htail (Nat.zero_le _), DlRing.queue, hzero]
      rfl
    · have hlt : r.fill + 1 < r.cap := by
        by_contra hge
        exact h ⟨rfl, by omega, by omega⟩
      refine ⟨[rec], Or.inr rfl, ?_⟩
      rw [ringSane_span hcap htail hlt (by omega) (by omega), Option.map_some, hpushed]
  | j + 4 =>
    refine ⟨[rec], Or.inr rfl, ?_⟩
    have htake : ([.slot torn, .slot rec, .headNext, .fillUp] : List DlRingStore).take (j + 4) =
        [.slot torn, .slot rec, .headNext, .fillUp] := take_of_length_le (by simp)
    rw [htake]
    change Option.map
      (window (update (update r.buf r.head torn) r.head rec) r.cap r.tail)
        (dlRecoverRingSane r.cap limit ((r.head + 1) % r.cap) r.tail (r.fill + 1)) =
          some (r.queue ++ [rec])
    rw [hnext, ringSane_fits hcap htail hroom, Option.map_some, hpushed]

theorem seen_push_short {r : DlRing} (hr : r.Sound limit) (hroom : r.fill < r.cap)
    (rec torn : DlRecord) (k : ℕ) (h : r.overlooked (.push rec torn) k) :
    (r.interrupted (.push rec torn) k).seen limit = some [] := by
  rw [DlRing.overlooked, storesOf_push_room hroom] at h
  obtain ⟨hlast, hfull, hone⟩ := h
  have hk : k = 3 := by
    match k with
    | 0 | 1 | 2 => cases hlast
    | 3 => rfl
    | j + 4 => cases hlast
  have hnext : (r.head + 1) % r.cap = (r.tail + r.cap) % r.cap := by
    rw [hr.head_eq, Nat.mod_add_mod]
    congr 1
    omega
  rw [hk, DlRing.interrupted, storesOf_push_room hroom]
  change Option.map
    (window (update (update r.buf r.head torn) r.head rec) r.cap r.tail)
      (dlRecoverRingSane r.cap limit ((r.head + 1) % r.cap) r.tail r.fill) = some []
  rw [hnext, ringSane_short hr.cap_le hr.tail_lt hroom (by omega)]
  rfl

/-! ## A reset in a pop -/

theorem seen_pop {r : DlRing} (hr : r.Sound limit) (hfill : 0 < r.fill) (k : ℕ) :
    (r.interrupted .pop (k + 1)).seen limit = some r.queue.tail ∨
      r.queue.length = 1 ∧ (r.interrupted .pop (k + 1)).seen limit = some r.queue := by
  obtain ⟨hsound, hqueue, -⟩ := ringPop_some hr hfill
  have hstores : r.storesOf .pop = [.tailNext, .fillDown] := by
    rw [DlRing.storesOf, ringPopStores, if_pos hfill]
  cases k with
  | zero =>
    rw [DlRing.interrupted, hstores]
    change Option.map (window r.buf r.cap ((r.tail + 1) % r.cap))
        (dlRecoverRingSane r.cap limit r.head ((r.tail + 1) % r.cap) r.fill) =
          some r.queue.tail ∨ _ ∧
      Option.map (window r.buf r.cap ((r.tail + 1) % r.cap))
        (dlRecoverRingSane r.cap limit r.head ((r.tail + 1) % r.cap) r.fill) = some r.queue
    by_cases hone : r.cap = 1
    · right
      have hfull : r.fill = 1 := by
        have hle := hr.fill_le
        omega
      have htail : (r.tail + 1) % r.cap = r.tail := by
        have hlt := hr.tail_lt
        rw [hone]
        omega
      constructor
      · rw [DlRing.queue, length_window, hfull]
      · rw [htail]
        exact seen_sound hr
    · left
      have hhead : r.head = ((r.tail + 1) % r.cap + (r.fill - 1)) % r.cap := by
        rw [Nat.mod_add_mod, hr.head_eq]
        congr 1
        omega
      have hle := hr.fill_le
      rw [hhead, ringSane_span hr.cap_le (Nat.mod_lt _ hr.cap_pos) (by omega) (by omega)
        (by omega), hqueue, ringPop, ringPopStores, if_pos hfill]
      rfl
  | succ k =>
    left
    have hdone : r.interrupted .pop (k + 1 + 1) = (ringPop r).1 := by
      rw [DlRing.interrupted, hstores, ringPop, ringPopStores, if_pos hfill,
        take_of_length_le (by simp)]
    rw [hdone, seen_sound hsound, hqueue, tail_cons]

/-! ## A reset in any operation -/

theorem interrupted_push_full {r : DlRing} (hr : r.Sound limit) (hfull : r.fill = r.cap)
    (rec torn : DlRecord) :
    (∀ k, k < 3 → (r.interrupted (.push rec torn) k).seen limit =
      (r.interrupted .pop k).seen limit) ∧
    ∀ k, r.interrupted (.push rec torn) (k + 3) = r.dropOldest.interrupted (.push rec torn) k ∧
      (r.storesOf (.push rec torn))[k + 3]? = (r.dropOldest.storesOf (.push rec torn))[k]? := by
  have hfill : 0 < r.fill := hfull ▸ hr.cap_pos
  have hpopStores : r.storesOf .pop = [.tailNext, .fillDown] := by
    rw [DlRing.storesOf, ringPopStores, if_pos hfill]
  have hstores : r.storesOf (.push rec torn) =
      [.tailNext, .fillDown, .droppedUp] ++ [.slot torn, .slot rec, .headNext, .fillUp] := by
    rw [DlRing.storesOf, ringPushStores, if_pos hfull]
  constructor
  · intro k hk
    rw [DlRing.interrupted, DlRing.interrupted, hstores, hpopStores]
    match k with
    | 0 | 1 | 2 => rfl
    | j + 3 => omega
  · intro k
    have hroom := (dropOldest_sound hr hfull).2.1
    rw [DlRing.interrupted, DlRing.interrupted, storesOf_push_room hroom, hstores]
    exact ⟨rfl, rfl⟩

theorem Kept.of_seen_pop {r s : DlRing} {op : DlRingOp} (hothers : r.others op = r.queue.tail)
    (hseen : s.seen limit = some r.queue.tail ∨ r.queue.length = 1 ∧ s.seen limit = some r.queue) :
    ∃ more, more.length ≤ 1 ∧ r.Kept op (r.others op ++ more) ∧
      s.seen limit = some (r.others op ++ more) := by
  rw [hothers]
  rcases hseen with hseen | ⟨hone, hseen⟩
  · refine ⟨[], Nat.zero_le _, Or.inr (Or.inr ?_), ?_⟩
    · rw [List.append_nil, hothers]
    · rw [List.append_nil, hseen]
  · have hnil : r.queue.tail = [] := by
      rw [← length_eq_zero_iff, length_tail, hone]
    rw [hnil, hseen]
    exact ⟨r.queue, Nat.le_of_eq hone, Or.inl rfl, rfl⟩

theorem seen_interrupted {r : DlRing} (hr : r.Sound limit) (op : DlRingOp) (k : ℕ)
    (h : ¬r.overlooked op (k + 1)) :
    ∃ more, more.length ≤ 1 ∧ r.Kept op (r.others op ++ more) ∧
      (r.interrupted op (k + 1)).seen limit = some (r.others op ++ more) := by
  cases op with
  | pop =>
    rcases Nat.eq_zero_or_pos r.fill with hzero | hfill
    · have hnone : r.interrupted .pop (k + 1) = r := by
        rw [DlRing.interrupted, DlRing.storesOf, ringPopStores, if_neg (by omega)]
        rfl
      have hnil : r.queue = [] := by rw [DlRing.queue, hzero, window_zero]
      refine ⟨[], Nat.zero_le _, Or.inr (Or.inr (List.append_nil _)), ?_⟩
      rw [hnone, seen_sound hr, DlRing.others, hnil]
      rfl
    · exact Kept.of_seen_pop rfl (seen_pop hr hfill k)
  | push rec torn =>
    by_cases hfull : r.fill = r.cap
    case neg =>
      have hroom : r.fill < r.cap := Nat.lt_of_le_of_ne hr.fill_le hfull
      have hothers : r.others (.push rec torn) = r.queue := if_neg hfull
      obtain ⟨pushed, hpushed, hseen⟩ := seen_push_room hr hroom rec torn (k + 1) h
      rw [hothers]
      rcases hpushed with rfl | rfl
      · exact ⟨[], Nat.zero_le _, Or.inl (List.append_nil _), hseen⟩
      · exact ⟨[rec], Nat.le_refl _, Or.inr (Or.inl (ringPush_room hr rec hroom).2.symm), hseen⟩
    case pos =>
      have hothers : r.others (.push rec torn) = r.queue.tail := if_pos hfull
      obtain ⟨hstart, hrest⟩ := interrupted_push_full hr hfull rec torn
      rcases Nat.lt_or_ge (k + 1) 3 with hk | hk
      · apply Kept.of_seen_pop hothers
        rw [hstart (k + 1) hk]
        exact seen_pop hr (hfull ▸ hr.cap_pos) k
      · obtain ⟨j, hj⟩ := Nat.exists_eq_add_of_le' hk
        obtain ⟨hinter, hstores⟩ := hrest j
        obtain ⟨hsound, hroom, htail⟩ := dropOldest_sound hr hfull
        rw [hj] at h ⊢
        have hover : ¬r.dropOldest.overlooked (.push rec torn) j := by
          intro hover
          apply h
          rw [DlRing.overlooked, hstores]
          exact ⟨hover.1, by omega, hover.2.2⟩
        obtain ⟨pushed, hpushed, hseen⟩ := seen_push_room hsound hroom rec torn j hover
        rw [htail] at hseen
        rw [hinter, hothers]
        rcases hpushed with rfl | rfl
        · refine ⟨[], Nat.zero_le _, Or.inr (Or.inr ?_), hseen⟩
          rw [List.append_nil, hothers]
        · exact ⟨[rec], Nat.le_refl _, Or.inr (Or.inl (ringPush_full hr rec hfull).2.symm), hseen⟩

theorem seen_overlooked {r : DlRing} (hr : r.Sound limit) (op : DlRingOp) (k : ℕ)
    (h : r.overlooked op k) : (r.interrupted op k).seen limit = some [] := by
  cases op with
  | pop =>
    exfalso
    obtain ⟨hlast, -⟩ := h
    rw [DlRing.storesOf, ringPopStores] at hlast
    split at hlast
    · match k with
      | 0 | 1 | j + 2 => cases hlast
    · cases hlast
  | push rec torn =>
    by_cases hfull : r.fill = r.cap
    case neg => exact seen_push_short hr (Nat.lt_of_le_of_ne hr.fill_le hfull) rec torn k h
    case pos =>
      obtain ⟨hlast, -, hone⟩ := h
      obtain ⟨-, hrest⟩ := interrupted_push_full hr hfull rec torn
      obtain ⟨hsound, hroom, -⟩ := dropOldest_sound hr hfull
      match k with
      | 0 | 1 | 2 =>
        rw [DlRing.storesOf, ringPushStores, if_pos hfull] at hlast
        cases hlast
      | j + 3 =>
        obtain ⟨hinter, hstores⟩ := hrest j
        rw [hinter]
        apply seen_push_short hsound hroom
        refine ⟨hstores ▸ hlast, ?_, hone⟩
        change r.cap ≤ r.fill - 1 + 1
        omega

/-! ## The queue that is taken over -/

theorem queue_eq_others (r : DlRing) (op : DlRingOp) :
    ∃ oldest, oldest.length ≤ 1 ∧ r.queue = oldest ++ r.others op := by
  have htail : ∃ oldest, oldest.length ≤ 1 ∧ r.queue = oldest ++ r.queue.tail := by
    cases r.queue with
    | nil => exact ⟨[], Nat.zero_le _, rfl⟩
    | cons oldest queue => exact ⟨[oldest], Nat.le_refl _, rfl⟩
  cases op with
  | pop => exact htail
  | push rec torn =>
    rw [DlRing.others]
    split
    · exact htail
    · exact ⟨[], Nat.zero_le _, rfl⟩

theorem others_prefix_after {r : DlRing} (hr : r.Sound limit) (op : DlRingOp) :
    r.others op <+: (r.after op).queue := by
  cases op with
  | pop =>
    rcases Nat.eq_zero_or_pos r.fill with hzero | hfill
    · have hnil : r.queue = [] := by rw [DlRing.queue, hzero, window_zero]
      rw [DlRing.others, hnil]
      exact nil_prefix
    · have htail : r.others .pop = (ringPop r).1.queue := by
        rw [DlRing.others, (ringPop_some hr hfill).2.1, tail_cons]
      exact htail ▸ prefix_rfl
  | push rec torn =>
    rw [DlRing.others, DlRing.after]
    split
    · rename_i hfull
      rw [(ringPush_full hr rec hfull).2]
      exact prefix_append _ _
    · rename_i hfull
      rw [(ringPush_room hr rec (Nat.lt_of_le_of_ne hr.fill_le hfull)).2]
      exact prefix_append _ _

theorem DlRing.Kept.cases {r : DlRing} (hr : r.Sound limit) {op : DlRingOp} {queue : List DlRecord}
    (h : r.Kept op queue) : queue = r.queue ∨ r.others op <+: queue := by
  rcases h with rfl | rfl | rfl
  · exact Or.inl rfl
  · exact Or.inr (others_prefix_after hr op)
  · exact Or.inr prefix_rfl

theorem not_kept_nil {r : DlRing} (hr : r.Sound limit) {op : DlRingOp} {k : ℕ}
    (h : r.overlooked op k) : ¬r.Kept op [] := by
  intro hkept
  have hlen : r.queue.length = r.fill := length_window _ _ _ _
  have hfill : 0 < r.fill := by
    obtain ⟨-, hfull, hone⟩ := h
    omega
  rcases hkept.cases hr with hnil | hothers
  · rw [← hnil] at hlen
    exact absurd hlen.symm (Nat.ne_of_gt hfill)
  · have hnil : r.others op = [] := List.prefix_nil.mp hothers
    cases op with
    | pop =>
      have hlast := h.1
      rw [DlRing.storesOf, ringPopStores, if_pos hfill] at hlast
      match k with
      | 0 | 1 | j + 2 => cases hlast
    | push rec torn =>
      rw [DlRing.others] at hnil
      split at hnil
      · rename_i hfull
        have htail : r.queue.length - 1 = 0 := by
          rw [← length_tail, hnil]
          rfl
        have hone := h.2.2
        omega
      · rw [hnil] at hlen
        exact absurd hlen.symm (Nat.ne_of_gt hfill)

/-- The records that have to pass for records for nothing to be lost: all of them
before the first store, then those the operation does not concern. -/
def DlRing.relied (r : DlRing) (op : DlRingOp) (k : ℕ) : List DlRecord :=
  if k = 0 then r.queue else r.others op

theorem adopt_before {r : DlRing} (hr : r.Sound limit) (op : DlRingOp) :
    r.Kept op (r.queue.takeWhile dlRecoverRecordSane) ↔
      r.others op = [] ∨ ∀ rec ∈ r.queue, dlRecoverRecordSane rec = true := by
  obtain ⟨oldest, holdest, hqueue⟩ := queue_eq_others r op
  constructor
  · intro hkept
    rw [or_iff_not_imp_left]
    intro hne
    rcases hkept.cases hr with hall | hothers
    · exact List.takeWhile_eq_self_iff.mp hall
    · have hsane : ∀ rec ∈ r.others op, dlRecoverRecordSane rec = true := by
        intro rec hrec
        exact List.mem_takeWhile_imp (hothers.subset hrec)
      match oldest with
      | [] => rwa [hqueue]
      | [rec] =>
        rw [hqueue, List.singleton_append, List.takeWhile_cons] at hothers
        rw [hqueue, List.singleton_append, List.forall_mem_cons]
        refine ⟨?_, hsane⟩
        by_contra hrec
        rw [if_neg hrec] at hothers
        exact hne (List.prefix_nil.mp hothers)
      | _ :: _ :: _ =>
        rw [List.length_cons, List.length_cons] at holdest
        omega
  · intro h
    rcases h with hnil | hsane
    · rw [hnil, List.append_nil] at hqueue
      have hfront : r.queue.takeWhile dlRecoverRecordSane <+: r.queue := List.takeWhile_prefix _
      match hshort : r.queue.takeWhile dlRecoverRecordSane with
      | [] => exact Or.inr (Or.inr hnil.symm)
      | rec :: rest =>
        left
        rw [← hshort]
        apply hfront.eq_of_length_le
        rw [hqueue, ← hqueue, hshort, List.length_cons, hqueue]
        omega
    · rw [List.takeWhile_eq_self_iff.mpr hsane]
      exact Or.inl rfl

theorem adopt_begun {r : DlRing} (hr : r.Sound limit) {op : DlRingOp} {more : List DlRecord}
    (hmore : more.length ≤ 1) (hkept : r.Kept op (r.others op ++ more)) :
    r.Kept op ((r.others op ++ more).takeWhile dlRecoverRecordSane) ↔
      ∀ rec ∈ r.others op, dlRecoverRecordSane rec = true := by
  constructor
  · intro h rec hrec
    rcases h.cases hr with hall | hothers
    · obtain ⟨oldest, -, hqueue⟩ := queue_eq_others r op
      have hmem : rec ∈ r.queue := hqueue ▸ List.mem_append_right _ hrec
      exact List.mem_takeWhile_imp (hall ▸ hmem)
    · exact List.mem_takeWhile_imp (hothers.subset hrec)
  · intro hsane
    rw [List.takeWhile_append_of_pos hsane]
    match more with
    | [] => exact Or.inr (Or.inr (List.append_nil _))
    | [rec] =>
      rw [List.takeWhile_cons]
      split
      · exact hkept
      · exact Or.inr (Or.inr (List.append_nil _))
    | _ :: _ :: _ =>
      rw [List.length_cons, List.length_cons] at hmore
      omega

/-- **A warm reset.** The queue that is taken over is as before or after the
operation the reset came in, up to the record it concerned, if and only if the
reset is not overlooked and the records it relies on look like records. -/
theorem reset_keeps_queue {r : DlRing} (hr : r.Sound limit) (op : DlRingOp) (k : ℕ) :
    (∃ r', ringAdopt limit (r.interrupted op k) = some r' ∧ r.Kept op r'.queue) ↔
      ¬r.overlooked op k ∧
        (r.others op = [] ∨ ∀ rec ∈ r.relied op k, dlRecoverRecordSane rec = true) := by
  -- the ring that is taken over is determined by what is seen
  have hadopt : ∀ seen, (r.interrupted op k).seen limit = some seen →
      ((∃ r', ringAdopt limit (r.interrupted op k) = some r' ∧ r.Kept op r'.queue) ↔
        r.Kept op (seen.takeWhile dlRecoverRecordSane)) := by
    intro seen hseen
    obtain ⟨r', hr', hqueue⟩ := ringAdopt_of_seen hseen
    rw [hr', ← hqueue]
    constructor
    · rintro ⟨r'', heq, hkept⟩
      rwa [Option.some.inj heq]
    · intro hkept
      exact ⟨r', rfl, hkept⟩
  by_cases hover : r.overlooked op k
  case pos =>
    rw [hadopt [] (seen_overlooked hr op k hover)]
    constructor
    · intro hkept
      exact absurd hkept (not_kept_nil hr hover)
    · intro h
      exact absurd hover h.1
  case neg =>
    rw [and_iff_right hover]
    cases k with
    | zero =>
      have hzero : r.interrupted op 0 = r := by
        rfl
      rw [hadopt r.queue (by rw [hzero, seen_sound hr])]
      exact adopt_before hr op
    | succ k =>
      obtain ⟨more, hmore, hkept, hseen⟩ := seen_interrupted hr op k hover
      rw [hadopt _ hseen, adopt_begun hr hmore hkept]
      constructor
      · exact Or.inr
      · rintro (hnil | hsane)
        · rw [hnil]
          exact fun rec hrec => absurd hrec not_mem_nil
        · exact hsane

/-- The ring of the parameters with `fill` records. -/
def paramRing (fill : ℕ) : DlRing where
  buf := fun i => { sampleRecord i with payload := .param 0 0 }
  cap := 2048
  head := fill % 2048
  tail := 0
  fill := fill
  dropped := 0

theorem paramRing_sound {fill : ℕ} (h : fill ≤ 2048) : (paramRing fill).Sound 2048 where
  cap_pos := Nat.succ_pos 2047
  cap_le := Nat.le_refl _
  tail_lt := Nat.succ_pos 2047
  fill_le := h
  head_eq := by
    change fill % 2048 = (0 + fill) % 2048
    rw [Nat.zero_add]

/-- A reset between the two stores of a pop. -/
theorem reset_keeps_queue_pop : ∃ r',
    ringAdopt 2048 ((paramRing 3).interrupted .pop 1) = some r' ∧
      (paramRing 3).Kept .pop r'.queue :=
  (reset_keeps_queue (paramRing_sound (by decide)) .pop 1).mpr
    ⟨by
      rintro ⟨hlast, -⟩
      exact absurd hlast (by decide), Or.inr (by decide)⟩

/-- A full ring of 2048 records, a push, and a reset when only its count is still
to be stored: the ring is taken over with no record at all. -/
theorem reset_loses_queue : (paramRing 2048).queue.length = 2048 ∧
    (∃ r', ringAdopt 2048 ((paramRing 2048).interrupted (.push (sampleRecord 0) (sampleRecord 0)) 6)
      = some r' ∧ r'.queue = []) ∧
    ¬∃ r', ringAdopt 2048
      ((paramRing 2048).interrupted (.push (sampleRecord 0) (sampleRecord 0)) 6) = some r' ∧
        (paramRing 2048).Kept (.push (sampleRecord 0) (sampleRecord 0)) r'.queue := by
  have hsound : (paramRing 2048).Sound 2048 := paramRing_sound (Nat.le_refl _)
  have hover : (paramRing 2048).overlooked (.push (sampleRecord 0) (sampleRecord 0)) 6 :=
    ⟨rfl, by decide, by decide⟩
  obtain ⟨r', hr', hqueue⟩ := ringAdopt_of_seen (seen_overlooked hsound _ _ hover)
  refine ⟨length_window _ _ _ _, ⟨r', hr', hqueue⟩, ?_⟩
  rintro ⟨r'', heq, hkept⟩
  obtain rfl := Option.some.inj (hr'.symm.trans heq)
  rw [hqueue] at hkept
  exact not_kept_nil hsound hover hkept

end Meatpi
