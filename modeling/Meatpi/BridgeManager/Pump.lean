import Mathlib.Data.UInt
import Meatpi.Library.QueueSet
import Meatpi.Library.Run

/-!
# The pump of a raw bridge (`bridge_manager_pump.c`)

Each end of a bridge has a queue of chunks, and the two share a set of
notifications. One task takes notifications, reads the queue they name, and gathers
further chunks of the same end into one send. If the set names the other end in the
middle of that, its chunk waits until the batch is out. Endpoints put chunks in their
queues between any two steps of the task.
-/

namespace Meatpi

open Function

/-- `BRIDGE_MANAGER_CHUNK_SIZE`, `BM_QUEUE_DEPTH`, `BM_COALESCE_MAX` -/
def bridgeManagerChunkSize : ℕ := 128
def bmQueueDepth : ℕ := 64
def bmCoalesceMax : ℕ := 1024

structure BridgeChunk where
  data : List UInt8
  len_le : data.length ≤ bridgeManagerChunkSize

/-- The ends of a bridge. -/
inductive BmEnd where
  | a
  | b
  deriving DecidableEq

instance : Fintype BmEnd := ⟨{.a, .b}, fun x => by cases x <;> decide⟩

/-- The end that the chunks of an end go to. -/
def BmEnd.other : BmEnd → BmEnd
  | .a => .b
  | .b => .a

/-! ## The task -/

/-- Where `pump_task` is, with what it has in its hands; `x` is the end that the chunks
are from. -/
inductive BmPump where
  /-- the loop head of `pump_task` -/
  | head
  /-- the set handed `x` out -/
  | claimed (x : BmEnd)
  /-- the loop head of `pump_raw_batch` -/
  | batching (x : BmEnd) (batch : List UInt8) (chunks : UInt32)
  /-- the set handed `m` out in `pump_raw_batch` -/
  | claimedMore (x : BmEnd) (batch : List UInt8) (chunks : UInt32) (m : BmEnd)
  | sending (x : BmEnd) (batch : List UInt8) (chunks : UInt32) (other : Option BridgeChunk)
  | counting (x : BmEnd) (len : ℕ) (chunks : UInt32) (other : Option BridgeChunk)
  /-- `pump_one` -/
  | sendingOne (x : BmEnd) (chunk : BridgeChunk)
  | countingOne (x : BmEnd) (chunk : BridgeChunk)
  | ended

/-- `bridge_stats_t`: what was pumped from each end -/
structure BridgeStats where
  chunks : BmEnd → UInt32
  bytes : BmEnd → UInt32
  sendErrors : UInt32

/-- What happened so far, by the end the chunks are from: what its queue took, what the
task took from there, and what was handed to the other end's `send`. -/
structure BmLog where
  arrived : BmEnd → List BridgeChunk
  taken : BmEnd → List BridgeChunk
  sent : BmEnd → List (List UInt8)

/-- `bm_bridge_t` with what happened to it. -/
structure BmBridge where
  set : QueueSet BmEnd BridgeChunk
  running : Bool
  stats : BridgeStats
  log : BmLog
  pump : BmPump

/-- As `build_bridge` starts it. -/
def BmBridge.fresh : BmBridge where
  set := .empty
  running := true
  stats := ⟨fun _ => 0, fun _ => 0, 0⟩
  log := ⟨fun _ => [], fun _ => [], fun _ => []⟩
  pump := .head

/-- `xQueueReceive` gave a chunk. -/
def BmBridge.takes (b : BmBridge) (x : BmEnd) (c : BridgeChunk)
    (set : QueueSet BmEnd BridgeChunk) (pump : BmPump) : BmBridge :=
  { b with
    set := set
    log := { b.log with taken := update b.log.taken x (b.log.taken x ++ [c]) }
    pump := pump }

/-- `dst->send`, and the error it may return. -/
def BmBridge.sends (b : BmBridge) (x : BmEnd) (bytes : List UInt8) (ok : Bool) (pump : BmPump) :
    BmBridge :=
  { b with
    stats := if ok then b.stats else { b.stats with sendErrors := b.stats.sendErrors + 1 }
    log := { b.log with sent := update b.log.sent x (b.log.sent x ++ [bytes]) }
    pump := pump }

/-- The counters of one direction. -/
def BmBridge.counts (b : BmBridge) (x : BmEnd) (chunks : UInt32) (len : ℕ) (pump : BmPump) :
    BmBridge :=
  { b with
    stats :=
      { b.stats with
        chunks := update b.stats.chunks x (b.stats.chunks x + chunks)
        bytes := update b.stats.bytes x (b.stats.bytes x + UInt32.ofNat len) }
    pump := pump }

/-- One step of the task; `ok` is what a `send` returns. -/
def bmPump (b : BmBridge) (ok : Bool) : BmBridge :=
  match b.pump with
  | .head =>
    if b.running then
      match b.set.select with
      | none => b
      | some (x, set) => { b with set := set, pump := .claimed x }
    else { b with pump := .ended }
  | .claimed x =>
    match b.set.receive x with
    | none => { b with pump := .head }
    | some (c, set) => b.takes x c set (.batching x c.data 1)
  | .batching x batch chunks =>
    if batch.length + bridgeManagerChunkSize ≤ bmCoalesceMax then
      match b.set.select with
      | none => { b with pump := .sending x batch chunks none }
      | some (m, set) => { b with set := set, pump := .claimedMore x batch chunks m }
    else { b with pump := .sending x batch chunks none }
  | .claimedMore x batch chunks m =>
    match b.set.receive m with
    | none => { b with pump := .sending x batch chunks none }
    | some (c, set) =>
      b.takes m c set
        (if m = x then .batching x (batch ++ c.data) (chunks + 1)
          else .sending x batch chunks (some c))
  | .sending x batch chunks other =>
    b.sends x batch ok (.counting x batch.length chunks other)
  | .counting x len chunks other =>
    b.counts x chunks len (other.elim .head (.sendingOne x.other))
  | .sendingOne x c => b.sends x c.data ok (.countingOne x c)
  | .countingOne x c => b.counts x 1 c.data.length .head
  | .ended => b

/-- What happens to a bridge. -/
inductive BmAct where
  /-- an endpoint sends a chunk to the queue of its end -/
  | arrive (x : BmEnd) (c : BridgeChunk)
  | pump (ok : Bool)
  /-- the teardown clears `running` -/
  | stop

/-- A chunk arrives; a full queue turns it away, and the set asserts that a notification
has room. -/
def bmArrive (b : BmBridge) (x : BmEnd) (c : BridgeChunk) : Option BmBridge :=
  (b.set.put bmQueueDepth (2 * bmQueueDepth) x c).map fun set =>
    { b with
      set := set
      log :=
        { b.log with
          arrived :=
            if (b.set.queue x).length < bmQueueDepth then
              update b.log.arrived x (b.log.arrived x ++ [c])
            else b.log.arrived } }

/-- A step; none is the assertion of the set. -/
def bmStep (b : BmBridge) : BmAct → Option BmBridge
  | .arrive x c => bmArrive b x c
  | .pump ok => some (bmPump b ok)
  | .stop => some { b with running := false }

/-! ## What the task has in its hands -/

/-- By the end it is from: the reads that are owed, the bytes taken and not handed on, the
chunks and bytes taken and not counted. -/
@[ext]
structure BmHand where
  claims : BmEnd → ℕ
  unsent : BmEnd → List UInt8
  chunks : BmEnd → UInt32
  bytes : BmEnd → ℕ

namespace BmHand

/-- A chunk of `x` in one hand, what is left in the other. -/
def both (x : BmEnd) (unsent : List UInt8) (chunks : UInt32) (bytes : ℕ)
    (other : Option BridgeChunk) : BmHand where
  claims := fun _ => 0
  unsent := fun y => if y = x then unsent else other.elim [] BridgeChunk.data
  chunks := fun y => if y = x then chunks else other.elim 0 fun _ => 1
  bytes := fun y => if y = x then bytes else other.elim 0 fun c => c.data.length

/-- A read of `x` is owed. -/
def claim (h : BmHand) (x : BmEnd) : BmHand :=
  { h with claims := update h.claims x (h.claims x + 1) }

/-- The read of `x` gave a chunk. -/
def take (h : BmHand) (x : BmEnd) (c : BridgeChunk) : BmHand where
  claims := update h.claims x (h.claims x - 1)
  unsent := update h.unsent x (h.unsent x ++ c.data)
  chunks := update h.chunks x (h.chunks x + 1)
  bytes := update h.bytes x (h.bytes x + c.data.length)

/-- All the bytes of `x` are handed on. -/
def send (h : BmHand) (x : BmEnd) : BmHand :=
  { h with unsent := update h.unsent x [] }

/-- All that was taken from `x` is counted. -/
def count (h : BmHand) (x : BmEnd) : BmHand :=
  { h with chunks := update h.chunks x 0, bytes := update h.bytes x 0 }

/-- Nothing. -/
def nothing : BmHand := ⟨fun _ => 0, fun _ => [], fun _ => 0, fun _ => 0⟩

end BmHand

def BmPump.hand : BmPump → BmHand
  | .head => .nothing
  | .claimed x => BmHand.nothing.claim x
  | .batching x batch n => .both x batch n batch.length none
  | .claimedMore x batch n m => (BmHand.both x batch n batch.length none).claim m
  | .sending x batch n other => .both x batch n batch.length other
  | .counting x len n other => .both x [] n len other
  | .sendingOne x c => .both x c.data 1 c.data.length none
  | .countingOne x c => .both x [] 1 c.data.length none
  | .ended => .nothing

/-- The batch lies within its buffer. -/
def BmPump.InBuffer : BmPump → Prop
  | .batching _ batch _ | .sending _ batch _ _ => batch.length ≤ bmCoalesceMax
  | .claimedMore _ batch _ _ => batch.length + bridgeManagerChunkSize ≤ bmCoalesceMax
  | _ => True

/-- The bytes of some chunks. -/
def bytesOf (chunks : List BridgeChunk) : List UInt8 := chunks.flatMap BridgeChunk.data

theorem bytesOf_concat (chunks : List BridgeChunk) (c : BridgeChunk) :
    bytesOf (chunks ++ [c]) = bytesOf chunks ++ c.data := by
  rw [bytesOf, List.flatMap_append, List.flatMap_singleton]
  rfl

/-- A bridge whose task has that in its hands. -/
structure BmHolds (b : BmBridge) (h : BmHand) : Prop where
  owes : b.set.Owes h.claims
  fits : b.set.Fits bmQueueDepth
  kept : ∀ x, b.log.arrived x = b.log.taken x ++ b.set.queue x
  handed : ∀ x, (b.log.sent x).flatten ++ h.unsent x = bytesOf (b.log.taken x)
  small : ∀ x, ∀ bytes ∈ b.log.sent x, bytes.length ≤ bmCoalesceMax
  chunks : ∀ x, b.stats.chunks x + h.chunks x = UInt32.ofNat (b.log.taken x).length
  bytes : ∀ x,
    b.stats.bytes x + UInt32.ofNat (h.bytes x) = UInt32.ofNat (bytesOf (b.log.taken x)).length

namespace BmHolds

variable {b : BmBridge} {h : BmHand} {x : BmEnd} {set : QueueSet BmEnd BridgeChunk}

theorem fresh : BmHolds .fresh .nothing where
  owes := QueueSet.owes_empty
  fits := fun _ => Nat.zero_le _
  kept := fun _ => rfl
  handed := fun _ => rfl
  small := fun _ _ hbytes => absurd hbytes List.not_mem_nil
  chunks := fun _ => rfl
  bytes := fun _ => rfl

theorem move (hb : BmHolds b h) (pump : BmPump) : BmHolds { b with pump := pump } h :=
  ⟨hb.owes, hb.fits, hb.kept, hb.handed, hb.small, hb.chunks, hb.bytes⟩

theorem select (hb : BmHolds b h) (hsel : b.set.select = some (x, set)) (pump : BmPump) :
    BmHolds { b with set := set, pump := pump } (h.claim x) := by
  obtain ⟨-, hqueue⟩ := QueueSet.select_eq_some hsel
  refine ⟨hb.owes.select hsel, ?_, ?_, hb.handed, hb.small, hb.chunks, hb.bytes⟩
  · intro y
    rw [hqueue]
    exact hb.fits y
  · intro y
    rw [hqueue]
    exact hb.kept y

theorem takes (hb : BmHolds b h) {c : BridgeChunk} (hrec : b.set.receive x = some (c, set))
    (hx : 0 < h.claims x) (pump : BmPump) : BmHolds (b.takes x c set pump) (h.take x c) := by
  obtain ⟨hqueue, hothers, -⟩ := QueueSet.receive_eq_some hrec
  refine ⟨hb.owes.receive hrec hx, hb.fits.receive hrec, ?_, ?_, hb.small, ?_, ?_⟩
  all_goals
    intro y
    simp only [BmBridge.takes, BmHand.take]
    by_cases hy : y = x
  · subst hy
    rw [update_self, hb.kept y, hqueue, List.append_assoc, List.singleton_append]
  · rw [update_of_ne hy, hb.kept y, hothers y hy]
  · subst hy
    rw [update_self, update_self, bytesOf_concat, ← hb.handed y, List.append_assoc]
  · rw [update_of_ne hy, update_of_ne hy, hb.handed y]
  · subst hy
    rw [update_self, update_self, ← UInt32.add_assoc, hb.chunks y,
      List.length_append, UInt32.ofNat_add]
    rfl
  · rw [update_of_ne hy, update_of_ne hy, hb.chunks y]
  · subst hy
    rw [update_self, update_self, UInt32.ofNat_add, ← UInt32.add_assoc,
      hb.bytes y, bytesOf_concat, List.length_append, UInt32.ofNat_add]
  · rw [update_of_ne hy, update_of_ne hy, hb.bytes y]

theorem sends (hb : BmHolds b h) {bytes : List UInt8} (hx : h.unsent x = bytes)
    (hsmall : bytes.length ≤ bmCoalesceMax) (ok : Bool) (pump : BmPump) :
    BmHolds (b.sends x bytes ok pump) (h.send x) := by
  have hstats : (b.sends x bytes ok pump).stats.chunks = b.stats.chunks ∧
      (b.sends x bytes ok pump).stats.bytes = b.stats.bytes := by
    cases ok with
    | true => exact ⟨rfl, rfl⟩
    | false => exact ⟨rfl, rfl⟩
  refine ⟨hb.owes, hb.fits, hb.kept, ?_, ?_, ?_, ?_⟩
  · intro y
    simp only [BmBridge.sends, BmHand.send]
    by_cases hy : y = x
    · subst hy
      rw [update_self, update_self, List.flatten_append, List.flatten_singleton,
        List.append_nil, ← hx, hb.handed y]
    · rw [update_of_ne hy, update_of_ne hy, hb.handed y]
  · intro y
    simp only [BmBridge.sends]
    by_cases hy : y = x
    · subst hy
      rw [update_self]
      intro m hm
      rcases List.mem_append.mp hm with hm | hm
      · exact hb.small y m hm
      · rw [List.mem_singleton.mp hm]
        exact hsmall
    · rw [update_of_ne hy]
      exact hb.small y
  · intro y
    rw [hstats.1]
    exact hb.chunks y
  · intro y
    rw [hstats.2]
    exact hb.bytes y

theorem counts (hb : BmHolds b h) {n : UInt32} {len : ℕ} (hn : h.chunks x = n)
    (hlen : h.bytes x = len) (pump : BmPump) : BmHolds (b.counts x n len pump) (h.count x) := by
  refine ⟨hb.owes, hb.fits, hb.kept, hb.handed, hb.small, ?_, ?_⟩
  all_goals
    intro y
    simp only [BmBridge.counts, BmHand.count]
    by_cases hy : y = x
  · subst hy
    rw [update_self, update_self, UInt32.add_zero, ← hn, hb.chunks y]
  · rw [update_of_ne hy, update_of_ne hy, hb.chunks y]
  · subst hy
    rw [update_self, update_self, ← hlen, hb.bytes y]
    exact UInt32.add_zero _
  · rw [update_of_ne hy, update_of_ne hy, hb.bytes y]

end BmHolds

/-! ## What a step does to it -/

namespace BmHand

variable (x : BmEnd) (batch : List UInt8) (n : UInt32) (len : ℕ) (c : BridgeChunk)

theorem claims_claim (h : BmHand) : 0 < (h.claim x).claims x := by
  simp only [claim, update_self]
  exact Nat.succ_pos _

theorem nothing_take : (nothing.claim x).take x c = both x c.data 1 c.data.length none := by
  ext1
  all_goals
    funext y
    cases x <;> cases y <;> simp [nothing, claim, take, both]

theorem both_take :
    ((both x batch n len none).claim x).take x c =
      both x (batch ++ c.data) (n + 1) (len + c.data.length) none := by
  ext1
  all_goals
    funext y
    cases x <;> cases y <;> simp [claim, take, both]

theorem both_take_other {m : BmEnd} (hm : m ≠ x) :
    ((both x batch n len none).claim m).take m c = both x batch n len (some c) := by
  ext1
  all_goals
    funext y
    cases x <;> cases m <;> first | exact absurd rfl hm | cases y <;> simp [claim, take, both]

theorem both_send (other : Option BridgeChunk) :
    (both x batch n len other).send x = both x [] n len other := by
  ext1
  all_goals
    funext y
    cases x <;> cases y <;> simp [send, both]

theorem both_count : (both x [] n len none).count x = nothing := by
  ext1
  all_goals
    funext y
    cases x <;> cases y <;> simp [count, both, nothing]

theorem both_count_other :
    (both x [] n len (some c)).count x = both x.other c.data 1 c.data.length none := by
  ext1
  all_goals
    funext y
    cases x <;> cases y <;> simp [count, both, BmEnd.other]

end BmHand

/-- The invariant of a bridge. -/
structure BmInv (b : BmBridge) : Prop where
  holds : BmHolds b b.pump.hand
  inBuffer : b.pump.InBuffer

theorem bmInv_fresh : BmInv .fresh := ⟨.fresh, trivial⟩

theorem BridgeChunk.small (c : BridgeChunk) : c.data.length ≤ bmCoalesceMax :=
  Nat.le_trans c.len_le (by decide)

variable {b : BmBridge}

theorem BmInv.pump (hb : BmInv b) (ok : Bool) : BmInv (bmPump b ok) := by
  obtain ⟨hholds, hin⟩ := hb
  unfold bmPump
  split
  · rename_i hpump
    rw [hpump] at hholds
    split
    · split
      · exact ⟨hpump ▸ hholds, hin⟩
      · rename_i x set hsel
        exact ⟨hholds.select hsel _, trivial⟩
    · exact ⟨hholds.move _, trivial⟩
  · rename_i x hpump
    rw [hpump] at hholds
    have howed : 0 < (BmPump.claimed x).hand.claims x := BmHand.claims_claim x _
    obtain ⟨c, set, hrec⟩ := hholds.owes.exists_receive howed
    rw [hrec]
    dsimp only
    refine ⟨?_, BridgeChunk.small c⟩
    rw [BmBridge.takes, BmPump.hand, ← BmHand.nothing_take]
    exact hholds.takes hrec howed _
  · rename_i x batch n hpump
    rw [hpump] at hholds hin
    split
    · rename_i hroom
      split
      · exact ⟨hholds.move _, hin⟩
      · rename_i m set hsel
        exact ⟨hholds.select hsel _, hroom⟩
    · exact ⟨hholds.move _, hin⟩
  · rename_i x batch n m hpump
    rw [hpump] at hholds hin
    have howed : 0 < (BmPump.claimedMore x batch n m).hand.claims m := BmHand.claims_claim m _
    have hroom : batch.length + bridgeManagerChunkSize ≤ bmCoalesceMax := hin
    obtain ⟨c, set, hrec⟩ := hholds.owes.exists_receive howed
    rw [hrec]
    dsimp only
    by_cases hm : m = x
    · subst hm
      rw [if_pos rfl]
      refine ⟨?_, ?_⟩
      · rw [BmBridge.takes, BmPump.hand, List.length_append, ← BmHand.both_take]
        exact hholds.takes hrec howed _
      · have hc := c.len_le
        show (batch ++ c.data).length ≤ _
        rw [List.length_append]
        omega
    · rw [if_neg hm]
      refine ⟨?_, Nat.le_trans (Nat.le_add_right _ _) hroom⟩
      rw [BmBridge.takes, BmPump.hand, ← BmHand.both_take_other x batch n batch.length c hm]
      exact hholds.takes hrec howed _
  · rename_i x batch n other hpump
    rw [hpump] at hholds hin
    refine ⟨?_, trivial⟩
    rw [BmBridge.sends, BmPump.hand, ← BmHand.both_send]
    exact hholds.sends (if_pos rfl) hin ok _
  · rename_i x len n other hpump
    rw [hpump] at hholds
    have hcounts (next : BmPump) : BmHolds (b.counts x n len next) _ :=
      hholds.counts (if_pos rfl) (if_pos rfl) next
    cases other with
    | none =>
      refine ⟨?_, trivial⟩
      rw [BmBridge.counts, Option.elim_none, BmPump.hand, ← BmHand.both_count]
      exact hcounts _
    | some c =>
      refine ⟨?_, trivial⟩
      rw [BmBridge.counts, Option.elim_some, BmPump.hand, ← BmHand.both_count_other]
      exact hcounts _
  · rename_i x c hpump
    rw [hpump] at hholds
    refine ⟨?_, trivial⟩
    rw [BmBridge.sends, BmPump.hand, ← BmHand.both_send]
    exact hholds.sends (if_pos rfl) c.small ok _
  · rename_i x c hpump
    rw [hpump] at hholds
    refine ⟨?_, trivial⟩
    rw [BmBridge.counts, BmPump.hand, ← BmHand.both_count]
    exact hholds.counts (if_pos rfl) (if_pos rfl) _
  · exact ⟨hholds, hin⟩

theorem BmInv.arrive {b' : BmBridge} {x : BmEnd} {c : BridgeChunk} (hb : BmInv b)
    (h : bmArrive b x c = some b') : BmInv b' := by
  obtain ⟨set, hput, rfl⟩ := Option.map_eq_some_iff.mp h
  obtain ⟨hholds, hin⟩ := hb
  refine ⟨⟨hholds.owes.put hput, hholds.fits.put hput, ?_, hholds.handed, hholds.small,
    hholds.chunks, hholds.bytes⟩, hin⟩
  intro y
  rcases QueueSet.put_eq_some hput with ⟨hfull, rfl⟩ | ⟨hroom, rfl⟩
  · rw [if_neg (Nat.not_lt.mpr hfull)]
    exact hholds.kept y
  · rw [if_pos hroom]
    by_cases hy : y = x
    · subst hy
      simp only [update_self]
      rw [hholds.kept y, List.append_assoc]
    · simp only [update_of_ne hy]
      exact hholds.kept y

theorem BmInv.step {b' : BmBridge} {act : BmAct} (hb : BmInv b) (h : bmStep b act = some b') :
    BmInv b' := by
  cases act with
  | arrive x c => exact hb.arrive h
  | pump ok =>
    obtain rfl := Option.some.inj h
    exact hb.pump ok
  | stop =>
    obtain rfl := Option.some.inj h
    exact ⟨⟨hb.holds.owes, hb.holds.fits, hb.holds.kept, hb.holds.handed, hb.holds.small,
      hb.holds.chunks, hb.holds.bytes⟩, hb.inBuffer⟩

/-! ## Without arrivals the queues are emptied -/

/-- How far the task is from its loop head. -/
def BmPump.rank : BmPump → ℕ
  | .head => 1
  | .claimed _ => 0
  | .batching _ _ _ => 7
  | .claimedMore _ _ _ _ => 6
  | .sending _ _ _ _ => 5
  | .counting _ _ _ _ => 4
  | .sendingOne _ _ => 3
  | .countingOne _ _ => 2
  | .ended => 0

/-- The chunks in the queues of a set. -/
def queued (set : QueueSet BmEnd BridgeChunk) : ℕ :=
  (set.queue .a).length + (set.queue .b).length

/-- What is left to do before the task rests. -/
def BmBridge.left (b : BmBridge) : ℕ := 8 * queued b.set + b.pump.rank

/-- The task waits for a notification. -/
def BmBridge.Rests (b : BmBridge) : Prop := b.pump = .head ∧ b.set.select = none

theorem queued_receive {set set' : QueueSet BmEnd BridgeChunk} {x : BmEnd} {c : BridgeChunk}
    (h : set.receive x = some (c, set')) : queued set = queued set' + 1 := by
  obtain ⟨hqueue, hothers, -⟩ := QueueSet.receive_eq_some h
  rw [queued, queued]
  cases x with
  | a =>
    rw [hqueue, hothers .b (by decide), List.length_cons]
    omega
  | b =>
    rw [hqueue, hothers .a (by decide), List.length_cons]
    omega

theorem queued_select {set set' : QueueSet BmEnd BridgeChunk} {x : BmEnd}
    (h : set.select = some (x, set')) : queued set' = queued set := by
  rw [queued, queued, (QueueSet.select_eq_some h).2]

theorem left_bmPump (hb : BmInv b) (hrun : b.running = true) (hgoes : b.pump ≠ .ended)
    (hrest : ¬ b.Rests) (ok : Bool) :
    (bmPump b ok).left < b.left ∧ (bmPump b ok).running = true ∧ (bmPump b ok).pump ≠ .ended := by
  have howes := hb.holds.owes
  unfold bmPump BmBridge.left
  split
  · rename_i hpump
    rw [if_pos hrun]
    split
    · rename_i hsel
      exact absurd ⟨hpump, hsel⟩ hrest
    · rename_i x set hsel
      rw [hpump, queued_select hsel]
      exact ⟨Nat.add_lt_add_left Nat.zero_lt_one _, hrun, BmPump.noConfusion⟩
  · rename_i x hpump
    rw [hpump] at howes
    obtain ⟨c, set, hrec⟩ := howes.exists_receive (BmHand.claims_claim x _)
    rw [hrec, queued_receive hrec]
    refine ⟨?_, hrun, BmPump.noConfusion⟩
    simp only [BmBridge.takes, BmPump.rank]
    omega
  · rename_i x batch n hpump
    rw [hpump]
    split
    · split
      · exact ⟨Nat.add_lt_add_left (show 5 < 7 by decide) _, hrun, BmPump.noConfusion⟩
      · rename_i m set hsel
        rw [queued_select hsel]
        exact ⟨Nat.add_lt_add_left (show 6 < 7 by decide) _, hrun, BmPump.noConfusion⟩
    · exact ⟨Nat.add_lt_add_left (show 5 < 7 by decide) _, hrun, BmPump.noConfusion⟩
  · rename_i x batch n m hpump
    rw [hpump] at howes
    obtain ⟨c, set, hrec⟩ := howes.exists_receive (BmHand.claims_claim m _)
    rw [hrec, queued_receive hrec]
    split_ifs
    · refine ⟨?_, hrun, BmPump.noConfusion⟩
      simp only [BmBridge.takes, BmPump.rank]
      omega
    · refine ⟨?_, hrun, BmPump.noConfusion⟩
      simp only [BmBridge.takes, BmPump.rank]
      omega
  · rename_i x batch n other hpump
    rw [hpump]
    exact ⟨Nat.add_lt_add_left (show 4 < 5 by decide) _, hrun, BmPump.noConfusion⟩
  · rename_i x len n other hpump
    rw [hpump]
    cases other with
    | none => exact ⟨Nat.add_lt_add_left (show 1 < 4 by decide) _, hrun, BmPump.noConfusion⟩
    | some c => exact ⟨Nat.add_lt_add_left (show 3 < 4 by decide) _, hrun, BmPump.noConfusion⟩
  · rename_i x c hpump
    rw [hpump]
    exact ⟨Nat.add_lt_add_left (show 2 < 3 by decide) _, hrun, BmPump.noConfusion⟩
  · rename_i x c hpump
    rw [hpump]
    exact ⟨Nat.add_lt_add_left (show 1 < 2 by decide) _, hrun, BmPump.noConfusion⟩
  · rename_i hpump
    exact absurd hpump hgoes

theorem arrived_bmPump (ok : Bool) : (bmPump b ok).log.arrived = b.log.arrived := by
  unfold bmPump
  split
  all_goals first
    | rfl
    | split <;> first | rfl | split <;> rfl

/-- **Nothing stays behind**: with no further arrivals, the task hands on all that came
and rests. -/
theorem bmPump_drains (ok : Bool) (hb : BmInv b) (hrun : b.running = true)
    (hgoes : b.pump ≠ .ended) :
    ∃ n, ((bmPump · ok)^[n] b).Rests ∧
      ∀ x, (((bmPump · ok)^[n] b).log.sent x).flatten = bytesOf (b.log.arrived x) := by
  induction hleft : b.left using Nat.strong_induction_on generalizing b with
  | _ k ih =>
    by_cases hrest : b.Rests
    · refine ⟨0, hrest, fun x => ?_⟩
      obtain ⟨hpump, hsel⟩ := hrest
      have hqueue := hb.holds.owes x
      have hhanded := hb.holds.handed x
      rw [QueueSet.select_eq_none.mp hsel, hpump] at hqueue
      rw [hpump] at hhanded
      have hnone : b.set.queue x = [] := List.eq_nil_of_length_eq_zero hqueue
      rw [hb.holds.kept x, hnone, List.append_nil, ← hhanded]
      exact (List.append_nil _).symm
    · obtain ⟨hlt, hrun', hgoes'⟩ := left_bmPump hb hrun hgoes hrest ok
      obtain ⟨n, hn, hsent⟩ := ih _ (hleft ▸ hlt) (hb.pump ok) hrun' hgoes' rfl
      refine ⟨n + 1, hn, fun x => ?_⟩
      rw [iterate_succ_apply, hsent x, arrived_bmPump]

/-! ## Every run -/

/-- A loop head, of `pump_task` or of `pump_raw_batch`. -/
def BmPump.AtHead : BmPump → Prop
  | .head => True
  | .batching _ _ _ => True
  | _ => False

/-- The steps of a bridge. -/
def bmRuns (b : BmBridge) (act : BmAct) (b' : BmBridge) : Prop := bmStep b act = some b'

theorem BmInv.isSome (hb : BmInv b) (act : BmAct) : (bmStep b act).isSome = true := by
  cases act with
  | arrive x c =>
    have hput := hb.holds.owes.put_isSome hb.holds.fits x c
    rw [bmStep, bmArrive, Option.isSome_map]
    exact hput
  | pump ok => rfl
  | stop => rfl

/-- What the pump owes the chunks of both ends. -/
structure BmPumped (b : BmBridge) : Prop where
  /-- no notification is without room -/
  room : ∀ act, (bmStep b act).isSome = true
  /-- what arrived was taken in that order, or waits -/
  taken : ∀ x, b.log.arrived x = b.log.taken x ++ b.set.queue x
  /-- what was taken was handed on in that order, or is in the task's hands -/
  handed : ∀ x, (b.log.sent x).flatten ++ b.pump.hand.unsent x = bytesOf (b.log.taken x)
  small : ∀ x, ∀ bytes ∈ b.log.sent x, bytes.length ≤ bmCoalesceMax
  /-- one notification for each chunk that waits -/
  notified : b.pump.AtHead → ∀ x, b.set.notes.count x = (b.set.queue x).length
  /-- between two rounds, all that was taken was handed on and counted -/
  counted : b.pump = .head → ∀ x, (b.log.sent x).flatten = bytesOf (b.log.taken x) ∧
    b.stats.chunks x = UInt32.ofNat (b.log.taken x).length ∧
    b.stats.bytes x = UInt32.ofNat (bytesOf (b.log.taken x)).length
  /-- all that arrived is handed on if the task goes on -/
  drains : b.running = true → b.pump ≠ .ended → ∀ ok, ∃ n, ((bmPump · ok)^[n] b).Rests ∧
    ∀ x, (((bmPump · ok)^[n] b).log.sent x).flatten = bytesOf (b.log.arrived x)

/-- **The raw pump loses, repeats and reorders nothing**, whatever arrives between its
steps. -/
theorem bmPump_run {acts : List BmAct} (h : Run bmRuns .fresh acts b) : BmPumped b := by
  have hb : BmInv b := h.inv (fun _ _ _ hstep hb => hb.step hstep) bmInv_fresh
  refine ⟨hb.isSome, hb.holds.kept, hb.holds.handed, hb.holds.small, ?_, ?_,
    fun hrun hgoes ok => bmPump_drains ok hb hrun hgoes⟩
  · intro hhead x
    have howes := hb.holds.owes x
    cases hpump : b.pump with
    | head =>
      rw [hpump] at howes
      exact howes.symm
    | batching y batch n =>
      rw [hpump] at howes
      exact howes.symm
    | _ =>
      rw [hpump] at hhead
      exact hhead.elim
  · intro hpump x
    have hhanded := hb.holds.handed x
    have hchunks := hb.holds.chunks x
    have hbytes := hb.holds.bytes x
    rw [hpump] at hhanded hchunks hbytes
    exact ⟨(List.append_nil _).symm.trans hhanded, (UInt32.add_zero _).symm.trans hchunks,
      (UInt32.add_zero _).symm.trans hbytes⟩

/-- A chunk from each end: the second one is taken in the middle of the batch. -/
theorem bmPump_run_both :
    ∃ b, Run bmRuns .fresh
        ([.arrive .a ⟨[1], by decide⟩, .arrive .b ⟨[2, 3], by decide⟩] ++
          List.replicate 8 (.pump true)) b ∧
      BmPumped b ∧ b.log.sent .a = [[1]] ∧ b.log.sent .b = [[2, 3]] := by
  have hrun : ∃ b, Run bmRuns .fresh
      ([.arrive .a ⟨[1], by decide⟩, .arrive .b ⟨[2, 3], by decide⟩] ++
        List.replicate 8 (.pump true)) b ∧ b.log.sent .a = [[1]] ∧ b.log.sent .b = [[2, 3]] :=
    ⟨_, .cons rfl (.cons rfl (.cons rfl (.cons rfl (.cons rfl (.cons rfl (.cons rfl
      (.cons rfl (.cons rfl (.cons rfl (.nil _)))))))))), rfl, rfl⟩
  obtain ⟨b, h, ha, hb⟩ := hrun
  exact ⟨b, h, bmPump_run h, ha, hb⟩

end Meatpi
