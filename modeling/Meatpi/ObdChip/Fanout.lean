import Mathlib.Data.List.Range
import Meatpi.ObdChip.Send

/-!
# The fan-out and the hidden answer (`obd_chip_fanout.c`)

Everything the chip prints goes to every subscriber in chunks; a full queue drops that
subscriber's copy. Behind an app's reset the driver writes an ATM0 of its own, at the
reset's prompt, and what the chip prints from there to its next prompt reaches nobody.
`Hidden` says which bytes these are, with no machine in it; `obdCoreFanout_visible` says
that the machine hides no others, however the stream is cut into reads.
-/

namespace Meatpi

open List Option

variable {data text : List Char} {now : ℤ}

def obdChipChunkSize : ℕ := 128
def injectArmMaxUs : ℤ := 3 * 1000 * 1000
def injectHideMaxUs : ℤ := 1 * 1000 * 1000

/-- `inject_t` -/
inductive ObdInject where
  | idle
  | armed -- a reset word went out: ATM0 behind its prompt
  | hiding -- ATM0 went out: its answer is nobody's business
  deriving DecidableEq

/-- `obd_sub_t`, with its queue, what was taken off it and what it missed. -/
structure ObdSub where
  depth : ℕ
  queue : List (List Char)
  received : List (List Char)
  lost : List (List Char)
  dropped : UInt32
  deriving DecidableEq

/-- The state of the fan-out and of the raw path. -/
structure ObdFanout where
  subs : List ObdSub
  inject : ObdInject
  injectUs : ℤ
  hidePrev : Char
  hideOk : Bool
  prev : Char
  rxBytes : UInt32
  rxChunks : UInt32
  rxMaxChunk : ℕ
  guardRewrites : UInt32
  guardBlocked : UInt32
  memoryOff : UInt32
  appResets : UInt32
  hiddenBytes : UInt32
  written : List (List Char) -- to the chip
  released : ℕ -- releases of the gate

namespace ObdFanout

def init (depths : List ℕ) : ObdFanout where
  subs := depths.map fun depth => ⟨depth, [], [], [], 0⟩
  inject := .idle
  injectUs := 0
  hidePrev := Char.ofNat 0
  hideOk := false
  prev := '\n'
  rxBytes := 0
  rxChunks := 0
  rxMaxChunk := 0
  guardRewrites := 0
  guardBlocked := 0
  memoryOff := 0
  appResets := 0
  hiddenBytes := 0
  written := []
  released := 0

/-- `xQueueSend`, without waiting. -/
def push (chunk : List Char) (sub : ObdSub) : ObdSub :=
  if sub.queue.length < sub.depth then { sub with queue := sub.queue ++ [chunk] }
  else
    { sub with
      lost := sub.lost ++ [chunk]
      dropped := sub.dropped + 1 }

def fanoutChunk (st : ObdFanout) (chunk : List Char) : ObdFanout :=
  { st with
    rxBytes := st.rxBytes + UInt32.ofNat chunk.length
    rxChunks := st.rxChunks + 1
    rxMaxChunk := max st.rxMaxChunk chunk.length
    subs := st.subs.map (push chunk) }

def release (st : ObdFanout) (gate : Bool) : ObdFanout :=
  if gate then { st with released := st.released + 1 } else st

/-- A byte of an answer that is hidden. -/
def hideByte (st : ObdFanout) (gate prompt : Bool) (b : Char) : ObdFanout :=
  let st := { st with
    hiddenBytes := st.hiddenBytes + 1
    hideOk := st.hideOk || (b == 'K' && st.hidePrev == 'O')
    hidePrev := b }
  if prompt then
    { st with
      inject := .idle
      memoryOff := if st.hideOk then st.memoryOff + 1 else st.memoryOff }.release gate
  else st

/-- ATM0, at the prompt of the app's reset. -/
def writeM0 (st : ObdFanout) (now : ℤ) : ObdFanout :=
  { st with
    inject := .hiding
    injectUs := now
    hidePrev := Char.ofNat 0
    hideOk := false
    written := st.written ++ ["ATM0\r".toList] }

/-- A round of the loop of `obd_core_fanout`, with the chunk that is filled. -/
def fanoutByte (gate : Bool) (now : ℤ) (acc : ObdFanout × List Char) (b : Char) :
    ObdFanout × List Char :=
  -- the '>' prompt at LINE START only
  let prompt := b == '>' && (acc.1.prev == '\r' || acc.1.prev == '\n')
  let st : ObdFanout := { acc.1 with prev := b }
  if st.inject = .hiding then (st.hideByte gate prompt b, acc.2)
  else
    let full := acc.2.length = obdChipChunkSize
    let st := if full then st.fanoutChunk acc.2 else st
    let chunk := if full then [b] else acc.2 ++ [b]
    if prompt = false then (st, chunk)
    else if st.inject = .armed then (st.writeM0 now, chunk)
    else (st.release gate, chunk)

/-- The failsafes of `obd_core_fanout`. -/
def failsafe (st : ObdFanout) (gate : Bool) (now : ℤ) : ObdFanout :=
  if st.inject = .armed ∧ injectArmMaxUs < now - st.injectUs then { st with inject := .idle }
  else if st.inject = .hiding ∧ injectHideMaxUs < now - st.injectUs then
    { st with inject := .idle }.release gate
  else st

def obdCoreFanout (st : ObdFanout) (gate : Bool) (now : ℤ) (data : List Char) : ObdFanout :=
  let acc := data.foldl (fanoutByte gate now) (st.failsafe gate now, [])
  if acc.2 = [] then acc.1 else acc.1.fanoutChunk acc.2

/-- `obd_core_guard_note` -/
def guardNote (st : ObdFanout) : ObdGuard → ObdFanout
  | .pass => st
  | .rewritten => { st with guardRewrites := st.guardRewrites + 1 }
  | .blocked => { st with guardBlocked := st.guardBlocked + 1 }

/-- `obd_chip_send` -/
def send (st : ObdFanout) (ready : Bool) (now : ℤ) (data : List Char) : ObdFanout :=
  if data = [] ∨ ready = false then st
  else
    let st := st.guardNote (guardVerdict data)
    match guardedText data with
    | none => st.fanoutChunk "?\r\r>".toList
    | some text =>
      let st := if obdParseResetWord text ≠ .none then
          { st with
            appResets := st.appResets + 1
            -- armed before the write
            injectUs := now
            inject := .armed }
        else st
      { st with written := st.written ++ [sentText text] }

/-- A subscriber takes a chunk off its queue. -/
def takeChunk (sub : ObdSub) : ObdSub :=
  { sub with
    queue := sub.queue.tail
    received := sub.received ++ sub.queue.take 1 }

end ObdFanout

/-! ## What is hidden -/

/-- A `>` at the start of a line. -/
def LinePrompt (s : List Char) (i : ℕ) : Prop :=
  s[i]? = some '>' ∧ (i = 0 ∨ s[i - 1]? = some '\r' ∨ s[i - 1]? = some '\n')

/-- `a` is the first prompt from `r` on. -/
structure FirstPrompt (s : List Char) (r a : ℕ) : Prop where
  le : r ≤ a
  prompt : LinePrompt s a
  first : ∀ i, r ≤ i → i < a → ¬ LinePrompt s i

/-- **The injected answer**: behind the first prompt after a reset, up to and
with the next. -/
def Hidden (s : List Char) (resets : List ℕ) (i : ℕ) : Prop :=
  ∃ r ∈ resets, ∃ a, FirstPrompt s r a ∧ a < i ∧ ∀ j, a < j → j < i → ¬ LinePrompt s j

/-- The answer to a reset and the hidden one behind it have both come. -/
def Done (s : List Char) (r : ℕ) : Prop :=
  ∃ a h, FirstPrompt s r a ∧ FirstPrompt s (a + 1) h

open Classical in
/-- The stream without the injected answers. -/
noncomputable def visible (s : List Char) (resets : List ℕ) : List Char :=
  (List.range s.length).filterMap fun i => if Hidden s resets i then none else s[i]?

open Classical in
/-- The resets whose prompt has come. -/
noncomputable def answered (s : List Char) (resets : List ℕ) : List ℕ :=
  resets.filter fun r => ∃ a, FirstPrompt s r a

/-! ### One more byte -/

section Append

variable {s : List Char} {b : Char} {resets : List ℕ} {r a i : ℕ}

theorem linePrompt_append (hi : i < s.length) : LinePrompt (s ++ [b]) i ↔ LinePrompt s i := by
  rw [LinePrompt, LinePrompt, List.getElem?_append_left hi,
    List.getElem?_append_left (Nat.lt_of_le_of_lt (Nat.sub_le i 1) hi)]

theorem LinePrompt.lt (h : LinePrompt s i) : i < s.length := (List.getElem?_eq_some_iff.1 h.1).1

theorem linePrompt_last : LinePrompt (s ++ [b]) s.length ↔
    (b == '>' && (s.getLastD '\n' == '\r' || s.getLastD '\n' == '\n')) = true := by
  rw [LinePrompt, List.getElem?_concat_length, Bool.and_eq_true, beq_iff_eq, some_inj,
    Bool.or_eq_true, beq_iff_eq, beq_iff_eq]
  refine and_congr_right fun _ => ?_
  rcases eq_nil_or_concat s with rfl | ⟨s, c, rfl⟩
  · exact iff_of_true (.inl rfl) (.inr rfl)
  · have hlast : (s.concat c ++ [b])[(s.concat c).length - 1]? = some c := by
      rw [concat_eq_append, length_append, length_singleton, Nat.add_sub_cancel,
        List.getElem?_append_left (by rw [length_append, length_singleton]; omega),
        List.getElem?_concat_length]
    have hpos : ¬ (s.concat c).length = 0 := by
      rw [length_concat]
      exact Nat.succ_ne_zero _
    rw [hlast, or_iff_right hpos, concat_eq_append, getLastD_concat, some_inj, some_inj]

theorem firstPrompt_append (ha : a < s.length) :
    FirstPrompt (s ++ [b]) r a ↔ FirstPrompt s r a := by
  constructor
  · exact fun h => ⟨h.le, (linePrompt_append ha).1 h.prompt, fun i hr hi hp =>
      h.first i hr hi ((linePrompt_append (hi.trans ha)).2 hp)⟩
  · exact fun h => ⟨h.le, (linePrompt_append ha).2 h.prompt, fun i hr hi hp =>
      h.first i hr hi ((linePrompt_append (hi.trans ha)).1 hp)⟩

theorem FirstPrompt.unique {a' : ℕ} (h : FirstPrompt s r a) (h' : FirstPrompt s r a') : a = a' := by
  rcases Nat.lt_trichotomy a a' with hlt | heq | hgt
  · exact absurd h.prompt (h'.first a h.le hlt)
  · exact heq
  · exact absurd h'.prompt (h.first a' h'.le hgt)

theorem Done.append (h : Done s r) (b : Char) : Done (s ++ [b]) r := by
  obtain ⟨a, e, ha, he⟩ := h
  exact ⟨a, e, (firstPrompt_append ha.prompt.lt).2 ha, (firstPrompt_append he.prompt.lt).2 he⟩

theorem hidden_append (hi : i < s.length) : Hidden (s ++ [b]) resets i ↔ Hidden s resets i := by
  constructor
  · rintro ⟨r, hr, a, ha, hai, hnone⟩
    exact ⟨r, hr, a, (firstPrompt_append (hai.trans hi)).1 ha, hai, fun j hj hji hp =>
      hnone j hj hji ((linePrompt_append (hji.trans hi)).2 hp)⟩
  · rintro ⟨r, hr, a, ha, hai, hnone⟩
    exact ⟨r, hr, a, (firstPrompt_append (hai.trans hi)).2 ha, hai, fun j hj hji hp =>
      hnone j hj hji ((linePrompt_append (hji.trans hi)).1 hp)⟩

theorem visible_append_hidden (h : Hidden (s ++ [b]) resets s.length) :
    visible (s ++ [b]) resets = visible s resets := by
  classical
  rw [visible, length_append, length_singleton, range_succ, filterMap_append,
    filterMap_cons, if_pos h, filterMap_nil, append_nil]
  refine filterMap_congr fun i hi => ?_
  rw [mem_range] at hi
  rw [hidden_append hi, List.getElem?_append_left hi]

theorem visible_append_shown (h : ¬ Hidden (s ++ [b]) resets s.length) :
    visible (s ++ [b]) resets = visible s resets ++ [b] := by
  classical
  rw [visible, length_append, length_singleton, range_succ, filterMap_append,
    filterMap_cons, if_neg h, List.getElem?_concat_length]
  refine congrArg (· ++ [b]) (filterMap_congr fun i hi => ?_)
  rw [mem_range] at hi
  rw [hidden_append hi, List.getElem?_append_left hi]

theorem visible_reset : visible s (resets ++ [s.length]) = visible s resets := by
  classical
  refine filterMap_congr fun i hi => ?_
  rw [mem_range] at hi
  have hiff : Hidden s (resets ++ [s.length]) i ↔ Hidden s resets i := by
    constructor
    · rintro ⟨r, hr, a, ha, hai, hnone⟩
      rw [mem_append, mem_singleton] at hr
      rcases hr with hr | rfl
      · exact ⟨r, hr, a, ha, hai, hnone⟩
      · exact absurd (ha.le.trans_lt (hai.trans hi)) (Nat.lt_irrefl _)
    · rintro ⟨r, hr, a, ha, hai, hnone⟩
      exact ⟨r, mem_append_left _ hr, a, ha, hai, hnone⟩
  rw [hiff]

end Append

/-! ### Where the answers are -/

/-- What the resets wait for. -/
inductive FanPhase (s : List Char) (resets : List ℕ) : ObdInject → Prop
  | idle (hdone : ∀ r ∈ resets, Done s r) : FanPhase s resets .idle
  | armed {rs : List ℕ} {r : ℕ} (hresets : resets = rs ++ [r]) (hdone : ∀ r' ∈ rs, Done s r')
      (hr : r ≤ s.length) (hnone : ∀ i, r ≤ i → ¬ LinePrompt s i) : FanPhase s resets .armed
  | hides {rs : List ℕ} {r a : ℕ} (hresets : resets = rs ++ [r]) (hdone : ∀ r' ∈ rs, Done s r')
      (ha : FirstPrompt s r a) (hnone : ∀ j, a < j → ¬ LinePrompt s j) : FanPhase s resets .hiding

section Phase

variable {s : List Char} {b : Char} {resets : List ℕ} {inject : ObdInject}

theorem Done.shown {r a : ℕ} (h : Done s r) (ha : FirstPrompt (s ++ [b]) r a) (hlt : a < s.length)
    (hnone : ∀ j, a < j → j < s.length → ¬ LinePrompt (s ++ [b]) j) : False := by
  obtain ⟨a', e, ha', he⟩ := h
  have heq : a = a' := ((firstPrompt_append hlt).1 ha).unique ha'
  exact hnone e (heq ▸ he.le) he.prompt.lt ((linePrompt_append he.prompt.lt).2 he.prompt)

/-- **The next byte** is hidden while the machine hides. -/
theorem FanPhase.hidden_iff (h : FanPhase s resets inject) :
    Hidden (s ++ [b]) resets s.length ↔ inject = .hiding := by
  cases h with
  | idle hdone =>
    refine iff_of_false ?_ (by decide)
    rintro ⟨r, hr, a, ha, hlt, hnone⟩
    exact (hdone r hr).shown ha hlt hnone
  | @armed rs r hresets hdone hr hno =>
    refine iff_of_false ?_ (by decide)
    rintro ⟨r', hr', a, ha, hlt, hnone⟩
    rw [hresets, mem_append, mem_singleton] at hr'
    rcases hr' with hr' | rfl
    · exact (hdone r' hr').shown ha hlt hnone
    · exact hno a ha.le ((linePrompt_append hlt).1 ha.prompt)
  | @hides rs r a hresets hdone ha hno =>
    refine iff_of_true ⟨r, ?_, a, (firstPrompt_append ha.prompt.lt).2 ha, ha.prompt.lt,
      fun j hj hlt hp => hno j hj ((linePrompt_append hlt).1 hp)⟩ rfl
    rw [hresets]
    exact mem_append_right _ (mem_singleton_self r)

theorem FanPhase.quiet (h : FanPhase s resets inject) (hb : ¬ LinePrompt (s ++ [b]) s.length) :
    FanPhase (s ++ [b]) resets inject := by
  have hnew : ∀ i, ¬ LinePrompt s i → ¬ LinePrompt (s ++ [b]) i := by
    intro i hi hp
    rcases Nat.lt_or_ge i s.length with hlt | hge
    · exact hi ((linePrompt_append hlt).1 hp)
    · have hlen := hp.lt
      rw [length_append] at hlen
      exact hb ((Nat.le_antisymm (Nat.le_of_lt_succ hlen) hge) ▸ hp)
  cases h with
  | idle hdone => exact .idle fun r hr => (hdone r hr).append b
  | armed hresets hdone hr hno =>
    refine .armed hresets (fun r hr => (hdone r hr).append b) (hr.trans ?_) fun i hi =>
      hnew i (hno i hi)
    exact (sublist_append_left s [b]).length_le
  | hides hresets hdone ha hno =>
    exact .hides hresets (fun r hr => (hdone r hr).append b)
      ((firstPrompt_append ha.prompt.lt).2 ha) fun j hj => hnew j (hno j hj)

theorem not_linePrompt_of_lt {j : ℕ} (hj : s.length < j) : ¬ LinePrompt (s ++ [b]) j := by
  intro hp
  have hlen := hp.lt
  rw [length_append] at hlen
  exact absurd (Nat.lt_of_lt_of_le hlen hj) (Nat.lt_irrefl _)

theorem FanPhase.idle_prompt (h : FanPhase s resets .idle) : FanPhase (s ++ [b]) resets .idle := by
  cases h with
  | idle hdone => exact .idle fun r hr => (hdone r hr).append b

theorem FanPhase.armed_prompt (h : FanPhase s resets .armed) (hb : LinePrompt (s ++ [b]) s.length) :
    FanPhase (s ++ [b]) resets .hiding := by
  cases h with
  | armed hresets hdone hr hno =>
    refine .hides hresets (fun r hr => (hdone r hr).append b) ⟨hr, hb, fun i hi hlt hp => ?_⟩
      fun j hj => not_linePrompt_of_lt hj
    exact hno i hi ((linePrompt_append hlt).1 hp)

theorem FanPhase.hiding_prompt (h : FanPhase s resets .hiding)
    (hb : LinePrompt (s ++ [b]) s.length) : FanPhase (s ++ [b]) resets .idle := by
  cases h with
  | @hides rs r a hresets hdone ha hno =>
    refine .idle fun r' hr' => ?_
    rw [hresets, mem_append, mem_singleton] at hr'
    rcases hr' with hr' | rfl
    · exact (hdone r' hr').append b
    · refine ⟨a, s.length, (firstPrompt_append ha.prompt.lt).2 ha, ha.prompt.lt, hb,
        fun i hi hlt hp => ?_⟩
      exact hno i hi ((linePrompt_append hlt).1 hp)

theorem FanPhase.reset (h : FanPhase s resets .idle) :
    FanPhase s (resets ++ [s.length]) .armed := by
  cases h with
  | idle hdone =>
    exact .armed rfl hdone (Nat.le_refl _) fun i hi hp =>
      absurd (Nat.lt_of_lt_of_le hp.lt hi) (Nat.lt_irrefl _)

theorem answered_all (h : ∀ r ∈ resets, ∃ a, FirstPrompt s r a) : answered s resets = resets := by
  classical
  exact filter_eq_self.2 fun r hr => decide_eq_true (h r hr)

theorem FanPhase.answered_length (h : FanPhase s resets inject) :
    (answered s resets).length = if inject = .armed then resets.length - 1 else resets.length := by
  classical
  cases h with
  | idle hdone =>
    rw [if_neg (by decide), answered_all fun r hr => (hdone r hr).imp fun a h => h.choose_spec.1]
  | @armed rs r hresets hdone hr hno =>
    have hlast : ¬ ∃ a, FirstPrompt s r a := fun ⟨a, ha⟩ => hno a ha.le ha.prompt
    have hall : answered s rs = rs :=
      answered_all fun r hr => (hdone r hr).imp fun a h => h.choose_spec.1
    have hnil : [r].filter (fun r => decide (∃ a, FirstPrompt s r a)) = [] :=
      filter_cons_of_neg fun hno => hlast (of_decide_eq_true hno)
    rw [answered] at hall
    rw [if_pos rfl, hresets, answered, filter_append, hnil, hall, append_nil,
      length_append, length_singleton, Nat.add_sub_cancel]
  | @hides rs r a hresets hdone ha hno =>
    rw [if_neg (by decide), answered_all]
    intro r' hr'
    rw [hresets, mem_append, mem_singleton] at hr'
    rcases hr' with hr' | rfl
    · exact (hdone r' hr').imp fun a h => h.choose_spec.1
    · exact ⟨a, ha⟩

end Phase

/-! ## The machine hides these and no others -/

/-- What the state stands for, with the chunk that is being filled. -/
structure FanKept (st : ObdFanout) (chunk s : List Char) (resets : List ℕ) : Prop where
  phase : FanPhase s resets st.inject
  prev : st.prev = s.getLastD '\n'
  subs : ∀ sub ∈ st.subs, sub.lost = [] →
    (sub.received ++ sub.queue).flatten ++ chunk = visible s resets
  m0 : st.written.count "ATM0\r".toList =
    if st.inject = .armed then resets.length - 1 else resets.length

namespace ObdFanout

variable {st : ObdFanout} {chunk s : List Char} {resets : List ℕ}

theorem fanoutChunk_subs {v : List Char}
    (h : ∀ sub ∈ st.subs, sub.lost = [] → (sub.received ++ sub.queue).flatten ++ chunk = v) :
    ∀ sub ∈ (st.fanoutChunk chunk).subs, sub.lost = [] →
      (sub.received ++ sub.queue).flatten = v := by
  intro sub hsub hlost
  obtain ⟨old, hold, rfl⟩ := mem_map.1 hsub
  rw [push] at hlost ⊢
  split_ifs at hlost ⊢ with hroom
  · rw [← append_assoc, flatten_append, flatten_singleton]
    exact h old hold hlost
  · exact absurd hlost (append_ne_nil_of_right_ne_nil _ (cons_ne_nil _ _))

theorem release_fields (st : ObdFanout) (gate : Bool) :
    (st.release gate).inject = st.inject ∧ (st.release gate).prev = st.prev ∧
      (st.release gate).subs = st.subs ∧ (st.release gate).written = st.written := by
  cases gate
  all_goals exact ⟨rfl, rfl, rfl, rfl⟩

theorem hideByte_fields (st : ObdFanout) (gate prompt : Bool) (b : Char) :
    (st.hideByte gate prompt b).inject = (if prompt then .idle else st.inject) ∧
      (st.hideByte gate prompt b).prev = st.prev ∧ (st.hideByte gate prompt b).subs = st.subs ∧
      (st.hideByte gate prompt b).written = st.written := by
  cases prompt
  · exact ⟨rfl, rfl, rfl, rfl⟩
  · obtain ⟨hinject, hprev, hsubs, hwritten⟩ := release_fields _ gate
    exact ⟨hinject, hprev, hsubs, hwritten⟩

end ObdFanout

open ObdFanout

section Step

variable {st : ObdFanout} {chunk s : List Char} {resets : List ℕ}

theorem FanKept.congr {st' : ObdFanout} (h : FanKept st chunk s resets)
    (hinject : st'.inject = st.inject) (hprev : st'.prev = st.prev) (hsubs : st'.subs = st.subs)
    (hwritten : st'.written = st.written) : FanKept st' chunk s resets :=
  ⟨hinject ▸ h.phase, hprev.trans h.prev, hsubs ▸ h.subs, by rw [hwritten, hinject, h.m0]⟩

/-- **A byte of the hidden answer.** -/
theorem FanKept.hide (h : FanKept st chunk s resets) (hhiding : st.inject = .hiding) (gate : Bool)
    (b : Char) {prompt : Bool} (hprompt : prompt = true ↔ LinePrompt (s ++ [b]) s.length) :
    FanKept (({ st with prev := b } : ObdFanout).hideByte gate prompt b) chunk (s ++ [b])
      resets := by
  obtain ⟨hinject, hprev, hsubs, hwritten⟩ :=
    hideByte_fields ({ st with prev := b } : ObdFanout) gate prompt b
  have hphase := h.phase
  rw [hhiding] at hphase
  have hm0 := h.m0
  rw [hhiding, if_neg (by decide)] at hm0
  refine ⟨?_, ?_, ?_, ?_⟩
  · rw [hinject]
    split_ifs with hp
    · exact hphase.hiding_prompt (hprompt.1 hp)
    · exact h.phase.quiet fun hno => hp (hprompt.2 hno)
  · rw [hprev, getLastD_concat]
  · rw [hsubs, visible_append_hidden (h.phase.hidden_iff.2 hhiding)]
    exact h.subs
  · rw [hwritten, hinject]
    rw [hm0]
    split_ifs with hp hno hno
    · exact absurd hno (by decide)
    · rfl
    · exact absurd (hhiding.symm.trans hno) (by decide)
    · rfl

/-- **A byte that is shown** joins the chunk. -/
theorem FanKept.show (h : FanKept st chunk s resets) (hhiding : st.inject ≠ .hiding) (b : Char) :
    ∀ sub ∈ (if chunk.length = obdChipChunkSize then
        ({ st with prev := b } : ObdFanout).fanoutChunk chunk
      else { st with prev := b }).subs, sub.lost = [] → (sub.received ++ sub.queue).flatten ++
          (if chunk.length = obdChipChunkSize then [b] else chunk ++ [b]) =
            visible (s ++ [b]) resets := by
  rw [visible_append_shown (mt h.phase.hidden_iff.1 hhiding)]
  split_ifs with hfull
  · intro sub hsub hlost
    rw [fanoutChunk_subs h.subs sub hsub hlost]
  · intro sub hsub hlost
    rw [← append_assoc, h.subs sub hsub hlost]

/-- **A round of the loop.** -/
theorem FanKept.byte (h : FanKept st chunk s resets) (gate : Bool) (now : ℤ) (b : Char) :
    FanKept (fanoutByte gate now (st, chunk) b).1 (fanoutByte gate now (st, chunk) b).2 (s ++ [b])
      resets := by
  rw [fanoutByte]
  dsimp only
  have hprompt : (b == '>' && (st.prev == '\r' || st.prev == '\n')) = true ↔
      LinePrompt (s ++ [b]) s.length := by
    rw [h.prev]
    exact linePrompt_last.symm
  revert hprompt
  generalize (b == '>' && (st.prev == '\r' || st.prev == '\n')) = prompt
  intro hprompt
  by_cases hhiding : st.inject = .hiding
  · rw [if_pos hhiding]
    exact h.hide hhiding gate b hprompt
  rw [if_neg hhiding]
  have hsubs := h.show hhiding b
  revert hsubs
  have hfields : ∀ st' : ObdFanout, st' = (if chunk.length = obdChipChunkSize then
      ({ st with prev := b } : ObdFanout).fanoutChunk chunk else { st with prev := b }) →
        st'.inject = st.inject ∧ st'.prev = b ∧ st'.written = st.written := by
    rintro st' rfl
    split_ifs
    all_goals exact ⟨rfl, rfl, rfl⟩
  revert hfields
  generalize (if chunk.length = obdChipChunkSize then _ else _ : ObdFanout) = st'
  generalize (if chunk.length = obdChipChunkSize then _ else _ : List Char) = chunk'
  intro hfields hsubs
  obtain ⟨hinject, hprev, hwritten⟩ := hfields st' rfl
  have hlast : st'.prev = (s ++ [b]).getLastD '\n' := by
    rw [hprev, getLastD_concat]
  have hm0 := h.m0
  rw [← hinject, ← hwritten] at hm0
  have hphase := h.phase
  rw [← hinject] at hphase
  by_cases hno : prompt = false
  · rw [if_pos hno]
    have hquiet : ¬ LinePrompt (s ++ [b]) s.length := fun hp =>
      absurd (hno.symm.trans (hprompt.2 hp)) Bool.false_ne_true
    exact ⟨hphase.quiet hquiet, hlast, hsubs, hm0⟩
  rw [if_neg hno]
  have hp : LinePrompt (s ++ [b]) s.length := hprompt.1 (Bool.not_eq_false _ ▸ hno)
  by_cases harmed : st'.inject = .armed
  · rw [if_pos harmed]
    rw [harmed] at hphase hm0
    have hpos : 0 < resets.length := by
      cases hphase with
      | armed hresets =>
        rw [hresets, length_append]
        exact Nat.succ_pos _
    refine ⟨hphase.armed_prompt hp, hlast, hsubs, ?_⟩
    change (st'.written ++ ["ATM0\r".toList]).count _ = _
    rw [count_append, hm0, count_singleton_self]
    exact Nat.sub_add_cancel hpos
  · rw [if_neg harmed]
    have hidle : st'.inject = .idle := by
      cases hcase : st'.inject with
      | idle => rfl
      | armed => exact absurd hcase harmed
      | _ => exact absurd (hinject ▸ hcase) hhiding
    obtain ⟨hi, hpr, hs, hw⟩ := release_fields st' gate
    refine FanKept.congr ⟨?_, hlast, hsubs, hm0⟩ hi hpr hs hw
    rw [hidle] at hphase ⊢
    exact hphase.idle_prompt

/-- **A read** of the chip. -/
theorem FanKept.fold (gate : Bool) (now : ℤ) (data : List Char) :
    ∀ {st : ObdFanout} {chunk s : List Char}, FanKept st chunk s resets →
      FanKept (data.foldl (fanoutByte gate now) (st, chunk)).1
        (data.foldl (fanoutByte gate now) (st, chunk)).2 (s ++ data) resets := by
  induction data with
  | nil =>
    intro st chunk s h
    rw [append_nil]
    exact h
  | cons b data ih =>
    intro st chunk s h
    rw [append_cons]
    exact ih (h.byte gate now b)

end Step

/-! ## Runs -/

/-- What happens: the chip prints, a client sends a reset word, a subscriber
takes a chunk. -/
inductive FanOp where
  | prints (gate : Bool) (now : ℤ) (data : List Char)
  | reset (now : ℤ) (data : List Char)
  | takes (i : ℕ)

/-- The fan-out, what the chip has printed, and how much of it when each reset
went out. -/
structure FanWorld where
  st : ObdFanout
  stream : List Char
  resets : List ℕ

namespace FanWorld

def init (depths : List ℕ) : FanWorld := ⟨ObdFanout.init depths, [], []⟩

def apply (w : FanWorld) : FanOp → FanWorld
  | .prints gate now data =>
    { w with
      st := w.st.obdCoreFanout gate now data
      stream := w.stream ++ data }
  | .reset now data =>
    { w with
      st := w.st.send true now data
      resets := w.resets ++ [w.stream.length] }
  | .takes i => { w with st := { w.st with subs := w.st.subs.modify i takeChunk } }

/-- No read comes after a timeout; a reset word goes out while no earlier
answer is outstanding. -/
def Allowed (w : FanWorld) : FanOp → Prop
  | .prints _ now _ =>
    (w.st.inject = .armed → now - w.st.injectUs ≤ injectArmMaxUs) ∧
      (w.st.inject = .hiding → now - w.st.injectUs ≤ injectHideMaxUs)
  | .reset _ data =>
    (∃ text, guardedText data = some text ∧ obdParseResetWord text ≠ .none) ∧
      ∀ r ∈ w.resets, Done w.stream r
  | .takes _ => True

def Step (w : FanWorld) (op : FanOp) (w' : FanWorld) : Prop := w.Allowed op ∧ w' = w.apply op

/-- Between two calls. -/
def Kept (w : FanWorld) : Prop := FanKept w.st [] w.stream w.resets

theorem Kept.init (depths : List ℕ) : (FanWorld.init depths).Kept where
  phase := .idle nofun
  prev := rfl
  subs := by
    intro sub hsub _
    obtain ⟨depth, -, rfl⟩ := mem_map.1 hsub
    rfl
  m0 := rfl

theorem idle_of_done {s : List Char} {resets : List ℕ} {inject : ObdInject}
    (h : FanPhase s resets inject) (hdone : ∀ r ∈ resets, Done s r) : inject = .idle := by
  cases h with
  | idle => rfl
  | @armed rs r hresets _ _ hnone =>
    obtain ⟨a, e, ha, -⟩ := hdone r (hresets ▸ mem_append_right _ (mem_singleton_self r))
    exact absurd ha.prompt (hnone a ha.le)
  | @hides rs r a hresets _ ha hnone =>
    obtain ⟨a', e, ha', he⟩ := hdone r (hresets ▸ mem_append_right _ (mem_singleton_self r))
    exact absurd he.prompt (hnone e (ha.unique ha' ▸ he.le))

theorem guardNote_fields (st : ObdFanout) (v : ObdGuard) :
    (st.guardNote v).prev = st.prev ∧ (st.guardNote v).subs = st.subs ∧
      (st.guardNote v).written = st.written := by
  cases v
  all_goals exact ⟨rfl, rfl, rfl⟩

theorem sentText_ne_m0 (h : obdParseResetWord text ≠ .none) : sentText text ≠ "ATM0\r".toList := by
  rw [sentText]
  split_ifs with hatz
  · decide
  · rintro rfl
    exact h (by decide)

/-- **A reset** that finds nothing outstanding. -/
theorem Kept.reset {w : FanWorld} (h : w.Kept) (hguard : guardedText data = some text)
    (hreset : obdParseResetWord text ≠ .none) (hdone : ∀ r ∈ w.resets, Done w.stream r) :
    (w.apply (.reset now data)).Kept := by
  have hdata : data ≠ [] := by
    rintro rfl
    cases hguard
    exact hreset (by decide)
  have hidle := idle_of_done h.phase hdone
  obtain ⟨hprev, hsubs, hwritten⟩ := guardNote_fields w.st (guardVerdict data)
  have hsend : w.st.send true now data = { w.st.guardNote (guardVerdict data) with
        appResets := (w.st.guardNote (guardVerdict data)).appResets + 1
        injectUs := now
        inject := .armed
        written := (w.st.guardNote (guardVerdict data)).written ++ [sentText text] } := by
    rw [ObdFanout.send, if_neg (by simp [hdata])]
    rw [hguard]
    dsimp only
    rw [if_pos hreset]
  have hphase := h.phase
  rw [hidle] at hphase
  have hm0 := h.m0
  rw [hidle, if_neg (by decide)] at hm0
  change FanKept (w.st.send true now data) [] w.stream (w.resets ++ [w.stream.length])
  rw [hsend]
  refine ⟨hphase.reset, hprev.trans h.prev, ?_, ?_⟩
  · rw [visible_reset]
    exact hsubs ▸ h.subs
  · rw [hwritten, count_append, hm0, length_append, count_singleton, if_neg]
    · rfl
    · rw [beq_iff_eq]
      exact sentText_ne_m0 hreset

theorem Kept.prints {w : FanWorld} (h : w.Kept) {gate : Bool}
    (harmed : w.st.inject = .armed → now - w.st.injectUs ≤ injectArmMaxUs)
    (hhiding : w.st.inject = .hiding → now - w.st.injectUs ≤ injectHideMaxUs) :
    (w.apply (.prints gate now data)).Kept := by
  have hsafe : w.st.failsafe gate now = w.st := by
    rw [failsafe, if_neg fun hno => Int.not_lt.2 (harmed hno.1) hno.2,
      if_neg fun hno => Int.not_lt.2 (hhiding hno.1) hno.2]
  have hfold := FanKept.fold gate now data h
  change FanKept (w.st.obdCoreFanout gate now data) [] (w.stream ++ data) w.resets
  rw [obdCoreFanout, hsafe]
  revert hfold
  generalize data.foldl (fanoutByte gate now) (w.st, []) = acc
  intro hfold
  split_ifs with hchunk
  · exact hchunk ▸ hfold
  · refine ⟨hfold.phase, hfold.prev, ?_, hfold.m0⟩
    intro sub hsub hlost
    rw [append_nil]
    exact fanoutChunk_subs hfold.subs sub hsub hlost

theorem takeChunk_flatten (sub : ObdSub) :
    ((takeChunk sub).received ++ (takeChunk sub).queue).flatten =
      (sub.received ++ sub.queue).flatten := by
  rw [takeChunk]
  rw [append_assoc]
  cases sub.queue
  · rfl
  · rfl

theorem Kept.takes {w : FanWorld} (h : w.Kept) (i : ℕ) : (w.apply (.takes i)).Kept := by
  refine ⟨h.phase, h.prev, ?_, h.m0⟩
  intro sub hsub hlost
  obtain ⟨j, hj⟩ := mem_iff_getElem?.1 hsub
  have hmodify : (w.st.subs.modify i takeChunk)[j]? = some sub := hj
  rw [List.getElem?_modify] at hmodify
  obtain ⟨old, hold, heq⟩ := map_eq_some_iff.1 hmodify
  have hmem := mem_of_getElem? hold
  split_ifs at heq with hi
  · subst heq
    rw [takeChunk_flatten]
    exact h.subs old hmem hlost
  · subst heq
    exact h.subs old hmem hlost

/-- **A step** keeps what the state stands for. -/
theorem Step.kept {w w' : FanWorld} {op : FanOp} (hstep : w.Step op w') (h : w.Kept) : w'.Kept := by
  obtain ⟨hallowed, rfl⟩ := hstep
  cases op with
  | prints gate now data => exact h.prints hallowed.1 hallowed.2
  | reset now data =>
    obtain ⟨⟨text, hguard, hreset⟩, hdone⟩ := hallowed
    exact h.reset hguard hreset hdone
  | takes i => exact h.takes i

end FanWorld

/-- **The fan-out hides exactly the injected answers**: a subscriber that missed
no chunk gets the stream without them, however it is cut, and ATM0 is written
once for each reset whose prompt has come. -/
theorem obdCoreFanout_visible {depths : List ℕ} {ops : List FanOp} {w : FanWorld}
    (hrun : Run FanWorld.Step (.init depths) ops w) :
    (∀ sub ∈ w.st.subs, sub.lost = [] →
      (sub.received ++ sub.queue).flatten = visible w.stream w.resets) ∧
    w.st.written.count "ATM0\r".toList = (answered w.stream w.resets).length := by
  have hkept : w.Kept := hrun.inv (fun _ _ _ hstep h => hstep.kept h) (.init depths)
  refine ⟨fun sub hsub hlost => ?_, ?_⟩
  · have hall := hkept.subs sub hsub hlost
    rwa [append_nil] at hall
  · rw [hkept.m0, hkept.phase.answered_length]

/-- A reset, its banner, and the answer to the ATM0 behind it. -/
def resetOps : List FanOp :=
  [.reset 0 "ATZ\r".toList, .prints false 10 "ELM\r\r>AT".toList, .prints false 20 "M0\rOK\r>AT".toList]

theorem obdCoreFanout_visible_atz : let w := resetOps.foldl FanWorld.apply (.init [4])
    (∀ sub ∈ w.st.subs, (sub.received ++ sub.queue).flatten = visible w.stream w.resets) ∧
      (∀ sub ∈ w.st.subs, (sub.received ++ sub.queue).flatten = "ELM\r\r>AT".toList) ∧
      w.st.written = ["ATWS\r".toList, "ATM0\r".toList] := by
  have hreset : (FanWorld.init [4]).Allowed (.reset 0 "ATZ\r".toList) :=
    ⟨⟨"ATZ\r".toList, by decide, by decide⟩, nofun⟩
  have hrun : Run FanWorld.Step (.init [4]) resetOps (resetOps.foldl FanWorld.apply (.init [4])) :=
    .cons ⟨hreset, rfl⟩ (.cons ⟨⟨fun _ => by decide, fun _ => by decide⟩, rfl⟩
      (.cons ⟨⟨fun _ => by decide, fun _ => by decide⟩, rfl⟩ (.nil _)))
  have hlost : ∀ sub ∈ (resetOps.foldl FanWorld.apply (.init [4])).st.subs, sub.lost = [] := by
    decide
  exact ⟨fun sub hsub => (obdCoreFanout_visible hrun).1 sub hsub (hlost sub hsub), by decide,
    by decide⟩

/-- A subscriber that is slow misses what comes while its queue is full. -/
theorem obdCoreFanout_visible_full :
    ¬ ∀ (depths : List ℕ) (ops : List FanOp) (w : FanWorld), (∀ depth ∈ depths, 0 < depth) →
      Run FanWorld.Step (.init depths) ops w → ∀ sub ∈ w.st.subs,
        (sub.received ++ sub.queue).flatten = visible w.stream w.resets := by
  intro hall
  have hshown : ∀ s, visible (s ++ ['b']) [] = visible s [] ++ ['b'] := fun s =>
    visible_append_shown fun ⟨_, hr, _⟩ => absurd hr not_mem_nil
  have hone := hall [1] [.prints false 0 ['a'], .prints false 10 ['b']] _ (by decide)
    (.cons ⟨⟨fun _ => by decide, fun _ => by decide⟩, rfl⟩
      (.cons ⟨⟨fun _ => by decide, fun _ => by decide⟩, rfl⟩ (.nil _)))
    ⟨1, [['a']], [], [['b']], 1⟩ (by decide)
  change ['a'] = visible (['a'] ++ ['b']) [] at hone
  rw [hshown] at hone
  have hlast := congrArg getLast? hone
  rw [getLast?_concat] at hlast
  exact absurd hlast (by decide)

end Meatpi
