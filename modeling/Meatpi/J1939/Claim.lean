import Meatpi.J1939.Tp

/-!
# The address claim (`j1939_claim_core.c`)

A node claims an address and holds it when nobody contests it for a while; of
two nodes with one address the lower NAME keeps it. The functions are those of
the source; `out` is the frame to send, if there is one.
-/

namespace Meatpi

open List

variable {a sa : UInt8}

/-- `J1939_CLAIM_WAIT_US` -/
def claimWaitUs : ℤ := 250000
/-- `J1939_CLAIM_DEFEND_HOLD_US` -/
def claimDefendHoldUs : ℤ := 250000
/-- `J1939_CLAIM_ADDR_MIN`, `J1939_CLAIM_ADDR_MAX` -/
def claimAddrMin : ℕ := 128
def claimAddrMax : ℕ := 247
/-- `J1939_CLAIM_TOOL_2` -/
def claimTool2 : UInt8 := 250

/-- The eight bytes of a NAME. -/
abbrev J1939Name := Fin 8 → UInt8

/-- `j1939_name_compare`: the last byte that differs decides. -/
def j1939NameCompare (a b : J1939Name) : ℤ :=
  match (List.finRange 8).reverse.find? fun i => a i != b i with
  | some i => if a i < b i then -1 else 1
  | none => 0

/-- `j1939_claim_state_t` -/
inductive ClaimState where
  | idle
  | claiming
  | claimed
  | cannot
  deriving DecidableEq

/-- `j1939_claim_stats_t` -/
structure ClaimStats where
  claimsSent : UInt32
  contests : UInt32
  won : UInt32
  lost : UInt32
  held : UInt32
  requests : UInt32
  cannot : UInt32

structure J1939Claim where
  state : ClaimState
  name : J1939Name
  preferred : UInt8
  sa : UInt8
  nextDyn : ℕ
  triedTool2 : Bool
  sentUs : ℤ
  defendedUs : ℤ
  stats : ClaimStats

/-- `j1939_claim_out_t`, of a frame that is sent. -/
structure ClaimFrame where
  sa : UInt8
  data : J1939Name

def J1939Claim.claim (c : J1939Claim) (sa : UInt8) (now : ℤ) : J1939Claim × Option ClaimFrame :=
  ({ c with
      state := .claiming
      sa := sa
      sentUs := now
      defendedUs := 0 -- a new address: a new round of contests
      stats := { c.stats with claimsSent := c.stats.claimsSent + 1 } },
    some ⟨sa, c.name⟩)

def J1939Claim.cannot (c : J1939Claim) : J1939Claim × Option ClaimFrame :=
  ({ c with
      state := .cannot
      sa := j1939AddrNone
      stats := { c.stats with cannot := c.stats.cannot + 1 } },
    some ⟨j1939AddrNone, c.name⟩)

/-- The loop of `next_candidate`: the candidate and the next one to try; `left`
turns are left. -/
def dynCandidate (preferred : UInt8) : ℕ → ℕ → UInt8 × ℕ
  | 0, dyn => (j1939AddrNone, dyn)
  | left + 1, dyn =>
    if UInt8.ofNat dyn ≠ preferred then (UInt8.ofNat dyn, dyn + 1)
    else dynCandidate preferred left (dyn + 1)

def nextCandidate (c : J1939Claim) (lost : UInt8) : J1939Claim × UInt8 :=
  if !c.triedTool2 && c.preferred != claimTool2 && lost != claimTool2 then
    ({ c with triedTool2 := true }, claimTool2)
  else
    let (a, dyn) := dynCandidate c.preferred (claimAddrMax + 1 - c.nextDyn) c.nextDyn
    ({ c with triedTool2 := true, nextDyn := dyn }, a)

def j1939ClaimInit (name : J1939Name) (preferred : UInt8) : J1939Claim :=
  { state := .idle
    name := name
    preferred := preferred
    sa := j1939AddrNone
    nextDyn := claimAddrMin
    triedTool2 := false
    sentUs := 0
    defendedUs := 0
    stats := ⟨0, 0, 0, 0, 0, 0, 0⟩ }

def j1939ClaimStart (c : J1939Claim) (now : ℤ) : J1939Claim × Option ClaimFrame :=
  { c with nextDyn := claimAddrMin, triedTool2 := false }.claim c.preferred now

def j1939ClaimTick (c : J1939Claim) (now : ℤ) : J1939Claim :=
  if c.state = .claiming ∧ claimWaitUs ≤ now - c.sentUs then { c with state := .claimed } else c

/-- The address is the node's own, and not the null address. -/
def J1939Claim.contested (c : J1939Claim) (sa : UInt8) : Prop :=
  (c.state = .claiming ∨ c.state = .claimed) ∧ sa = c.sa ∧ sa ≠ j1939AddrNone

instance (c : J1939Claim) (sa : UInt8) : Decidable (c.contested sa) :=
  inferInstanceAs (Decidable (_ ∧ _))

def j1939ClaimRx (c : J1939Claim) (sa : UInt8) (name : J1939Name) (now : ℤ) :
    J1939Claim × Option ClaimFrame :=
  if ¬ c.contested sa then (c, none)
  else
    let c := { c with stats := { c.stats with contests := c.stats.contests + 1 } }
    if j1939NameCompare c.name name ≤ 0 then
      let c := { c with stats := { c.stats with won := c.stats.won + 1 } }
      if c.defendedUs ≠ (0 : ℤ) ∧ now - c.defendedUs < claimDefendHoldUs then
        ({ c with stats := { c.stats with held := c.stats.held + 1 } }, none)
      else
        ({ c with
            defendedUs := now
            stats := { c.stats with claimsSent := c.stats.claimsSent + 1 } },
          some ⟨c.sa, c.name⟩)
    else
      let c := { c with stats := { c.stats with lost := c.stats.lost + 1 } }
      let (c, next) := nextCandidate c c.sa
      if next = j1939AddrNone then c.cannot else c.claim next now

def j1939ClaimRequest (c : J1939Claim) : J1939Claim × Option ClaimFrame :=
  match c.state with
  | .claiming | .claimed =>
    ({ c with stats := { c.stats with
        requests := c.stats.requests + 1
        claimsSent := c.stats.claimsSent + 1 } }, some ⟨c.sa, c.name⟩)
  | .cannot =>
    ({ c with stats := { c.stats with
        requests := c.stats.requests + 1
        cannot := c.stats.cannot + 1 } }, some ⟨j1939AddrNone, c.name⟩)
  | .idle => (c, none)

/-! ## Events -/

/-- A call of the claim core. -/
inductive ClaimEvent where
  | start (now : ℤ)
  | rx (sa : UInt8) (name : J1939Name) (now : ℤ)
  | tick (now : ℤ)
  | request

/-- The state after a call, and the frame to send. -/
def claimEvent (c : J1939Claim) : ClaimEvent → J1939Claim × Option ClaimFrame
  | .start now => j1939ClaimStart c now
  | .rx sa name now => j1939ClaimRx c sa name now
  | .tick now => (j1939ClaimTick c now, none)
  | .request => j1939ClaimRequest c

/-! ## What a call does -/

/-- Losing a contest. -/
def J1939Claim.losesTo (c : J1939Claim) (sa : UInt8) (name : J1939Name) : Prop :=
  c.contested sa ∧ 0 < j1939NameCompare c.name name

instance (c : J1939Claim) (sa : UInt8) (name : J1939Name) : Decidable (c.losesTo sa name) :=
  inferInstanceAs (Decidable (_ ∧ _))

/-- The dynamic range from an address on, but for the preferred one. -/
def dynamicRange (preferred : UInt8) (dyn : ℕ) : List UInt8 :=
  ((List.range' dyn (claimAddrMax + 1 - dyn)).map UInt8.ofNat).filter fun a => a != preferred

/-- The addresses that are left to try, in the order of `next_candidate`. -/
def J1939Claim.remaining (c : J1939Claim) : List UInt8 :=
  (if !c.triedTool2 && c.preferred != claimTool2 then [claimTool2] else []) ++
    dynamicRange c.preferred c.nextDyn

theorem dynCandidate_eq (preferred : UInt8) (left : ℕ) :
    ∀ dyn, claimAddrMax + 1 - dyn = left → match dynamicRange preferred dyn with
      | [] => (dynCandidate preferred left dyn).1 = j1939AddrNone
      | a :: rest => (dynCandidate preferred left dyn).1 = a ∧
          dynamicRange preferred (dynCandidate preferred left dyn).2 = rest := by
  induction left with
  | zero =>
    intro dyn hleft
    rw [dynamicRange, hleft]
    rfl
  | succ left ih =>
    intro dyn hleft
    have hnext : claimAddrMax + 1 - (dyn + 1) = left := by omega
    rw [dynCandidate]
    by_cases hpref : UInt8.ofNat dyn = preferred
    · have hskip : dynamicRange preferred dyn = dynamicRange preferred (dyn + 1) := by
        rw [dynamicRange, dynamicRange, hleft, hnext, range'_succ, map_cons,
          filter_cons_of_neg (by simp [hpref])]
      rw [if_neg (not_not.mpr hpref), hskip]
      exact ih (dyn + 1) hnext
    · have htake : dynamicRange preferred dyn =
          UInt8.ofNat dyn :: dynamicRange preferred (dyn + 1) := by
        rw [dynamicRange, dynamicRange, hleft, hnext, range'_succ, map_cons,
          filter_cons_of_pos (by simp [hpref])]
      rw [if_pos hpref, htake]
      exact ⟨rfl, rfl⟩

theorem ne_none_of_mem_dynamicRange {preferred : UInt8} {dyn : ℕ}
    (h : a ∈ dynamicRange preferred dyn) : a ≠ j1939AddrNone := by
  rw [dynamicRange, mem_filter, mem_map] at h
  obtain ⟨⟨x, hx, rfl⟩, -⟩ := h
  rw [mem_range'_1] at hx
  simp only [claimAddrMax] at hx
  intro hnone
  have hlt : x < 256 := by omega
  have hval : (UInt8.ofNat x).toNat = x := UInt8.toNat_ofNat_of_lt hlt
  have hlit : j1939AddrNone.toNat = 254 := rfl
  rw [hnone] at hval
  omega

theorem ne_none_of_mem_remaining {c : J1939Claim} (h : a ∈ c.remaining) : a ≠ j1939AddrNone := by
  rcases mem_append.mp h with h | h
  · split_ifs at h
    · rw [mem_singleton.mp h]
      decide
    · cases h
  · exact ne_none_of_mem_dynamicRange h

theorem nextCandidate_eq {c : J1939Claim} {lost : UInt8}
    (hfirst : c.triedTool2 = false → lost = c.preferred) :
    match c.remaining with
    | [] => (nextCandidate c lost).2 = j1939AddrNone
    | a :: rest => (nextCandidate c lost).2 = a ∧ (nextCandidate c lost).1.remaining = rest := by
  rw [nextCandidate, J1939Claim.remaining]
  by_cases htool : (!c.triedTool2 && c.preferred != claimTool2) = true
  · have hlost : (lost != claimTool2) = true := by
      rw [Bool.and_eq_true, Bool.not_eq_true'] at htool
      rw [hfirst htool.1]
      exact htool.2
    rw [if_pos htool, if_pos (by rw [htool, hlost]; rfl)]
    exact ⟨rfl, rfl⟩
  · rw [if_neg htool, if_neg (fun h => htool (Bool.and_eq_true_iff.mp h).1)]
    have hdyn := dynCandidate_eq c.preferred _ c.nextDyn rfl
    rcases hrest : dynamicRange c.preferred c.nextDyn with _ | ⟨a, rest⟩
    · rw [hrest] at hdyn
      exact hdyn
    · rw [hrest] at hdyn
      exact hdyn

theorem nextCandidate_same (c : J1939Claim) (lost : UInt8) :
    (nextCandidate c lost).1.triedTool2 = true ∧ (nextCandidate c lost).1.preferred = c.preferred ∧
      (nextCandidate c lost).1.name = c.name := by
  rw [nextCandidate]
  split_ifs <;> exact ⟨rfl, rfl, rfl⟩

/-- A claim that is not lost leaves the node where it is. -/
structure J1939Claim.Same (c c' : J1939Claim) : Prop where
  state : c'.state = c.state
  name : c'.name = c.name
  preferred : c'.preferred = c.preferred
  sa : c'.sa = c.sa
  nextDyn : c'.nextDyn = c.nextDyn
  triedTool2 : c'.triedTool2 = c.triedTool2
  sentUs : c'.sentUs = c.sentUs

theorem J1939Claim.Same.remaining {c c' : J1939Claim} (h : c.Same c') :
    c'.remaining = c.remaining := by
  rw [J1939Claim.remaining, J1939Claim.remaining, h.preferred, h.nextDyn, h.triedTool2]

theorem claimRx_kept {c : J1939Claim} {name : J1939Name} (now : ℤ) (h : ¬ c.losesTo sa name) :
    c.Same (j1939ClaimRx c sa name now).1 := by
  rw [j1939ClaimRx]
  by_cases hcon : c.contested sa
  · rw [if_neg (not_not.mpr hcon)]
    have hwon : j1939NameCompare c.name name ≤ 0 := by
      by_contra hlose
      exact h ⟨hcon, not_le.mp hlose⟩
    dsimp only
    rw [if_pos hwon]
    split_ifs <;> exact ⟨rfl, rfl, rfl, rfl, rfl, rfl, rfl⟩
  · rw [if_pos hcon]
    exact ⟨rfl, rfl, rfl, rfl, rfl, rfl, rfl⟩

theorem claimRequest_same (c : J1939Claim) : c.Same (j1939ClaimRequest c).1 := by
  rw [j1939ClaimRequest]
  split <;> exact ⟨rfl, rfl, rfl, rfl, rfl, rfl, rfl⟩

theorem claimRx_lost {c : J1939Claim} {name : J1939Name} (now : ℤ) (h : c.losesTo sa name)
    (hfirst : c.triedTool2 = false → c.sa = c.preferred) :
    (j1939ClaimRx c sa name now).1.preferred = c.preferred ∧
      (j1939ClaimRx c sa name now).1.name = c.name ∧
      match c.remaining with
      | [] => (j1939ClaimRx c sa name now).1.state = .cannot ∧
          (j1939ClaimRx c sa name now).2 = some ⟨j1939AddrNone, c.name⟩
      | a :: rest => (j1939ClaimRx c sa name now).1.state = .claiming ∧
          (j1939ClaimRx c sa name now).1.sa = a ∧ (j1939ClaimRx c sa name now).1.sentUs = now ∧
          (j1939ClaimRx c sa name now).1.remaining = rest ∧
          (j1939ClaimRx c sa name now).1.triedTool2 = true ∧
          (j1939ClaimRx c sa name now).2 = some ⟨a, c.name⟩ := by
  obtain ⟨c₁, hc₁⟩ : ∃ c₁ : J1939Claim, c₁ = { c with stats := { c.stats with
      contests := c.stats.contests + 1
      lost := c.stats.lost + 1 } } := ⟨_, rfl⟩
  have hsame : c₁.remaining = c.remaining := by rw [hc₁]; rfl
  have hfirst₁ : c₁.triedTool2 = false → c.sa = c₁.preferred := by
    rw [hc₁]
    exact hfirst
  have hrx : j1939ClaimRx c sa name now =
      if (nextCandidate c₁ c.sa).2 = j1939AddrNone then (nextCandidate c₁ c.sa).1.cannot
      else (nextCandidate c₁ c.sa).1.claim (nextCandidate c₁ c.sa).2 now := by
    rw [j1939ClaimRx, if_neg (not_not.mpr h.1)]
    rw [if_neg (not_le.mpr h.2), hc₁]
  obtain ⟨htried, hpreferred, hname⟩ := nextCandidate_same c₁ c.sa
  have hpreferred : (nextCandidate c₁ c.sa).1.preferred = c.preferred := by rw [hpreferred, hc₁]
  have hname : (nextCandidate c₁ c.sa).1.name = c.name := by rw [hname, hc₁]
  have hnext := nextCandidate_eq hfirst₁
  rw [hsame] at hnext
  rcases hrest : c.remaining with _ | ⟨a, rest⟩
  · rw [hrest] at hnext
    have hnone : (nextCandidate c₁ c.sa).2 = j1939AddrNone := hnext
    rw [hrx, if_pos hnone]
    exact ⟨hpreferred, hname, rfl, by rw [J1939Claim.cannot, hname]⟩
  · rw [hrest] at hnext
    obtain ⟨ha, hleft⟩ := hnext
    have hsome : (nextCandidate c₁ c.sa).2 ≠ j1939AddrNone := by
      rw [ha]
      apply ne_none_of_mem_remaining (c := c)
      rw [hrest]
      exact mem_cons_self
    rw [hrx, if_neg hsome]
    exact ⟨hpreferred, hname, rfl, ha, rfl, hleft, htried, by rw [J1939Claim.claim, ha, hname]⟩

end Meatpi
