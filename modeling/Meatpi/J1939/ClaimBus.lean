import Meatpi.Library.Run
import Meatpi.J1939.Claim

/-!
# Nodes on one bus

Any number of nodes run the claim core. A frame goes to every other node, each
of which receives it once, within the claim wait and in any order. Two nodes at
one address are unsettled while a claim of one of them is on its way to the
other (`Unsettled`), and every move keeps it so, but one: a node that has
answered a contest does not answer the next one for a while. A contender that
did not hear the answer to the first one then takes the address too.
-/

namespace Meatpi

open Function List

variable {e : ClaimEvent} {now : ℤ} {name : J1939Name} {sa : UInt8}

/-- An Address Claimed message that was sent and not yet received. -/
structure ClaimPacket where
  sa : UInt8
  name : J1939Name
  sent : ℤ

/-- The nodes, what is on its way to each of them, and the time. -/
structure ClaimBus (ι : Type*) where
  node : ι → J1939Claim
  box : ι → List ClaimPacket
  clock : ℤ

/-- A start or a request at a node, time given to it, or a frame it receives,
between the others that are on their way to it; and when. -/
inductive ClaimMove (ι : Type*) where
  | start (i : ι) (now : ℤ)
  | tick (i : ι) (now : ℤ)
  | request (i : ι) (now : ℤ)
  | deliver (i : ι) (pre : List ClaimPacket) (p : ClaimPacket) (post : List ClaimPacket) (now : ℤ)

namespace ClaimBus

variable {ι : Type*} [DecidableEq ι]

/-- The bus before anything happened. -/
def init (name : ι → J1939Name) (preferred : ι → UInt8) (t₀ : ℤ) : ClaimBus ι :=
  { node := fun i => j1939ClaimInit (name i) (preferred i), box := fun _ => [], clock := t₀ }

/-- A call at node `i` at time `now`; its frame goes to all others. -/
def call (w : ClaimBus ι) (i : ι) (e : ClaimEvent) (now : ℤ) : ClaimBus ι :=
  { node := Function.update w.node i (claimEvent (w.node i) e).1
    box := fun j =>
      if j = i then w.box j
      else w.box j ++ (claimEvent (w.node i) e).2.toList.map fun f => ⟨f.sa, f.data, now⟩
    clock := now }

/-- Time does not go back, and no frame is on its way for the claim wait. -/
def Timely (w : ClaimBus ι) (now : ℤ) : Prop :=
  w.clock ≤ now ∧ ∀ i, ∀ p ∈ w.box i, now - p.sent < claimWaitUs

/-- A move of the bus. -/
inductive Step (w : ClaimBus ι) : ClaimMove ι → ClaimBus ι → Prop
  | start (i : ι) (now : ℤ) : w.Timely now → Step w (.start i now) (w.call i (.start now) now)
  | tick (i : ι) (now : ℤ) : w.Timely now → Step w (.tick i now) (w.call i (.tick now) now)
  | request (i : ι) (now : ℤ) : w.Timely now → Step w (.request i now) (w.call i .request now)
  | deliver (i : ι) (pre : List ClaimPacket) (p : ClaimPacket) (post : List ClaimPacket) (now : ℤ) :
      w.Timely now → w.box i = pre ++ p :: post →
      Step w (.deliver i pre p post now)
        ({ w with box := Function.update w.box i (pre ++ post) }.call i (.rx p.sa p.name now) now)

/-- A claim of the address by the node with that NAME is among the frames. -/
def Claims (box : List ClaimPacket) (sa : UInt8) (name : J1939Name) : Prop :=
  ∃ p ∈ box, p.sa = sa ∧ p.name = name

end ClaimBus

/-- The node holds an address or claims it. -/
def J1939Claim.active (c : J1939Claim) : Prop := c.state = .claiming ∨ c.state = .claimed

instance (c : J1939Claim) : Decidable c.active := inferInstanceAs (Decidable (_ ∨ _))

/-- A contest that is won and not answered. -/
def J1939Claim.holds (c : J1939Claim) (sa : UInt8) (name : J1939Name) (now : ℤ) : Prop :=
  c.contested sa ∧ j1939NameCompare c.name name ≤ 0 ∧
    c.defendedUs ≠ 0 ∧ now - c.defendedUs < claimDefendHoldUs

instance (c : J1939Claim) (sa : UInt8) (name : J1939Name) (now : ℤ) :
    Decidable (c.holds sa name now) :=
  inferInstanceAs (Decidable (_ ∧ _))

/-! ## What a call sends -/

section Calls

variable {c : J1939Claim}

/-- The node goes to an address with a claim of it, or stays where it is. -/
structure Announced (c c' : J1939Claim) (out : Option ClaimFrame) : Prop where
  name : c'.name = c.name
  preferred : c'.preferred = c.preferred
  moved : c'.active → out = some ⟨c'.sa, c'.name⟩ ∨ c.active ∧ c'.sa = c.sa

theorem announced_same {c' : J1939Claim} {out : Option ClaimFrame} (h : c.Same c') :
    Announced c c' out := by
  refine ⟨h.name, h.preferred, fun hactive => .inr ⟨?_, h.sa⟩⟩
  rw [J1939Claim.active, h.state] at hactive
  exact hactive

theorem claimRx_cases (now : ℤ) (h : c.losesTo sa name) :
    ∃ c₁ : J1939Claim, c₁.name = c.name ∧ c₁.preferred = c.preferred ∧
      (j1939ClaimRx c sa name now = c₁.cannot ∨
        ∃ next, next ≠ j1939AddrNone ∧ j1939ClaimRx c sa name now = c₁.claim next now) := by
  rw [j1939ClaimRx, if_neg (not_not.mpr h.1)]
  dsimp only
  rw [if_neg (not_le.mpr h.2)]
  obtain ⟨-, hpreferred, hname⟩ := nextCandidate_same { c with stats := { c.stats with
    contests := c.stats.contests + 1
    lost := c.stats.lost + 1 } } c.sa
  refine ⟨_, hname, hpreferred, ?_⟩
  split_ifs with hnext
  · exact .inl rfl
  · exact .inr ⟨_, hnext, rfl⟩

theorem claimEvent_announced (c : J1939Claim) (e : ClaimEvent) :
    Announced c (claimEvent c e).1 (claimEvent c e).2 := by
  cases e with
  | start now => exact ⟨rfl, rfl, fun _ => .inl rfl⟩
  | tick now =>
    rw [claimEvent, j1939ClaimTick]
    split_ifs with hheld
    · exact ⟨rfl, rfl, fun _ => .inr ⟨.inl hheld.1, rfl⟩⟩
    · exact ⟨rfl, rfl, fun hactive => .inr ⟨hactive, rfl⟩⟩
  | request => exact announced_same (claimRequest_same c)
  | rx sa name now =>
    by_cases hlose : c.losesTo sa name
    · obtain ⟨c₁, hname, hpreferred, hrx | ⟨next, -, hrx⟩⟩ := claimRx_cases now hlose
      · rw [claimEvent, hrx]
        refine ⟨hname, hpreferred, fun hactive => ?_⟩
        rcases hactive with h | h <;> cases h
      · rw [claimEvent, hrx]
        exact ⟨hname, hpreferred, fun _ => .inl rfl⟩
    · exact announced_same (claimRx_kept now hlose)

theorem claimEvent_sa_ne (hpref : c.preferred ≠ j1939AddrNone)
    (hsa : c.active → c.sa ≠ j1939AddrNone) (hactive : (claimEvent c e).1.active) :
    (claimEvent c e).1.sa ≠ j1939AddrNone := by
  cases e with
  | start now => exact hpref
  | tick now =>
    rw [claimEvent, j1939ClaimTick] at hactive ⊢
    split_ifs at hactive ⊢ with hheld
    · exact hsa (.inl hheld.1)
    · exact hsa hactive
  | request =>
    have hsame := claimRequest_same c
    rw [J1939Claim.active, claimEvent, hsame.state] at hactive
    rw [claimEvent, hsame.sa]
    exact hsa hactive
  | rx sa name now =>
    by_cases hlose : c.losesTo sa name
    · obtain ⟨c₁, -, -, hrx | ⟨next, hnext, hrx⟩⟩ := claimRx_cases now hlose
      · rw [claimEvent, hrx] at hactive
        rcases hactive with h | h <;> cases h
      · rw [claimEvent, hrx]
        exact hnext
    · have hsame := claimRx_kept now hlose
      rw [J1939Claim.active, claimEvent, hsame.state] at hactive
      rw [claimEvent, hsame.sa]
      exact hsa hactive

theorem claimEvent_answers (hcon : c.contested sa) (hheld : ¬ c.holds sa name now)
    (hactive : (claimEvent c (.rx sa name now)).1.active) :
    (claimEvent c (.rx sa name now)).2 = some
      ⟨(claimEvent c (.rx sa name now)).1.sa, (claimEvent c (.rx sa name now)).1.name⟩ := by
  by_cases hlose : c.losesTo sa name
  · obtain ⟨c₁, -, -, hrx | ⟨next, -, hrx⟩⟩ := claimRx_cases now hlose
    · rw [claimEvent, hrx] at hactive
      rcases hactive with h | h <;> cases h
    · rw [claimEvent, hrx]
      rfl
  · have hwon : j1939NameCompare c.name name ≤ 0 := by
      by_contra hlost
      exact hlose ⟨hcon, not_le.mp hlost⟩
    have hanswer : ¬ (c.defendedUs ≠ 0 ∧ now - c.defendedUs < claimDefendHoldUs) :=
      fun h => hheld ⟨hcon, hwon, h⟩
    rw [claimEvent, j1939ClaimRx, if_neg (not_not.mpr hcon)]
    rw [if_pos hwon, if_neg hanswer]

end Calls

/-! ## Contests that are not settled -/

namespace ClaimBus

variable {ι : Type*} [DecidableEq ι] {w w' : ClaimBus ι} {i : ι}

/-- Of two nodes at one address, one has a claim of the other on its way to it. -/
structure Unsettled (w : ClaimBus ι) : Prop where
  preferred : ∀ i, (w.node i).preferred ≠ j1939AddrNone
  sa_ne : ∀ i, (w.node i).active → (w.node i).sa ≠ j1939AddrNone
  pending : ∀ i j, i ≠ j → (w.node i).active → (w.node j).active →
    (w.node i).sa = (w.node j).sa →
    Claims (w.box j) (w.node i).sa (w.node i).name ∨ Claims (w.box i) (w.node j).sa (w.node j).name

/-- The move does not hold a contest that nothing else will settle: of a
contender that is still at the address, another claim is on its way to the
holder, or a claim of the holder to it. -/
def HoldsSafely (w : ClaimBus ι) : ClaimMove ι → Prop
  | .deliver i pre p post now => (w.node i).holds p.sa p.name now →
      ∀ j, j ≠ i → (w.node j).active → (w.node j).sa = p.sa → (w.node j).name = p.name →
        Claims (w.box j) p.sa (w.node i).name ∨ Claims (pre ++ post) p.sa p.name
  | _ => True

theorem Claims.append_left {box more : List ClaimPacket} (h : Claims box sa name) :
    Claims (box ++ more) sa name := by
  obtain ⟨p, hp, hsa, hname⟩ := h
  exact ⟨p, mem_append_left _ hp, hsa, hname⟩

theorem Unsettled.call (h : w.Unsettled) {box : ι → List ClaimPacket}
    (hbox : ∀ j, j ≠ i → box j = w.box j)
    (hkeep : ∀ j, j ≠ i → (w.node i).active → (w.node j).active →
      (w.node i).sa = (w.node j).sa → (claimEvent (w.node i) e).1.active →
      (claimEvent (w.node i) e).2 ≠
        some ⟨(claimEvent (w.node i) e).1.sa, (claimEvent (w.node i) e).1.name⟩ →
      Claims (w.box j) (w.node i).sa (w.node i).name ∨
        Claims (box i) (w.node j).sa (w.node j).name) :
    ({ w with box := box }.call i e now).Unsettled := by
  have hann := claimEvent_announced (w.node i) e
  have hself : ({ w with box := box }.call i e now).node i = (claimEvent (w.node i) e).1 :=
    update_self ..
  have hother : ∀ j, j ≠ i → ({ w with box := box }.call i e now).node j = w.node j :=
    fun j hj => update_of_ne hj _ _
  have hboxi : ({ w with box := box }.call i e now).box i = box i := if_pos rfl
  have hboxj : ∀ j, j ≠ i → ({ w with box := box }.call i e now).box j =
      w.box j ++ (claimEvent (w.node i) e).2.toList.map fun f => ⟨f.sa, f.data, now⟩ := by
    intro j hj
    rw [← hbox j hj]
    exact if_neg hj
  -- the contests of `i`
  have hcontest : ∀ j, j ≠ i → (claimEvent (w.node i) e).1.active → (w.node j).active →
      (claimEvent (w.node i) e).1.sa = (w.node j).sa →
      Claims (w.box j ++ (claimEvent (w.node i) e).2.toList.map fun f => ⟨f.sa, f.data, now⟩)
          (claimEvent (w.node i) e).1.sa (claimEvent (w.node i) e).1.name ∨
        Claims (box i) (w.node j).sa (w.node j).name := by
    intro j hj hi hja hsa
    by_cases hout : (claimEvent (w.node i) e).2 =
        some ⟨(claimEvent (w.node i) e).1.sa, (claimEvent (w.node i) e).1.name⟩
    · rw [hout]
      exact .inl ⟨_, mem_append_right _ (mem_singleton_self _), rfl, rfl⟩
    · obtain ⟨hactive, hsame⟩ := (hann.moved hi).resolve_left hout
      rw [hsame] at hsa ⊢
      rw [hann.name]
      exact (hkeep j hj hactive hja hsa hi hout).imp_left Claims.append_left
  refine ⟨?_, ?_, ?_⟩
  · intro j
    by_cases hj : j = i
    · rw [hj, hself, hann.preferred]
      exact h.preferred i
    · rw [hother j hj]
      exact h.preferred j
  · intro j
    by_cases hj : j = i
    · rw [hj, hself]
      exact claimEvent_sa_ne (h.preferred i) (h.sa_ne i)
    · rw [hother j hj]
      exact h.sa_ne j
  · intro x y hxy hx hy hsa
    by_cases hxi : x = i
    · subst hxi
      have hyx : y ≠ x := Ne.symm hxy
      rw [hself] at hx hsa ⊢
      rw [hother y hyx] at hy hsa ⊢
      rw [hboxj y hyx, hboxi]
      exact hcontest y hyx hx hy hsa
    · by_cases hyi : y = i
      · subst hyi
        rw [hself] at hy hsa ⊢
        rw [hother x hxi] at hx hsa ⊢
        rw [hboxj x hxi, hboxi]
        exact (hcontest x hxi hy hx hsa.symm).symm
      · rw [hother x hxi] at hx hsa ⊢
        rw [hother y hyi] at hy hsa ⊢
        rw [hboxj x hxi, hboxj y hyi]
        exact (h.pending x y hxy hx hy hsa).imp Claims.append_left Claims.append_left

/-- **A move that holds safely keeps contests unsettled** until they are decided. -/
theorem Unsettled.step (h : w.Unsettled) {m : ClaimMove ι} (hstep : w.Step m w')
    (hsafe : w.HoldsSafely m) : w'.Unsettled := by
  have hkeep : ∀ i j, j ≠ i → (w.node i).active → (w.node j).active →
      (w.node i).sa = (w.node j).sa → Claims (w.box j) (w.node i).sa (w.node i).name ∨
        Claims (w.box i) (w.node j).sa (w.node j).name :=
    fun i j hj hi hja hsa => h.pending i j (Ne.symm hj) hi hja hsa
  cases hstep with
  | start i now _ => exact h.call (fun _ _ => rfl) fun j hj hi hja hsa _ _ => hkeep _ j hj hi hja hsa
  | tick i now _ => exact h.call (fun _ _ => rfl) fun j hj hi hja hsa _ _ => hkeep _ j hj hi hja hsa
  | request i now _ => exact h.call (fun _ _ => rfl) fun j hj hi hja hsa _ _ => hkeep _ j hj hi hja hsa
  | deliver i pre p post now _ hbox =>
    apply h.call (fun j hj => update_of_ne hj _ _)
    intro j hj hi hja hsa hstays hquiet
    rw [update_self]
    rcases hkeep i j hj hi hja hsa with hclaim | ⟨q, hq, hqsa, hqname⟩
    · exact .inl hclaim
    · rw [hbox, mem_append, mem_cons] at hq
      by_cases hqp : q = p
      · -- the contest itself is received
        subst hqp
        have hcon : (w.node i).contested q.sa := by
          refine ⟨hi, hqsa.trans hsa.symm, ?_⟩
          rw [hqsa]
          exact h.sa_ne j hja
        have hheld : (w.node i).holds q.sa q.name now := by
          by_contra hfree
          exact hquiet (claimEvent_answers hcon hfree hstays)
        have hclaims := hsafe hheld j hj hja hqsa.symm hqname.symm
        rw [hqsa, hqname] at hclaims
        rw [hsa]
        exact hclaims
      · have hrest : q ∈ pre ++ post := by
          rw [mem_append]
          exact hq.imp_right fun hq => hq.resolve_left hqp
        exact .inr ⟨q, hrest, hqsa, hqname⟩

omit [DecidableEq ι] in
theorem unsettled_init (name : ι → J1939Name) {preferred : ι → UInt8} (t₀ : ℤ)
    (hpref : ∀ i, preferred i ≠ j1939AddrNone) : (init name preferred t₀).Unsettled := by
  have hidle : ∀ i, ¬ ((init name preferred t₀).node i).active := by
    rintro i (h | h) <;> cases h
  exact ⟨hpref, fun i hi => absurd hi (hidle i), fun i j _ hi => absurd hi (hidle i)⟩

end ClaimBus

/-- **Address agreement, while no contest is held unsafely.** Nodes that prefer
a real address start and claim again at any time, and frames are received in
any order. Once none is on its way, no two nodes that hold an address hold the
same one, if each contest that was not answered was to be settled by another
claim. -/
theorem j1939Claim_agreement {ι : Type*} [DecidableEq ι] (name : ι → J1939Name)
    (preferred : ι → UInt8) (hpref : ∀ i, preferred i ≠ j1939AddrNone) (t₀ : ℤ)
    (moves : List (ClaimMove ι)) (w : ClaimBus ι)
    (hrun : Run (fun w m w' => ClaimBus.Step w m w' ∧ w.HoldsSafely m)
      (ClaimBus.init name preferred t₀) moves w)
    (hquiet : ∀ i, w.box i = []) :
    ∀ i j, (w.node i).state = .claimed → (w.node j).state = .claimed →
      (w.node i).sa = (w.node j).sa → i = j := by
  have hinv : w.Unsettled := hrun.inv (fun _ _ _ hstep h => h.step hstep.1 hstep.2)
      (ClaimBus.unsettled_init name t₀ hpref)
  intro i j hi hj hsa
  by_contra hij
  rcases hinv.pending i j hij (.inr hi) (.inr hj) hsa with ⟨p, hp, -⟩ | ⟨p, hp, -⟩
  · rw [hquiet j] at hp
    cases hp
  · rw [hquiet i] at hp
    cases hp

/-- Three nodes, the first with the lowest NAME. -/
def threeNames : Fin 3 → J1939Name := fun i _ => UInt8.ofNat i

/-- The first node holds 249 and answers the second one, which goes to 250. -/
theorem j1939Claim_agreement_two :
    ∃ w : ClaimBus (Fin 3), (w.node 0).state = .claimed ∧ (w.node 1).state = .claimed ∧
      ∀ i j, (w.node i).state = .claimed → (w.node j).state = .claimed →
        (w.node i).sa = (w.node j).sa → i = j := by
  have hrun : Run (fun w m w' => ClaimBus.Step w m w' ∧ w.HoldsSafely m)
      (ClaimBus.init threeNames (fun _ => 249) 0) _ _ :=
    .cons ⟨.start 0 1 ⟨by decide, by decide⟩, trivial⟩ <|
    .cons ⟨.deliver 1 [] _ _ 2 ⟨by decide, by decide⟩ rfl, fun h => absurd h (by decide)⟩ <|
    .cons ⟨.deliver 2 [] _ _ 3 ⟨by decide, by decide⟩ rfl, fun h => absurd h (by decide)⟩ <|
    .cons ⟨.tick 0 250001 ⟨by decide, by decide⟩, trivial⟩ <|
    .cons ⟨.start 1 300000 ⟨by decide, by decide⟩, trivial⟩ <|
    .cons ⟨.deliver 0 [] _ _ 300001 ⟨by decide, by decide⟩ rfl, fun h => absurd h (by decide)⟩ <|
    .cons ⟨.deliver 1 [] _ _ 300002 ⟨by decide, by decide⟩ rfl, fun h => absurd h (by decide)⟩ <|
    .cons ⟨.deliver 2 [] _ _ 300003 ⟨by decide, by decide⟩ rfl, fun h => absurd h (by decide)⟩ <|
    .cons ⟨.deliver 2 [] _ _ 300004 ⟨by decide, by decide⟩ rfl, fun h => absurd h (by decide)⟩ <|
    .cons ⟨.deliver 2 [] _ _ 300005 ⟨by decide, by decide⟩ rfl, fun h => absurd h (by decide)⟩ <|
    .cons ⟨.deliver 0 [] _ _ 300006 ⟨by decide, by decide⟩ rfl, fun h => absurd h (by decide)⟩ <|
    .cons ⟨.tick 1 550002 ⟨by decide, by decide⟩, trivial⟩ <| .nil _
  exact ⟨_, rfl, rfl, j1939Claim_agreement threeNames (fun _ => 249) (by decide) 0 _ _ hrun
    (by decide)⟩

/-- The first node holds 249 and answers the second one, which goes to 250; the
third one heard neither claim, and its contest comes too soon to be answered. -/
def threeMoves : List (ClaimMove (Fin 3)) :=
  [.start 0 1, .deliver 1 [] ⟨249, threeNames 0, 1⟩ [] 2,
    .deliver 2 [] ⟨249, threeNames 0, 1⟩ [] 3, .tick 0 250001, .start 1 300000,
    .deliver 0 [] ⟨249, threeNames 1, 300000⟩ [] 300001,
    .deliver 1 [] ⟨249, threeNames 0, 300001⟩ [] 300002,
    .deliver 2 [] ⟨249, threeNames 1, 300000⟩
      [⟨249, threeNames 0, 300001⟩, ⟨250, threeNames 1, 300002⟩] 300003,
    .deliver 2 [] ⟨249, threeNames 0, 300001⟩ [⟨250, threeNames 1, 300002⟩] 300004,
    .deliver 2 [] ⟨250, threeNames 1, 300002⟩ [] 300005,
    .deliver 0 [] ⟨250, threeNames 1, 300002⟩ [] 300006, .start 2 400000,
    .deliver 0 [] ⟨249, threeNames 2, 400000⟩ [] 400001,
    .deliver 1 [] ⟨249, threeNames 2, 400000⟩ [] 400002, .tick 2 650001]

theorem j1939Claim_shared :
    (∀ i j, threeNames i 0 = threeNames j 0 → i = j) ∧
      ∃ w, Run ClaimBus.Step (ClaimBus.init threeNames (fun _ => 249) 0) threeMoves w ∧
      (∀ i, w.box i = []) ∧ (w.node 0).state = .claimed ∧ (w.node 2).state = .claimed ∧
      (w.node 0).sa = (w.node 2).sa := by
  have hrun : Run ClaimBus.Step (ClaimBus.init threeNames (fun _ => 249) 0) threeMoves _ :=
    .cons (.start _ _ ⟨by decide, by decide⟩) <|
    .cons (.deliver _ _ _ _ _ ⟨by decide, by decide⟩ rfl) <|
    .cons (.deliver _ _ _ _ _ ⟨by decide, by decide⟩ rfl) <|
    .cons (.tick _ _ ⟨by decide, by decide⟩) <| .cons (.start _ _ ⟨by decide, by decide⟩) <|
    .cons (.deliver _ _ _ _ _ ⟨by decide, by decide⟩ rfl) <|
    .cons (.deliver _ _ _ _ _ ⟨by decide, by decide⟩ rfl) <|
    .cons (.deliver _ _ _ _ _ ⟨by decide, by decide⟩ rfl) <|
    .cons (.deliver _ _ _ _ _ ⟨by decide, by decide⟩ rfl) <|
    .cons (.deliver _ _ _ _ _ ⟨by decide, by decide⟩ rfl) <|
    .cons (.deliver _ _ _ _ _ ⟨by decide, by decide⟩ rfl) <|
    .cons (.start _ _ ⟨by decide, by decide⟩) <|
    .cons (.deliver _ _ _ _ _ ⟨by decide, by decide⟩ rfl) <|
    .cons (.deliver _ _ _ _ _ ⟨by decide, by decide⟩ rfl) <|
    .cons (.tick _ _ ⟨by decide, by decide⟩) <| .nil _
  exact ⟨by decide, _, hrun, by decide, rfl, rfl, rfl⟩

end Meatpi
