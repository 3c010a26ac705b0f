import Meatpi.J1939.Claim

/-!
# Runs of the address claim

A run is kept with notes of what happened since the last start: which address
was claimed and when, which was lost, and when the node was given time. The
addresses tried and those left are the candidates, in their order
(`ClaimInv`), so that none is tried twice; an address is held only when time
was given since it was claimed.
-/

namespace Meatpi

open List

/-- Something that happened since the last start. -/
inductive ClaimNote where
  | claimed (sa : UInt8) (now : ℤ)
  | lost (sa : UInt8)
  | waited (now : ℤ)

def ClaimNote.tried : ClaimNote → Option UInt8
  | .claimed sa _ => some sa
  | _ => none

def ClaimNote.givenUp : ClaimNote → Option UInt8
  | .lost sa => some sa
  | _ => none

/-- The addresses tried, and those lost, in order. -/
def triedOf (notes : List ClaimNote) : List UInt8 := notes.filterMap ClaimNote.tried
def lostOf (notes : List ClaimNote) : List UInt8 := notes.filterMap ClaimNote.givenUp

/-- What a call adds to the notes: the claim sent, the contest lost, the time. -/
def claimNote (c : J1939Claim) (notes : List ClaimNote) (e : ClaimEvent) : List ClaimNote :=
  let sent now := (claimEvent c e).2.toList.map fun f => ClaimNote.claimed f.sa now
  match e with
  | .start now => sent now
  | .tick now => notes ++ [.waited now]
  | .rx sa name now =>
    if c.losesTo sa name then
      -- a cannot-claim is no claim
      notes ++ .lost sa :: (sent now).filter fun n => n.tried != some j1939AddrNone
    else notes
  | .request => notes

def claimStep (x : J1939Claim × List ClaimNote) (e : ClaimEvent) : J1939Claim × List ClaimNote :=
  ((claimEvent x.1 e).1, claimNote x.1 x.2 e)

def claimRun (x : J1939Claim × List ClaimNote) (events : List ClaimEvent) :
    J1939Claim × List ClaimNote :=
  events.foldl claimStep x

/-- The candidates: the preferred address, the other tool address, and the
dynamic range. -/
def candidates (preferred : UInt8) : List UInt8 :=
  preferred :: ((if preferred != claimTool2 then [claimTool2] else []) ++
    dynamicRange preferred claimAddrMin)

/-! ## The candidates -/

theorem mem_dynamicRange {preferred a : UInt8} {dyn : ℕ} :
    a ∈ dynamicRange preferred dyn ↔ a ≠ preferred ∧ dyn ≤ a.toNat ∧ a.toNat ≤ claimAddrMax := by
  rw [dynamicRange, mem_filter, mem_map]
  simp only [claimAddrMax, bne_iff_ne, ne_eq]
  constructor
  · rintro ⟨⟨x, hx, rfl⟩, hne⟩
    rw [mem_range'_1] at hx
    have hlt : x < 256 := by omega
    have hval : (UInt8.ofNat x).toNat = x := UInt8.toNat_ofNat_of_lt hlt
    rw [hval]
    exact ⟨hne, hx.1, by omega⟩
  · rintro ⟨hne, hlo, hhi⟩
    refine ⟨⟨a.toNat, ?_, UInt8.ofNat_toNat⟩, hne⟩
    rw [mem_range'_1]
    omega

theorem nodup_dynamicRange (preferred : UInt8) (dyn : ℕ) : (dynamicRange preferred dyn).Nodup := by
  apply List.Nodup.filter
  apply List.Nodup.map_on _ nodup_range'
  intro x hx y hy hxy
  rw [mem_range'_1] at hx hy
  simp only [claimAddrMax] at hx hy
  have hx' : x < 256 := by omega
  have hy' : y < 256 := by omega
  have hval : (UInt8.ofNat x).toNat = x := UInt8.toNat_ofNat_of_lt hx'
  rw [hxy] at hval
  exact hval.symm.trans (UInt8.toNat_ofNat_of_lt hy')

theorem nodup_candidates (preferred : UInt8) : (candidates preferred).Nodup := by
  have htool : claimTool2 ∉ dynamicRange preferred claimAddrMin := by
    rw [mem_dynamicRange]
    rintro ⟨-, -, hle⟩
    exact absurd hle (by decide)
  have hpref : preferred ∉ dynamicRange preferred claimAddrMin := by
    rw [mem_dynamicRange]
    exact fun h => h.1 rfl
  rw [candidates, nodup_cons]
  by_cases hne : (preferred != claimTool2) = true
  · rw [if_pos hne, singleton_append, mem_cons, nodup_cons, not_or]
    exact ⟨⟨bne_iff_ne.mp hne, hpref⟩, htool, nodup_dynamicRange _ _⟩
  · rw [if_neg hne, nil_append]
    exact ⟨hpref, nodup_dynamicRange _ _⟩

/-! ## The invariant -/

/-- The second note is not a claim of the address that the first one says was lost. -/
def NotReclaimed (n m : ClaimNote) : Prop := ∀ a now, ¬ (n = .lost a ∧ m = .claimed a now)

/-- The node and its notes, with `p` the preferred address. -/
structure ClaimInv (p : UInt8) (x : J1939Claim × List ClaimNote) : Prop where
  preferred : x.1.preferred = p
  idle : x.1.state = .idle → triedOf x.2 = [] ∧ lostOf x.2 = []
  cannot : x.1.state = .cannot → triedOf x.2 = candidates p ∧ lostOf x.2 = candidates p
  /-- the addresses tried and those left are the candidates -/
  walk : x.1.state = .claiming ∨ x.1.state = .claimed →
    triedOf x.2 ++ x.1.remaining = candidates p ∧ lostOf x.2 ++ [x.1.sa] = triedOf x.2
  /-- the second tool address is tried second -/
  first : x.1.state = .claiming ∨ x.1.state = .claimed → x.1.triedTool2 = false → x.1.sa = p
  /-- since the address was claimed, only time has passed -/
  since : x.1.state = .claiming ∨ x.1.state = .claimed → ∃ pre mid,
    x.2 = pre ++ .claimed x.1.sa x.1.sentUs :: mid ∧ (∀ n ∈ mid, ∃ now, n = .waited now) ∧
    (x.1.state = .claimed → ∃ now, .waited now ∈ mid ∧ claimWaitUs ≤ now - x.1.sentUs)
  /-- no address is claimed after it was lost -/
  order : x.2.Pairwise NotReclaimed

section Inv

variable {p : UInt8} {c : J1939Claim} {notes : List ClaimNote}

theorem claimInv_init (name : J1939Name) (p : UInt8) : ClaimInv p (j1939ClaimInit name p, []) := by
  have hidle : (j1939ClaimInit name p).state = .idle := rfl
  have hactive : ¬ ((j1939ClaimInit name p).state = .claiming ∨
      (j1939ClaimInit name p).state = .claimed) := by
    rw [hidle]
    decide
  exact ⟨rfl, fun _ => ⟨rfl, rfl⟩, fun h => (nomatch h), fun h => absurd h hactive,
    fun h => absurd h hactive, fun h => absurd h hactive, List.Pairwise.nil⟩

theorem ClaimInv.start (h : ClaimInv p (c, notes)) (now : ℤ) :
    ClaimInv p (claimStep (c, notes) (.start now)) := by
  have hp : c.preferred = p := h.preferred
  have hnotes : claimNote c notes (.start now) = [.claimed p now] := by
    rw [← hp]
    rfl
  have hstate : (j1939ClaimStart c now).1.state = .claiming := rfl
  rw [claimStep, hnotes]
  refine ⟨hp, fun hs => ?_, fun hs => ?_, fun _ => ?_, fun _ _ => hp, fun _ => ?_,
    pairwise_singleton _ _⟩
  · cases hstate.symm.trans hs
  · cases hstate.symm.trans hs
  · rw [← hp]
    exact ⟨rfl, rfl⟩
  · rw [← hp]
    exact ⟨[], [], rfl, fun _ hn => (nomatch hn), fun hs => (nomatch hs)⟩

theorem ClaimInv.same {c' : J1939Claim} (h : ClaimInv p (c, notes)) (hs : c.Same c') :
    ClaimInv p (c', notes) := by
  obtain ⟨hp, hidle, hcannot, hwalk, hfirst, hsince, horder⟩ := h
  refine ⟨hs.preferred.trans hp, ?_, ?_, ?_, ?_, ?_, horder⟩
  · rw [hs.state]
    exact hidle
  · rw [hs.state]
    exact hcannot
  · rw [hs.state, hs.remaining, hs.sa]
    exact hwalk
  · rw [hs.state, hs.triedTool2, hs.sa]
    exact hfirst
  · rw [hs.state, hs.sa, hs.sentUs]
    exact hsince

theorem triedOf_append (notes more : List ClaimNote) :
    triedOf (notes ++ more) = triedOf notes ++ triedOf more :=
  filterMap_append

theorem lostOf_append (notes more : List ClaimNote) :
    lostOf (notes ++ more) = lostOf notes ++ lostOf more :=
  filterMap_append

theorem ClaimInv.tick (h : ClaimInv p (c, notes)) (now : ℤ) :
    ClaimInv p (claimStep (c, notes) (.tick now)) := by
  have htried : triedOf (notes ++ [.waited now]) = triedOf notes := by
    rw [triedOf_append]
    exact append_nil _
  have hlost : lostOf (notes ++ [.waited now]) = lostOf notes := by
    rw [lostOf_append]
    exact append_nil _
  have horder : (notes ++ [ClaimNote.waited now]).Pairwise NotReclaimed := by
    rw [pairwise_append]
    refine ⟨h.order, pairwise_singleton _ _, ?_⟩
    rintro n _ m hm a t ⟨-, rfl⟩
    cases mem_singleton.mp hm
  rw [claimStep, claimEvent]
  dsimp only [claimNote]
  rw [j1939ClaimTick]
  split_ifs with hheld
  · obtain ⟨hstate, hwait⟩ := hheld
    obtain ⟨hwalk, hne⟩ := h.walk (.inl hstate)
    obtain ⟨pre, mid, hnotes, hmid, -⟩ := h.since (.inl hstate)
    refine ⟨h.preferred, fun hs => (nomatch hs), fun hs => (nomatch hs), fun _ => ?_,
      fun _ => h.first (.inl hstate), fun _ => ?_, horder⟩
    · rw [htried, hlost]
      exact ⟨hwalk, hne⟩
    · dsimp only at hnotes ⊢
      refine ⟨pre, mid ++ [.waited now], by rw [hnotes, append_assoc]; rfl, ?_, fun _ => ?_⟩
      · intro n hn
        rcases mem_append.mp hn with hn | hn
        · exact hmid n hn
        · exact ⟨now, mem_singleton.mp hn⟩
      · exact ⟨now, mem_append_right _ (mem_singleton_self _), hwait⟩
  · refine ⟨h.preferred, ?_, ?_, ?_, h.first, ?_, horder⟩
    · rw [htried, hlost]
      exact h.idle
    · rw [htried, hlost]
      exact h.cannot
    · rw [htried, hlost]
      exact h.walk
    · intro hactive
      obtain ⟨pre, mid, hnotes, hmid, hheld⟩ := h.since hactive
      dsimp only at hnotes hheld hactive ⊢
      refine ⟨pre, mid ++ [.waited now], by rw [hnotes, append_assoc]; rfl, ?_, fun hs => ?_⟩
      · intro n hn
        rcases mem_append.mp hn with hn | hn
        · exact hmid n hn
        · exact ⟨now, mem_singleton.mp hn⟩
      · obtain ⟨t, ht, hwait⟩ := hheld hs
        exact ⟨t, mem_append_left _ ht, hwait⟩

theorem ClaimInv.rx (h : ClaimInv p (c, notes)) (sa : UInt8) (name : J1939Name) (now : ℤ) :
    ClaimInv p (claimStep (c, notes) (.rx sa name now)) := by
  rw [claimStep]
  dsimp only [claimNote, claimEvent]
  by_cases hlose : c.losesTo sa name
  · rw [if_pos hlose]
    have hactive := hlose.1.1
    have hsa : sa = c.sa := hlose.1.2.1
    have hp : c.preferred = p := h.preferred
    obtain ⟨hwalk, hne⟩ := h.walk hactive
    have hfirst : c.triedTool2 = false → c.sa = c.preferred := by
      rw [hp]
      exact h.first hactive
    obtain ⟨hpref, -, hnext⟩ := claimRx_lost now hlose hfirst
    have hnodup := nodup_candidates p
    rw [← hwalk] at hnodup
    rcases hrest : c.remaining with _ | ⟨a, rest⟩
    · -- every address was tried
      rw [hrest] at hnext hwalk
      obtain ⟨hstate, hout⟩ := hnext
      have hnotes : notes ++ .lost sa :: (((j1939ClaimRx c sa name now).2.toList.map
          fun f => ClaimNote.claimed f.sa now).filter fun n => n.tried != some j1939AddrNone) =
          notes ++ [.lost sa] := by
        rw [hout]
        rfl
      have htried : triedOf (notes ++ [.lost sa]) = candidates p := by
        rw [triedOf_append, ← hwalk]
        rfl
      have hlost : lostOf (notes ++ [.lost sa]) = candidates p := by
        rw [lostOf_append, ← hwalk, append_nil, ← hne, hsa]
        rfl
      have hnone : ¬ ((j1939ClaimRx c sa name now).1.state = .claiming ∨
          (j1939ClaimRx c sa name now).1.state = .claimed) := by
        rw [hstate]
        decide
      have horder : (notes ++ [ClaimNote.lost sa]).Pairwise NotReclaimed := by
        rw [pairwise_append]
        refine ⟨h.order, pairwise_singleton _ _, ?_⟩
        rintro n _ m hm a t ⟨-, rfl⟩
        cases mem_singleton.mp hm
      rw [hnotes]
      exact ⟨hpref.trans hp, fun hs => (nomatch hstate.symm.trans hs), fun _ => ⟨htried, hlost⟩,
        fun hs => absurd hs hnone, fun hs => absurd hs hnone, fun hs => absurd hs hnone, horder⟩
    · rw [hrest] at hnext hwalk hnodup
      obtain ⟨hstate, hnewsa, hsent, hleft, htool, hout⟩ := hnext
      have ha : a ≠ j1939AddrNone := by
        apply ne_none_of_mem_remaining (c := c)
        rw [hrest]
        exact mem_cons_self
      have hnotes : notes ++ .lost sa :: (((j1939ClaimRx c sa name now).2.toList.map
          fun f => ClaimNote.claimed f.sa now).filter fun n => n.tried != some j1939AddrNone) =
          notes ++ [.lost sa, .claimed a now] := by
        rw [hout]
        simp [ClaimNote.tried, ha]
      have htried : triedOf (notes ++ [.lost sa, .claimed a now]) = triedOf notes ++ [a] := by
        rw [triedOf_append]
        rfl
      have hlost : lostOf (notes ++ [.lost sa, .claimed a now]) = triedOf notes := by
        rw [lostOf_append, ← hne, hsa]
        rfl
      -- the new address was not tried
      have hnew : a ∉ triedOf notes := by
        intro hmem
        exact (nodup_append.mp hnodup).2.2 a hmem a mem_cons_self rfl
      have horder : (notes ++ [ClaimNote.lost sa, ClaimNote.claimed a now]).Pairwise NotReclaimed := by
        rw [pairwise_append]
        refine ⟨h.order, ?_, ?_⟩
        · rw [pairwise_pair]
          rintro b t ⟨hb, hb'⟩
          obtain rfl := ClaimNote.lost.inj hb
          obtain ⟨rfl, -⟩ := ClaimNote.claimed.inj hb'
          apply hnew
          rw [← hne, hsa]
          exact mem_append_right _ (mem_singleton_self _)
        · rintro n hn m hm b t ⟨rfl, rfl⟩
          have hmem : b ∈ lostOf notes := mem_filterMap.mpr ⟨_, hn, rfl⟩
          rcases mem_cons.mp hm with hm | hm
          · cases hm
          · obtain ⟨rfl, -⟩ := ClaimNote.claimed.inj (mem_singleton.mp hm)
            apply hnew
            rw [← hne]
            exact mem_append_left _ hmem
      rw [hnotes]
      refine ⟨hpref.trans hp, fun hs => (nomatch hstate.symm.trans hs),
        fun hs => (nomatch hstate.symm.trans hs), fun _ => ?_, fun _ hno => ?_, fun _ => ?_, horder⟩
      · rw [htried, hlost]
        rw [hleft, hnewsa, ← hwalk, append_assoc]
        exact ⟨rfl, rfl⟩
      · cases htool.symm.trans hno
      · rw [hnewsa, hsent]
        refine ⟨notes ++ [.lost sa], [], by rw [append_assoc]; rfl, fun _ hn => (nomatch hn),
          fun hs => (nomatch hstate.symm.trans hs)⟩
  · rw [if_neg hlose]
    exact h.same (claimRx_kept now hlose)

/-- **Every call keeps the invariant.** -/
theorem ClaimInv.step {x : J1939Claim × List ClaimNote} (h : ClaimInv p x) (e : ClaimEvent) :
    ClaimInv p (claimStep x e) := by
  obtain ⟨c, notes⟩ := x
  cases e with
  | start now => exact h.start now
  | rx sa name now => exact h.rx sa name now
  | tick now => exact h.tick now
  | request => exact h.same (claimRequest_same c)

theorem ClaimInv.run {x : J1939Claim × List ClaimNote} (events : List ClaimEvent)
    (h : ClaimInv p x) : ClaimInv p (claimRun x events) := by
  induction events generalizing x with
  | nil => exact h
  | cons e events ih => exact ih (h.step e)

end Inv

theorem cannot_stays {x : J1939Claim × List ClaimNote} (hcannot : x.1.state = .cannot)
    (events : List ClaimEvent) (hstart : ∀ e ∈ events, ∀ now, e ≠ .start now) :
    (claimRun x events).1.state = .cannot := by
  induction events generalizing x with
  | nil => exact hcannot
  | cons e events ih =>
    refine ih ?_ fun e' he' => hstart e' (mem_cons_of_mem _ he')
    rw [claimStep]
    cases e with
    | start now => exact absurd rfl (hstart _ mem_cons_self now)
    | rx sa name now =>
      have hquiet : ¬ x.1.losesTo sa name := by
        rintro ⟨⟨hactive, -⟩, -⟩
        rw [hcannot] at hactive
        exact absurd hactive (by decide)
      exact (claimRx_kept now hquiet).state.trans hcannot
    | tick now =>
      rw [claimEvent, j1939ClaimTick, if_neg (by rw [hcannot]; simp)]
      exact hcannot
    | request => exact (claimRequest_same x.1).state.trans hcannot

/-- **The address claim over runs.** A node holds an address only when time was
given to it 250 ms or more after it sent its claim, with no contest lost and no
other claim in between; since the last start no address is tried twice, and
none again after it was lost; the node cannot claim exactly when it has lost
every candidate, and then it stays so until the next start. -/
theorem j1939Claim_runs (name : J1939Name) (preferred : UInt8) (events : List ClaimEvent) :
    ∃ c notes, (c, notes) = claimRun (j1939ClaimInit name preferred, []) events ∧
      (c.state = .claimed → ∃ pre sent mid, notes = pre ++ .claimed c.sa sent :: mid ∧
        (∀ n ∈ mid, ∃ now, n = .waited now) ∧ ∃ now, .waited now ∈ mid ∧ 250000 ≤ now - sent) ∧
      (triedOf notes).Nodup ∧
      (∀ pre a post, notes = pre ++ .lost a :: post → ∀ now, .claimed a now ∉ post) ∧
      ((∀ a ∈ candidates preferred, a ∈ lostOf notes) ↔ c.state = .cannot) ∧
      (c.state = .cannot → ∀ more, (∀ e ∈ more, ∀ now, e ≠ .start now) →
        (claimRun (c, notes) more).1.state = .cannot) := by
  have hinv := (claimInv_init name preferred).run events
  rcases hrun : claimRun (j1939ClaimInit name preferred, []) events with ⟨c, notes⟩
  rw [hrun] at hinv
  have hnodup := nodup_candidates preferred
  refine ⟨c, notes, rfl, ?_, ?_, ?_, ?_, fun h => cannot_stays h⟩
  · intro hclaimed
    obtain ⟨pre, mid, hnotes, hmid, hheld⟩ := hinv.since (.inr hclaimed)
    exact ⟨pre, c.sentUs, mid, hnotes, hmid, hheld hclaimed⟩
  · rcases hstate : c.state with _ | _ | _ | _
    · rw [(hinv.idle hstate).1]
      exact nodup_nil
    · rw [← (hinv.walk (.inl hstate)).1] at hnodup
      exact (nodup_append.mp hnodup).1
    · rw [← (hinv.walk (.inr hstate)).1] at hnodup
      exact (nodup_append.mp hnodup).1
    · rw [(hinv.cannot hstate).1]
      exact hnodup
  · intro pre a post hnotes now hmem
    have horder := hinv.order
    rw [hnotes, pairwise_append] at horder
    exact rel_of_pairwise_cons horder.2.1 hmem a now ⟨rfl, rfl⟩
  · constructor
    · intro hall
      have hpref : preferred ∈ lostOf notes := hall preferred mem_cons_self
      by_cases hactive : c.state = .claiming ∨ c.state = .claimed
      · obtain ⟨hwalk, hne⟩ := hinv.walk hactive
        rw [← hwalk, ← hne] at hnodup
        have hcand : c.sa ∈ candidates preferred := by
          rw [← hwalk, ← hne]
          exact mem_append_left _ (mem_append_right _ (mem_singleton_self _))
        have hne' := (nodup_append.mp (nodup_append.mp hnodup).1).2.2
        exact absurd rfl (hne' c.sa (hall c.sa hcand) c.sa (mem_singleton_self _))
      · rcases hstate : c.state with _ | _ | _ | _
        · rw [(hinv.idle hstate).2] at hpref
          cases hpref
        · exact absurd (.inl hstate) hactive
        · exact absurd (.inr hstate) hactive
        · rfl
    · intro hcannot a ha
      rw [(hinv.cannot hcannot).2]
      exact ha

end Meatpi
