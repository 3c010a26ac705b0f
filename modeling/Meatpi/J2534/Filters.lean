import Meatpi.J2534.Sessions
import Meatpi.Library.Run

/-!
# Filters and sessions over a run

Calls on a connected channel in any order, with any answers of the provider. Between two
calls every `FLOW_CONTROL` filter names a session that is open for its ids, and no two
name one slot. A call closes a session in order to open it again when an ECU is armed a
second time, or spoken to with the other padding; the channel does not take that back
when the call fails later, and what is said here is said of the runs where it does not.
-/

namespace Meatpi

open Function List UInt32

variable {msg : J2534Msg} {pattern : Option J2534Msg}

/-! ## Calls -/

/-- A call on the channel. -/
inductive J2534Call where
  | addFilter (type : UInt32) (mask pattern flowControl : Option J2534Msg) (wantsId : Bool)
  | stopFilter (filterId : UInt32)
  | clearFilters
  | write (msg : J2534Msg)
  | writePeriodic (msg : J2534Msg)

/-- A call, what the other components answered in it, and what it returned. -/
structure J2534Event where
  call : J2534Call
  env : J2534Env
  status : J2534Status
  filterId : Option UInt32

/-- The ids a `FLOW_CONTROL` filter is asked for. -/
def J2534Call.asks : J2534Call → Option J2534EcuIds
  | .addFilter type _ (some pattern) (some flowControl) _ =>
    if type = j2534FlowControlFilter then some (ecuIds pattern flowControl) else none
  | _ => none

/-- The session slot a filter has. -/
def J2534ChFilter.names (f : J2534ChFilter) : Option SessSlot :=
  if f.type = j2534FlowControlFilter then f.session else none

namespace J2534World

/-- A call: the channel after it, its status and the filter id it gave out. -/
def perform (w : J2534World) (env : J2534Env) :
    J2534Call → J2534World × J2534Status × Option UInt32
  | .addFilter type mask pattern flowControl wantsId =>
    w.addFilter env type mask pattern flowControl wantsId
  | .stopFilter filterId => ((w.stopFilter filterId).1, (w.stopFilter filterId).2, none)
  | .clearFilters => (w.clearFilters, .noerror, none)
  | .write msg => ((w.channelWrite env msg).1, (w.channelWrite env msg).2.1, none)
  | .writePeriodic msg =>
    ((w.channelWritePeriodic env msg).1, (w.channelWritePeriodic env msg).2.1, none)

/-- The session a write opens again: the one of the request id, when the
message wants the other padding. -/
def reopenedByWrite (w : J2534World) (env : J2534Env) (msg : J2534Msg) :
    Option (SessSlot × J2534EcuIds × Bool) :=
  if w.ch.inUse ∧ w.ch.protocol = j2534ProtIso15765 ∧ env.txReady then
    match isoRequest msg with
    | none => none
    | some (id, _, ext, pad) =>
      match findByTx w.ch id ext with
      | none => none
      | some i => if (w.ch.sess i).pad = pad then none else some (i, (w.ch.sess i).ids, pad)
  else
    none

/-- The session a filter opens again: the one that serves the response id. -/
def reopenedByFilter (w : J2534World) (env : J2534Env) (pattern flowControl : J2534Msg) :
    Option (SessSlot × J2534EcuIds × Bool) :=
  let ids := ecuIds pattern flowControl
  if w.ch.protocol = j2534ProtIso15765 ∧ 4 ≤ pattern.data.length ∧ 4 ≤ flowControl.data.length ∧
      w.ch.filters.length < j2534ChMaxFilters ∧ env.providerReady then
    (findByRx w.ch ids.rxId ids.ext).map fun i =>
      (i, ids, hasFlag flowControl.txFlags j2534TxFramePad)
  else
    none

/-- The open session that a call closes in order to open it again: its slot, and
the ids and the padding it is to have. -/
def reopened (w : J2534World) (env : J2534Env) : J2534Call → Option (SessSlot × J2534EcuIds × Bool)
  | .addFilter type _ (some pattern) (some flowControl) wantsId =>
    if w.ch.inUse ∧ wantsId ∧ type = j2534FlowControlFilter then
      w.reopenedByFilter env pattern flowControl
    else
      none
  | .write msg => w.reopenedByWrite env msg
  | .writePeriodic msg => w.reopenedByWrite env msg
  | _ => none

end J2534World

/-- A call is a write. -/
def J2534Call.IsWrite (call : J2534Call) : Prop :=
  (∃ msg, call = .write msg) ∨ ∃ msg, call = .writePeriodic msg

/-- One call on the channel. -/
def J2534Step (w : J2534World) (e : J2534Event) (w' : J2534World) : Prop :=
  w.perform e.env e.call = (w', e.status, e.filterId)

/-- A session that is closed in order to be opened again is opened by the
provider, and what is then sent over it is sent. -/
structure Meets (w : J2534World) (env : J2534Env) (call : J2534Call) : Prop where
  opens : ∀ i ids pad, w.reopened env call = some (i, ids, pad) →
    ∃ h, env.provider.openSession (w.sessionClose i).isotp (J2534World.isotpCfg ids pad) = .ok h
  sends : call.IsWrite → (w.reopened env call).isSome → env.sent = .ok ()

/-- One call that meets the condition. -/
def J2534MetStep (w : J2534World) (e : J2534Event) (w' : J2534World) : Prop :=
  J2534Step w e w' ∧ Meets w e.env e.call

/-! ## What a call does -/

open J2534World

/-- What the calls that meet the condition do to filters and sessions. -/
inductive J2534Move (w : J2534World) (call : J2534Call) :
    J2534World × J2534Status × Option UInt32 → Prop
  | untouched {w' : J2534World} {st : J2534Status} (hsame : Untouched w w') :
      J2534Move w call (w', st, none)
  | repadded {w' : J2534World} (hfilters : w'.ch.filters = w.ch.filters)
      (hnext : w'.ch.nextFilterId = w.ch.nextFilterId) (hecu : w'.ecuAt = w.ecuAt)
      (hbacked : Backed w.sessionAt w.isotp → Backed w'.sessionAt w'.isotp) :
      J2534Move w call (w', .noerror, none)
  | armed {w' v : J2534World} {f : J2534ChFilter} {ids : J2534EcuIds} {pad : Bool} {i : SessSlot}
      (hasks : call.asks = some ids) (hfill : Filled w v i ids pad) (hid : f.id = w.ch.nextFilterId)
      (htype : f.type = j2534FlowControlFilter) (hsession : f.session = some i)
      (hw' : w' = { v with ch := { v.ch with
        filters := filterRemove v.ch.filters (fun f =>
          f.type == j2534FlowControlFilter && f.session == some i) ++ [f]
        nextFilterId := v.ch.nextFilterId + 1 } }) :
      J2534Move w call (w', .noerror, some f.id)
  | matching {w' : J2534World} {f : J2534ChFilter} (hid : f.id = w.ch.nextFilterId)
      (htype : f.type ≠ j2534FlowControlFilter)
      (hw' : w' = { w with ch := { w.ch with
        filters := w.ch.filters ++ [f], nextFilterId := w.ch.nextFilterId + 1 } }) :
      J2534Move w call (w', .noerror, some f.id)
  | stopped {w' : J2534World} {f : J2534ChFilter} {p : J2534ChFilter → Bool}
      (hfind : w.ch.filters.find? p = some f)
      (hw' : w' = { w.isoUnbind f.names with ch := { (w.isoUnbind f.names).ch with
        filters := filterRemove (w.isoUnbind f.names).ch.filters p } }) :
      J2534Move w call (w', .noerror, none)
  | cleared {w' : J2534World} (hfilters : w'.ch.filters = [])
      (hnext : w'.ch.nextFilterId = w.ch.nextFilterId)
      (hbacked : Backed w.sessionAt w.isotp → Backed w'.sessionAt w'.isotp) :
      J2534Move w call (w', .noerror, none)

section Moves

variable {w : J2534World} {env : J2534Env} {call : J2534Call}

theorem addFlowControl_move {flowControl : Option J2534Msg}
    (hasks : ∀ p f, pattern = some p → flowControl = some f → call.asks = some (ecuIds p f))
    (hopens : ∀ p f i ids pad, pattern = some p → flowControl = some f →
      w.reopenedByFilter env p f = some (i, ids, pad) →
        ∃ h, env.provider.openSession (w.sessionClose i).isotp (isotpCfg ids pad) = .ok h) :
    J2534Move w call (w.addFlowControl env pattern flowControl) := by
  cases pattern with
  | none => exact .untouched (.refl w)
  | some p =>
    cases flowControl with
    | none => exact .untouched (.refl w)
    | some f =>
      rw [addFlowControl]
      split
      · exact .untouched (.refl w)
      · rename_i hshape
        split
        · exact .untouched (.refl w)
        · rename_i hroom
          have hb := bound_isoBind w env (ecuIds p f) (hasFlag f.txFlags j2534TxFramePad)
          dsimp only
          generalize w.isoBind env (ecuIds p f).txId (ecuIds p f).rxId (ecuIds p f).ext
            (hasFlag f.txFlags j2534TxFramePad) = r at hb ⊢
          cases hb with
          | @refused w' st slot hst hsame =>
            cases st with
            | noerror => exact absurd rfl hst
            | _ => exact .untouched hsame
          | @filled w' i hfill =>
            exact .armed (hasks p f rfl rfl) hfill hfill.rest.nextFilterId rfl rfl rfl
          | @lost w' st slot i hready hfind hfail hst hlost =>
            -- the condition says that this reopening succeeds
            have hre : w.reopenedByFilter env p f =
                some (i, ecuIds p f, hasFlag f.txFlags j2534TxFramePad) := by
              rw [reopenedByFilter, if_pos ⟨by tauto, by omega, by omega, by omega, hready⟩, hfind]
              rfl
            obtain ⟨h, hh⟩ := hopens p f i _ _ rfl rfl hre
            exact absurd hh (hfail h)

theorem addMatching_move {type : UInt32} {mask : Option J2534Msg}
    (htype : type ≠ j2534FlowControlFilter) :
    J2534Move w call (w.addMatching type mask pattern) := by
  cases mask with
  | none => exact .untouched (.refl w)
  | some m =>
    cases pattern with
    | none => exact .untouched (.refl w)
    | some p =>
      rw [addMatching]
      split
      · exact .untouched (.refl w)
      · exact .matching rfl htype rfl

theorem unbindFilter_eq (w : J2534World) (f : J2534ChFilter) :
    w.unbindFilter f = w.isoUnbind f.names := by
  rw [unbindFilter, J2534ChFilter.names]
  split <;> rfl

theorem sameRest_isoUnbind (w : J2534World) (slot : Option SessSlot) :
    SameRest w (w.isoUnbind slot) := by
  cases slot with
  | none => rfl
  | some i => rfl

theorem backed_isoUnbind (hb : Backed w.sessionAt w.isotp) (slot : Option SessSlot) :
    Backed (w.isoUnbind slot).sessionAt (w.isoUnbind slot).isotp := by
  cases slot with
  | none => exact hb
  | some i => exact backed_sessionClose hb i

theorem foldl_unbindFilter (fs : List J2534ChFilter) : ∀ w : J2534World,
    SameRest w (fs.foldl unbindFilter w) ∧ (Backed w.sessionAt w.isotp →
      Backed (fs.foldl unbindFilter w).sessionAt (fs.foldl unbindFilter w).isotp) := by
  induction fs with
  | nil => exact fun w => ⟨.refl w, id⟩
  | cons f fs ih =>
    intro w
    rw [foldl_cons, unbindFilter_eq]
    obtain ⟨hrest, hback⟩ := ih (w.isoUnbind f.names)
    refine ⟨(sameRest_isoUnbind w f.names).trans hrest, ?_⟩
    intro hb
    exact hback (backed_isoUnbind hb f.names)

theorem stopFilter_move (filterId : UInt32) :
    J2534Move w call ((w.stopFilter filterId).1, (w.stopFilter filterId).2, none) := by
  rw [stopFilter]
  split
  · exact .untouched (.refl w)
  · cases hfind : w.ch.filters.find? fun f => f.id == filterId with
    | none => exact .untouched (.refl w)
    | some f =>
      dsimp only
      rw [unbindFilter_eq]
      exact .stopped hfind rfl

theorem clearFilters_move : J2534Move w call (w.clearFilters, .noerror, none) := by
  obtain ⟨hrest, hback⟩ := foldl_unbindFilter w.ch.filters w
  exact .cleared rfl hrest.nextFilterId hback

theorem writeDone_untouched (w : J2534World) (env : J2534Env) (result : Except EspErr Unit)
    (id : UInt32) (payload : List UInt8) (ext indicateDone : Bool) :
    Untouched w (w.writeDone env result id payload ext indicateDone).1 := by
  cases result with
  | error e => exact .refl w
  | ok u =>
    rw [writeDone.eq_def]
    dsimp only
    split
    · exact ⟨rfl, rfl, rfl, rfl⟩
    · exact .refl w

theorem isoWrite_move {indicateDone : Bool} (huse : w.ch.inUse = true)
    (hproto : w.ch.protocol = j2534ProtIso15765)
    (hopens : ∀ i ids pad, w.reopenedByWrite env msg = some (i, ids, pad) →
      ∃ h, env.provider.openSession (w.sessionClose i).isotp (isotpCfg ids pad) = .ok h)
    (hsends : (w.reopenedByWrite env msg).isSome → env.sent = .ok ()) :
    J2534Move w call
      ((w.isoWrite env msg indicateDone).1, (w.isoWrite env msg indicateDone).2.1, none) := by
  rw [isoWrite]
  cases hreq : isoRequest msg with
  | none => exact .untouched (.refl w)
  | some req =>
    obtain ⟨id, payload, ext, pad⟩ := req
    dsimp only
    cases hfind : findByTx w.ch id ext with
    | none =>
      dsimp only
      split
      · exact .untouched (.refl w)
      · split
        · exact .untouched (.refl w)
        · exact .untouched (writeDone_untouched w env env.canSent id payload ext indicateDone)
    | some i =>
      dsimp only
      split
      · exact .untouched (.refl w)
      · rename_i hready
        have hs := sessionAt_of_findByTx hfind
        have hre : (w.ch.sess i).pad ≠ pad →
            w.reopenedByWrite env msg = some (i, (w.ch.sess i).ids, pad) := by
          intro hpad
          rw [reopenedByWrite, if_pos ⟨huse, hproto, by simpa using hready⟩, hreq]
          dsimp only
          rw [hfind]
          dsimp only
          rw [if_neg hpad]
        have hp : Padded w env i pad _ := padded_padRebind hs pad
        generalize w.padRebind env i pad = r at hp ⊢
        cases hp with
        | same hpad =>
          exact .untouched (writeDone_untouched w env env.sent id payload ext indicateDone)
        | @filled v hpad hfill =>
          -- the padding was changed: the condition says that the message is sent
          rw [hsends (by rw [hre hpad]; rfl)]
          have hdone := writeDone_untouched v env (.ok ()) id payload ext indicateDone
          have hecu : v.ecuAt = w.ecuAt := by
            rw [hfill.ecu, show some (w.ch.sess i).ids = w.ecuAt i by rw [ecuAt, hs]; rfl,
              update_eq_self]
          have hmove : J2534Move w call
              ((v.writeDone env (.ok ()) id payload ext indicateDone).1, .noerror, none) := by
            refine .repadded (hdone.filters.trans hfill.rest.filters)
              (hdone.nextFilterId.trans hfill.rest.nextFilterId) ?_ ?_
            · refine Eq.trans ?_ hecu
              funext j
              rw [ecuAt, hdone.sessions, ecuAt]
            · intro hb
              rw [hdone.sessions, hdone.isotp]
              exact hfill.backed hb
          exact hmove
        | lost hpad hfail hlost =>
          obtain ⟨h, hh⟩ := hopens i _ _ (hre hpad)
          exact absurd hh (hfail h)

theorem writeCommon_move {indicate : Bool}
    (hopens : ∀ i ids pad, w.reopenedByWrite env msg = some (i, ids, pad) →
      ∃ h, env.provider.openSession (w.sessionClose i).isotp (isotpCfg ids pad) = .ok h)
    (hsends : (w.reopenedByWrite env msg).isSome → env.sent = .ok ()) :
    J2534Move w call
      ((w.writeCommon env msg indicate).1, (w.writeCommon env msg indicate).2.1, none) := by
  rw [writeCommon]
  split
  · exact .untouched (.refl w)
  · rename_i huse
    split
    · split
      · exact .untouched (.refl w)
      · cases env.canSent with
        | ok u => exact .untouched (.refl w)
        | error e => exact .untouched (.refl w)
    · split
      · rename_i hproto
        exact isoWrite_move (by simpa using huse) hproto hopens hsends
      · split
        · exact .untouched (.refl w)
        · exact .untouched (.refl w)

/-- **What a call does**, when it meets the condition. -/
theorem perform_move (hmeets : Meets w env call) : J2534Move w call (w.perform env call) := by
  cases call with
  | addFilter type mask pattern flowControl wantsId =>
    rw [perform, addFilter]
    split
    · exact .untouched (.refl w)
    · rename_i huse
      split
      · exact .untouched (.refl w)
      · rename_i hwants
        split
        · rename_i htype
          subst htype
          apply addFlowControl_move
          · rintro p f rfl rfl
            rw [J2534Call.asks, if_pos rfl]
          · rintro p f i ids pad rfl rfl hre
            apply hmeets.opens i ids pad
            rw [reopened, if_pos ⟨by simpa using huse, by simpa using hwants, rfl⟩]
            exact hre
        · rename_i htype
          split
          · exact addMatching_move htype
          · exact .untouched (.refl w)
  | stopFilter filterId => exact stopFilter_move filterId
  | clearFilters => exact clearFilters_move
  | write msg => exact writeCommon_move hmeets.opens (hmeets.sends (.inl ⟨msg, rfl⟩))
  | writePeriodic msg => exact writeCommon_move hmeets.opens (hmeets.sends (.inr ⟨msg, rfl⟩))

theorem J2534Move.error {w' : J2534World} {st : J2534Status} {filterId : Option UInt32}
    (h : J2534Move w call (w', st, filterId)) (hst : st ≠ .noerror) : Untouched w w' := by
  cases h with
  | untouched hsame => exact hsame
  | _ => exact absurd rfl hst

end Moves

/-! ## The invariant -/

/-- The ids a channel gives out, in order. -/
def nthFilterId (n : ℕ) : UInt32 := UInt32.ofNat (n + 1)

theorem nthFilterId_succ (n : ℕ) : nthFilterId (n + 1) = nthFilterId n + 1 := by
  rw [nthFilterId, ofNat_add (n + 1) 1]
  rfl

theorem nthFilterId_nodup {n : ℕ} (hn : n ≤ UInt32.size) :
    ((List.range n).map nthFilterId).Nodup := by
  change n ≤ 2 ^ 32 at hn
  apply List.Nodup.map_on ?_ nodup_range
  intro a ha b hb hab
  rw [mem_range] at ha hb
  have hnat : (a + 1) % 2 ^ 32 = (b + 1) % 2 ^ 32 := by
    have h := congrArg UInt32.toNat hab
    rwa [nthFilterId] at h
  omega

/-- A filter was asked for these ids in the calls so far. -/
def AskedFor (es : List J2534Event) (f : J2534ChFilter) (ids : J2534EcuIds) : Prop :=
  ∃ e ∈ es, e.filterId = some f.id ∧ e.call.asks = some ids

/-- What holds after the calls of a run. -/
structure FiltersInv (es : List J2534Event) (w : J2534World) : Prop where
  /-- the filters hold the sessions of the ids they were asked for -/
  leased : Leased J2534ChFilter.names (AskedFor es) w.ecuAt w.ch.filters
  /-- a `FLOW_CONTROL` filter has a session -/
  named : ∀ f ∈ w.ch.filters, f.type = j2534FlowControlFilter → ∃ i, f.session = some i
  /-- the sessions are open at the provider -/
  backed : Backed w.sessionAt w.isotp
  /-- the ids were given out in order -/
  given : es.filterMap J2534Event.filterId =
    (List.range (es.filterMap J2534Event.filterId).length).map nthFilterId
  next : w.ch.nextFilterId = nthFilterId (es.filterMap J2534Event.filterId).length

section Invariant

variable {w w' : J2534World} {es : List J2534Event} {e : J2534Event}

theorem askedFor_append (e : J2534Event) (f : J2534ChFilter) (ids : J2534EcuIds) :
    AskedFor es f ids → AskedFor (es ++ [e]) f ids := by
  rintro ⟨e', he', hid, hasks⟩
  exact ⟨e', mem_append_left _ he', hid, hasks⟩

theorem given_append_none (he : e.filterId = none) :
    (es ++ [e]).filterMap J2534Event.filterId = es.filterMap J2534Event.filterId := by
  rw [filterMap_append, filterMap_cons_none he, filterMap_nil, append_nil]

theorem given_append_some {id : UInt32} (he : e.filterId = some id) :
    (es ++ [e]).filterMap J2534Event.filterId = es.filterMap J2534Event.filterId ++ [id] := by
  rw [filterMap_append, filterMap_cons_some he, filterMap_nil]

theorem FiltersInv.keep (h : FiltersInv es w) (he : e.filterId = none)
    (hfilters : w'.ch.filters = w.ch.filters) (hnext : w'.ch.nextFilterId = w.ch.nextFilterId)
    (hecu : w'.ecuAt = w.ecuAt) (hbacked : Backed w'.sessionAt w'.isotp) :
    FiltersInv (es ++ [e]) w' where
  leased := by
    rw [hfilters, hecu]
    exact h.leased.mono (askedFor_append e)
  named := by
    rw [hfilters]
    exact h.named
  backed := hbacked
  given := by
    rw [given_append_none he]
    exact h.given
  next := by
    rw [given_append_none he, hnext]
    exact h.next

theorem FiltersInv.give (h : FiltersInv es w) (he : e.filterId = some w.ch.nextFilterId) :
    (es ++ [e]).filterMap J2534Event.filterId =
        (List.range ((es ++ [e]).filterMap J2534Event.filterId).length).map nthFilterId ∧
      w.ch.nextFilterId + 1 = nthFilterId ((es ++ [e]).filterMap J2534Event.filterId).length := by
  rw [given_append_some he, length_append, length_singleton, range_succ,
    map_append, map_singleton, ← h.given, nthFilterId_succ, ← h.next]
  exact ⟨rfl, rfl⟩

theorem unnamed_after_remove {fs : List J2534ChFilter} {slots : SessSlot → Option J2534EcuIds}
    (h : Leased J2534ChFilter.names (AskedFor es) slots fs) (i : SessSlot) :
    ∀ f ∈ fs.eraseP (fun f => f.type == j2534FlowControlFilter && f.session == some i),
      f.names ≠ some i := by
  have hnames : ∀ f : J2534ChFilter,
      (f.type == j2534FlowControlFilter && f.session == some i) = true ↔ f.names = some i := by
    intro f
    rw [J2534ChFilter.names, Bool.and_eq_true, beq_iff_eq, beq_iff_eq]
    split
    · rename_i htype
      exact and_iff_right htype
    · rename_i htype
      exact ⟨fun hf => absurd hf.1 htype, fun hf => by cases hf⟩
  cases hfind : fs.find? fun f => f.type == j2534FlowControlFilter && f.session == some i with
  | some f =>
    have hf : (f.type == j2534FlowControlFilter && f.session == some i) = true := by
      simpa using List.find?_some hfind
    exact h.freed hfind ((hnames f).mp hf)
  | none =>
    intro f hf hfi
    have hno := List.find?_eq_none.mp hfind f (mem_of_mem_eraseP hf)
    exact hno ((hnames f).mpr hfi)

theorem filterRemove_perm (fs : List J2534ChFilter) (p : J2534ChFilter → Bool) :
    (filterRemove fs p).Perm (fs.eraseP p) :=
  swapRemoveFirst_perm fs p

/-- **One call more** keeps the invariant. -/
theorem FiltersInv.move (h : FiltersInv es w)
    (hmove : J2534Move w e.call (w', e.status, e.filterId)) : FiltersInv (es ++ [e]) w' := by
  generalize hst : e.status = st at hmove
  generalize hid : e.filterId = filterId at hmove
  cases hmove with
  | untouched hsame =>
    refine h.keep hid hsame.filters hsame.nextFilterId ?_ ?_
    · funext j
      rw [ecuAt, hsame.sessions, ecuAt]
    · rw [hsame.sessions, hsame.isotp]
      exact h.backed
  | repadded hfilters hnext hecu hbacked => exact h.keep hid hfilters hnext hecu (hbacked h.backed)
  | @armed _ v f ids pad i hasks hfill hfid htype hsession hw' =>
    subst hw'
    have hgive := h.give (hid.trans (congrArg some hfid))
    have hfree := unnamed_after_remove h.leased i
    have hnames : f.names = some i := by rw [J2534ChFilter.names, if_pos htype, hsession]
    have hasked : AskedFor (es ++ [e]) f ids :=
      ⟨e, mem_append_right _ (mem_singleton_self e), hid, hasks⟩
    have hecu : v.ecuAt i = some ids := by rw [hfill.ecu, update_self]
    constructor
    · have hgrant := ((h.leased.eraseP _).mono (askedFor_append e)).grant hnames hfree hecu hasked
        (by intro j hj; rw [hfill.ecu, update_of_ne hj])
      refine hgrant.perm ?_
      rw [hfill.rest.filters]
      exact (filterRemove_perm _ _).append_right [f]
    · intro g hg hgtype
      rcases mem_append.mp hg with hold | hnew
      · rw [hfill.rest.filters] at hold
        exact h.named g (mem_of_mem_eraseP ((filterRemove_perm _ _).mem_iff.mp hold)) hgtype
      · obtain rfl := mem_singleton.mp hnew
        exact ⟨i, hsession⟩
    · exact hfill.backed h.backed
    · exact hgive.1
    · rw [hfill.rest.nextFilterId]
      exact hgive.2
  | @matching _ f hfid htype hw' =>
    subst hw'
    have hgive := h.give (hid.trans (congrArg some hfid))
    constructor
    · exact (h.leased.mono (askedFor_append e)).append_none (by rw [J2534ChFilter.names, if_neg htype])
    · intro g hg hgtype
      rcases mem_append.mp hg with hold | hnew
      · exact h.named g hold hgtype
      · obtain rfl := mem_singleton.mp hnew
        exact absurd hgtype htype
    · exact h.backed
    · exact hgive.1
    · exact hgive.2
  | @stopped _ f p hfind hw' =>
    subst hw'
    have hrest := sameRest_isoUnbind w f.names
    constructor
    · rw [hrest.filters]
      refine Leased.perm ?_ (filterRemove_perm _ _)
      refine ((h.leased.eraseP p).mono (askedFor_append e)).frame ?_
      intro g hg j hgj
      -- the session that was closed is the one of the filter that went
      cases hf : f.names with
      | none => rfl
      | some i =>
        have hji : j ≠ i := by
          rintro rfl
          exact h.leased.freed hfind hf g hg hgj
        change (w.sessionClose i).ecuAt j = w.ecuAt j
        rw [ecuAt_update (sessionAt_sessionClose w i), update_of_ne hji]
    · intro g hg
      rw [hrest.filters] at hg
      exact h.named g (mem_of_mem_eraseP ((filterRemove_perm _ _).mem_iff.mp hg))
    · exact backed_isoUnbind h.backed f.names
    · rw [given_append_none hid]
      exact h.given
    · rw [given_append_none hid]
      exact hrest.nextFilterId.trans h.next
  | cleared hfilters hnext hbacked =>
    constructor
    · rw [hfilters]
      exact .nil
    · rw [hfilters]
      intro g hg
      cases hg
    · exact hbacked h.backed
    · rw [given_append_none hid]
      exact h.given
    · rw [given_append_none hid]
      exact hnext.trans h.next

end Invariant

/-! ## Runs -/

variable {w₀ : J2534World}

theorem connected_of_noerror {r : J2534World × J2534Status}
    (h : (if r.2 ≠ .noerror then (r.1.teardown, r.2) else r) = (w₀, .noerror)) :
    r = (w₀, .noerror) := by
  split at h
  · rename_i hst
    exact absurd (congrArg Prod.snd h) hst
  · exact h

theorem filtersInv_connect {w : J2534World} {env : J2534Env} {flags txId rxId : UInt32} {ext : Bool}
    (hconn : w.channelConnect env j2534ProtIso15765 flags txId rxId ext = (w₀, .noerror)) :
    FiltersInv [] w₀ := by
  -- it has no filter, its first id is 1, and what it has open it opened itself
  have hnew : w₀.ch.filters = [] ∧ w₀.ch.nextFilterId = 1 ∧ Backed w₀.sessionAt w₀.isotp := by
    have hcan : j2534ProtIso15765 ≠ j2534ProtCan := by decide
    rw [channelConnect, if_neg hcan, if_pos rfl] at hconn
    generalize hv : ({ w.teardown with
      ch := { w.teardown.ch with
          inUse := true, protocol := j2534ProtIso15765, flags := flags, ext := ext
          nextFilterId := 1 } } : J2534World) = v at hconn
    replace hconn := connected_of_noerror hconn
    have hfresh : v.ch.filters = [] ∧ v.ch.nextFilterId = 1 ∧ v.sessionAt = fun _ => none := by
      subst hv
      exact ⟨rfl, rfl, rfl⟩
    obtain ⟨hfilters, hnext, hsessions⟩ := hfresh
    have hback : Backed v.sessionAt v.isotp := by
      rw [hsessions]
      exact .empty v.isotp
    split at hconn
    · cases hconn
    · split at hconn
      · have hb := bound_isoBind v env ⟨txId, rxId, ext⟩ false
        generalize v.isoBind env txId rxId ext false = r at hb hconn
        cases hb with
        | refused hst hsame => exact absurd (congrArg Prod.snd hconn) hst
        | lost hready hfind hfail hst hlost => exact absurd (congrArg Prod.snd hconn) hst
        | filled hfill =>
          obtain rfl := congrArg Prod.fst hconn
          exact ⟨hfill.rest.filters.trans hfilters, hfill.rest.nextFilterId.trans hnext,
            hfill.backed hback⟩
      · obtain rfl := congrArg Prod.fst hconn
        exact ⟨hfilters, hnext, hback⟩
  obtain ⟨hfilters, hnext, hback⟩ := hnew
  constructor
  · rw [hfilters]
    exact .nil
  · rw [hfilters]
    intro f hf
    cases hf
  · exact hback
  · rfl
  · exact hnext

/-- A session is open in a slot for these ids, here and at the provider. -/
def J2534World.OpenFor (w : J2534World) (i : SessSlot) (ids : J2534EcuIds) : Prop :=
  ∃ s h, w.sessionAt i = some s ∧ s.ids = ids ∧ s.isotp = some h ∧ w.isotp h = some s.cfg

theorem openFor_of_ecuAt {w : J2534World} {i : SessSlot} {ids : J2534EcuIds}
    (hb : Backed w.sessionAt w.isotp) (h : w.ecuAt i = some ids) : w.OpenFor i ids := by
  obtain ⟨s, hs, hids⟩ := Option.map_eq_some_iff.mp h
  obtain ⟨handle, hh, hheld⟩ := hb.held i s hs
  exact ⟨s, handle, hs, hids, hh, hheld⟩

/-- **Filters and sessions agree.** In every run of calls on a connected channel
in which a session that is closed to be opened again is opened, and what is
then sent over it is sent: every `FLOW_CONTROL` filter names a session that is
open for the ids it was asked for, no two filters name one session, of up to
2^32 ids none is given out twice, and a call that returns an error leaves the
filters and the sessions as they were. -/
theorem j2534_filters_agree {w w₀ w' : J2534World} {env : J2534Env} {flags txId rxId : UInt32}
    {ext : Bool} {es : List J2534Event}
    (hconn : w.channelConnect env j2534ProtIso15765 flags txId rxId ext = (w₀, .noerror))
    (hrun : Run J2534MetStep w₀ es w')
    (hids : (es.filterMap J2534Event.filterId).length ≤ UInt32.size) :
    (∀ f ∈ w'.ch.filters, f.type = j2534FlowControlFilter →
      ∃ i ids, f.session = some i ∧ AskedFor es f ids ∧ w'.OpenFor i ids) ∧
    (w'.ch.filters.filterMap J2534ChFilter.names).Nodup ∧
    (es.filterMap J2534Event.filterId).Nodup ∧
    ∀ e w'', J2534MetStep w' e w'' → e.status ≠ .noerror → Untouched w' w'' := by
  have hinv : FiltersInv es w' := by
    refine hrun.history ?_ (filtersInv_connect hconn)
    rintro es s e s' ⟨hstep, hmeets⟩ h
    have hmove := perform_move hmeets
    rw [hstep] at hmove
    exact h.move hmove
  refine ⟨?_, hinv.leased.once, ?_, ?_⟩
  · intro f hf htype
    obtain ⟨i, hi⟩ := hinv.named f hf htype
    have hnames : f.names = some i := by rw [J2534ChFilter.names, if_pos htype, hi]
    obtain ⟨ids, hecu, hasked⟩ := hinv.leased.held f hf i hnames
    exact ⟨i, ids, hi, hasked, openFor_of_ecuAt hinv.backed hecu⟩
  · rw [hinv.given]
    exact nthFilterId_nodup hids
  · rintro e w'' ⟨hstep, hmeets⟩ hst
    have hmove := perform_move hmeets
    rw [hstep] at hmove
    exact hmove.error hst

/-! ## One ECU -/

/-- A provider with room for one session. -/
def sampleProvider : IsotpProvider where
  openSession held _ := if held 1 = none then .ok 1 else .error .noMem
  fresh := by
    intro held cfg h hok
    split at hok
    · rename_i hnone
      obtain rfl := Except.ok.inj hok
      exact hnone
    · cases hok

/-- A provider that refuses: another requester holds the id. -/
def refusingProvider : IsotpProvider where
  openSession _ _ := .error .invalidState
  fresh := by
    intro held cfg h hok
    cases hok

/-- Everything is up. -/
def sampleJ2534Env (provider : IsotpProvider) : J2534Env where
  providerReady := true
  provider := provider
  txReady := true
  sent := .ok ()
  canSent := .ok ()
  subscribed := true
  legacy := .noerror
  nowUs := 0

/-- A channel before its first CONNECT. -/
def idleChannel : J2534World where
  ch :=
    { inUse := false, protocol := 0, flags := 0, ext := false, filters := [], nextFilterId := 0
      sess := fun _ => {}, ind := [] }
  isotp := fun _ => none

/-- An ISO15765 channel without ids. -/
def sampleChannel : J2534World :=
  (idleChannel.channelConnect (sampleJ2534Env sampleProvider) j2534ProtIso15765 0 0 0 false).1

/-- Arm the engine: it answers 7E0 on 7E8. -/
def armEngine : J2534Call :=
  .addFilter j2534FlowControlFilter none (some ⟨0, [0, 0, 7, 0xE8]⟩) (some ⟨0, [0, 0, 7, 0xE0]⟩) true

/-- A padded request to the engine. -/
def askEngine : J2534Call := .write ⟨j2534TxFramePad, [0, 0, 7, 0xE0, 0x10, 0x03]⟩

/-- A call as an event. -/
def J2534World.event (w : J2534World) (env : J2534Env) (call : J2534Call) : J2534Event where
  call := call
  env := env
  status := (w.perform env call).2.1
  filterId := (w.perform env call).2.2

theorem event_step (w : J2534World) (env : J2534Env) (call : J2534Call) :
    J2534Step w (w.event env call) (w.perform env call).1 := rfl

/-- The channel with the engine's filter. -/
def armedChannel : J2534World :=
  (sampleChannel.perform (sampleJ2534Env sampleProvider) armEngine).1

/-- The channel after the request, whose session was opened again for it. -/
def askedChannel : J2534World :=
  (armedChannel.perform (sampleJ2534Env sampleProvider) askEngine).1

/-- The two calls. -/
def engineEvents : List J2534Event :=
  [sampleChannel.event (sampleJ2534Env sampleProvider) armEngine,
    armedChannel.event (sampleJ2534Env sampleProvider) askEngine]

/-- The engine is armed and asked with the other padding. -/
theorem j2534_filters_agree_engine :
    (armedChannel.reopened (sampleJ2534Env sampleProvider) askEngine).isSome ∧
    askedChannel.ch.filters.map J2534ChFilter.id = [1] ∧
    (∀ f ∈ askedChannel.ch.filters, f.type = j2534FlowControlFilter →
      ∃ i ids, f.session = some i ∧ AskedFor engineEvents f ids ∧ askedChannel.OpenFor i ids) := by
  have hmeets₁ : Meets sampleChannel (sampleJ2534Env sampleProvider) armEngine := by
    constructor
    · intro i ids pad hre
      cases hre
    · intro _ _
      rfl
  have hmeets₂ : Meets armedChannel (sampleJ2534Env sampleProvider) askEngine := by
    constructor
    · intro i ids pad hre
      obtain ⟨rfl, rfl, rfl⟩ := hre
      exact ⟨1, rfl⟩
    · intro _ _
      rfl
  have hconn : idleChannel.channelConnect (sampleJ2534Env sampleProvider) j2534ProtIso15765 0 0 0
      false = (sampleChannel, .noerror) := by rfl
  refine ⟨by decide, by decide, ?_⟩
  exact (j2534_filters_agree hconn (.cons ⟨event_step _ _ _, hmeets₁⟩
    (.cons ⟨event_step _ _ _, hmeets₂⟩ (.nil _))) (by decide)).1

/-- The engine is armed, and armed again while another requester holds its id:
the call fails, the filter of before is still listed, and the session it names
is closed. -/
theorem j2534_filters_disagree :
    ∃ w es, Run J2534Step sampleChannel es w ∧ (∃ e ∈ es, e.status = .failed ∧ e.filterId = none) ∧
      ∃ f ∈ w.ch.filters, f.type = j2534FlowControlFilter ∧
        ∃ i, f.session = some i ∧ w.sessionAt i = none := by
  refine ⟨(armedChannel.perform (sampleJ2534Env refusingProvider) armEngine).1,
    [sampleChannel.event (sampleJ2534Env sampleProvider) armEngine,
      armedChannel.event (sampleJ2534Env refusingProvider) armEngine],
    .cons (event_step _ _ _) (.cons (event_step _ _ _) (.nil _)),
    ⟨_, mem_cons_of_mem _ (mem_singleton_self _), ?_, ?_⟩, ?_⟩
  · decide
  · decide
  · exact ⟨_, mem_singleton_self _, by decide, ⟨0, by decide⟩, by decide, by decide⟩

end Meatpi
