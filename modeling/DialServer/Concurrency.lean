import DialServer.Extraction
import DialServer.Lib.TwoPhase
import DialServer.Lifecycle

/-!
# Requests at the same time

The HTTP layer runs `request_handler` in several threads, and the server has one
mutex. A request takes it for the origin check and gives it back, and takes it
again for the handler, which does everything else – callbacks, files, replies –
before it gives it back. So a request is two atomic steps, or one where nothing is
checked or nothing is handled, and other requests may come between the two:
`DialServer.firstStep` and `DialServer.secondStep`, which one after the other are
`request_handler` (`DialServer.requestHandler_eq_steps`).

The check is stale by the time the handler runs. That does no harm, since it
depends on what registration fixed about the applications, and no handler changes
that: `DialServer.serialisable` shows that any interleaving has the effects of
whole requests, one at a time, in the order the handlers took the mutex.
-/

namespace DialServer

open CLib TwoPhase

variable {σ : Type}

/-! ### The two steps -/

/-- The first step of a request: everything before the mutex is taken for a
handler. It may be all there is to do. -/
def firstStep (w : World σ) (r : MgRequest) : Outcome σ ⊕ (Action × AppName) :=
  match r.route with
  | .crash f => .inl (.crash w [] (.fault f))
  | .refuse status reason => .inl (.error w [] status reason)
  | .options appName methods =>
    .inl (freeAppName appName (optionsResponse w r.host r.origin appName.str methods))
  | .act action appName =>
    if action.guarded ∧ ¬(r.host.isSome ∧ isAllowedOrigin w.apps r.origin appName.str) then
      .inl (.error w [] 403 "Forbidden")
    else .inr (action, appName)
  | .optionsFilled name methods =>
    .inl (comparing w (.filled name) (r.host.isSome ∧ scansFor r.origin)
      (optionsResponse w r.host r.origin name methods))
  | .actFilled action name =>
    if (action.guarded ∧ r.host.isSome ∧ scansFor r.origin) ∧ OutrunsArray w.apps name then
      .inl (.crash w [] (.fault .unterminated))
    else if action.guarded ∧ ¬(r.host.isSome ∧ isAllowedOrigin w.apps r.origin name) then
      .inl (.error w [] 403 "Forbidden")
    else .inr (action, .filled name)

/-- The second step: the handler, which looks the name up. -/
def secondStep (H : Host σ) (w : World σ) (r : MgRequest) (action : Action) (appName : AppName) :
    Outcome σ :=
  comparing w appName True (freeAppName appName (handle H w r action appName.str))

/-- **The two steps are the request handler.** -/
theorem requestHandler_eq_steps (H : Host σ) (w : World σ) (r : MgRequest) :
    requestHandler H w r =
      match firstStep w r with
      | .inl o => o
      | .inr (action, appName) => secondStep H w r action appName := by
  rw [requestHandler_eq, firstStep]
  cases hroute : r.route with
  | crash f => rfl
  | refuse status reason => rfl
  | options appName methods => rfl
  | act action appName =>
    dsimp only [perform]
    split
    · rfl
    · exact (comparing_of_not_full w (route_fits hroute).1 True _).symm
  | optionsFilled name methods => rfl
  | actFilled action name =>
    dsimp only [perform]
    rw [comparing]
    by_cases hcrash : (action.guarded ∧ r.host.isSome ∧ scansFor r.origin) ∧
        OutrunsArray w.apps name
    · rw [if_pos hcrash, if_pos ⟨rfl, hcrash⟩]
    · rw [if_neg hcrash, if_neg fun h => hcrash h.2]
      split
      · rfl
      · dsimp only [secondStep]
        rw [freeAppName_filled]
        rfl

/-- The second step stays with its application. -/
theorem actsOn_secondStep (H : Host σ) (w : World σ) (r : MgRequest) (action : Action)
    (appName : AppName) : ActsOn w (secondStep H w r action appName) appName.str :=
  ((actsOn_handle H w r action appName.str).freeAppName appName).comparing appName True

/-- A request that is answered in its first step changes nothing. -/
theorem world_of_firstStep {w : World σ} {r : MgRequest} {o : Outcome σ}
    (h : firstStep w r = .inl o) : o.world = w := by
  rw [firstStep] at h
  cases hroute : r.route with
  | crash f =>
    rw [hroute] at h
    rw [← Sum.inl.inj h]
    rfl
  | refuse status reason =>
    rw [hroute] at h
    rw [← Sum.inl.inj h]
    rfl
  | options appName methods =>
    rw [hroute] at h
    rw [← Sum.inl.inj h, freeAppName_world, optionsResponse_world]
  | act action appName =>
    rw [hroute] at h
    dsimp only at h
    split at h
    · rw [← Sum.inl.inj h]
      rfl
    · exact absurd h (by simp)
  | optionsFilled name methods =>
    rw [hroute] at h
    rw [← Sum.inl.inj h, comparing]
    split
    · rfl
    · exact optionsResponse_world ..
  | actFilled action name =>
    rw [hroute] at h
    dsimp only at h
    split_ifs at h
    · rw [← Sum.inl.inj h]
      rfl
    · rw [← Sum.inl.inj h]
      rfl

/-- **What lets a request through does not change**: it would be let through in
every world where the same applications are registered. -/
theorem firstStep_congr {w w' : World σ} {r : MgRequest} {action : Action} {appName : AppName}
    (hfixed : w'.apps.map DIALApp.fixed = w.apps.map DIALApp.fixed)
    (h : firstStep w r = .inr (action, appName)) : firstStep w' r = .inr (action, appName) := by
  rw [firstStep] at h ⊢
  cases hroute : r.route with
  | crash f => simp [hroute] at h
  | refuse status reason => simp [hroute] at h
  | options appName methods => simp [hroute] at h
  | act action appName =>
    rw [hroute] at h
    dsimp only at h ⊢
    rw [isAllowedOrigin_congr hfixed]
    split at h
    · exact absurd h (by simp)
    · rename_i hpass
      rw [if_neg hpass, h]
  | optionsFilled name methods => simp [hroute] at h
  | actFilled action name =>
    rw [hroute] at h
    dsimp only at h ⊢
    rw [isAllowedOrigin_congr hfixed]
    split_ifs at h with hcrash hpass
    have hcrash' : ¬((action.guarded ∧ r.host.isSome ∧ scansFor r.origin) ∧
        OutrunsArray w'.apps name) := fun h => hcrash ⟨h.1, h.2.congr hfixed⟩
    rw [if_neg hcrash', if_neg hpass, h]

/-! ### Interleavings -/

/-- What a request is seen to do: the callbacks it made, and what it was sent. -/
structure Reaction where
  calls : List Call
  replies : List Reply
  deriving DecidableEq

/-- The process after an outcome, and what was seen of it. -/
def Outcome.react (o : Outcome σ) : Process σ × Reaction :=
  (⟨o.world, o.halt⟩, ⟨o.calls, o.replies⟩)

/-- The server as a system of requests in two steps. -/
def server (H : Host σ) : System (Process σ) MgRequest (Action × AppName) Reaction where
  check p r := (firstStep p.world r).map Outcome.react id
  act p r passed := (secondStep H p.world r passed.1 passed.2).react
  up p := p.halt.isNone

theorem server_check (H : Host σ) (p : Process σ) (r : MgRequest) :
    (server H).check p r = (firstStep p.world r).map Outcome.react id := rfl

theorem server_check_eq_inl {H : Host σ} {p : Process σ} {r : MgRequest}
    {res : Process σ × Reaction} :
    (server H).check p r = .inl res ↔ ∃ o, firstStep p.world r = .inl o ∧ o.react = res := by
  rw [server_check]
  cases firstStep p.world r <;> simp

theorem server_check_eq_inr {H : Host σ} {p : Process σ} {r : MgRequest}
    {passed : Action × AppName} :
    (server H).check p r = .inr passed ↔ firstStep p.world r = .inr passed := by
  rw [server_check]
  cases firstStep p.world r <;> simp

/-- Both steps at once are the request handler. -/
theorem server_atomic (H : Host σ) (p : Process σ) (r : MgRequest) :
    (server H).atomic p r = (requestHandler H p.world r).react := by
  rw [System.atomic, requestHandler_eq_steps]
  rcases hfirst : firstStep p.world r with o | ⟨action, appName⟩
  · rw [server_check_eq_inl.mpr ⟨o, hfirst, rfl⟩]
  · rw [server_check_eq_inr.mpr hfirst]
    rfl

/-- The server as a machine that serves whole requests, one at a time. -/
def serialServer {ι : Type} (H : Host σ) (requests : ι → MgRequest) :
    Trace.Machine (Process σ) ι (ι × Reaction) where
  step p i :=
    let o := requestHandler H p.world (requests i)
    (⟨o.world, o.halt⟩, [(i, ⟨o.calls, o.replies⟩)])
  up p := p.halt.isNone

/-- One request at a time, the steps make the request handler. -/
theorem server_serial {ι : Type} (H : Host σ) (requests : ι → MgRequest) :
    (server H).serial requests = serialServer H requests := by
  rw [System.serial, serialServer]
  congr 1
  funext p i
  rw [server_atomic]
  rfl

/-- No step changes what registration fixed. -/
theorem server_stable (H : Host σ) :
    (server H).Stable fun p => p.world.apps.map DIALApp.fixed := by
  refine ⟨fun p r res hres => ?_, fun p r passed => ?_, fun p p' r passed hview hpass => ?_⟩
  · obtain ⟨o, ho, rfl⟩ := server_check_eq_inl.mp hres
    rw [Outcome.react, world_of_firstStep ho]
  · exact (actsOn_secondStep H p.world r passed.1 passed.2).fixed
  · exact server_check_eq_inr.mpr (firstStep_congr hview (server_check_eq_inr.mp hpass))

/-- The callbacks of a list of answered requests, in order. -/
def tracedCalls {ι : Type} (answered : List (ι × Reaction)) : List Call :=
  answered.flatMap fun p => p.2.calls

section

variable {ι : Type} [DecidableEq ι]

/-- What the steps of a schedule lead to, from a world where nothing is going
on. -/
def concurrently (H : Host σ) (w : World σ) (requests : ι → MgRequest) (schedule : List ι) :
    Config (Process σ) (Action × AppName) Reaction ι :=
  (server H).interleave requests ⟨w, none⟩ schedule

/-- **An interleaving has the effects of a run of whole requests** in the given
order. -/
structure SameAsSerial (H : Host σ) (w : World σ) (requests : ι → MgRequest)
    (schedule order : List ι) : Prop where
  /-- The worlds are the same, and the process survives both or neither. -/
  process : (concurrently H w requests schedule).state =
    ((serialServer H requests).run ⟨w, none⟩ order).1
  /-- The callbacks are the same, in the same order. -/
  calls : tracedCalls (concurrently H w requests schedule).answered =
    tracedCalls ((serialServer H requests).run ⟨w, none⟩ order).2
  /-- Each request gets the same reply. -/
  replies : ∀ i reaction, (i, reaction) ∈ (concurrently H w requests schedule).answered ↔
    (i, reaction) ∈ ((serialServer H requests).run ⟨w, none⟩ order).2
  /-- The order is that in which the handlers took the mutex. -/
  acted : (concurrently H w requests schedule).acted.Sublist order
  /-- No request comes twice. -/
  nodup : order.Nodup
  /-- It is about the requests that were answered. -/
  answered : ∀ i, i ∈ order ↔ (concurrently H w requests schedule).phase i = .finished
  /-- A request is answered after two turns, unless the process ended. -/
  complete : (concurrently H w requests schedule).state.halt = none →
    ∀ i, 2 ≤ schedule.count i → i ∈ order

/-- **Concurrent requests are serialisable**: whatever is registered, whatever the
requests are and however their steps are interleaved, there is an order of whole
requests with the same effects, and in it the handlers come as they took the
mutex. -/
theorem serialisable (H : Host σ) (w : World σ) (requests : ι → MgRequest) (schedule : List ι) :
    ∃ order, SameAsSerial H w requests schedule order := by
  have h := System.serialised_interleave (server_stable H) requests ⟨w, none⟩ schedule
  have hreplay := h.replay
  rw [server_serial] at hreplay
  refine ⟨_, ?_, ?_, ?_, h.acted, h.nodup, h.answered_iff, fun hup i hi => ?_⟩
  · rw [hreplay, concurrently]
  · rw [hreplay, concurrently]
  · rw [hreplay, concurrently]
    exact fun _ _ => Iff.rfl
  · exact (h.answered_iff i).mpr
      (System.finished_of_two_turns requests _ (Option.isNone_iff_eq_none.mpr hup) hi)

end

end DialServer
