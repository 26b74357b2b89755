import DialServer.Reference
import DialServer.Routing

/-!
# The port and the reference

The port is a copy of the reference with other callback signatures. On equal worlds, the
two send the same, call the same with the same arguments and leave the same world, unless a
request gets as far as `hide_cb` (`DialServer.Reference.requestHandler_passed_iff`). Handler
by handler this is an equation (`DialServer.Reference.handleAppStart_passed` and the ones
after it); the one that fails is that of `handle_app_hide`, where the reference passes the
run id and not its address.
-/

namespace DialServer.Reference

open CLib

variable {σ : Type}

/-! ### What the port passes -/

/-- The arguments of a call of the port: `start_cb` and `hide_cb` get `&app->run_id`, the
others `app->run_id`. -/
def passed (call : Call) : Passed :=
  ⟨call.owner, call.kind, call.args.fn, call.args.appName,
    match call.kind with
    | .start _ _ => .field call.owner
    | .hide => .field call.owner
    | .status => .value call.args.runId
    | .stop => .value call.args.runId,
    call.args.callbackData, call.ret⟩

/-- An outcome of the port, with the arguments of the callbacks. -/
def passedOutcome (o : DialServer.Outcome σ) : Outcome σ :=
  ⟨o.world, o.calls.map passed, o.replies, o.halt⟩

@[simp] theorem passedOutcome_error (w : World σ) (status : ℕ) (reason : String) :
    passedOutcome (.error w [] status reason) = .error w [] status reason := rfl

@[simp] theorem passedOutcome_crash (w : World σ) (halt : Halt) :
    passedOutcome (.crash w [] halt) = .crash w [] halt := rfl

@[simp] theorem passedOutcome_freeAppName (appName : AppName) (o : DialServer.Outcome σ) :
    passedOutcome (DialServer.freeAppName appName o) = freeAppName appName (passedOutcome o) := by
  obtain ⟨world, calls, replies, halt⟩ := o
  rcases halt with _ | halt
  · rw [DialServer.freeAppName, freeAppName, passedOutcome]
    dsimp only
    split <;> rfl
  · rfl

/-! ### Handler by handler -/

section Handlers

variable (H : Host σ) (w : World σ) (r : MgRequest) (appName : CStr) (originHeader : Option CStr)

theorem handleAppStart_passed :
    passedOutcome (DialServer.handleAppStart H w r appName originHeader) =
      handleAppStart H w r appName originHeader := by
  rw [DialServer.handleAppStart, handleAppStart]
  dsimp only
  rcases w.apps[findApp w.apps appName]? with _ | app
  · rfl
  · dsimp only
    split_ifs with hlarge hbad hdata
    · rfl
    · rfl
    · rw [additionalDataFor, if_pos hdata]
      rcases additionalDataParam w.port appName with f | param
      · rfl
      · simp only [launch]
        split_ifs <;> rfl
    · rw [additionalDataFor, if_neg hdata]
      simp only [launch]
      split_ifs <;> rfl

/-- The two servers ask for the status in the same way. -/
theorem pollStatus_passed (slot : ℕ) (app : DIALApp) :
    (DialServer.pollStatus H w slot app appName).world = (pollStatus H w slot app appName).world ∧
      (DialServer.pollStatus H w slot app appName).app = (pollStatus H w slot app appName).app ∧
      (DialServer.pollStatus H w slot app appName).canStop =
        (pollStatus H w slot app appName).canStop ∧
      passed (DialServer.pollStatus H w slot app appName).call =
        (pollStatus H w slot app appName).call :=
  ⟨rfl, rfl, rfl, rfl⟩

theorem handleAppStatus_passed :
    passedOutcome (DialServer.handleAppStatus H w r appName originHeader) =
      handleAppStatus H w r appName originHeader := by
  rw [DialServer.handleAppStatus, handleAppStatus]
  dsimp only
  rcases w.apps[findApp w.apps appName]? with _ | app
  · rfl
  · dsimp only
    rcases renderDialData app.dialData with f | dialData
    · rfl
    · rfl

theorem handleAppStop_passed :
    passedOutcome (DialServer.handleAppStop H w appName originHeader) =
      handleAppStop H w appName originHeader := by
  rw [DialServer.handleAppStop, handleAppStop]
  dsimp only
  rcases w.apps[findApp w.apps appName]? with _ | app
  · rfl
  · obtain ⟨hworld, happ, -, hcall⟩ := pollStatus_passed H w appName (findApp w.apps appName) app
    dsimp only
    rw [← hworld, ← happ, ← hcall]
    split_ifs <;> rfl

theorem handleDialData_passed (usePayload : Bool) :
    passedOutcome (DialServer.handleDialData H w r appName originHeader usePayload) =
      handleDialData H w r appName originHeader usePayload := by
  rw [DialServer.handleDialData, handleDialData]
  dsimp only
  rcases w.apps[findApp w.apps appName]? with _ | app
  · rfl
  · dsimp only
    rw [show dialDataBody r usePayload = DialServer.dialDataBody r usePayload from rfl]
    split_ifs
    · rfl
    · rfl
    · rcases parseParams (some (.ofBuffer (DialServer.dialDataBody r usePayload))) with f | dialData
      · rfl
      · dsimp only
        rcases storeDialData (H.canOpen w.host) w.dialDataDir w.files app.name dialData with
          halt | files
        · rfl
        · rfl

theorem optionsResponse_passed (hostHeader : Option CStr) (methods : CStr) :
    passedOutcome (DialServer.optionsResponse w hostHeader originHeader appName methods) =
      optionsResponse w hostHeader originHeader appName methods := by
  rw [DialServer.optionsResponse, optionsResponse]
  split_ifs
  · rfl
  · rfl

/-- A hide request for the application gets to its `hide_cb`: the application is
registered, and its `status_cb` does not report it stopped. -/
def GetsToHide (H : Host σ) (w : World σ) (appName : CStr) : Prop :=
  ∃ app, lookupApp w.apps appName = some app ∧
    (H.statusCb w.host ⟨app.callbacks.statusCb, appName, app.runId, app.callbackData⟩
      (getPayload w.apps)).2.1 ≠ .stopped

/-- What the two do when a hide request does not get to `hide_cb`. -/
theorem handleAppHide_passed (M : Memory σ) (h : ¬GetsToHide H w appName) :
    passedOutcome (DialServer.handleAppHide H w appName originHeader) =
      handleAppHide H M w appName originHeader := by
  have hslot : lookupApp w.apps appName = w.apps[findApp w.apps appName]? := rfl
  rw [GetsToHide, hslot] at h
  rw [DialServer.handleAppHide, handleAppHide]
  dsimp only
  rcases happ : w.apps[findApp w.apps appName]? with _ | app
  · rfl
  · have hstopped : (H.statusCb w.host ⟨app.callbacks.statusCb, appName, app.runId,
        app.callbackData⟩ (getPayload w.apps)).2.1 = .stopped := by
      by_contra hne
      exact h ⟨app, happ, hne⟩
    have hport : (DialServer.pollStatus H w (findApp w.apps appName) app appName).app.state =
        .stopped := hstopped
    have hreference : (pollStatus H w (findApp w.apps appName) app appName).app.state =
        .stopped := hstopped
    dsimp only
    rw [if_pos ⟨by simp [hport], by simp [hport]⟩,
      if_pos ⟨by simp [hreference], by simp [hreference]⟩]
    rfl

/-- **Where the two differ**: when `hide_cb` is called, the port passes it the address of
the run id, and the reference the run id. -/
theorem handleAppHide_calls_ne (M : Memory σ) (h : GetsToHide H w appName) :
    (passedOutcome (DialServer.handleAppHide H w appName originHeader)).calls ≠
      (handleAppHide H M w appName originHeader).calls := by
  obtain ⟨app, happ, hne⟩ := h
  have hslot : w.apps[findApp w.apps appName]? = some app := happ
  have hport : (DialServer.pollStatus H w (findApp w.apps appName) app appName).app.state ≠
      .stopped := hne
  have hreference : (pollStatus H w (findApp w.apps appName) app appName).app.state ≠ .stopped :=
    hne
  rw [DialServer.handleAppHide, handleAppHide]
  simp only [hslot, if_neg (not_hidden_iff.mpr hport), if_neg (not_hidden_iff.mpr hreference)]
  intro hcalls
  split_ifs at hcalls <;> simp [passedOutcome, passed, Outcome.error] at hcalls

end Handlers

/-! ### The request handler -/

section RequestHandler

variable (H : Host σ) (M : Memory σ) (w : World σ) (r : MgRequest)

/-- The handler of an action. -/
def handle (action : Action) (appName : CStr) : Outcome σ :=
  match action with
  | .start => handleAppStart H w r appName r.origin
  | .status => handleAppStatus H w r appName r.origin
  | .stop => handleAppStop H w appName r.origin
  | .hide => handleAppHide H M w appName r.origin
  | .dialData usePayload => handleDialData H w r appName r.origin usePayload

/-- What is done at the end of a route. -/
def perform : Route → Outcome σ
  | .crash f => .crash w [] (.fault f)
  | .refuse status reason => .error w [] status reason
  | .options appName methods =>
    freeAppName appName (optionsResponse w r.host r.origin appName.str methods)
  | .act action appName =>
    if action.guarded ∧ ¬(r.host.isSome ∧ isAllowedOrigin w.apps r.origin appName.str) then
      .error w [] 403 "Forbidden"
    else freeAppName appName (handle H M w r action appName.str)
  | .optionsFilled name methods =>
    comparing w (.filled name) (r.host.isSome ∧ scansFor r.origin) <|
      optionsResponse w r.host r.origin name methods
  | .actFilled action name =>
    comparing w (.filled name) (action.guarded ∧ r.host.isSome ∧ scansFor r.origin) <|
      if action.guarded ∧ ¬(r.host.isSome ∧ isAllowedOrigin w.apps r.origin name) then
        .error w [] 403 "Forbidden"
      else comparing w (.filled name) True (handle H M w r action name)

@[simp] theorem freeAppName_kept (str : CStr) (o : Outcome σ) : freeAppName (.kept str) o = o := by
  rw [freeAppName]
  cases o.halt <;> rfl

theorem comparing_kept (str : CStr) (compared : Prop) [Decidable compared] (o : Outcome σ) :
    comparing w (.kept str) compared o = o :=
  if_neg fun h => absurd h.1 (by simp [AppName.kept])

/-- A guarded action under a name that is not freed. -/
theorem perform_guarded {action : Action} (hguarded : action.guarded = true) (X : CStr) :
    perform H M w r (.act action (.kept X)) =
      if r.host.isSome ∧ isAllowedOrigin w.apps r.origin X then handle H M w r action X
      else .error w [] 403 "Forbidden" := by
  rw [perform, freeAppName_kept, AppName.kept_str, hguarded]
  simp only [true_and, ite_not]

section Copied

variable {uri : CStr} {n : ℕ} {appName : AppName} (h : copyAppName uri n = .ok appName)

include h

theorem perform_toOptions (methods : CStr) :
    perform H M w r (.toOptions appName methods) =
      comparing w appName (r.host.isSome ∧ scansFor r.origin)
        (optionsResponse w r.host r.origin appName.str methods) := by
  obtain ⟨str, rfl | rfl⟩ := copyAppName_cases h
  · rw [comparing_kept]
    exact freeAppName_kept str _
  · rfl

theorem perform_toAct_stop :
    perform H M w r (.toAct .stop appName) =
      comparing w appName (r.host.isSome ∧ scansFor r.origin)
        (if r.host.isSome ∧ isAllowedOrigin w.apps r.origin appName.str then
          comparing w appName True (handleAppStop H w appName.str r.origin)
        else .error w [] 403 "Forbidden") := by
  obtain ⟨str, rfl | rfl⟩ := copyAppName_cases h
  · rw [comparing_kept, comparing_kept]
    exact perform_guarded H M w r rfl str
  · change perform H M w r (.actFilled .stop str) = _
    simp only [perform, Action.guarded, true_and, ite_not]
    congr!

theorem perform_toAct_hide :
    perform H M w r (.toAct .hide appName) =
      comparing w appName True (handleAppHide H M w appName.str r.origin) := by
  obtain ⟨str, rfl | rfl⟩ := copyAppName_cases h
  · rw [comparing_kept]
    exact freeAppName_kept str _
  · simp [Route.toAct, AppName.filled, perform, comparing, Action.guarded, handle]

end Copied

/-- **The reference takes the routes of the port.** -/
theorem requestHandler_eq : requestHandler H M w r = perform H M w r r.route := by
  rw [requestHandler, MgRequest.route, route]
  split
  · -- `/run`
    cases hcopy : copyAppName r.uri (runNameLength r.uri) with
    | error f => rfl
    | ok appName =>
      dsimp only
      split
      · exact (perform_toOptions H M w r hcopy _).symm
      · split
        · exact (perform_toAct_stop H M w r hcopy).symm
        · rfl
  · split
    · -- `/apps/X`
      have hstart : Action.start.guarded = true := rfl
      dsimp only
      split_ifs
      · exact (freeAppName_kept _ _).symm
      · exact ((perform_guarded H M w r hstart _).trans (if_pos ‹_›)).symm
      · exact ((perform_guarded H M w r hstart _).trans (if_neg ‹_›)).symm
      · exact (freeAppName_kept _ _).symm
      · rfl
    · split
      · -- `/hide`
        cases hcopy : copyAppName r.uri (hideNameLength r.uri) with
        | error f => rfl
        | ok appName =>
          dsimp only
          split
          · exact (perform_toOptions H M w r hcopy _).symm
          · split
            · exact (perform_toAct_hide H M w r hcopy).symm
            · rfl
      · split_ifs <;> simp_all [perform, handle, Action.guarded]

/-- An action that is not to hide is the same for both. -/
theorem handle_passed {action : Action} (h : action ≠ .hide) (appName : CStr) :
    passedOutcome (DialServer.handle H w r action appName) = handle H M w r action appName := by
  cases action with
  | start => exact handleAppStart_passed H w r appName r.origin
  | status => exact handleAppStatus_passed H w r appName r.origin
  | stop => exact handleAppStop_passed H w appName r.origin
  | hide => exact absurd rfl h
  | dialData usePayload => exact handleDialData_passed H w r appName r.origin usePayload

theorem passedOutcome_comparing (appName : AppName) (compared : Prop) [Decidable compared]
    (o : DialServer.Outcome σ) :
    passedOutcome (DialServer.comparing w appName compared o) =
      comparing w appName compared (passedOutcome o) := by
  rw [DialServer.comparing, comparing]
  split <;> rfl

/-- Where a comparison leaves its array, what follows it makes no difference. -/
theorem comparing_filled_congr {name : CStr} {o o' : Outcome σ}
    (h : ¬OutrunsArray w.apps name → o = o') :
    comparing w (.filled name) True o = comparing w (.filled name) True o' := by
  by_cases hout : OutrunsArray w.apps name
  · rw [comparing, comparing, if_pos ⟨rfl, trivial, hout⟩, if_pos ⟨rfl, trivial, hout⟩]
  · rw [h hout]

/-- Under a name that fills its array nothing gets to `hide_cb`. -/
theorem comparing_handle_passed (action : Action) (name : CStr) :
    passedOutcome (DialServer.comparing w (.filled name) True
      (DialServer.handle H w r action name)) =
        comparing w (.filled name) True (handle H M w r action name) := by
  rw [passedOutcome_comparing]
  refine comparing_filled_congr w fun hout => ?_
  by_cases hhide : action = .hide
  · subst hhide
    refine handleAppHide_passed H w name r.origin M ?_
    rintro ⟨app, happ, -⟩
    rw [lookupApp_of_not_outrunsArray hout] at happ
    exact absurd happ (by simp)
  · exact handle_passed H M w r hhide name

@[simp] theorem freeAppName_calls (appName : AppName) (o : Outcome σ) :
    (freeAppName appName o).calls = o.calls := by
  rw [freeAppName]
  cases o.halt with
  | some halt => rfl
  | none => cases appName.onHeap <;> rfl

/-- **The port does what the reference does**, unless the request gets to `hide_cb`. -/
theorem requestHandler_passed_iff :
    passedOutcome (DialServer.requestHandler H w r) = requestHandler H M w r ↔
      ¬∃ appName, r.route = .act .hide appName ∧ GetsToHide H w appName.str := by
  rw [DialServer.requestHandler_eq, requestHandler_eq]
  cases hroute : r.route with
  | crash f => exact ⟨fun _ hhide => by simp at hhide, fun _ => rfl⟩
  | refuse status reason => exact ⟨fun _ hhide => by simp at hhide, fun _ => rfl⟩
  | options appName methods =>
    rw [DialServer.perform, perform, passedOutcome_freeAppName, optionsResponse_passed]
    exact ⟨fun _ hhide => by simp at hhide, fun _ => rfl⟩
  | act action appName =>
    rw [DialServer.perform, perform]
    by_cases hhide : action = .hide
    · obtain rfl := hhide
      -- hiding is not guarded, so the handler runs
      rw [if_neg (fun hguard => absurd hguard.1 (by decide)),
        if_neg (fun hguard => absurd hguard.1 (by decide)), passedOutcome_freeAppName]
      constructor
      · rintro heq ⟨name, hname, hgets⟩
        obtain ⟨-, rfl⟩ := Route.act.inj hname
        have hcalls := congrArg Outcome.calls heq
        rw [freeAppName_calls, freeAppName_calls] at hcalls
        exact handleAppHide_calls_ne H w appName.str r.origin M hgets hcalls
      · intro hnot
        have hgets : ¬GetsToHide H w appName.str := fun hgets => hnot ⟨appName, rfl, hgets⟩
        exact congrArg (freeAppName appName) (handleAppHide_passed H w appName.str r.origin M hgets)
    · have hnot : ¬∃ name, Route.act action appName = .act .hide name ∧
          GetsToHide H w name.str := by
        rintro ⟨name, hname, -⟩
        exact hhide (Route.act.inj hname).1
      refine ⟨fun _ => hnot, fun _ => ?_⟩
      split
      · rfl
      · rw [passedOutcome_freeAppName, handle_passed H M w r hhide]
  | optionsFilled name methods =>
    rw [DialServer.perform, perform, passedOutcome_comparing, optionsResponse_passed]
    exact ⟨fun _ hhide => by simp at hhide, fun _ => rfl⟩
  | actFilled action name =>
    refine ⟨fun _ hhide => by simp at hhide, fun _ => ?_⟩
    rw [DialServer.perform, perform, passedOutcome_comparing]
    congr 1
    split
    · rfl
    · exact comparing_handle_passed H M w r action name

end RequestHandler

/-! ### A callback that uses its argument -/

/-- Callbacks of an application that is running, and whose `hide_cb` stores a run id. -/
def hidingHost : Host Unit :=
  { probeHost with hideCb := fun _ _ _ => ((), .hide, some 7) }

/-- No run id points to anything that is looked at. -/
def noMemory : Memory Unit := ⟨fun _ _ => none, fun _ _ _ => ()⟩

/-- A request to hide YouTube. -/
def hideRequest : MgRequest := probeRequest (.lit "POST") (.lit "/apps/YouTube/run/hide")

/-- **A `hide_cb` that stores a run id** is passed its address by the port, and stores it;
the reference passes the run id, and the field stays as it was. -/
theorem hide_drifts :
    (passedOutcome
      (DialServer.requestHandler hidingHost (probeWorld (.lit "YouTube")) hideRequest)).calls ≠
        (requestHandler hidingHost noMemory (probeWorld (.lit "YouTube")) hideRequest).calls ∧
    (DialServer.requestHandler hidingHost (probeWorld (.lit "YouTube")) hideRequest).world.apps.map
        DIALApp.runId = [some 7] ∧
    (requestHandler hidingHost noMemory (probeWorld (.lit "YouTube")) hideRequest).world.apps.map
        DIALApp.runId = [none] := by
  have hroute : hideRequest.route = .act .hide (.kept (.lit "YouTube")) :=
    route_appRunHide (X := .lit "YouTube") (by decide) (by decide)
  rw [DialServer.requestHandler_eq, requestHandler_eq, hroute]
  refine ⟨?_, rfl, rfl⟩
  decide

end DialServer.Reference
