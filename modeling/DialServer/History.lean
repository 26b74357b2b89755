import DialServer.Launch
import DialServer.Lifecycle

/-!
# What is recorded, and when it was written

The entry that `register_app` makes has two fields it does not set: the run id, which
`start_cb` and `hide_cb` write through a pointer, and the array `payload`, which a
successful launch fills. What they hold is a matter of the past. The history of a run
(`DialServer.historyOf`) lists the registrations and the writes in order, and
`DialServer.recorded_run` reads both fields off it: each holds what was written last
since the application was registered, and is as `malloc` left it if nothing was.

Two consequences. `get_payload` hands out the body of the last launch as a string
exactly when that body leaves room for a NUL (`DialServer.reportsLaunch_iff`); and a
run id that is passed to a callback, or a payload that `get_payload` hands out, was
written exactly when something was written at all
(`DialServer.writtenBeforeUse_iff`). A client that stops an application nobody has
launched is enough for it not to be.
-/

namespace DialServer

open CLib

variable {σ : Type}

/-! ### Histories -/

/-- What happens to the two fields. -/
inductive Event
  /-- `register_app` returned 1. -/
  | registered (X : CStr)
  /-- `unregister_app` returned 1. -/
  | unregistered (X : CStr)
  /-- `start_cb` or `hide_cb` wrote a run id. -/
  | wroteRunId (X : CStr) (runId : Ptr)
  /-- A launch with this body was answered 201. -/
  | launched (X : CStr) (body : List UInt8)
  deriving DecidableEq

/-- The entry of an application comes or goes. -/
def Resets (X : CStr) (e : Event) : Prop := e = .registered X ∨ e = .unregistered X

instance (X : CStr) : DecidablePred (Resets X) := fun _ => instDecidableOr

/-- The run id an event writes for an application. -/
def runIdWritten (X : CStr) : Event → Option Ptr
  | .wroteRunId Y runId => if Y = X then some runId else none
  | _ => none

/-- The body an event launches an application with. -/
def bodyLaunched (X : CStr) : Event → Option (List UInt8)
  | .launched Y body => if Y = X then some body else none
  | _ => none

/-- What a callback does with the rest of the process: the state it leaves, and what it
writes through `run_id`, if it does. -/
def callEffect (H : Host σ) (view : PayloadView) (host : σ) (call : Call) : σ × Option Ptr :=
  match call.kind with
  | .start payload additionalData =>
    let (host, _, runId) := H.startCb host call.args payload additionalData view
    (host, runId)
  | .status => ((H.statusCb host call.args view).1, none)
  | .stop => (H.stopCb host call.args view, none)
  | .hide =>
    let (host, _, runId) := H.hideCb host call.args view
    (host, runId)

/-- A list of callbacks, one after the other. -/
def replay (H : Host σ) (view : PayloadView) (host : σ) : List Call → σ × List Event
  | [] => (host, [])
  | call :: calls =>
    let done := callEffect H view host call
    let rest := replay H view done.1 calls
    (rest.1, (done.2.map (Event.wroteRunId call.owner)).toList ++ rest.2)

/-- The launch that a request was, if it was one. -/
def launchEvents (r : MgRequest) (answers : List ℕ) : List Event :=
  if r.requestMethod = .lit "POST" ∧ appsUri.bytes <+: r.uri.bytes ∧ answers = [201] then
    [.launched (r.uri.drop appsUri.strlen) r.body]
  else []

/-- What a request does to the two fields. -/
def requestEvents (H : Host σ) (w : World σ) (r : MgRequest) : List Event :=
  (replay H (getPayload w.apps) w.host (requestHandler H w r).calls).2 ++
    launchEvents r (requestHandler H w r).answers

/-- What can happen to a server. -/
inductive ServerOp
  /-- `register_app`. -/
  | register (r : Registration)
  /-- `unregister_app`. -/
  | unregister (appName : CStr)
  /-- A request. -/
  | request (r : MgRequest)

/-- The server as a machine that emits its history. -/
def serverMachine (H : Host σ) : Trace.Machine (Process σ) ServerOp Event where
  step p
    | .register r =>
      match registerApp p.world r with
      | .error f => (⟨p.world, some (.fault f)⟩, [])
      | .ok (w, ret) => (⟨w, none⟩, if ret = 1 then [.registered r.appName] else [])
    | .unregister appName =>
      let (w, ret) := unregisterApp p.world appName
      (⟨w, none⟩, if ret = 1 then [.unregistered appName] else [])
    | .request r =>
      let o := requestHandler H p.world r
      (⟨o.world, o.halt⟩, requestEvents H p.world r)
  up p := p.halt.isNone

/-- The server as it starts. -/
def emptyServer (files : Files) (host : σ) (port : UInt16) (dir : CharArray 256) : World σ :=
  ⟨[], files, host, port, dir⟩

/-- What a run leaves. -/
def serverAfter (H : Host σ) (w : World σ) (ops : List ServerOp) : World σ :=
  ((serverMachine H).run ⟨w, none⟩ ops).1.world

/-- The history of a run. -/
def historyOf (H : Host σ) (w : World σ) (ops : List ServerOp) : List Event :=
  ((serverMachine H).run ⟨w, none⟩ ops).2

/-! ### What one request writes -/

/-- The run id recorded for an application, if one was written. -/
def recordedRunId (w : World σ) (X : CStr) : Option Ptr := (lookupApp w.apps X).bind DIALApp.runId

/-- The payload recorded for an application, if one was written. -/
def recordedPayload (w : World σ) (X : CStr) : Option Payload :=
  (lookupApp w.apps X).bind DIALApp.payload

/-- **What a request may write**: a run id and a payload, both of the application it acts
on, and the payload only when it is answered 201. -/
structure Writes (H : Host σ) (w : World σ) (r : MgRequest) (o : Outcome σ) (X : CStr)
    (runId : Option Ptr) (payload : Option Payload) : Prop where
  /-- The other applications are left alone. -/
  acts : ActsOn w o X
  /-- Every callback saw the payloads of the world before, and this is what they wrote. -/
  replayed : replay H (getPayload w.apps) w.host o.calls =
    (o.world.host, (runId.map (Event.wroteRunId X)).toList)
  /-- The run id is recorded. -/
  runId_eq : recordedRunId o.world X = runId.or (recordedRunId w X)
  /-- The payload is recorded. -/
  payload_eq : recordedPayload o.world X = payload.or (recordedPayload w X)
  /-- The payload is the body, and it is good. -/
  body : ∀ p, payload = some p → p.bytes = r.body ∧ Printable p.bytes
  /-- A launch that is answered 201 is one that writes the payload. -/
  answered : o.answers = [201] ↔ payload ≠ none

section Writes

variable {H : Host σ} {w : World σ} {r : MgRequest} {o : Outcome σ} {X : CStr} {app : DIALApp}

/-- A request that leaves the world alone and calls nobody writes nothing. -/
theorem writes_of_eq (hw : o.world = w) (hcalls : o.calls = []) (hanswers : o.answers ≠ [201]) :
    Writes H w r o X none none where
  acts := actsOn_of_eq hw fun call hcall => by
    rw [hcalls] at hcall
    exact absurd hcall List.not_mem_nil
  replayed := by
    rw [hcalls, hw]
    rfl
  runId_eq := by rw [hw, Option.none_or]
  payload_eq := by rw [hw, Option.none_or]
  body _ hp := absurd hp (by simp)
  answered := iff_of_false hanswers (by simp)

/-- What is recorded for an application after its entry was written. -/
theorem recorded_set_fields {w' : World σ} {app' : DIALApp} (happ : lookupApp w.apps X = some app)
    (happs : w'.apps = w.apps.set (findApp w.apps X) app') (hname : app'.name = app.name) :
    recordedRunId w' X = app'.runId ∧ recordedPayload w' X = app'.payload := by
  rw [recordedRunId, recordedPayload, happs, lookupApp_set happ hname]
  exact ⟨rfl, rfl⟩

/-- `get_payload` does not see what `status_cb` reported. -/
theorem getPayload_pollStatus (happ : lookupApp w.apps X = some app) :
    getPayload (pollStatus H w (findApp w.apps X) app X).world.apps = getPayload w.apps := by
  funext Y
  rw [pollStatus_world_apps, getPayload, getPayload]
  rcases eq_or_ne Y X with rfl | hne
  · rw [lookupApp_set happ (pollStatus_app_name _ _ _ _ _), happ]
    rfl
  · have hacts : ActsOn w ⟨(pollStatus H w (findApp w.apps X) app X).world, [], [], none⟩ X :=
      actsOn_of_set happ rfl rfl (fun _ _ => rfl) rfl rfl (by simp)
    exact congrArg (Option.map DIALApp.payload) (hacts.lookupApp_of_ne hne)

/-- A request that writes the entry of an application, and calls back. -/
theorem writes_of_set {app' : DIALApp} {runId : Option Ptr} {payload : Option Payload}
    (happ : lookupApp w.apps X = some app) (hacts : ActsOn w o X)
    (happs : o.world.apps = w.apps.set (findApp w.apps X) app') (hname : app'.name = app.name)
    (hrunId : app'.runId = runId.or app.runId) (hpayload : app'.payload = payload.or app.payload)
    (hreplay : replay H (getPayload w.apps) w.host o.calls =
      (o.world.host, (runId.map (Event.wroteRunId X)).toList))
    (hbody : ∀ p, payload = some p → p.bytes = r.body ∧ Printable p.bytes)
    (hanswers : o.answers = [201] ↔ payload ≠ none) : Writes H w r o X runId payload where
  acts := hacts
  replayed := hreplay
  runId_eq := by
    rw [(recorded_set_fields happ happs hname).1, hrunId, recordedRunId, happ, Option.bind_some]
  payload_eq := by
    rw [(recorded_set_fields happ happs hname).2, hpayload, recordedPayload, happ,
      Option.bind_some]
  body := hbody
  answered := hanswers

/-- **A launch writes what `start_cb` writes**, and the payload if it reports “running”. -/
theorem writes_launch (origin : Option CStr) {body : Payload} (param : CStr)
    (happ : lookupApp w.apps X = some app) (hbody : body.bytes = r.body)
    (hgood : Printable body.bytes) :
    Writes H w r (launch H w r (findApp w.apps X) app X origin body param) X
      (launchResult H w app X body param).2.2
      (if (launchResult H w app X body param).2.1 = .running then some body else none) := by
  refine writes_of_set happ (actsOn_launch happ) (launch_apps ..) rfl rfl ?_ ?_ ?_ ?_
  · rw [launchedApp]
    split
    · rw [Option.some_or]
    · rw [Option.none_or]
  · rw [launch_calls, launch_host, name_of_lookupApp happ]
    simp only [replay, callEffect, List.append_nil]
    rfl
  · intro p hp
    obtain ⟨-, rfl⟩ : _ ∧ body = p := by simpa using hp
    exact ⟨hbody, hgood⟩
  · rw [Outcome.answers, launch_replies]
    split
    · simp
    · simp [Reply.status]

theorem writes_handleAppStart (origin : Option CStr) : ∃ runId payload,
    Writes H w r (handleAppStart H w r X origin) X runId payload := by
  simp only [handleAppStart]
  split
  · exact ⟨none, none, writes_of_eq rfl rfl (by simp)⟩
  · rename_i app happ
    split
    · exact ⟨none, none, writes_of_eq rfl rfl (by simp)⟩
    · rename_i hsmall
      split
      · exact ⟨none, none, writes_of_eq rfl rfl (by simp)⟩
      · rename_i hgood
        split
        · exact ⟨none, none, writes_of_eq rfl rfl (by simp)⟩
        · refine ⟨_, _, writes_launch origin _ happ ?_ ?_⟩
          · -- what was read is the whole body, or it would have been too long
            refine List.take_of_length_le ?_
            rw [List.length_take] at hsmall
            omega
          · exact isBadPayload_eq_false.mp (Bool.eq_false_iff.mpr hgood)

theorem writes_handleAppStatus (origin : Option CStr) :
    Writes H w r (handleAppStatus H w r X origin) X none none := by
  have hacts : ActsOn w (handleAppStatus H w r X origin) X := actsOn_handleAppStatus
  revert hacts
  simp only [handleAppStatus]
  split
  · exact fun _ => writes_of_eq rfl rfl (by simp)
  · rename_i app happ
    split
    · exact fun _ => writes_of_eq rfl rfl (by simp)
    · intro hacts
      exact writes_of_set happ hacts rfl rfl rfl rfl rfl (by simp) (by simp [Outcome.answers])

theorem writes_handleAppStop (origin : Option CStr) :
    Writes H w r (handleAppStop H w X origin) X none none := by
  have hacts : ActsOn w (handleAppStop H w X origin) X := actsOn_handleAppStop
  revert hacts
  simp only [handleAppStop]
  split
  · exact fun _ => writes_of_eq rfl rfl (by simp)
  · rename_i app happ
    rw [getPayload_pollStatus happ]
    split
    · intro hacts
      exact writes_of_set happ hacts rfl rfl rfl rfl rfl (by simp) (by simp)
    · intro hacts
      exact writes_of_set happ hacts (List.set_set _) rfl rfl rfl rfl (by simp)
        (by simp [Outcome.answers])

/-- **Hiding writes what `hide_cb` writes.** -/
theorem writes_handleAppHide (origin : Option CStr) : ∃ runId,
    Writes H w r (handleAppHide H w X origin) X runId none := by
  have hacts : ActsOn w (handleAppHide H w X origin) X := actsOn_handleAppHide
  revert hacts
  simp only [handleAppHide]
  split
  · exact fun _ => ⟨none, writes_of_eq rfl rfl (by simp)⟩
  · rename_i app happ
    rw [getPayload_pollStatus happ]
    split
    · -- the poll came first, and it writes neither field
      intro hacts
      exact ⟨none, writes_of_set happ hacts rfl rfl rfl rfl rfl (by simp) (by simp)⟩
    · split
      · intro hacts
        refine ⟨_, writes_of_set happ hacts (List.set_set _) rfl rfl rfl ?_ (by simp) (by simp)⟩
        simp only [calls_error, replay, callEffect, pollStatus_call_kind, List.append_nil]
        rw [pollStatus_app_name, name_of_lookupApp happ]
        rfl
      · intro hacts
        refine ⟨_, writes_of_set happ hacts (List.set_set _) rfl rfl rfl ?_ (by simp)
          (by simp [Outcome.answers])⟩
        simp only [replay, callEffect, pollStatus_call_kind, List.append_nil]
        rw [pollStatus_app_name, name_of_lookupApp happ]
        rfl

theorem writes_handleDialData (origin : Option CStr) (usePayload : Bool) :
    Writes H w r (handleDialData H w r X origin usePayload) X none none := by
  have hacts : ActsOn w (handleDialData H w r X origin usePayload) X := actsOn_handleDialData
  revert hacts
  simp only [handleDialData]
  split
  · exact fun _ => writes_of_eq rfl rfl (by simp)
  · rename_i app happ
    split
    · exact fun _ => writes_of_eq rfl rfl (by simp)
    · split
      · exact fun _ => writes_of_eq rfl rfl (by simp)
      · split
        · exact fun _ => writes_of_eq rfl rfl (by simp)
        · split
          · intro hacts
            exact writes_of_set happ hacts rfl rfl rfl rfl rfl (by simp) (by simp)
          · intro hacts
            exact writes_of_set happ hacts rfl rfl rfl rfl rfl (by simp) (by simp [Outcome.answers])

/-- The end of a branch writes nothing. -/
theorem Writes.freeAppName {runId : Option Ptr} {payload : Option Payload}
    (h : Writes H w r o X runId payload) (appName : AppName) :
    Writes H w r (freeAppName appName o) X runId payload where
  acts := h.acts.freeAppName appName
  replayed := by rw [freeAppName_calls, freeAppName_world, h.replayed]
  runId_eq := by rw [freeAppName_world, h.runId_eq]
  payload_eq := by rw [freeAppName_world, h.payload_eq]
  body := h.body
  answered := by rw [Outcome.answers, freeAppName_replies, ← Outcome.answers, h.answered]

/-- **Every handler writes for the application it acts on**, and only starting one writes a
payload. -/
theorem writes_handle (H : Host σ) (w : World σ) (r : MgRequest) (action : Action) (X : CStr) :
    ∃ runId payload, Writes H w r (handle H w r action X) X runId payload ∧
      (payload ≠ none → action = .start) := by
  cases action with
  | start =>
    obtain ⟨runId, payload, h⟩ := writes_handleAppStart (H := H) (w := w) (r := r) (X := X) r.origin
    exact ⟨runId, payload, h, fun _ => rfl⟩
  | status => exact ⟨none, none, writes_handleAppStatus r.origin, fun h => absurd rfl h⟩
  | stop => exact ⟨none, none, writes_handleAppStop r.origin, fun h => absurd rfl h⟩
  | hide =>
    obtain ⟨runId, h⟩ := writes_handleAppHide (H := H) (w := w) (r := r) (X := X) r.origin
    exact ⟨runId, none, h, fun h => absurd rfl h⟩
  | dialData usePayload =>
    exact ⟨none, none, writes_handleDialData r.origin usePayload, fun h => absurd rfl h⟩

/-- **Every request writes for one application**, and it writes a payload only if it is a
`POST` on `/apps/X`. -/
theorem writes_requestHandler (H : Host σ) (w : World σ) (r : MgRequest) :
    ∃ X runId payload, Writes H w r (requestHandler H w r) X runId payload ∧
      (payload ≠ none → r.requestMethod = .lit "POST" ∧ r.uri = appsUri ++ X) := by
  rw [requestHandler_eq]
  have hnone : (none : Option Payload) ≠ none →
      r.requestMethod = .lit "POST" ∧ r.uri = appsUri ++ CStr.nil := fun h => absurd rfl h
  cases hroute : r.route with
  | crash f => exact ⟨.nil, none, none, writes_of_eq rfl rfl (by simp [perform]), hnone⟩
  | refuse status reason =>
    refine ⟨.nil, none, none, writes_of_eq rfl rfl ?_, hnone⟩
    -- a refusal is an error, so it is no launch
    have hstatus : 400 ≤ status := by
      have hall : ∀ error ∈ routerErrors, 400 ≤ error.1 := by decide
      exact hall _ (route_fits hroute)
    intro hanswers
    obtain rfl : status = 201 := by simpa [perform] using hanswers
    omega
  | options appName methods =>
    have hoptions : Writes H w r (optionsResponse w r.host r.origin appName.str methods) .nil
        none none := by
      refine writes_of_eq (optionsResponse_world ..) (optionsResponse_calls ..) ?_
      rw [optionsResponse]
      split
      · simp [Outcome.answers]
      · simp
    exact ⟨.nil, none, none, hoptions.freeAppName appName, hnone⟩
  | act action name =>
    rw [perform]
    split
    · exact ⟨.nil, none, none, writes_of_eq rfl rfl (by simp), hnone⟩
    · obtain ⟨runId, payload, h, hstart⟩ := writes_handle H w r action name.str
      refine ⟨name.str, runId, payload, h.freeAppName name, fun hp => ?_⟩
      exact (route_fits hroute).2 (hstart hp)
  | optionsFilled name methods =>
    refine ⟨.nil, none, none, writes_of_eq (perform_optionsFilled_world ..)
      (perform_optionsFilled_calls ..) ?_, hnone⟩
    rw [perform_optionsFilled]
    split_ifs
    · simp
    · simp
    · simp [Outcome.answers]
  | actFilled action name =>
    refine ⟨.nil, none, none, writes_of_eq (perform_actFilled_world ..)
      (perform_actFilled_calls ..) ?_, hnone⟩
    rw [perform_actFilled]
    split_ifs <;> simp

/-- **The history of a request lists what it writes.** -/
theorem requestEvents_eq {runId : Option Ptr} {payload : Option Payload}
    (h : Writes H w r (requestHandler H w r) X runId payload)
    (hlaunch : payload ≠ none → r.requestMethod = .lit "POST" ∧ r.uri = appsUri ++ X) :
    requestEvents H w r = (runId.map (Event.wroteRunId X)).toList ++
      (payload.map fun p => Event.launched X p.bytes).toList := by
  rw [requestEvents, h.replayed, launchEvents]
  rcases payload with _ | p
  · rw [if_neg fun hc => h.answered.mp hc.2.2 rfl]
    rfl
  · obtain ⟨hmethod, huri⟩ := hlaunch (by simp)
    have hprefix : appsUri.bytes <+: r.uri.bytes := by
      rw [huri]
      exact List.prefix_append _ _
    have hname : r.uri.drop appsUri.strlen = X := by
      rw [huri]
      exact CStr.ext List.drop_left
    rw [if_pos ⟨hmethod, hprefix, h.answered.mpr (by simp)⟩, hname, ← (h.body p rfl).1]
    rfl

end Writes

/-! ### What is recorded -/

/-- **What the two fields hold is what the history says.** -/
structure Recorded (w : World σ) (t : List Event) : Prop where
  /-- Names are distinct. -/
  distinct : NamesDistinct w.apps
  /-- The run id is the one written last. -/
  runId : ∀ X, recordedRunId w X = Trace.latest (Resets X) (runIdWritten X) t
  /-- The payload is the body of the last launch. -/
  payload : ∀ X, (recordedPayload w X).map Payload.bytes =
    Trace.latest (Resets X) (bodyLaunched X) t
  /-- It is good. -/
  good : ∀ X p, recordedPayload w X = some p → Printable p.bytes

variable {H : Host σ} {w : World σ} {t : List Event}

theorem recorded_emptyServer (files : Files) (host : σ) (port : UInt16) (dir : CharArray 256) :
    Recorded (emptyServer files host port dir) [] :=
  ⟨List.nodup_nil, fun _ => rfl, fun _ => rfl, fun _ _ h => absurd h (by simp [recordedPayload,
    lookupApp, emptyServer])⟩

/-- What is recorded is told by what the names find. -/
theorem recorded_congr {w' : World σ} {X : CStr} (h : lookupApp w'.apps X = lookupApp w.apps X) :
    recordedRunId w' X = recordedRunId w X ∧ recordedPayload w' X = recordedPayload w X := by
  rw [recordedRunId, recordedRunId, recordedPayload, recordedPayload, h]
  exact ⟨rfl, rfl⟩

/-- **One event for a name that comes or goes**: nothing is recorded for it, and the others
keep what they have. -/
theorem Recorded.reset {w' : World σ} {X : CStr} {e : Event} (h : Recorded w t)
    (hd : NamesDistinct w'.apps) (hreset : ∀ Y, Resets Y e ↔ Y = X)
    (hrunId : recordedRunId w' X = none) (hpayload : recordedPayload w' X = none)
    (hothers : ∀ Y, Y ≠ X → lookupApp w'.apps Y = lookupApp w.apps Y)
    (hwrites : ∀ Y, runIdWritten Y e = none ∧ bodyLaunched Y e = none) :
    Recorded w' (t ++ [e]) := by
  refine ⟨hd, fun Y => ?_, fun Y => ?_, fun Y p hp => ?_⟩
  · -- the run id
    rw [Trace.latest_concat, (hwrites Y).1, Option.none_or]
    split
    · rename_i hY
      rw [(hreset Y).mp hY, hrunId]
    · rename_i hY
      rw [(recorded_congr (hothers Y fun hc => hY ((hreset Y).mpr hc))).1, h.runId]
  · -- the payload, in the same way
    rw [Trace.latest_concat, (hwrites Y).2, Option.none_or]
    split
    · rename_i hY
      rw [(hreset Y).mp hY, hpayload, Option.map_none]
    · rename_i hY
      rw [(recorded_congr (hothers Y fun hc => hY ((hreset Y).mpr hc))).2, h.payload]
  · rcases eq_or_ne Y X with rfl | hne
    · rw [hpayload] at hp
      exact absurd hp (by simp)
    · rw [(recorded_congr (hothers Y hne)).2] at hp
      exact h.good Y p hp

/-- What the events of one request leave. -/
theorem latest_requestEvents (X Y : CStr) (runId : Option Ptr) (payload : Option Payload) :
    let es := (runId.map (Event.wroteRunId X)).toList ++
      (payload.map fun p => Event.launched X p.bytes).toList
    (∀ e ∈ es, ¬Resets Y e) ∧
      Trace.latest (Resets Y) (runIdWritten Y) es = (if X = Y then runId else none) ∧
      Trace.latest (Resets Y) (bodyLaunched Y) es =
        if X = Y then payload.map Payload.bytes else none := by
  have hlaunched : ∀ body, ¬Resets Y (.launched X body) := fun body h => by
    rcases h with h | h <;> exact absurd h (by simp)
  have hwrote : ∀ v, ¬Resets Y (.wroteRunId X v) := fun v h => by
    rcases h with h | h <;> exact absurd h (by simp)
  rcases runId with _ | v <;> rcases payload with _ | p <;>
    simp [Trace.latest, runIdWritten, bodyLaunched, hlaunched, hwrote]

/-- **A request keeps the record.** -/
theorem Recorded.request (h : Recorded w t) (r : MgRequest) :
    Recorded (requestHandler H w r).world (t ++ requestEvents H w r) := by
  -- all the request writes belongs to one name `X`, and the other names keep what they have
  obtain ⟨X, runId, payload, hwrites, hlaunch⟩ := writes_requestHandler H w r
  rw [requestEvents_eq hwrites hlaunch]
  refine ⟨hwrites.acts.namesDistinct h.distinct, fun Y => ?_, fun Y => ?_, fun Y p hp => ?_⟩
  · obtain ⟨hkeep, hlatest, -⟩ := latest_requestEvents X Y runId payload
    rw [Trace.latest_append _ _ hkeep, hlatest, ← h.runId]
    split
    · rename_i hXY
      rw [← hXY, hwrites.runId_eq]
    · rename_i hXY
      rw [(recorded_congr (hwrites.acts.lookupApp_of_ne (Ne.symm hXY))).1, Option.none_or]
  · obtain ⟨hkeep, -, hlatest⟩ := latest_requestEvents X Y runId payload
    rw [Trace.latest_append _ _ hkeep, hlatest, ← h.payload]
    split
    · rename_i hXY
      rw [← hXY, hwrites.payload_eq, Option.map_or]
    · rename_i hXY
      rw [(recorded_congr (hwrites.acts.lookupApp_of_ne (Ne.symm hXY))).2, Option.none_or]
  · rcases eq_or_ne Y X with rfl | hne
    · rw [hwrites.payload_eq, Option.or_eq_some_iff] at hp
      rcases hp with hnew | ⟨-, hold⟩
      · exact (hwrites.body p hnew).2
      · exact h.good Y p hold
    · rw [(recorded_congr (hwrites.acts.lookupApp_of_ne hne)).2] at hp
      exact h.good Y p hp

/-- A name that is not found has nothing recorded. -/
theorem recorded_of_lookup_none {X : CStr} (h : lookupApp w.apps X = none) :
    recordedRunId w X = none ∧ recordedPayload w X = none := by
  rw [recordedRunId, recordedPayload, h]
  exact ⟨rfl, rfl⟩

/-- **Registering keeps the record**: the fields of a new entry are not written. -/
theorem Recorded.register (h : Recorded w t) {w' : World σ} {r : Registration} {ret : ℕ}
    (hreg : registerApp w r = .ok (w', ret)) :
    Recorded w' (t ++ if ret = 1 then [.registered r.appName] else []) := by
  rcases happ : lookupApp w.apps r.appName with _ | app
  · rw [registerApp_new happ] at hreg
    rcases hdata : retrieveDialData w.dialDataDir w.files r.appName with f | dialData
    · rw [hdata] at hreg
      exact absurd hreg (by simp [Except.map])
    · rw [hdata] at hreg
      obtain ⟨rfl, rfl⟩ := Prod.mk.inj (Except.ok.inj hreg)
      rw [lookupApp_eq] at happ
      have hself : lookupApp (KeyedList.insertNew DIALApp.name w.apps (newApp r dialData))
          r.appName = some (newApp r dialData) := by
        rw [lookupApp_eq]
        exact KeyedList.lookup_insertNew_self h.distinct happ
      -- the new entry starts without either field, as the reset in the history says
      refine h.reset (X := r.appName) (KeyedList.distinct_insertNew h.distinct _)
        (fun Y => ?_) ?_ ?_ (fun Y hne => ?_) fun Y => ⟨rfl, rfl⟩
      · simp [Resets, eq_comm]
      · rw [recordedRunId, hself]
        rfl
      · rw [recordedPayload, hself]
        rfl
      · rw [lookupApp_eq, lookupApp_eq]
        exact KeyedList.lookup_insertNew_of_ne h.distinct (Ne.symm hne)
  · -- a name in use: nothing happens
    rw [registerApp, happ] at hreg
    obtain ⟨rfl, rfl⟩ := Prod.mk.inj (Except.ok.inj hreg)
    rwa [if_neg (by decide), List.append_nil]

/-- **Unregistering keeps the record.** -/
theorem Recorded.unregister (h : Recorded w t) (X : CStr) :
    Recorded (unregisterApp w X).1
      (t ++ if (unregisterApp w X).2 = 1 then [.unregistered X] else []) := by
  have happs : (unregisterApp w X).1.apps = KeyedList.remove DIALApp.name w.apps X := by
    rw [unregisterApp, unregisterApps_eq]
  have hret : (unregisterApp w X).2 = if lookupApp w.apps X = none then 0 else 1 := by
    rw [unregisterApp, unregisterApps_eq]
  have hself : lookupApp (unregisterApp w X).1.apps X = none :=
    lookupApp_unregisterApp_self h.distinct
  have hothers : ∀ Y, Y ≠ X → lookupApp (unregisterApp w X).1.apps Y = lookupApp w.apps Y :=
    fun Y hne => by
      rw [happs, lookupApp_eq, lookupApp_eq]
      exact KeyedList.lookup_remove_of_ne h.distinct hne
  obtain ⟨hrunId, hpayload⟩ := recorded_of_lookup_none hself
  rw [hret]
  by_cases hnone : lookupApp w.apps X = none
  · have hsame : (unregisterApp w X).1 = w := by
      rw [lookupApp_eq] at hnone
      rw [unregisterApp, unregisterApps_eq, KeyedList.remove_of_none hnone]
    rwa [if_pos hnone, if_neg (by decide), List.append_nil, hsame]
  · rw [if_neg hnone, if_pos rfl]
    refine h.reset (X := X) (namesDistinct_unregisterApp h.distinct X) (fun Y => ?_) hrunId hpayload
      hothers fun Y => ⟨rfl, rfl⟩
    simp [Resets, eq_comm]

/-- **One step keeps the record.** -/
theorem Recorded.step {p : Process σ} (h : Recorded p.world t) (op : ServerOp) :
    Recorded ((serverMachine H).step p op).1.world (t ++ ((serverMachine H).step p op).2) := by
  cases op with
  | register r =>
    rcases hreg : registerApp p.world r with f | ⟨w', ret⟩
    · simp only [serverMachine, hreg, List.append_nil]
      exact h
    · simp only [serverMachine, hreg]
      exact h.register hreg
  | unregister appName => exact h.unregister appName
  | request r => exact h.request r

/-- **What is recorded is what was written last**, after every run. -/
theorem recorded_run (H : Host σ) (files : Files) (host : σ) (port : UInt16) (dir : CharArray 256)
    (ops : List ServerOp) :
    Recorded (serverAfter H (emptyServer files host port dir) ops)
      (historyOf H (emptyServer files host port dir) ops) :=
  (serverMachine H).run_induction (P := fun p t => Recorded p.world t)
    (fun _ _ job _ hrecorded => hrecorded.step job) (t := [])
    (recorded_emptyServer files host port dir) ops

/-! ### The last launch -/

/-- The last launch of an application since its entry came, in a history. -/
def LastLaunch (X : CStr) (body : List UInt8) (t : List Event) : Prop :=
  ∃ pre post, t = pre ++ .launched X body :: post ∧
    ∀ e ∈ post, ¬Resets X e ∧ ∀ body', e ≠ .launched X body'

/-- `get_payload` reports a launch: what it points to is an array with a NUL, and the string
before the first NUL is the body. -/
def ReportsLaunch (w : World σ) (X : CStr) (body : List UInt8) : Prop :=
  ∃ p, getPayload w.apps X = some (some p) ∧ 0 ∈ p.array ∧ p.array.takeWhile (· ≠ 0) = body

theorem bodyLaunched_eq_some {X : CStr} {e : Event} {body : List UInt8} :
    bodyLaunched X e = some body ↔ e = .launched X body := by
  cases e with
  | launched Y body' =>
    rw [bodyLaunched]
    split
    · rename_i hY
      rw [hY, Option.some.injEq, Event.launched.injEq, and_iff_right rfl]
    · rename_i hY
      exact iff_of_false (by simp) fun h => hY (Event.launched.inj h).1
  | registered Y => exact iff_of_false (by simp [bodyLaunched]) (by simp)
  | unregistered Y => exact iff_of_false (by simp [bodyLaunched]) (by simp)
  | wroteRunId Y runId => exact iff_of_false (by simp [bodyLaunched]) (by simp)

/-- A launch leaves its body. -/
theorem LastLaunch.latest_eq {X : CStr} {body : List UInt8} (h : LastLaunch X body t) :
    Trace.latest (Resets X) (bodyLaunched X) t = some body := by
  obtain ⟨pre, post, rfl, hpost⟩ := h
  rw [Trace.latest_eq_some]
  refine ⟨pre, _, post, rfl, ?_, bodyLaunched_eq_some.mpr rfl, fun e he => ⟨(hpost e he).1, ?_⟩⟩
  · rintro (h | h) <;> exact absurd h (by simp)
  · exact Option.eq_none_iff_forall_ne_some.mpr fun body' hc =>
      (hpost e he).2 body' (bodyLaunched_eq_some.mp hc)

/-- **An array holds the bytes copied as a string exactly when they leave room for a NUL.** -/
theorem Payload.array_string (p : Payload) (hgood : Printable p.bytes) :
    (0 ∈ p.array ∧ p.array.takeWhile (· ≠ 0) = p.bytes) ↔ p.bytes.length < dialMaxPayload := by
  have hzero : (0 : UInt8) ∉ p.bytes := hgood.zero_notMem
  have hmem : 0 ∈ p.array ↔ p.bytes.length < dialMaxPayload := by
    rw [Payload.array, List.mem_append, or_iff_right hzero, List.mem_replicate]
    exact ⟨fun h => by omega, fun h => ⟨by omega, rfl⟩⟩
  have hstring : p.array.takeWhile (· ≠ 0) = p.bytes := by
    rw [Payload.array, List.takeWhile_append_of_pos fun c hc => by
      simpa using fun hc0 : c = 0 => hzero (hc0 ▸ hc)]
    rcases dialMaxPayload - p.bytes.length with _ | n
    · exact List.append_nil _
    · rw [List.replicate_succ, List.takeWhile_cons_of_neg (by simp), List.append_nil]
  rw [hmem, and_iff_left hstring]

/-- What is recorded of a launch is what `get_payload` hands out. -/
theorem Recorded.reportsLaunch (h : Recorded w t) {X : CStr} {body : List UInt8}
    (hlast : LastLaunch X body t) : ReportsLaunch w X body ↔ body.length < dialMaxPayload := by
  have hbody := (h.payload X).trans hlast.latest_eq
  obtain ⟨p, hp, rfl⟩ := Option.map_eq_some_iff.mp hbody
  obtain ⟨app, happ, hpayload⟩ := Option.bind_eq_some_iff.mp hp
  have hget : getPayload w.apps X = some (some p) := by
    rw [getPayload, happ, Option.map_some, hpayload]
  rw [← p.array_string (h.good X p hp)]
  constructor
  · rintro ⟨q, hq, hreports⟩
    obtain rfl : p = q := Option.some.inj (Option.some.inj (hget.symm.trans hq))
    exact hreports
  · exact fun hreports => ⟨p, hget, hreports⟩

/-- **`get_payload` reports the last launch exactly when its body leaves room for a NUL**:
whatever the run, if an application was launched since it was registered, the array holds
the body of its last launch, and holds it as a string when it is shorter than the array. -/
theorem reportsLaunch_iff (H : Host σ) (files : Files) (host : σ) (port : UInt16)
    (dir : CharArray 256) (ops : List ServerOp) (X : CStr) (body : List UInt8)
    (hlast : LastLaunch X body (historyOf H (emptyServer files host port dir) ops)) :
    ReportsLaunch (serverAfter H (emptyServer files host port dir) ops) X body ↔
      body.length < dialMaxPayload :=
  (recorded_run H files host port dir ops).reportsLaunch hlast

/-- A server without applications and files. -/
def bareServer : World Unit := emptyServer (fun _ => none) () 56789 defaultDialDataDir

/-- YouTube is registered and launched with a payload. -/
def launchRun (body : List UInt8) : List ServerOp :=
  [.register (plain (.lit "YouTube")), .request (launchRequest (.lit "YouTube") body)]

/-- The launch is answered 201, and writes no run id. -/
theorem requestEvents_launchRequest {body : List UInt8} (hlen : body.length ≤ dialMaxPayload)
    (hgood : Printable body) :
    requestEvents probeHost (probeWorld (.lit "YouTube")) (launchRequest (.lit "YouTube") body) =
      [.launched (.lit "YouTube") body] := by
  have happ : lookupApp (probeWorld (.lit "YouTube")).apps (.lit "YouTube") =
      some (newApp (plain (.lit "YouTube")) []) := rfl
  have hroute : (launchRequest (.lit "YouTube") body).route =
      .act .start (.kept (.lit "YouTube")) :=
    route_app (X := .lit "YouTube") (by decide) (by decide)
  have hlaunch : requestHandler probeHost (probeWorld (.lit "YouTube"))
      (launchRequest (.lit "YouTube") body) =
        launch probeHost (probeWorld (.lit "YouTube")) (launchRequest (.lit "YouTube") body)
          (findApp (probeWorld (.lit "YouTube")).apps (.lit "YouTube"))
          (newApp (plain (.lit "YouTube")) []) (.lit "YouTube") none ⟨body, hlen⟩ .nil := by
    rw [requestHandler_eq, hroute, perform_act_kept fun _ => ⟨rfl, rfl⟩, handle,
      handleAppStart_good happ hlen hgood]
    rfl
  have hwrites : Writes probeHost (probeWorld (.lit "YouTube"))
      (launchRequest (.lit "YouTube") body)
      (launch probeHost (probeWorld (.lit "YouTube")) (launchRequest (.lit "YouTube") body)
        (findApp (probeWorld (.lit "YouTube")).apps (.lit "YouTube"))
        (newApp (plain (.lit "YouTube")) []) (.lit "YouTube") none ⟨body, hlen⟩ .nil)
      (.lit "YouTube") none (some ⟨body, hlen⟩) := writes_launch none .nil happ rfl hgood
  rw [← hlaunch] at hwrites
  exact requestEvents_eq hwrites fun _ => ⟨rfl, rfl⟩

theorem historyOf_launchRun {body : List UInt8} (hlen : body.length ≤ dialMaxPayload)
    (hgood : Printable body) : historyOf probeHost bareServer (launchRun body) =
      [.registered (.lit "YouTube"), .launched (.lit "YouTube") body] := by
  have hregister : (serverMachine probeHost).run ⟨bareServer, none⟩
      [.register (plain (.lit "YouTube"))] =
        (⟨probeWorld (.lit "YouTube"), none⟩, [.registered (.lit "YouTube")]) := rfl
  have hrequest := requestEvents_launchRequest hlen hgood
  have hup : (serverMachine probeHost).up ((serverMachine probeHost).run ⟨bareServer, none⟩
      [.register (plain (.lit "YouTube"))]).1 = true := by
    rw [hregister]
    rfl
  have hrun := (serverMachine probeHost).run_concat hup
    (.request (launchRequest (.lit "YouTube") body))
  rw [hregister] at hrun
  exact (congrArg Prod.snd hrun).trans (congrArg _ hrequest)

/-- In that run the launch is the last one. -/
theorem lastLaunch_launchRun {body : List UInt8} (hlen : body.length ≤ dialMaxPayload)
    (hgood : Printable body) :
    LastLaunch (.lit "YouTube") body (historyOf probeHost bareServer (launchRun body)) :=
  ⟨[.registered (.lit "YouTube")], [], historyOf_launchRun hlen hgood, fun _ he =>
    absurd he List.not_mem_nil⟩

/-- After a launch with the payload `v=1`, that is what `get_payload` reports. -/
theorem reportsLaunch_iff_onePair :
    ReportsLaunch (serverAfter probeHost bareServer (launchRun onePair)) (.lit "YouTube")
      onePair :=
  (reportsLaunch_iff probeHost (fun _ => none) () 56789 defaultDialDataDir (launchRun onePair)
    (.lit "YouTube") onePair (lastLaunch_launchRun (by decide) (by decide +kernel))).mpr (by decide)

/-- A payload that fills the array. -/
def fullBody : List UInt8 := List.replicate dialMaxPayload 'a'.toUInt8

/-- **A payload that fills the array is accepted and leaves no room for a NUL.** -/
theorem not_reportsLaunch_fullBody :
    LastLaunch (.lit "YouTube") fullBody (historyOf probeHost bareServer (launchRun fullBody)) ∧
      ¬ReportsLaunch (serverAfter probeHost bareServer (launchRun fullBody)) (.lit "YouTube")
        fullBody := by
  have hlen : fullBody.length = dialMaxPayload := List.length_replicate
  have hgood : Printable fullBody := fun c hc => by
    rw [List.eq_of_mem_replicate hc]
    decide
  have hlast := lastLaunch_launchRun hlen.le hgood
  have hrecorded : Recorded (serverAfter probeHost bareServer (launchRun fullBody))
      (historyOf probeHost bareServer (launchRun fullBody)) := recorded_run probeHost _ _ _ _ _
  refine ⟨hlast, fun hreports => ?_⟩
  have hlt := (hrecorded.reportsLaunch hlast).mp hreports
  omega

/-! ### What was written -/

/-- An event of the past of an application, since its entry came. -/
def SinceRegistration (X : CStr) (e : Event) (t : List Event) : Prop :=
  ∃ pre post, t = pre ++ e :: post ∧ ∀ e' ∈ post, ¬Resets X e'

/-- The run id a callback is passed was written by `start_cb` or `hide_cb` since the
registration. -/
def PassesWritten (t : List Event) (call : Call) : Prop :=
  ∃ runId, call.args.runId = some runId ∧
    SinceRegistration call.owner (.wroteRunId call.owner runId) t

/-- The array that `get_payload` points to was written by a launch since the
registration. -/
def HandsOutWritten (t : List Event) (w : World σ) (X : CStr) : Prop :=
  ∃ p, getPayload w.apps X = some (some p) ∧ SinceRegistration X (.launched X p.bytes) t

theorem runIdWritten_eq_some {X : CStr} {e : Event} {runId : Ptr} :
    runIdWritten X e = some runId ↔ e = .wroteRunId X runId := by
  cases e with
  | wroteRunId Y runId' =>
    rw [runIdWritten]
    split
    · rename_i hY
      rw [hY, Option.some.injEq, Event.wroteRunId.injEq, and_iff_right rfl]
    · rename_i hY
      exact iff_of_false (by simp) fun h => hY (Event.wroteRunId.inj h).1
  | registered Y => exact iff_of_false (by simp [runIdWritten]) (by simp)
  | unregistered Y => exact iff_of_false (by simp [runIdWritten]) (by simp)
  | launched Y body => exact iff_of_false (by simp [runIdWritten]) (by simp)

section Since

variable {A : Type} {X : CStr} {writes : Event → Option A} {event : A → Event}

/-- What a cell holds was written since the registration. -/
theorem sinceRegistration_of_latest {a : A} (hevent : ∀ e a, writes e = some a ↔ e = event a)
    (h : Trace.latest (Resets X) writes t = some a) : SinceRegistration X (event a) t := by
  obtain ⟨pre, e, post, rfl, -, hwrite, hpost⟩ := (Trace.latest_eq_some _ _).mp h
  obtain rfl := (hevent e a).mp hwrite
  exact ⟨pre, post, rfl, fun e' he' => (hpost e' he').1⟩

/-- **What a cell holds was written if anything was.** -/
theorem exists_latest_iff (hevent : ∀ e a, writes e = some a ↔ e = event a)
    (hkeep : ∀ a, ¬Resets X (event a)) :
    (∃ a, Trace.latest (Resets X) writes t = some a ∧ SinceRegistration X (event a) t) ↔
      ∃ a, SinceRegistration X (event a) t := by
  constructor
  · rintro ⟨a, -, ha⟩
    exact ⟨a, ha⟩
  · rintro ⟨a, pre, post, ht, hpost⟩
    have hwritten : Trace.latest (Resets X) writes t ≠ none := by
      rw [Trace.latest_ne_none]
      refine ⟨pre, event a, post, ht, hkeep a, ?_, hpost⟩
      rw [(hevent _ a).mpr rfl]
      exact Option.some_ne_none a
    obtain ⟨b, hb⟩ := Option.ne_none_iff_exists'.mp hwritten
    exact ⟨b, hb, sinceRegistration_of_latest hevent hb⟩

end Since

/-- **A callback is passed what is recorded** for the application it belongs to. -/
theorem runId_of_mem_calls {r : MgRequest} {call : Call}
    (h : call ∈ (requestHandler H w r).calls) : call.args.runId = recordedRunId w call.owner := by
  rw [requestHandler_eq] at h
  cases hroute : r.route with
  | crash f => exact absurd h (by simp [hroute, perform])
  | refuse status reason => exact absurd h (by simp [hroute, perform])
  | options name methods => exact absurd h (by simp [hroute, perform])
  | act action name =>
    rw [hroute, perform] at h
    split at h
    · exact absurd h (by simp)
    · rw [freeAppName_calls] at h
      rcases handle_calls H w r action name.str with hnil | ⟨app, happ, hpass, -⟩
      · rw [hnil] at h
        exact absurd h List.not_mem_nil
      · have hcall := hpass call h
        rw [hcall.runId, hcall.owner, name_of_lookupApp happ, recordedRunId, happ,
          Option.bind_some]
  | optionsFilled name methods =>
    rw [hroute, perform_optionsFilled_calls] at h
    exact absurd h List.not_mem_nil
  | actFilled action name =>
    rw [hroute, perform_actFilled_calls] at h
    exact absurd h List.not_mem_nil

/-- **Nothing unset is used exactly when something was written before**: after every run,
the run id a request passes to `status_cb`, `stop_cb` or `hide_cb` was written if `start_cb`
or `hide_cb` of that application wrote one since it was registered; and the array that
`get_payload` points to was written if the application was launched since then. Callbacks
are handed the arrays as they are before the request (`DialServer.Writes.replayed`). -/
theorem writtenBeforeUse_iff (H : Host σ) (files : Files) (host : σ) (port : UInt16)
    (dir : CharArray 256) (ops : List ServerOp) :
    (∀ r, ∀ call ∈ (requestHandler H (serverAfter H (emptyServer files host port dir) ops) r).calls,
      (PassesWritten (historyOf H (emptyServer files host port dir) ops) call ↔
        ∃ runId, SinceRegistration call.owner (.wroteRunId call.owner runId)
          (historyOf H (emptyServer files host port dir) ops))) ∧
    ∀ X, lookupApp (serverAfter H (emptyServer files host port dir) ops).apps X ≠ none →
      (HandsOutWritten (historyOf H (emptyServer files host port dir) ops)
          (serverAfter H (emptyServer files host port dir) ops) X ↔
        ∃ body, SinceRegistration X (.launched X body)
          (historyOf H (emptyServer files host port dir) ops)) := by
  have hrecorded := recorded_run H files host port dir ops
  refine ⟨fun r call hcall => ?_, fun X hX => ?_⟩
  · rw [PassesWritten, runId_of_mem_calls hcall, hrecorded.runId]
    refine exists_latest_iff (fun e a => runIdWritten_eq_some) fun runId h => ?_
    rcases h with h | h <;> exact absurd h (by simp)
  · rw [← exists_latest_iff (fun e a => bodyLaunched_eq_some) fun body h => by
      rcases h with h | h <;> exact absurd h (by simp), ← hrecorded.payload]
    obtain ⟨app, happ⟩ := Option.ne_none_iff_exists'.mp hX
    rw [HandsOutWritten, getPayload, recordedPayload, happ, Option.map_some, Option.bind_some]
    constructor
    · rintro ⟨p, hp, hsince⟩
      rw [Option.some.injEq] at hp
      exact ⟨p.bytes, by rw [hp, Option.map_some], hsince⟩
    · rintro ⟨body, hbody, hsince⟩
      obtain ⟨p, hp, rfl⟩ := Option.map_eq_some_iff.mp hbody
      exact ⟨p, by rw [hp], hsince⟩

/-- Callbacks that write a run id. -/
def writingHost : Host Unit := { probeHost with startCb := fun _ _ _ _ _ => ((), .running, some 7) }

/-- Callbacks that keep what `get_payload` says when YouTube is started. -/
def readingHost : Host (Option (Option Payload)) where
  startCb _ _ _ _ view := (view (.lit "YouTube"), .running, none)
  hideCb host _ _ := (host, .hide, none)
  stopCb host _ _ := host
  statusCb host _ _ := (host, .running, none)
  canOpen _ _ := true
  belowVersion _ := false

/-- Stopping YouTube. -/
def stopRequest : MgRequest := probeRequest (.lit "DELETE") (.lit "/apps/YouTube/run")

/-- What stopping YouTube calls, with the run id that is recorded. -/
def stopCalls (runId : Option Ptr) : List Call :=
  [⟨.lit "YouTube", .status, ⟨0, .lit "YouTube", runId, 0⟩, some .running⟩,
    ⟨.lit "YouTube", .stop, ⟨0, .lit "YouTube", runId, 0⟩, none⟩]

/-- Stopping YouTube after a launch passes on what `start_cb` wrote, and the payload is
there. -/
theorem writtenBeforeUse_iff_launched :
    (∀ call ∈ stopCalls (some 7),
        PassesWritten (historyOf writingHost bareServer (launchRun onePair)) call) ∧
      HandsOutWritten (historyOf writingHost bareServer (launchRun onePair))
        (serverAfter writingHost bareServer (launchRun onePair)) (.lit "YouTube") := by
  have hhistory : historyOf writingHost bareServer (launchRun onePair) =
      [.registered (.lit "YouTube"), .wroteRunId (.lit "YouTube") 7,
        .launched (.lit "YouTube") onePair] := by decide +kernel
  have hcalls : (requestHandler writingHost
      (serverAfter writingHost bareServer (launchRun onePair)) stopRequest).calls =
        stopCalls (some 7) := by decide +kernel
  have hfound : lookupApp (serverAfter writingHost bareServer (launchRun onePair)).apps
      (.lit "YouTube") ≠ none := by decide +kernel
  obtain ⟨hpasses, hhands⟩ := writtenBeforeUse_iff writingHost (fun _ => none) () 56789
    defaultDialDataDir (launchRun onePair)
  constructor
  · intro call hcall
    have howner : call.owner = .lit "YouTube" := by
      rcases List.mem_pair.mp hcall with rfl | rfl <;> rfl
    rw [← hcalls] at hcall
    refine (hpasses stopRequest call hcall).mpr ⟨7, [.registered (.lit "YouTube")],
      [.launched (.lit "YouTube") onePair], ?_, ?_⟩
    · rw [howner]
      exact hhistory
    · intro e he
      rw [List.mem_singleton.mp he]
      rintro (h | h) <;> exact absurd h (by simp)
  · exact (hhands _ hfound).mpr ⟨onePair, [.registered (.lit "YouTube"),
      .wroteRunId (.lit "YouTube") 7], [], hhistory, fun e he => absurd he List.not_mem_nil⟩

/-- **Stopping an application that was never launched passes on a run id that nobody wrote**,
and `start_cb`, if it asks for the payload at the first launch, gets an array that nobody
wrote. -/
theorem not_writtenBeforeUse_neverLaunched :
    (∃ call ∈ (requestHandler probeHost
        (serverAfter probeHost bareServer [.register (plain (.lit "YouTube"))]) stopRequest).calls,
      call.kind = .stop ∧ ¬PassesWritten
        (historyOf probeHost bareServer [.register (plain (.lit "YouTube"))]) call) ∧
    (serverAfter readingHost (emptyServer (fun _ => none) none 56789 defaultDialDataDir)
      (launchRun onePair)).host = some none := by
  have hcalls : (requestHandler probeHost
      (serverAfter probeHost bareServer [.register (plain (.lit "YouTube"))]) stopRequest).calls =
        stopCalls none := by decide +kernel
  constructor
  · rw [hcalls]
    refine ⟨_, List.mem_cons_of_mem _ List.mem_cons_self, rfl, ?_⟩
    rintro ⟨runId, hrunId, -⟩
    exact absurd hrunId (by simp)
  · decide +kernel

end DialServer
