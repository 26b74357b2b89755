import DialServer.Router

/-!
# The reference server

The handlers of `server/dial_server.c`, the C server that the port was made from, function
by function. What both servers do with texts is the same source – `find_app`,
`isBadPayload`, `url_decode_xml_encode`, `is_allowed_origin`, the files `url_lib.c` and
`dial_data.c`, and the format strings of the replies – and is not repeated here. What is
repeated is everything that could have drifted: which callback is called with which
arguments, what is written to the application, which reply is sent, and the tests of
`request_handler`.

A callback that is to write the run id expects a `DIAL_run_t*`. The port passes
`&app->run_id` to `start_cb` and to `hide_cb`; the reference does so for `start_cb` only,
and passes `app->run_id` itself to `hide_cb`. So what an application is called with is a
`DialServer.Reference.Passed`, which says which of the two it was, and what `hide_cb` reads
and writes through a run id that is no pointer to one is `DialServer.Reference.Memory`.

`DialServer.Refinement` compares the two.
-/

namespace DialServer.Reference

open CLib

variable {σ : Type}

/-! ### What callbacks are called with -/

/-- The argument for the run id. -/
inductive RunIdArg
  /-- `app->run_id`. -/
  | value (runId : Option Ptr)
  /-- `&app->run_id`, for the application with the name. -/
  | field (owner : CStr)
  deriving DecidableEq

/-- One call of a callback, with all its arguments but the server, which only the
reference passes. -/
structure Passed where
  owner : CStr
  kind : CallbackKind
  fn : Ptr
  appName : CStr
  runId : RunIdArg
  callbackData : Ptr
  ret : Option DIALStatus
  deriving DecidableEq

/-- The object a run id points to when it is taken for a `DIAL_run_t*`: what is read
there, and what writing it does to the rest of the process. -/
structure Memory (σ : Type) where
  load : σ → Option Ptr → Option Ptr
  store : σ → Option Ptr → Ptr → σ

/-- What a request leads to, with the arguments of the callbacks. -/
structure Outcome (σ : Type) where
  world : World σ
  calls : List Passed
  replies : List Reply
  halt : Option Halt

/-- An error is sent, and nothing else happens. -/
def Outcome.error (w : World σ) (calls : List Passed) (status : ℕ) (reason : String) : Outcome σ :=
  ⟨w, calls, [.httpError status (.lit reason) (.lit reason)], none⟩

/-- The process does not get further. -/
def Outcome.crash (w : World σ) (calls : List Passed) (halt : Halt) : Outcome σ :=
  ⟨w, calls, [], some halt⟩

/-! ### The handlers -/

/-- A body that is not too long. -/
def acceptedBody (body : List UInt8) (h : ¬body.length > dialMaxPayload) : Payload :=
  ⟨body, Nat.le_of_not_lt h⟩

/-- `handle_app_start`. -/
def handleAppStart (H : Host σ) (w : World σ) (r : MgRequest) (appName : CStr)
    (originHeader : Option CStr) : Outcome σ :=
  let slot := findApp w.apps appName
  match w.apps[slot]? with
  | none => .error w [] 404 "Not Found"
  | some app =>
    let body := r.body.take (dialMaxPayload + 256 + 2)
    if hbody : body.length > dialMaxPayload then .error w [] 413 "413 Request Entity Too Large"
    else if isBadPayload body then .error w [] 400 "400 Bad Request"
    else
      let param :=
        if app.useAdditionalData ≠ 0 then additionalDataParam w.port appName else .ok .nil
      match param with
      | .error f => .crash w [] (.fault f)
      | .ok param =>
        let payload := CStr.ofBuffer body
        let args : Invocation := ⟨app.callbacks.startCb, appName, app.runId, app.callbackData⟩
        let (host, state, runId) := H.startCb w.host args payload param (getPayload w.apps)
        let calls : List Passed := [⟨app.name, .start payload param, app.callbacks.startCb, appName,
          .field app.name, app.callbackData, some state⟩]
        let app := { app with state := state, runId := runId.or app.runId }
        if state = .running then
          -- copy the payload into the application struct
          let app := { app with payload := some (acceptedBody body hbody) }
          ⟨{ w with apps := w.apps.set slot app, host := host }, calls,
            [.printf (createdText r.localAddr w.port appName originHeader)], none⟩
        else
          .error { w with apps := w.apps.set slot app, host := host } calls 503
            "Service Unavailable"

/-- What `app->state = app->callbacks.status_cb(…)` leaves behind. -/
structure Polled (σ : Type) where
  world : World σ
  app : DIALApp
  canStop : ℤ
  call : Passed

/-- Update the state of an application from its `status_cb`. -/
def pollStatus (H : Host σ) (w : World σ) (slot : ℕ) (app : DIALApp) (appName : CStr) :
    Polled σ :=
  let args : Invocation := ⟨app.callbacks.statusCb, appName, app.runId, app.callbackData⟩
  let (host, state, canStop) := H.statusCb w.host args (getPayload w.apps)
  let app' := { app with state := state }
  { world := { w with apps := w.apps.set slot app', host := host }
    app := app'
    canStop := canStop.getD 0
    call := ⟨app.name, .status, app.callbacks.statusCb, appName, .value app.runId,
      app.callbackData, some state⟩ }

/-- `handle_app_status`. -/
def handleAppStatus (H : Host σ) (w : World σ) (r : MgRequest) (appName : CStr)
    (originHeader : Option CStr) : Outcome σ :=
  -- determine client version
  let oldClient : Bool := match parseParam r.queryString (.lit "clientDialVer") with
    | none => true
    | some version => H.belowVersion version
  let slot := findApp w.apps appName
  match w.apps[slot]? with
  | none => .error w [] 404 "Not Found"
  | some app =>
    match renderDialData app.dialData with
    | .error f => .crash w [] (.fault f)
    | .ok dialData =>
      let polled := pollStatus H w slot app appName
      let localState :=
        if oldClient ∧ polled.app.state = .hide then .stopped else polled.app.state
      ⟨polled.world, [polled.call],
        [.printf (statusText originHeader polled.app.name polled.canStop localState dialData)],
        none⟩

/-- `handle_app_stop`. -/
def handleAppStop (H : Host σ) (w : World σ) (appName : CStr) (originHeader : Option CStr) :
    Outcome σ :=
  let slot := findApp w.apps appName
  match w.apps[slot]? with
  | none => .error w [] 404 "Not Found"
  | some app =>
    -- update the application state
    let polled := pollStatus H w slot app appName
    let w := polled.world
    let app := polled.app
    if app.state = .stopped then .error w [polled.call] 404 "Not Found"
    else
      let args : Invocation := ⟨app.callbacks.stopCb, appName, app.runId, app.callbackData⟩
      let host := H.stopCb w.host args (getPayload w.apps)
      ⟨{ w with apps := w.apps.set slot { app with state := .stopped }, host := host },
        [polled.call, ⟨app.name, .stop, app.callbacks.stopCb, appName, .value app.runId,
          app.callbackData, none⟩],
        [.printf (okText originHeader)], none⟩

/-- `handle_app_hide`: the run id itself is passed where a pointer to it is expected, so
that `hide_cb` reads and writes wherever it points, and the field `run_id` stays as it
is. -/
def handleAppHide (H : Host σ) (M : Memory σ) (w : World σ) (appName : CStr)
    (originHeader : Option CStr) : Outcome σ :=
  let slot := findApp w.apps appName
  match w.apps[slot]? with
  | none => .error w [] 404 "Not Found"
  | some app =>
    -- update the application state
    let polled := pollStatus H w slot app appName
    let w := polled.world
    let app := polled.app
    if app.state ≠ .running ∧ app.state ≠ .hide then .error w [polled.call] 404 "Not Found"
    else
      let args : Invocation :=
        ⟨app.callbacks.hideCb, appName, M.load w.host app.runId, app.callbackData⟩
      let (host, status, written) := H.hideCb w.host args (getPayload w.apps)
      let host := match written with
        | none => host
        | some runId => M.store host app.runId runId
      let calls : List Passed := [polled.call, ⟨app.name, .hide, app.callbacks.hideCb, appName,
        .value app.runId, app.callbackData, some status⟩]
      if status ≠ .hide then .error { w with host := host } calls 501 "Not Implemented"
      else
        ⟨{ w with apps := w.apps.set slot { app with state := .hide }, host := host }, calls,
          [.printf (okText originHeader)], none⟩

/-- What `handle_dial_data` reads into its array `body`. -/
def dialDataBody (r : MgRequest) (usePayload : Bool) : List UInt8 :=
  if usePayload then r.body.take dialDataMaxPayload
  else match r.queryString with
    | some query => (query.take dialDataMaxPayload).bytes
    | none => []

/-- `handle_dial_data`. -/
def handleDialData (H : Host σ) (w : World σ) (r : MgRequest) (appName : CStr)
    (originHeader : Option CStr) (usePayload : Bool) : Outcome σ :=
  let slot := findApp w.apps appName
  match w.apps[slot]? with
  | none => .error w [] 404 "Not Found"
  | some app =>
    let body := dialDataBody r usePayload
    if body.length > dialDataMaxPayload then .error w [] 413 "413 Request Entity Too Large"
    else if isBadPayload body then .error w [] 400 "400 Bad Request"
    else
      match parseParams (some (.ofBuffer body)) with
      | .error f => .crash w [] (.fault f)
      | .ok dialData =>
        let w := { w with apps := w.apps.set slot { app with dialData := dialData } }
        match storeDialData (H.canOpen w.host) w.dialDataDir w.files app.name dialData with
        | .error halt => .crash w [] halt
        | .ok files =>
          ⟨{ w with files := files }, [], [.printf (dialDataText originHeader)], none⟩

/-! ### The request handler -/

/-- `options_response`. -/
def optionsResponse (w : World σ) (hostHeader originHeader : Option CStr) (appName methods : CStr) :
    Outcome σ :=
  if hostHeader.isSome ∧ isAllowedOrigin w.apps originHeader appName then
    ⟨w, [], [.printf (optionsText methods originHeader)], none⟩
  else .error w [] 403 "Forbidden"

/-- `free(app_name)` at the end of a branch. -/
def freeAppName (appName : AppName) (o : Outcome σ) : Outcome σ :=
  match o.halt with
  | some _ => o
  | none => if appName.onHeap then o else { o with halt := some (.fault .badFree) }

/-- What is done with a name once it was compared with those of the applications, if it is
compared at all. -/
def comparing (w : World σ) (appName : AppName) (compared : Prop) [Decidable compared]
    (o : Outcome σ) : Outcome σ :=
  if appName.full ∧ compared ∧ OutrunsArray w.apps appName.str then
    .crash w [] (.fault .unterminated)
  else o

/-- `request_handler`, for a new request. -/
def requestHandler (H : Host σ) (M : Memory σ) (w : World σ) (r : MgRequest) : Outcome σ :=
  -- URL ends with run
  if uriEndsWith r.requestMethod r.uri runUri then
    match copyAppName r.uri (runNameLength r.uri) with
    | .error f => .crash w [] (.fault f)
    | .ok appName =>
      if r.requestMethod = .lit "OPTIONS" then
        comparing w appName (r.host.isSome ∧ scansFor r.origin) <|
          optionsResponse w r.host r.origin appName.str (.lit "DELETE, OPTIONS")
      -- DELETE non-empty app name
      else if appName.str ≠ .nil ∧ r.requestMethod = .lit "DELETE" then
        comparing w appName (r.host.isSome ∧ scansFor r.origin) <|
          if r.host.isSome ∧ isAllowedOrigin w.apps r.origin appName.str then
            comparing w appName True (handleAppStop H w appName.str r.origin)
          else .error w [] 403 "Forbidden"
      else .error w [] 501 "Not Implemented"
  -- URI starts with "/apps/" and is followed by an app name
  else if r.uri.eqN appsUri appsUri.strlen ∧
      strchr (r.uri.drop appsUri.strlen).bytes '/'.toUInt8 = none then
    let appName := r.uri.drop appsUri.strlen
    if r.requestMethod = .lit "OPTIONS" then
      optionsResponse w r.host r.origin appName (.lit "GET, POST, OPTIONS")
    -- start app
    else if r.requestMethod = .lit "POST" then
      if r.host.isSome ∧ isAllowedOrigin w.apps r.origin appName then
        handleAppStart H w r appName r.origin
      else .error w [] 403 "Forbidden"
    -- get app status
    else if r.requestMethod = .lit "GET" then handleAppStatus H w r appName r.origin
    else .error w [] 501 "Not Implemented"
  -- URI that ends with HIDE_URI
  else if uriEndsWith r.requestMethod r.uri hideUri then
    match copyAppName r.uri (hideNameLength r.uri) with
    | .error f => .crash w [] (.fault f)
    | .ok appName =>
      if r.requestMethod = .lit "OPTIONS" then
        comparing w appName (r.host.isSome ∧ scansFor r.origin) <|
          optionsResponse w r.host r.origin appName.str (.lit "POST, OPTIONS")
      else if appName.str ≠ .nil ∧ r.requestMethod = .lit "POST" then
        comparing w appName True (handleAppHide H M w appName.str r.origin)
      else .error w [] 501 "Not Implemented"
  -- URI is of the form */app_name/dial_data
  else if (strstr dialDataUri.bytes r.uri.bytes).isSome then
    if (inetNtop r.remoteAddr).eqN gLocalhost gLocalhost.strlen then
      let appName := parseAppName (some r.uri)
      if r.requestMethod = .lit "OPTIONS" then
        freeAppName appName
          (optionsResponse w r.host r.origin appName.str (.lit "POST, OPTIONS"))
      else
        freeAppName appName
          (handleDialData H w r appName.str r.origin (r.requestMethod = .lit "POST"))
    -- If the request is not from local host, return an error
    else .error w [] 403 "Forbidden"
  else .error w [] 404 "Not Found"

end DialServer.Reference
