import DialServer.Origin

/-!
# The handlers

The five functions that act on an application, `handle_app_start` to
`handle_dial_data`, each from its `lock` to its `unlock`. A handler finds the
slot of the application, and from there on reads and writes through that slot; the
callbacks it makes, in order, and what it sends are its `DialServer.Outcome`,
with the new world and, when the process does not survive, the way it ends.

`DialServer.pollStatus` is the assignment
`app->state = app->callbacks.status_cb(…)`, which three of the five begin with.
-/

namespace DialServer

open CLib

/-! ### Requests and replies -/

/-- An IPv4 address. -/
abbrev InAddr := UInt8 × UInt8 × UInt8 × UInt8

/-- The text `inet_ntop` makes of an address. -/
def inetNtop (addr : InAddr) : CStr :=
  let byte (b : UInt8) : CStr := .ofNat b.toNat
  byte addr.1 ++ .lit "." ++ byte addr.2.1 ++ .lit "." ++ byte addr.2.2.1 ++ .lit "." ++
    byte addr.2.2.2

/-- A request, as it reaches the callback of the HTTP layer: the parts of
`mg_request_info` that are looked at, and the bytes `conn->read` can deliver. -/
structure MgRequest where
  requestMethod : CStr
  uri : CStr
  queryString : Option CStr
  httpHeaders : List (CStr × CStr)
  localAddr : InAddr
  remoteAddr : InAddr
  body : List UInt8
  deriving DecidableEq

/-- One reply: a formatted text, or an error of the HTTP layer. -/
inductive Reply
  /-- `conn->printf`. -/
  | printf (text : CStr)
  /-- `conn->send_http_error`. -/
  | httpError (status : ℕ) (reason fmt : CStr)
  deriving DecidableEq

/-- The status code of a reply; in a text it follows `HTTP/1.1`. -/
def Reply.status : Reply → ℕ
  | .printf text =>
    ((text.bytes.drop 9).take 3).foldl (fun n c => 10 * n + (c.toNat - '0'.toNat)) 0
  | .httpError status _ _ => status

/-- The status code does not depend on what follows the status line. -/
theorem Reply.status_printf_append {s : CStr} (h : 12 ≤ s.strlen) (t : CStr) :
    (Reply.printf (s ++ t)).status = (Reply.printf s).status := by
  have hs : 3 ≤ (s.bytes.drop 9).length := by
    rw [List.length_drop, ← CStr.strlen]
    omega
  rw [Reply.status, Reply.status, CStr.bytes_append, List.drop_append_of_le_length,
    List.take_append_of_le_length hs]
  rw [← CStr.strlen]
  omega

/-- The text `%s` makes of a pointer. -/
def formatString (s : Option CStr) : CStr := s.getD (.lit "(null)")

/-! ### Outcomes -/

/-- Which callback is called, and what it gets besides the common arguments. -/
inductive CallbackKind
  | start (payload additionalData : CStr)
  | status
  | stop
  | hide
  deriving DecidableEq

/-- One callback made by a handler: the entry it belongs to, the call, and what
it returned. -/
structure Call where
  owner : CStr
  kind : CallbackKind
  args : Invocation
  ret : Option DIALStatus
  deriving DecidableEq

/-- What handling a request leads to. -/
structure Outcome (σ : Type) where
  /-- The world afterwards. -/
  world : World σ
  /-- The callbacks made. -/
  calls : List Call
  /-- What was sent. -/
  replies : List Reply
  /-- How the process ended, if it did. -/
  halt : Option Halt

variable {σ : Type}

/-- The status codes of what was sent. -/
def Outcome.answers (o : Outcome σ) : List ℕ := o.replies.map Reply.status

/-- An error is sent, and nothing else happens. -/
def Outcome.error (w : World σ) (calls : List Call) (status : ℕ) (reason : String) : Outcome σ :=
  ⟨w, calls, [.httpError status (.lit reason) (.lit reason)], none⟩

/-- The process does not get further. -/
def Outcome.crash (w : World σ) (calls : List Call) (halt : Halt) : Outcome σ :=
  ⟨w, calls, [], some halt⟩

@[simp] theorem answers_error (w : World σ) (calls : List Call) (status : ℕ) (reason : String) :
    (Outcome.error w calls status reason).answers = [status] := rfl

@[simp] theorem calls_error (w : World σ) (calls : List Call) (status : ℕ) (reason : String) :
    (Outcome.error w calls status reason).calls = calls := rfl

@[simp] theorem world_error (w : World σ) (calls : List Call) (status : ℕ) (reason : String) :
    (Outcome.error w calls status reason).world = w := rfl

@[simp] theorem calls_crash (w : World σ) (calls : List Call) (halt : Halt) :
    (Outcome.crash w calls halt).calls = calls := rfl

@[simp] theorem answers_crash (w : World σ) (calls : List Call) (halt : Halt) :
    (Outcome.crash w calls halt).answers = [] := rfl

/-! ### Payloads -/

/-- A bad payload has an unprintable character or one that is not ASCII. -/
def isBadPayload (payload : List UInt8) : Bool :=
  payload.any fun c => c &&& 0x80 = 0x80 || c = 0x7F || c ≤ 0x1F

/-- The characters of a good payload. -/
def Printable (payload : List UInt8) : Prop := ∀ c ∈ payload, 0x20 ≤ c ∧ c ≤ 0x7E

instance (payload : List UInt8) : Decidable (Printable payload) :=
  inferInstanceAs (Decidable (∀ c ∈ payload, 0x20 ≤ c ∧ c ≤ 0x7E))

/-- **The three comparisons leave exactly the printable characters.** -/
theorem isBadPayload_eq_false {payload : List UInt8} :
    isBadPayload payload = false ↔ Printable payload := by
  have hchar : ∀ c : UInt8,
      ¬(c &&& 0x80 = 0x80 ∨ c = 0x7F ∨ c ≤ 0x1F) ↔ 0x20 ≤ c ∧ c ≤ 0x7E := by
    refine forall_byte ?_
    decide +kernel
  rw [isBadPayload, List.any_eq_false, Printable]
  refine forall₂_congr fun c _ => ?_
  rw [← hchar c]
  simp [not_or, and_assoc]

/-- A good payload has no NUL. -/
theorem Printable.zero_notMem {payload : List UInt8} (h : Printable payload) :
    (0 : UInt8) ∉ payload :=
  fun hzero => absurd (h 0 hzero).1 (by decide)

/-- The text of `additionalDataUrl`. -/
def additionalDataText (dialPort : UInt16) (appName : CStr) : CStr :=
  .lit "additionalDataUrl=http%3A%2F%2Flocalhost%3A" ++ .ofNat dialPort.toNat ++
    .lit "%2Fapps%2F" ++ appName ++ .lit "%2Fdial_data%3F"

/-- How long it is. -/
theorem strlen_additionalDataText (dialPort : UInt16) (appName : CStr) :
    (additionalDataText dialPort appName).strlen =
      68 + (CStr.ofNat dialPort.toNat).strlen + appName.strlen := by
  have hlits : (CStr.lit "additionalDataUrl=http%3A%2F%2Flocalhost%3A").strlen = 43 ∧
      (CStr.lit "%2Fapps%2F").strlen = 10 ∧ (CStr.lit "%2Fdial_data%3F").strlen = 15 := by
    decide
  simp only [additionalDataText, CStr.strlen_append, hlits]
  omega

/-- What `sprintf` leaves in the array `additional_data_param`. -/
def additionalDataParam (dialPort : UInt16) (appName : CStr) : Except Fault CStr := do
  let param ← (Block.calloc 256).storeString 0 (additionalDataText dialPort appName)
  param.cstr

/-- The array holds the text when it fits with its terminator. -/
theorem additionalDataParam_eq_ok {dialPort : UInt16} {appName param : CStr} :
    additionalDataParam dialPort appName = .ok param ↔
      (additionalDataText dialPort appName).strlen < 256 ∧
        param = additionalDataText dialPort appName :=
  Block.storeString_calloc_eq_ok

/-- The additional data an application is started with: the text, if it asked for
it, and otherwise the empty string its array is initialized to. -/
def additionalDataFor (app : DIALApp) (dialPort : UInt16) (appName : CStr) :
    Except Fault CStr :=
  if app.useAdditionalData ≠ 0 then additionalDataParam dialPort appName else .ok .nil

/-! ### Start -/

/-- The reply to a launch. -/
def createdText (laddr : InAddr) (dialPort : UInt16) (appName : CStr)
    (originHeader : Option CStr) : CStr :=
  .lit "HTTP/1.1 201 Created\r\nContent-Type: text/plain\r\nLocation: http://" ++
    inetNtop laddr ++ .lit ":" ++ .ofNat dialPort.toNat ++ .lit "/apps/" ++ appName ++
    .lit "/run\r\nAccess-Control-Allow-Origin: " ++ formatString originHeader ++ .lit "\r\n\r\n"

@[simp] theorem status_createdText (laddr : InAddr) (dialPort : UInt16) (appName : CStr)
    (originHeader : Option CStr) :
    (Reply.printf (createdText laddr dialPort appName originHeader)).status = 201 := by
  simp only [createdText, CStr.append_assoc]
  rw [Reply.status_printf_append (by decide)]
  rfl

/-- The part of `handle_app_start` after the checks: the application is launched
with a payload that was accepted and the additional data made for it. -/
def launch (H : Host σ) (w : World σ) (r : MgRequest) (slot : ℕ) (app : DIALApp) (appName : CStr)
    (originHeader : Option CStr) (body : Payload) (param : CStr) : Outcome σ :=
  let args : Invocation := ⟨app.callbacks.startCb, appName, app.runId, app.callbackData⟩
  let payload := CStr.ofBuffer body.bytes
  let (host, state, runId) := H.startCb w.host args payload param (getPayload w.apps)
  let calls := [⟨app.name, .start payload param, args, some state⟩]
  let app := { app with state := state, runId := runId.or app.runId }
  if state = .running then
    -- copy the payload into the application struct
    let app := { app with payload := some body }
    ⟨{ w with apps := w.apps.set slot app, host := host }, calls,
      [.printf (createdText r.localAddr w.port appName originHeader)], none⟩
  else
    .error { w with apps := w.apps.set slot app, host := host } calls 503 "Service Unavailable"

/-- `handle_app_start`. -/
def handleAppStart (H : Host σ) (w : World σ) (r : MgRequest) (appName : CStr)
    (originHeader : Option CStr) : Outcome σ :=
  let slot := findApp w.apps appName
  match w.apps[slot]? with
  | none => .error w [] 404 "Not Found"
  | some app =>
    let body := r.body.take (dialMaxPayload + 256 + 2)
    if hbody : body.length > dialMaxPayload then .error w [] 413 "413 Request Entity Too Large"
    else if isBadPayload body then .error w [] 400 "400 Bad Request"
    else
      match additionalDataFor app w.port appName with
      | .error f => .crash w [] (.fault f)
      | .ok param =>
        launch H w r slot app appName originHeader ⟨body, Nat.le_of_not_lt hbody⟩ param

section Launch

variable (H : Host σ) (w : World σ) (r : MgRequest) (slot : ℕ) (app : DIALApp) (appName : CStr)
  (originHeader : Option CStr) (body : Payload) (param : CStr)

/-- What `start_cb` is called with. -/
def launchArgs : Invocation := ⟨app.callbacks.startCb, appName, app.runId, app.callbackData⟩

/-- What `start_cb` returns. -/
def launchResult : σ × DIALStatus × Option Ptr :=
  H.startCb w.host (launchArgs app appName) (.ofBuffer body.bytes) param (getPayload w.apps)

@[simp] theorem launch_calls : (launch H w r slot app appName originHeader body param).calls =
    [⟨app.name, .start (.ofBuffer body.bytes) param, launchArgs app appName,
      some (launchResult H w app appName body param).2.1⟩] := by
  simp only [launch]
  split <;> rfl

@[simp] theorem launch_host : (launch H w r slot app appName originHeader body param).world.host =
    (launchResult H w app appName body param).1 := by
  simp only [launch]
  split <;> rfl

/-- The entry of an application after a launch. -/
def launchedApp : DIALApp :=
  { app with
    state := (launchResult H w app appName body param).2.1
    runId := (launchResult H w app appName body param).2.2.or app.runId
    payload :=
      if (launchResult H w app appName body param).2.1 = .running then some body else app.payload }

@[simp] theorem launch_apps : (launch H w r slot app appName originHeader body param).world.apps =
    w.apps.set slot (launchedApp H w app appName body param) := by
  rw [launchedApp, launchResult, launchArgs]
  simp only [launch]
  split
  · rfl
  · rfl

/-- The reply to a launch says whether `start_cb` reported “running”. -/
theorem launch_replies : (launch H w r slot app appName originHeader body param).replies =
    if (launchResult H w app appName body param).2.1 = .running then
      [.printf (createdText r.localAddr w.port appName originHeader)]
    else [.httpError 503 (.lit "Service Unavailable") (.lit "Service Unavailable")] := by
  rw [launchResult, launchArgs]
  simp only [launch]
  split <;> rfl

@[simp] theorem launch_halt :
    (launch H w r slot app appName originHeader body param).halt = none := by
  simp only [launch]
  split <;> rfl

end Launch

/-- A start request that calls anybody is a launch: the application is there and
the payload is good. -/
theorem handleAppStart_eq_launch {H : Host σ} {w : World σ} {r : MgRequest} {appName : CStr}
    {originHeader : Option CStr} (h : (handleAppStart H w r appName originHeader).calls ≠ []) :
    ∃ app body param, w.apps[findApp w.apps appName]? = some app ∧
      body.bytes = r.body.take (dialMaxPayload + 256 + 2) ∧ isBadPayload body.bytes = false ∧
      additionalDataFor app w.port appName = .ok param ∧
      handleAppStart H w r appName originHeader =
        launch H w r (findApp w.apps appName) app appName originHeader body param := by
  simp only [handleAppStart] at h ⊢
  split at h
  · exact absurd rfl h
  · rename_i app happ
    split at h
    · exact absurd rfl h
    · rename_i hsmall
      split at h
      · exact absurd rfl h
      · rename_i hgood
        split at h
        · exact absurd rfl h
        · rename_i param hparam
          refine ⟨app, ⟨_, Nat.le_of_not_lt hsmall⟩, param, happ, rfl, ?_, hparam, ?_⟩
          · exact Bool.eq_false_iff.mpr hgood
          · rw [dif_neg hsmall, if_neg hgood]

/-! ### Status -/

/-- The size of the array the dial data is rendered into. -/
def dialDataSize : ℕ := 8 * 1024

/-- `url_decode_xml_encode`, with `dst` the object it writes to. -/
def urlDecodeXmlEncode (dst : Block) (src : CStr) (srcSize : ℕ) : Except Fault Block := do
  let (urlDecodedKey, _) ← urldecode (Block.malloc (srcSize + 1)) src srcSize
  let urlDecodedKey ← urlDecodedKey.cstr
  xmlencode dst urlDecodedKey (2 * srcSize)

/-- One iteration of the loop of `handle_app_status`: the array `dial_data` and
the index `p` stands at. -/
def renderNode (b : Block) (p : ℕ) (node : DIALData) : Except Fault (Block × ℕ) := do
  let (b, p) ← smartstrcat b p (.lit "    <") (dialDataSize - p)
  let key ← node.key.cstr
  let encodedKey ← urlDecodeXmlEncode (Block.malloc (2 * key.strlen + 1)) key key.strlen
  let value ← node.value.cstr
  let encodedValue ← urlDecodeXmlEncode (Block.malloc (2 * value.strlen + 1)) value value.strlen
  let encodedKey ← encodedKey.cstr
  let encodedValue ← encodedValue.cstr
  let (b, p) ← smartstrcat b p encodedKey (dialDataSize - p)
  let (b, p) ← smartstrcat b p (.lit ">") (dialDataSize - p)
  let (b, p) ← smartstrcat b p encodedValue (dialDataSize - p)
  let (b, p) ← smartstrcat b p (.lit "</") (dialDataSize - p)
  let (b, p) ← smartstrcat b p encodedKey (dialDataSize - p)
  smartstrcat b p (.lit ">") (dialDataSize - p)

/-- The loop of `handle_app_status`. -/
def renderLoop : List DIALData → Block → ℕ → Except Fault Block
  | [], b, _ => .ok b
  | node :: nodes, b, p => do
    let (b, p) ← renderNode b p node
    renderLoop nodes b p

/-- The text `handle_app_status` builds from the dial data. -/
def renderDialData (nodes : List DIALData) : Except Fault CStr := do
  let b ← renderLoop nodes (Block.calloc dialDataSize) 0
  b.cstr

/-- What `app->state = app->callbacks.status_cb(…)` leaves behind. -/
structure Polled (σ : Type) where
  world : World σ
  app : DIALApp
  canStop : ℤ
  call : Call

/-- Update the state of an application from its `status_cb`. -/
def pollStatus (H : Host σ) (w : World σ) (slot : ℕ) (app : DIALApp) (appName : CStr) :
    Polled σ :=
  let args : Invocation := ⟨app.callbacks.statusCb, appName, app.runId, app.callbackData⟩
  let (host, state, canStop) := H.statusCb w.host args (getPayload w.apps)
  let app' := { app with state := state }
  { world := { w with apps := w.apps.set slot app', host := host }
    app := app'
    canStop := canStop.getD 0
    call := ⟨app.name, .status, args, some state⟩ }

section Polled

variable (H : Host σ) (w : World σ) (slot : ℕ) (app : DIALApp) (appName : CStr)

@[simp] theorem pollStatus_world_apps : (pollStatus H w slot app appName).world.apps =
    w.apps.set slot (pollStatus H w slot app appName).app := rfl

@[simp] theorem pollStatus_call_owner :
    (pollStatus H w slot app appName).call.owner = app.name := rfl

@[simp] theorem pollStatus_app_name :
    (pollStatus H w slot app appName).app.name = app.name := rfl

@[simp] theorem pollStatus_app_runId :
    (pollStatus H w slot app appName).app.runId = app.runId := rfl

@[simp] theorem pollStatus_app_callbackData :
    (pollStatus H w slot app appName).app.callbackData = app.callbackData := rfl

@[simp] theorem pollStatus_call_kind : (pollStatus H w slot app appName).call.kind = .status := rfl

@[simp] theorem pollStatus_call_args : (pollStatus H w slot app appName).call.args =
    ⟨app.callbacks.statusCb, appName, app.runId, app.callbackData⟩ := rfl

@[simp] theorem pollStatus_call_ret : (pollStatus H w slot app appName).call.ret =
    some (pollStatus H w slot app appName).app.state := rfl

end Polled

/-- The word for a state in the reply to a status request. -/
def dialStateStr : DIALStatus → CStr
  | .hide => .lit "hidden"
  | .running => .lit "running"
  | .stopped => .lit "stopped"

/-- The reply to a status request. -/
def statusText (originHeader : Option CStr) (name : CStr) (canStop : ℤ) (localState : DIALStatus)
    (dialData : CStr) : CStr :=
  .lit "HTTP/1.1 200 OK\r\nContent-Type: text/xml\r\nAccess-Control-Allow-Origin: " ++
    formatString originHeader ++
    .lit "\r\n\r\n<?xml version=\"1.0\" encoding=\"UTF-8\"?>\r\n" ++
    .lit "<service xmlns=\"urn:dial-multiscreen-org:schemas:dial\" dialVer=\"2.1\">\r\n" ++
    .lit "  <name>" ++ name ++ .lit "</name>\r\n  <options allowStop=\"" ++
    (if canStop ≠ 0 then .lit "true" else .lit "false") ++ .lit "\"/>\r\n  <state>" ++
    dialStateStr localState ++ .lit "</state>\r\n" ++
    (if localState = .stopped then .nil else .lit "  <link rel=\"run\" href=\"run\"/>\r\n") ++
    .lit "  <additionalData>\n" ++ dialData ++ .lit "\n  </additionalData>\n</service>\r\n"

@[simp] theorem status_statusText (originHeader : Option CStr) (name : CStr) (canStop : ℤ)
    (localState : DIALStatus) (dialData : CStr) :
    (Reply.printf (statusText originHeader name canStop localState dialData)).status = 200 := by
  simp only [statusText, CStr.append_assoc]
  rw [Reply.status_printf_append (by decide)]
  rfl

/-- `handle_app_status`. -/
def handleAppStatus (H : Host σ) (w : World σ) (r : MgRequest) (appName : CStr)
    (originHeader : Option CStr) : Outcome σ :=
  -- a client that sends no version counts as version 0
  let oldClient : Bool := match parseParam r.queryString (.lit "clientDialVer") with
    | none => true
    | some version => H.belowVersion version
  let slot := findApp w.apps appName
  match w.apps[slot]? with
  | none => .error w [] 404 "Not Found"
  | some app =>
    match renderDialData app.dialData with
    | .error f => .crash w [] (.fault f)
    | .ok dialData =>
      let polled := pollStatus H w slot app appName
      let localState :=
        if oldClient ∧ polled.app.state = .hide then .stopped else polled.app.state
      ⟨polled.world, [polled.call],
        [.printf (statusText originHeader polled.app.name polled.canStop localState dialData)],
        none⟩

/-! ### Stop and hide -/

/-- The reply that says it worked. -/
def okText (originHeader : Option CStr) : CStr :=
  .lit "HTTP/1.1 200 OK\r\nContent-Type: text/plain\r\nAccess-Control-Allow-Origin: " ++
    formatString originHeader ++ .lit "\r\n\r\n"

@[simp] theorem status_okText (originHeader : Option CStr) :
    (Reply.printf (okText originHeader)).status = 200 := by
  simp only [okText, CStr.append_assoc]
  rw [Reply.status_printf_append (by decide)]
  rfl

/-- `handle_app_stop`. -/
def handleAppStop (H : Host σ) (w : World σ) (appName : CStr) (originHeader : Option CStr) :
    Outcome σ :=
  let slot := findApp w.apps appName
  match w.apps[slot]? with
  | none => .error w [] 404 "Not Found"
  | some app =>
    -- update the application state
    let polled := pollStatus H w slot app appName
    let w := polled.world
    let app := polled.app
    if app.state = .stopped then .error w [polled.call] 404 "Not Found"
    else
      let args : Invocation := ⟨app.callbacks.stopCb, appName, app.runId, app.callbackData⟩
      let host := H.stopCb w.host args (getPayload w.apps)
      ⟨{ w with apps := w.apps.set slot { app with state := .stopped }, host := host },
        [polled.call, ⟨app.name, .stop, args, none⟩], [.printf (okText originHeader)], none⟩

/-- The test of `handle_app_hide` lets through what is not stopped. -/
theorem not_hidden_iff {state : DIALStatus} :
    ¬(state ≠ .running ∧ state ≠ .hide) ↔ state ≠ .stopped := by
  cases state <;> decide

/-- `handle_app_hide`. -/
def handleAppHide (H : Host σ) (w : World σ) (appName : CStr) (originHeader : Option CStr) :
    Outcome σ :=
  let slot := findApp w.apps appName
  match w.apps[slot]? with
  | none => .error w [] 404 "Not Found"
  | some app =>
    -- update the application state
    let polled := pollStatus H w slot app appName
    let w := polled.world
    let app := polled.app
    if app.state ≠ .running ∧ app.state ≠ .hide then .error w [polled.call] 404 "Not Found"
    else
      let args : Invocation := ⟨app.callbacks.hideCb, appName, app.runId, app.callbackData⟩
      let (host, status, runId) := H.hideCb w.host args (getPayload w.apps)
      let app := { app with runId := runId.or app.runId }
      let calls := [polled.call, ⟨app.name, .hide, args, some status⟩]
      if status ≠ .hide then
        .error { w with apps := w.apps.set slot app, host := host } calls 501 "Not Implemented"
      else
        ⟨{ w with apps := w.apps.set slot { app with state := .hide }, host := host }, calls,
          [.printf (okText originHeader)], none⟩

/-! ### Dial data -/

/-- What `handle_dial_data` reads into its array `body`: the body of the request,
or its query string. -/
def dialDataBody (r : MgRequest) (usePayload : Bool) : List UInt8 :=
  if usePayload then r.body.take dialDataMaxPayload
  else match r.queryString with
    | some query => (query.take dialDataMaxPayload).bytes
    | none => []

/-- The reply to new dial data. -/
def dialDataText (originHeader : Option CStr) : CStr :=
  .lit "HTTP/1.1 200 OK\r\nAccess-Control-Allow-Origin: " ++ formatString originHeader ++
    .lit "\r\n\r\n"

@[simp] theorem status_dialDataText (originHeader : Option CStr) :
    (Reply.printf (dialDataText originHeader)).status = 200 := by
  simp only [dialDataText, CStr.append_assoc]
  rw [Reply.status_printf_append (by decide)]
  rfl

/-- `handle_dial_data`. -/
def handleDialData (H : Host σ) (w : World σ) (r : MgRequest) (appName : CStr)
    (originHeader : Option CStr) (usePayload : Bool) : Outcome σ :=
  let slot := findApp w.apps appName
  match w.apps[slot]? with
  | none => .error w [] 404 "Not Found"
  | some app =>
    let body := dialDataBody r usePayload
    if body.length > dialDataMaxPayload then .error w [] 413 "413 Request Entity Too Large"
    else if isBadPayload body then .error w [] 400 "400 Bad Request"
    else
      match parseParams (some (.ofBuffer body)) with
      | .error f => .crash w [] (.fault f)
      | .ok dialData =>
        let w := { w with apps := w.apps.set slot { app with dialData := dialData } }
        match storeDialData (H.canOpen w.host) w.dialDataDir w.files app.name dialData with
        | .error halt => .crash w [] halt
        | .ok files =>
          ⟨{ w with files := files }, [], [.printf (dialDataText originHeader)], none⟩

/-- New dial data is nobody's callback. -/
theorem handleDialData_calls (H : Host σ) (w : World σ) (r : MgRequest) (appName : CStr)
    (originHeader : Option CStr) (usePayload : Bool) :
    (handleDialData H w r appName originHeader usePayload).calls = [] := by
  simp only [handleDialData]
  split
  · rfl
  · split
    · rfl
    · split
      · rfl
      · split
        · rfl
        · split <;> rfl

end DialServer
