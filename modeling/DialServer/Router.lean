import DialServer.Frame

/-!
# The request handler

`request_handler` tells the resources apart by overlapping tests on the text of
the URI – does it end in `/run`, does it start with `/apps/` and have no further
slash, does it end in `/hide`, does it contain `/dial_data` – and cuts the name of
the application out by counting, in unsigned arithmetic, from both ends of the
text. `DialServer.requestHandler` follows it branch by branch.

Which branch is taken and which name is cut out depends on the method, the URI and
the remote address only. `DialServer.route` says which, as a value, and
`DialServer.requestHandler_eq` is the bridge: the handler performs the route. All
that is proved about the tests is proved about `route`, and all that is proved
about effects is proved about `perform`.
-/

namespace DialServer

open CLib

/-! ### The texts of the URI -/

/-- `APPS_URI`. -/
def appsUri : CStr := .lit "/apps/"

/-- `RUN_URI`. -/
def runUri : CStr := .lit "/run"

/-- `HIDE_URI`. -/
def hideUri : CStr := .lit "/hide"

@[simp] theorem strlen_appsUri : appsUri.strlen = 6 := by decide

@[simp] theorem strlen_runUri : runUri.strlen = 4 := by decide

@[simp] theorem strlen_hideUri : hideUri.strlen = 5 := by decide

/-- `gLocalhost`. -/
def gLocalhost : CStr := .lit "127.0.0.1"

/-- What stands in front of a URI: the buffer of the connection begins with the method and the
NUL behind it, and the record that the buffer follows in the same object ends with a zero
byte. Nothing looks further back, for a method of three letters or more. -/
def bufferFront (method : CStr) : List UInt8 := 0 :: (method.bytes ++ [0])

/-- The comparison of the end of a URI with a text, from the address
`uri + strlen(uri) - strlen(text)` on. For a URI that is shorter than the text it begins in
front of the URI. -/
def uriEndsWith (method uri text : CStr) : Bool :=
  let buffer := bufferFront method ++ uri.bytes
  (CStr.ofBuffer (buffer.drop (buffer.length - text.strlen))).eqN text text.strlen

/-- A name that the code never frees. -/
def AppName.kept (str : CStr) : AppName := ⟨str, true, false⟩

/-- A name of 256 bytes in its array. -/
def AppName.filled (str : CStr) : AppName := ⟨str, true, true⟩

@[simp] theorem AppName.kept_str (str : CStr) : (AppName.kept str).str = str := rfl

/-- `strncpy(app_name, uri + strlen(APPS_URI), n)` into a zeroed array of 256
bytes, and what the array then holds: a string, or 256 bytes without a terminator. -/
def copyAppName (uri : CStr) (n : ℕ) : Except Fault AppName :=
  if uri.strlen < appsUri.strlen then .error .outOfBounds
  else do
    let appName ← (Block.calloc 256).strncpy (uri.drop appsUri.strlen) n
    match appName.cstr with
    | .ok str => pure (.kept str)
    | .error _ => pure (.filled appName.text)

/-- The name of an application begins with all that is in a full array: then the comparison
of the two goes on behind the array. -/
def OutrunsArray (apps : List DIALApp) (name : CStr) : Prop :=
  ∃ app ∈ apps, name.bytes <+: app.name.bytes

instance (apps : List DIALApp) (name : CStr) : Decidable (OutrunsArray apps name) :=
  inferInstanceAs (Decidable (∃ app ∈ apps, _))

/-- Registration alone decides about that. -/
theorem OutrunsArray.congr {apps apps' : List DIALApp} {name : CStr} (h : OutrunsArray apps name)
    (hfixed : apps.map DIALApp.fixed = apps'.map DIALApp.fixed) : OutrunsArray apps' name := by
  have hnames : apps.map DIALApp.name = apps'.map DIALApp.name := by
    simpa [DIALApp.fixed, Function.comp_def] using congrArg (List.map Prod.fst) hfixed
  obtain ⟨app, happ, hname⟩ := h
  have hmem : app.name ∈ apps'.map DIALApp.name := hnames ▸ List.mem_map_of_mem happ
  obtain ⟨app', happ', heq⟩ := List.mem_map.mp hmem
  exact ⟨app', happ', heq ▸ hname⟩

/-- The length of the name in the branch for `/run`. -/
def runNameLength (uri : CStr) : ℕ := sizeSub (sizeSub uri.strlen 4) appsUri.strlen

/-- The length of the name in the branch for `/hide`. -/
def hideNameLength (uri : CStr) : ℕ :=
  sizeSub (sizeSub (sizeSub uri.strlen runUri.strlen) hideUri.strlen) appsUri.strlen

/-! ### Headers -/

/-- The two headers that are looked at. -/
structure Headers where
  host : Option CStr
  origin : Option CStr
  deriving DecidableEq

/-- One iteration of the loop over the headers. -/
def scanHeader (found : Headers) (header : CStr × CStr) : Headers :=
  if header.1 = .lit "Host" ∨ header.1 = .lit "host" then { found with host := some header.2 }
  else if header.1 = .lit "Origin" ∨ header.1 = .lit "origin" then
    { found with origin := some header.2 }
  else found

/-- The loop over the headers: the last of each name counts. -/
def scanHeaders (httpHeaders : List (CStr × CStr)) : Headers :=
  httpHeaders.foldl scanHeader ⟨none, none⟩

/-- The host header of a request. -/
def MgRequest.host (r : MgRequest) : Option CStr := (scanHeaders r.httpHeaders).host

/-- The origin header of a request. -/
def MgRequest.origin (r : MgRequest) : Option CStr := (scanHeaders r.httpHeaders).origin

variable {σ : Type}

/-! ### The handler -/

/-- The reply to an allowed `OPTIONS` request. -/
def optionsText (methods : CStr) (originHeader : Option CStr) : CStr :=
  .lit "HTTP/1.1 204 No Content\r\nAccess-Control-Allow-Methods: " ++ methods ++
    .lit "\r\nAccess-Control-Max-Age: 86400\r\nAccess-Control-Allow-Origin: " ++
    formatString originHeader ++ .lit "\r\nContent-Length: 0\r\n"

@[simp] theorem status_optionsText (methods : CStr) (originHeader : Option CStr) :
    (Reply.printf (optionsText methods originHeader)).status = 204 := by
  simp only [optionsText, CStr.append_assoc]
  rw [Reply.status_printf_append (by decide)]
  rfl

/-- `options_response`. -/
def optionsResponse (w : World σ) (hostHeader originHeader : Option CStr) (appName methods : CStr) :
    Outcome σ :=
  if hostHeader.isSome ∧ isAllowedOrigin w.apps originHeader appName then
    ⟨w, [], [.printf (optionsText methods originHeader)], none⟩
  else .error w [] 403 "Forbidden"

@[simp] theorem optionsResponse_world (w : World σ) (hostHeader originHeader : Option CStr)
    (appName methods : CStr) :
    (optionsResponse w hostHeader originHeader appName methods).world = w := by
  rw [optionsResponse]
  split <;> rfl

@[simp] theorem optionsResponse_calls (w : World σ) (hostHeader originHeader : Option CStr)
    (appName methods : CStr) :
    (optionsResponse w hostHeader originHeader appName methods).calls = [] := by
  rw [optionsResponse]
  split <;> rfl

/-- `free(app_name)` at the end of a branch: a literal must not be freed. -/
def freeAppName (appName : AppName) (o : Outcome σ) : Outcome σ :=
  match o.halt with
  | some _ => o
  | none => if appName.onHeap then o else { o with halt := some (.fault .badFree) }

/-- What is done with a name once it was compared with those of the applications, if it is
compared at all. -/
def comparing (w : World σ) (appName : AppName) (compared : Prop) [Decidable compared]
    (o : Outcome σ) : Outcome σ :=
  if appName.full ∧ compared ∧ OutrunsArray w.apps appName.str then
    .crash w [] (.fault .unterminated)
  else o

/-- `request_handler`, for a new request. -/
def requestHandler (H : Host σ) (w : World σ) (r : MgRequest) : Outcome σ :=
  -- URL ends with run
  if uriEndsWith r.requestMethod r.uri runUri then
    match copyAppName r.uri (runNameLength r.uri) with
    | .error f => .crash w [] (.fault f)
    | .ok appName =>
      if r.requestMethod = .lit "OPTIONS" then
        comparing w appName (r.host.isSome ∧ scansFor r.origin) <|
          optionsResponse w r.host r.origin appName.str (.lit "DELETE, OPTIONS")
      -- DELETE non-empty app name
      else if appName.str ≠ .nil ∧ r.requestMethod = .lit "DELETE" then
        comparing w appName (r.host.isSome ∧ scansFor r.origin) <|
          if r.host.isSome ∧ isAllowedOrigin w.apps r.origin appName.str then
            comparing w appName True (handleAppStop H w appName.str r.origin)
          else .error w [] 403 "Forbidden"
      else .error w [] 501 "Not Implemented"
  -- URI starts with "/apps/" and is followed by an app name
  else if r.uri.eqN appsUri appsUri.strlen ∧
      strchr (r.uri.drop appsUri.strlen).bytes '/'.toUInt8 = none then
    let appName := r.uri.drop appsUri.strlen
    if r.requestMethod = .lit "OPTIONS" then
      optionsResponse w r.host r.origin appName (.lit "GET, POST, OPTIONS")
    -- start app
    else if r.requestMethod = .lit "POST" then
      if r.host.isSome ∧ isAllowedOrigin w.apps r.origin appName then
        handleAppStart H w r appName r.origin
      else .error w [] 403 "Forbidden"
    -- get app status
    else if r.requestMethod = .lit "GET" then handleAppStatus H w r appName r.origin
    else .error w [] 501 "Not Implemented"
  -- URI that ends with HIDE_URI
  else if uriEndsWith r.requestMethod r.uri hideUri then
    match copyAppName r.uri (hideNameLength r.uri) with
    | .error f => .crash w [] (.fault f)
    | .ok appName =>
      if r.requestMethod = .lit "OPTIONS" then
        comparing w appName (r.host.isSome ∧ scansFor r.origin) <|
          optionsResponse w r.host r.origin appName.str (.lit "POST, OPTIONS")
      else if appName.str ≠ .nil ∧ r.requestMethod = .lit "POST" then
        comparing w appName True (handleAppHide H w appName.str r.origin)
      else .error w [] 501 "Not Implemented"
  -- URI is of the form */app_name/dial_data
  else if (strstr dialDataUri.bytes r.uri.bytes).isSome then
    if (inetNtop r.remoteAddr).eqN gLocalhost gLocalhost.strlen then
      let appName := parseAppName (some r.uri)
      if r.requestMethod = .lit "OPTIONS" then
        freeAppName appName
          (optionsResponse w r.host r.origin appName.str (.lit "POST, OPTIONS"))
      else
        freeAppName appName
          (handleDialData H w r appName.str r.origin (r.requestMethod = .lit "POST"))
    -- If the request is not from local host, return an error
    else .error w [] 403 "Forbidden"
  else .error w [] 404 "Not Found"

/-! ### Routes -/

/-- The five things a request can do to an application. -/
inductive Action
  | start
  | status
  | stop
  | hide
  | dialData (usePayload : Bool)
  deriving DecidableEq

/-- Where a request goes. -/
inductive Route
  /-- Nowhere: an operation on the way has no meaning. -/
  | crash (f : Fault)
  /-- To an error. -/
  | refuse (status : ℕ) (reason : String)
  /-- To the list of methods of a resource. -/
  | options (appName : AppName) (methods : CStr)
  /-- To an application. -/
  | act (action : Action) (appName : AppName)
  /-- To the list of methods, under a name that fills its array. -/
  | optionsFilled (name methods : CStr)
  /-- To an application under such a name. -/
  | actFilled (action : Action) (name : CStr)
  deriving DecidableEq

/-- To the list of methods of a resource, under a name that was copied. -/
def Route.toOptions (appName : AppName) (methods : CStr) : Route :=
  if appName.full then .optionsFilled appName.str methods else .options appName methods

/-- To an application under a name that was copied. -/
def Route.toAct (action : Action) (appName : AppName) : Route :=
  if appName.full then .actFilled action appName.str else .act action appName

/-- The actions whose branch asks `is_allowed_origin` first. -/
def Action.guarded : Action → Bool
  | .start => true
  | .stop => true
  | .status => false
  | .hide => false
  | .dialData _ => false

/-- The route of a request, from its method, its URI and the remote address. -/
def route (method uri : CStr) (remoteAddr : InAddr) : Route :=
  if uriEndsWith method uri runUri then
    match copyAppName uri (runNameLength uri) with
    | .error f => .crash f
    | .ok appName =>
      if method = .lit "OPTIONS" then .toOptions appName (.lit "DELETE, OPTIONS")
      else if appName.str ≠ .nil ∧ method = .lit "DELETE" then .toAct .stop appName
      else .refuse 501 "Not Implemented"
  else if uri.eqN appsUri appsUri.strlen ∧
      strchr (uri.drop appsUri.strlen).bytes '/'.toUInt8 = none then
    let appName := AppName.kept (uri.drop appsUri.strlen)
    if method = .lit "OPTIONS" then .options appName (.lit "GET, POST, OPTIONS")
    else if method = .lit "POST" then .act .start appName
    else if method = .lit "GET" then .act .status appName
    else .refuse 501 "Not Implemented"
  else if uriEndsWith method uri hideUri then
    match copyAppName uri (hideNameLength uri) with
    | .error f => .crash f
    | .ok appName =>
      if method = .lit "OPTIONS" then .toOptions appName (.lit "POST, OPTIONS")
      else if appName.str ≠ .nil ∧ method = .lit "POST" then .toAct .hide appName
      else .refuse 501 "Not Implemented"
  else if (strstr dialDataUri.bytes uri.bytes).isSome then
    if (inetNtop remoteAddr).eqN gLocalhost gLocalhost.strlen then
      if method = .lit "OPTIONS" then
        .options (parseAppName (some uri)) (.lit "POST, OPTIONS")
      else .act (.dialData (method = .lit "POST")) (parseAppName (some uri))
    else .refuse 403 "Forbidden"
  else .refuse 404 "Not Found"

/-- The route of a request. -/
def MgRequest.route (r : MgRequest) : Route := DialServer.route r.requestMethod r.uri r.remoteAddr

/-- The handler of an action. -/
def handle (H : Host σ) (w : World σ) (r : MgRequest) (action : Action) (appName : CStr) :
    Outcome σ :=
  match action with
  | .start => handleAppStart H w r appName r.origin
  | .status => handleAppStatus H w r appName r.origin
  | .stop => handleAppStop H w appName r.origin
  | .hide => handleAppHide H w appName r.origin
  | .dialData usePayload => handleDialData H w r appName r.origin usePayload

/-- An application that is not registered is not found. -/
theorem handle_of_lookup_none {H : Host σ} {w : World σ} {r : MgRequest} {action : Action}
    {appName : CStr} (h : lookupApp w.apps appName = none) :
    handle H w r action appName = .error w [] 404 "Not Found" := by
  have hslot : w.apps[findApp w.apps appName]? = none := h
  cases action with
  | start => simp only [handle, handleAppStart, hslot]
  | status => simp only [handle, handleAppStatus, hslot]
  | stop => simp only [handle, handleAppStop, hslot]
  | hide => simp only [handle, handleAppHide, hslot]
  | dialData usePayload => simp only [handle, handleDialData, hslot]

/-- Every action stays with its application. -/
theorem actsOn_handle (H : Host σ) (w : World σ) (r : MgRequest) (action : Action)
    (appName : CStr) : ActsOn w (handle H w r action appName) appName := by
  cases action with
  | start => exact actsOn_handleAppStart
  | status => exact actsOn_handleAppStatus
  | stop => exact actsOn_handleAppStop
  | hide => exact actsOn_handleAppHide
  | dialData usePayload => exact actsOn_handleDialData

/-- What is done at the end of a route. -/
def perform (H : Host σ) (w : World σ) (r : MgRequest) : Route → Outcome σ
  | .crash f => .crash w [] (.fault f)
  | .refuse status reason => .error w [] status reason
  | .options appName methods =>
    freeAppName appName (optionsResponse w r.host r.origin appName.str methods)
  | .act action appName =>
    if action.guarded ∧ ¬(r.host.isSome ∧ isAllowedOrigin w.apps r.origin appName.str) then
      .error w [] 403 "Forbidden"
    else freeAppName appName (handle H w r action appName.str)
  | .optionsFilled name methods =>
    comparing w (.filled name) (r.host.isSome ∧ scansFor r.origin) <|
      optionsResponse w r.host r.origin name methods
  | .actFilled action name =>
    comparing w (.filled name) (action.guarded ∧ r.host.isSome ∧ scansFor r.origin) <|
      if action.guarded ∧ ¬(r.host.isSome ∧ isAllowedOrigin w.apps r.origin name) then
        .error w [] 403 "Forbidden"
      else comparing w (.filled name) True (handle H w r action name)

@[simp] theorem freeAppName_world (appName : AppName) (o : Outcome σ) :
    (freeAppName appName o).world = o.world := by
  rw [freeAppName]
  cases o.halt with
  | some halt => rfl
  | none => cases appName.onHeap <;> rfl

@[simp] theorem freeAppName_calls (appName : AppName) (o : Outcome σ) :
    (freeAppName appName o).calls = o.calls := by
  rw [freeAppName]
  cases o.halt with
  | some halt => rfl
  | none => cases appName.onHeap <;> rfl

@[simp] theorem freeAppName_replies (appName : AppName) (o : Outcome σ) :
    (freeAppName appName o).replies = o.replies := by
  rw [freeAppName]
  cases o.halt with
  | some halt => rfl
  | none => cases appName.onHeap <;> rfl

@[simp] theorem freeAppName_kept (str : CStr) (o : Outcome σ) :
    freeAppName (.kept str) o = o := by
  rw [freeAppName]
  cases o.halt <;> rfl

@[simp] theorem freeAppName_filled (str : CStr) (o : Outcome σ) :
    freeAppName (.filled str) o = o := by
  rw [freeAppName]
  cases o.halt <;> rfl

section Comparing

variable {w : World σ} {appName : AppName} {compared : Prop} [Decidable compared]

theorem comparing_eq_crash (h : appName.full ∧ compared ∧ OutrunsArray w.apps appName.str)
    (o : Outcome σ) :
    comparing w appName compared o = .crash w [] (.fault .unterminated) := if_pos h

theorem comparing_eq_self (h : ¬(appName.full ∧ compared ∧ OutrunsArray w.apps appName.str))
    (o : Outcome σ) : comparing w appName compared o = o := if_neg h

end Comparing

/-- A comparison calls nobody. -/
theorem mem_calls_of_comparing {w : World σ} {appName : AppName} {compared : Prop}
    [Decidable compared] {o : Outcome σ} {call : Call}
    (h : call ∈ (comparing w appName compared o).calls) : call ∈ o.calls := by
  rw [comparing] at h
  split at h
  · exact absurd h List.not_mem_nil
  · exact h

theorem comparing_of_not_full (w : World σ) {appName : AppName} (hfull : appName.full = false)
    (compared : Prop) [Decidable compared] (o : Outcome σ) :
    comparing w appName compared o = o :=
  comparing_eq_self (fun h => absurd (hfull.symm.trans h.1) (by decide)) o

theorem comparing_kept (w : World σ) (str : CStr) (compared : Prop) [Decidable compared]
    (o : Outcome σ) : comparing w (.kept str) compared o = o :=
  comparing_of_not_full w rfl compared o

/-- The comparisons of a full name that stay in its array find nothing. -/
theorem lookupApp_of_not_outrunsArray {apps : List DIALApp} {name : CStr}
    (h : ¬OutrunsArray apps name) : lookupApp apps name = none := by
  rw [lookupApp_eq, KeyedList.lookup_eq_none]
  intro hmem
  obtain ⟨app, happ, rfl⟩ := List.mem_map.mp hmem
  exact h ⟨app, happ, List.prefix_rfl⟩

/-- What a copy leaves is a string or a full array. -/
theorem copyAppName_cases {uri : CStr} {n : ℕ} {appName : AppName}
    (h : copyAppName uri n = .ok appName) : ∃ str, appName = .kept str ∨ appName = .filled str := by
  rw [copyAppName] at h
  split at h
  · cases h
  · cases hcopy : (Block.calloc 256).strncpy (uri.drop appsUri.strlen) n with
    | error f =>
      rw [hcopy] at h
      cases h
    | ok array =>
      simp only [hcopy, bind, Except.bind] at h
      split at h
      · exact ⟨_, .inl (Except.ok.inj h).symm⟩
      · exact ⟨_, .inr (Except.ok.inj h).symm⟩

section Copied

variable {H : Host σ} {w : World σ} {r : MgRequest} {uri : CStr} {n : ℕ} {appName : AppName}

theorem perform_toOptions (h : copyAppName uri n = .ok appName) (methods : CStr) :
    perform H w r (.toOptions appName methods) =
      comparing w appName (r.host.isSome ∧ scansFor r.origin)
        (optionsResponse w r.host r.origin appName.str methods) := by
  obtain ⟨str, rfl | rfl⟩ := copyAppName_cases h
  · rw [comparing_kept]
    exact freeAppName_kept str _
  · rfl

/-- A guarded action under a name that is not freed. -/
theorem perform_guarded {action : Action} (hguarded : action.guarded = true) (X : CStr) :
    perform H w r (.act action (.kept X)) =
      if r.host.isSome ∧ isAllowedOrigin w.apps r.origin X then handle H w r action X
      else .error w [] 403 "Forbidden" := by
  rw [perform, freeAppName_kept, AppName.kept_str, hguarded]
  simp only [true_and, ite_not]

theorem perform_toAct_stop (h : copyAppName uri n = .ok appName) :
    perform H w r (.toAct .stop appName) =
      comparing w appName (r.host.isSome ∧ scansFor r.origin)
        (if r.host.isSome ∧ isAllowedOrigin w.apps r.origin appName.str then
          comparing w appName True (handleAppStop H w appName.str r.origin)
        else .error w [] 403 "Forbidden") := by
  obtain ⟨str, rfl | rfl⟩ := copyAppName_cases h
  · rw [comparing_kept, comparing_kept]
    exact perform_guarded rfl str
  · change perform H w r (.actFilled .stop str) = _
    simp only [perform, Action.guarded, true_and, ite_not]
    congr!

theorem perform_toAct_hide (h : copyAppName uri n = .ok appName) :
    perform H w r (.toAct .hide appName) =
      comparing w appName True (handleAppHide H w appName.str r.origin) := by
  obtain ⟨str, rfl | rfl⟩ := copyAppName_cases h
  · rw [comparing_kept]
    exact freeAppName_kept str _
  · simp [Route.toAct, AppName.filled, perform, comparing, Action.guarded, handle]

end Copied

section Filled

variable (H : Host σ) (w : World σ) (r : MgRequest) (name : CStr)

/-- **What a full name comes to** at the end of a route to an application. Nothing that is
registered has it, so it is refused by the check, where there is one, or not found by the handler;
unless it is compared with a name that goes on where the array ends, in the scan of the check or
else in the handler. -/
theorem perform_actFilled (action : Action) :
    perform H w r (.actFilled action name) =
      if (action.guarded → r.host.isSome) ∧ OutrunsArray w.apps name then
        .crash w [] (.fault .unterminated)
      else if action.guarded ∧ (r.host.isSome → scansFor r.origin) then
        .error w [] 403 "Forbidden"
      else .error w [] 404 "Not Found" := by
  rw [perform]
  by_cases hout : OutrunsArray w.apps name
  · cases hguarded : action.guarded with
    | false => simp [comparing, AppName.filled, hout]
    | true =>
      cases hhost : r.host.isSome with
      | false => simp [comparing]
      | true =>
        cases hscan : scansFor r.origin with
        | true => simp [comparing, AppName.filled, hout]
        | false => simp [comparing, AppName.filled, hout, isAllowedOrigin_of_not_scansFor hscan]
  · have hnone := lookupApp_of_not_outrunsArray hout
    simp only [comparing, AppName.filled, hout, and_false, if_false, handle_of_lookup_none hnone,
      isAllowedOrigin_of_lookup_none hnone]
    cases r.host.isSome <;> simp

/-- The same for the list of methods. -/
theorem perform_optionsFilled (methods : CStr) :
    perform H w r (.optionsFilled name methods) =
      if (r.host.isSome ∧ scansFor r.origin) ∧ OutrunsArray w.apps name then
        .crash w [] (.fault .unterminated)
      else if r.host.isSome → scansFor r.origin then .error w [] 403 "Forbidden"
      else ⟨w, [], [.printf (optionsText methods r.origin)], none⟩ := by
  rw [perform, comparing]
  by_cases hcompared : (r.host.isSome ∧ scansFor r.origin) ∧ OutrunsArray w.apps name
  · rw [if_pos ⟨rfl, hcompared⟩, if_pos hcompared]
  · rw [if_neg fun h => hcompared h.2, if_neg hcompared, optionsResponse]
    cases hhost : r.host.isSome with
    | false => simp
    | true =>
      cases hscan : scansFor r.origin with
      | false => simp [isAllowedOrigin_of_not_scansFor hscan]
      | true =>
        have hout : ¬OutrunsArray w.apps name := fun h => hcompared ⟨⟨hhost, hscan⟩, h⟩
        have hnone := lookupApp_of_not_outrunsArray hout
        simp [isAllowedOrigin_of_lookup_none hnone, hscan]

theorem perform_optionsFilled_world (methods : CStr) :
    (perform H w r (.optionsFilled name methods)).world = w := by
  rw [perform_optionsFilled]
  split_ifs <;> rfl

theorem perform_optionsFilled_calls (methods : CStr) :
    (perform H w r (.optionsFilled name methods)).calls = [] := by
  rw [perform_optionsFilled]
  split_ifs <;> rfl

theorem perform_actFilled_world (action : Action) :
    (perform H w r (.actFilled action name)).world = w := by
  rw [perform_actFilled]
  split_ifs <;> rfl

theorem perform_actFilled_calls (action : Action) :
    (perform H w r (.actFilled action name)).calls = [] := by
  rw [perform_actFilled]
  split_ifs <;> rfl

end Filled

/-- **The handler performs the route.** -/
theorem requestHandler_eq (H : Host σ) (w : World σ) (r : MgRequest) :
    requestHandler H w r = perform H w r r.route := by
  rw [requestHandler, MgRequest.route, route]
  split
  · -- `/run`
    cases hcopy : copyAppName r.uri (runNameLength r.uri) with
    | error f => rfl
    | ok appName =>
      dsimp only
      split
      · exact (perform_toOptions hcopy _).symm
      · split
        · exact (perform_toAct_stop hcopy).symm
        · rfl
  · split
    · -- `/apps/X`
      have hstart : Action.start.guarded = true := rfl
      dsimp only
      split_ifs
      · exact (freeAppName_kept _ _).symm
      · exact ((perform_guarded hstart _).trans (if_pos ‹_›)).symm
      · exact ((perform_guarded hstart _).trans (if_neg ‹_›)).symm
      · exact (freeAppName_kept _ _).symm
      · rfl
    · split
      · -- `/hide`
        cases hcopy : copyAppName r.uri (hideNameLength r.uri) with
        | error f => rfl
        | ok appName =>
          dsimp only
          split
          · exact (perform_toOptions hcopy _).symm
          · split
            · exact (perform_toAct_hide hcopy).symm
            · rfl
      · split_ifs <;> simp_all [perform, handle, Action.guarded]

/-! ### What a request acts on -/

/-- The application a route leads to. -/
def Route.target : Route → Option CStr
  | .crash _ => none
  | .refuse _ _ => none
  | .options appName _ => some appName.str
  | .act _ appName => some appName.str
  | .optionsFilled name _ => some name
  | .actFilled _ name => some name

/-- A comparison changes nothing. -/
theorem ActsOn.comparing {w : World σ} {o : Outcome σ} {X : CStr} (h : ActsOn w o X)
    (appName : AppName) (compared : Prop) [Decidable compared] :
    ActsOn w (comparing w appName compared o) X := by
  rw [DialServer.comparing]
  split
  · exact actsOn_of_eq rfl (by simp)
  · exact h

theorem ActsOn.freeAppName {w : World σ} {o : Outcome σ} {X : CStr} (h : ActsOn w o X)
    (appName : AppName) : ActsOn w (freeAppName appName o) X :=
  ⟨by rw [freeAppName_world]; exact h.fixed, by rw [freeAppName_world]; exact h.others,
    by rw [freeAppName_world]; exact h.files, by rw [freeAppName_world]; exact h.port,
    by rw [freeAppName_world]; exact h.dir, by rw [freeAppName_calls]; exact h.owners⟩

/-- **A request acts on the application its route leads to**, and on none if it
leads to none. -/
theorem actsOn_requestHandler {H : Host σ} {w : World σ} {r : MgRequest} {X : CStr}
    (hX : ∀ Y, r.route.target = some Y → Y = X) : ActsOn w (requestHandler H w r) X := by
  rw [requestHandler_eq]
  cases hroute : r.route with
  | crash f => exact actsOn_of_eq rfl (by simp [perform])
  | refuse status reason => exact actsOn_of_eq rfl (by simp [perform])
  | options appName methods =>
    exact (actsOn_of_eq (optionsResponse_world ..) (by simp)).freeAppName _
  | act action appName =>
    obtain rfl : appName.str = X := hX _ (by rw [hroute, Route.target])
    rw [perform]
    split
    · exact actsOn_of_eq rfl (by simp)
    · exact (actsOn_handle H w r action appName.str).freeAppName _
  | optionsFilled name methods =>
    exact actsOn_of_eq (perform_optionsFilled_world ..) (by simp [perform_optionsFilled_calls])
  | actFilled action name =>
    exact actsOn_of_eq (perform_actFilled_world ..) (by simp [perform_actFilled_calls])

end DialServer
