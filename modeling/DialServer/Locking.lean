import DialServer.Lib.Mutex
import DialServer.Routing

/-!
# The lock

The server has one mutex, and the worker threads take it in the handlers and in
`is_allowed_origin`. It is not recursive, the handlers leave their critical
sections in many places, and the code they send errors with does not just send:
`send_http_error` logs, and logging is a call of `request_handler` with another
event, in the same thread and under the same lock.

Here a handler is followed statement by statement as the `Mutex.Script` of one
thread: the locks it takes and gives back, the callbacks it makes, what it sends
and logs. The code that sends has what logging does as a parameter, and
`DialServer.requestHandlerThread` closes the circle: what it logs with is a call of itself.
`DialServer.follows_requestHandlerThread` says that these scripts and the
outcomes of `DialServer.requestHandler` are two views of the same code, and
`DialServer.lock_discipline` that the locks are matched and never nested.
-/

namespace DialServer

open CLib Mutex

/-! ### What a thread does -/

/-- The events the HTTP layer calls `request_handler` for. -/
inductive MgEvent
  | newRequest
  | httpError
  | eventLog
  deriving DecidableEq

/-- What a thread that serves a request does. -/
inductive Act
  /-- `ds->lock()`. -/
  | lock
  /-- `ds->unlock()`. -/
  | unlock
  /-- A callback. -/
  | callback (call : Call)
  /-- A reply goes out. -/
  | send (reply : Reply)
  /-- `request_handler` prints a message of the HTTP layer. -/
  | log
  deriving DecidableEq

/-- What an act does to the mutex. -/
def Act.mutexOp : Act → Option Mutex.Op
  | .lock => some .lock
  | .unlock => some .unlock
  | .callback _ => none
  | .send _ => none
  | .log => none

/-- The callback made. -/
def Act.call : Act → Option Call
  | .callback call => some call
  | .lock => none
  | .unlock => none
  | .send _ => none
  | .log => none

/-- What is sent. -/
def Act.reply : Act → Option Reply
  | .send reply => some reply
  | .lock => none
  | .unlock => none
  | .callback _ => none
  | .log => none

/-- A piece of the server's code as one thread goes through it. -/
abbrev Thread := Script Act Halt

/-- A thread that is asked whether it holds the lock. -/
abbrev Holds (held : Bool) (t : Thread) (held' : Bool) : Prop := Triple Act.mutexOp held t held'

variable {σ : Type}

/-! ### The HTTP layer -/

/-- `call_user`, with the function that `mg_start` was given. -/
def callUser (userCallback : MgEvent → Thread) (event : MgEvent) : Thread := userCallback event

/-- `cry`: the message is handed to that function, as an event of its own. Its buffer has
`BUFSIZ` bytes, which is enough for every message there is. -/
def cry (userCallback : MgEvent → Thread) : Thread := callUser userCallback .eventLog

section Layer

variable (log : Thread)

/-- `vsnprintf` of the HTTP layer, for a buffer of `buflen` bytes: a text that is
cut is logged, unless there is no buffer at all. -/
def mgVsnprintf (buflen : ℕ) (text : CStr) : Thread :=
  if buflen = 0 then .done
  else if buflen ≤ text.strlen then log
  else .done

/-- `conn->printf`. -/
def mgPrintf (bufsiz : ℕ) (text : CStr) : Thread :=
  (mgVsnprintf log bufsiz text).andThen (.act (.send (.printf text)))

/-- The header section of an error, for a body of `len` bytes. -/
def errorHeader (status : ℕ) (reason : CStr) (len : ℕ) : CStr :=
  .lit "HTTP/1.1 " ++ .ofNat status ++ .lit " " ++ reason ++
    .lit "\r\nContent-Type: text/plain\r\nContent-Length: " ++ .ofNat len ++
    .lit "\r\nConnection: close\r\n\r\n"

/-- The first line of the body of an error. -/
def errorLine (status : ℕ) (reason : CStr) : CStr :=
  .lit "Error " ++ .ofNat status ++ .lit ": " ++ reason

/-- `send_http_error`. What is counted as sent is the whole of it, once. -/
def sendHttpError (bufsiz status : ℕ) (reason fmt : CStr) : Thread :=
  let line := errorLine status reason
  -- errors 1xx, 204 and 304 must not send a body
  let body := if 199 < status ∧ status ≠ 204 ∧ status ≠ 304 then line ++ .lit "\n" ++ fmt else .nil
  Script.andThen
    (if 199 < status ∧ status ≠ 204 ∧ status ≠ 304 then
      (mgVsnprintf log bufsiz line).andThen (log.andThen
        (mgVsnprintf log (bufsiz - (line.strlen + 1)) fmt))
    else .done)
    ((mgVsnprintf log bufsiz (errorHeader status reason body.strlen)).andThen
      ((Script.act (.send (.httpError status reason fmt))).andThen (mgVsnprintf log bufsiz body)))

end Layer

/-! ### The server -/

section Threads

variable (log : Thread) (bufsiz : ℕ) (H : Host σ) (w : World σ) (r : MgRequest)

/-- An error with a reason, which is also its text. -/
def errorThread (status : ℕ) (reason : String) : Thread :=
  sendHttpError log bufsiz status (.lit reason) (.lit reason)

/-- `find_app` under the lock: a name that fills its array may be read past the end. -/
def comparingThread (appName : AppName) (t : Thread) : Thread :=
  if appName.full ∧ OutrunsArray w.apps appName.str then
    (Script.act .lock).andThen (.die (.fault .unterminated))
  else t

/-- `is_allowed_origin`, which returns before it locks when there is nothing to
check. -/
def isAllowedOriginThread (origin : Option CStr) (appName : AppName) : Thread :=
  if scansFor origin then comparingThread w appName ((Script.act .lock).andThen (.act .unlock))
  else .done

/-- The check in front of a handler, which may be that of `options_response`. -/
def guardedThread (appName : AppName) (handler : Thread) : Thread :=
  if r.host.isSome then
    (isAllowedOriginThread w r.origin appName).andThen
      (if isAllowedOrigin w.apps r.origin appName.str then handler
      else errorThread log bufsiz 403 "Forbidden")
  else errorThread log bufsiz 403 "Forbidden"

/-- `options_response`. -/
def optionsResponseThread (appName : AppName) (methods : CStr) : Thread :=
  guardedThread log bufsiz w r appName (mgPrintf log bufsiz (optionsText methods r.origin))

/-- `handle_app_start`. -/
def handleAppStartThread (appName : CStr) : Thread :=
  (Script.act .lock).andThen <| Script.andThen
    (match w.apps[findApp w.apps appName]? with
    | none => errorThread log bufsiz 404 "Not Found"
    | some app =>
      let body := r.body.take (dialMaxPayload + 256 + 2)
      if hbody : dialMaxPayload < body.length then
        errorThread log bufsiz 413 "413 Request Entity Too Large"
      else if isBadPayload body then errorThread log bufsiz 400 "400 Bad Request"
      else
        match additionalDataFor app w.port appName with
        | .error f => .die (.fault f)
        | .ok param =>
          let args := launchArgs app appName
          let payload := CStr.ofBuffer body
          let state :=
            (launchResult H w app appName ⟨body, Nat.le_of_not_lt hbody⟩ param).2.1
          (Script.act (.callback ⟨app.name, .start payload param, args, some state⟩)).andThen <|
            if state = .running then
              mgPrintf log bufsiz (createdText r.localAddr w.port appName r.origin)
            else errorThread log bufsiz 503 "Service Unavailable")
    (.act .unlock)

/-- `handle_app_status`. -/
def handleAppStatusThread (appName : CStr) : Thread :=
  let oldClient : Bool := match parseParam r.queryString (.lit "clientDialVer") with
    | none => true
    | some version => H.belowVersion version
  let slot := findApp w.apps appName
  (Script.act .lock).andThen <|
    match w.apps[slot]? with
    | none => (errorThread log bufsiz 404 "Not Found").andThen (.act .unlock)
    | some app =>
      match renderDialData app.dialData with
      | .error f => .die (.fault f)
      | .ok dialData =>
        let polled := pollStatus H w slot app appName
        let localState :=
          if oldClient ∧ polled.app.state = .hide then .stopped else polled.app.state
        (Script.act (.callback polled.call)).andThen <|
          (mgPrintf log bufsiz
            (statusText r.origin polled.app.name polled.canStop localState dialData)).andThen
            (.act .unlock)

/-- `handle_app_stop`. -/
def handleAppStopThread (appName : CStr) : Thread :=
  let slot := findApp w.apps appName
  (Script.act .lock).andThen <| Script.andThen
    (match w.apps[slot]? with
    | none => errorThread log bufsiz 404 "Not Found"
    | some app =>
      let polled := pollStatus H w slot app appName
      (Script.act (.callback polled.call)).andThen <|
        if polled.app.state = .stopped then errorThread log bufsiz 404 "Not Found"
        else
          let args : Invocation :=
            ⟨polled.app.callbacks.stopCb, appName, polled.app.runId, polled.app.callbackData⟩
          (Script.act (.callback ⟨polled.app.name, .stop, args, none⟩)).andThen
            (mgPrintf log bufsiz (okText r.origin)))
    (.act .unlock)

/-- `handle_app_hide`. -/
def handleAppHideThread (appName : CStr) : Thread :=
  let slot := findApp w.apps appName
  (Script.act .lock).andThen <| Script.andThen
    (match w.apps[slot]? with
    | none => errorThread log bufsiz 404 "Not Found"
    | some app =>
      let polled := pollStatus H w slot app appName
      (Script.act (.callback polled.call)).andThen <|
        if polled.app.state ≠ .running ∧ polled.app.state ≠ .hide then
          errorThread log bufsiz 404 "Not Found"
        else
          let args : Invocation :=
            ⟨polled.app.callbacks.hideCb, appName, polled.app.runId, polled.app.callbackData⟩
          let status := (H.hideCb polled.world.host args (getPayload polled.world.apps)).2.1
          (Script.act (.callback ⟨polled.app.name, .hide, args, some status⟩)).andThen <|
            if status ≠ .hide then errorThread log bufsiz 501 "Not Implemented"
            else mgPrintf log bufsiz (okText r.origin))
    (.act .unlock)

/-- `handle_dial_data`, which unlocks before every `return`. -/
def handleDialDataThread (appName : CStr) (usePayload : Bool) : Thread :=
  (Script.act .lock).andThen <|
    match w.apps[findApp w.apps appName]? with
    | none => (errorThread log bufsiz 404 "Not Found").andThen (.act .unlock)
    | some app =>
      let body := dialDataBody r usePayload
      if body.length > dialDataMaxPayload then
        (errorThread log bufsiz 413 "413 Request Entity Too Large").andThen (.act .unlock)
      else if isBadPayload body then
        (errorThread log bufsiz 400 "400 Bad Request").andThen (.act .unlock)
      else
        match parseParams (some (.ofBuffer body)) with
        | .error f => .die (.fault f)
        | .ok dialData =>
          match storeDialData (H.canOpen w.host) w.dialDataDir w.files app.name dialData with
          | .error halt => .die halt
          | .ok _ => (mgPrintf log bufsiz (dialDataText r.origin)).andThen (.act .unlock)

/-- `free(app_name)`. -/
def freeAppNameThread (appName : AppName) : Thread :=
  if appName.onHeap then .done else .die (.fault .badFree)

/-- What `request_handler` does for a new request. -/
def newRequestThread : Thread :=
  if uriEndsWith r.requestMethod r.uri runUri then
    match copyAppName r.uri (runNameLength r.uri) with
    | .error f => .die (.fault f)
    | .ok appName =>
      if r.requestMethod = .lit "OPTIONS" then
        optionsResponseThread log bufsiz w r appName (.lit "DELETE, OPTIONS")
      else if appName.str ≠ .nil ∧ r.requestMethod = .lit "DELETE" then
        guardedThread log bufsiz w r appName
          (comparingThread w appName (handleAppStopThread log bufsiz H w r appName.str))
      else errorThread log bufsiz 501 "Not Implemented"
  else if r.uri.eqN appsUri appsUri.strlen ∧
      strchr (r.uri.drop appsUri.strlen).bytes '/'.toUInt8 = none then
    let appName := r.uri.drop appsUri.strlen
    if r.requestMethod = .lit "OPTIONS" then
      optionsResponseThread log bufsiz w r (.kept appName) (.lit "GET, POST, OPTIONS")
    else if r.requestMethod = .lit "POST" then
      guardedThread log bufsiz w r (.kept appName) (handleAppStartThread log bufsiz H w r appName)
    else if r.requestMethod = .lit "GET" then handleAppStatusThread log bufsiz H w r appName
    else errorThread log bufsiz 501 "Not Implemented"
  else if uriEndsWith r.requestMethod r.uri hideUri then
    match copyAppName r.uri (hideNameLength r.uri) with
    | .error f => .die (.fault f)
    | .ok appName =>
      if r.requestMethod = .lit "OPTIONS" then
        optionsResponseThread log bufsiz w r appName (.lit "POST, OPTIONS")
      else if appName.str ≠ .nil ∧ r.requestMethod = .lit "POST" then
        comparingThread w appName (handleAppHideThread log bufsiz H w r appName.str)
      else errorThread log bufsiz 501 "Not Implemented"
  else if (strstr dialDataUri.bytes r.uri.bytes).isSome then
    if (inetNtop r.remoteAddr).eqN gLocalhost gLocalhost.strlen then
      let appName := parseAppName (some r.uri)
      if r.requestMethod = .lit "OPTIONS" then
        (optionsResponseThread log bufsiz w r appName (.lit "POST, OPTIONS")).andThen
          (freeAppNameThread appName)
      else
        (handleDialDataThread log bufsiz H w r appName.str
          (r.requestMethod = .lit "POST")).andThen (freeAppNameThread appName)
    else errorThread log bufsiz 403 "Forbidden"
  else errorThread log bufsiz 404 "Not Found"

end Threads

section Events

variable (userCallback : MgEvent → Thread) (bufsiz : ℕ) (H : Host σ) (w : World σ) (r : MgRequest)

/-- `request_handler`, for every event, where the HTTP layer calls back `userCallback`. -/
def requestHandlerWith : MgEvent → Thread
  | .newRequest => newRequestThread (cry userCallback) bufsiz H w r
  | .eventLog => .act .log
  | .httpError => .done

/-- **`request_handler`, which is what the HTTP layer calls back.** A new request is logged in
calls of it, and these log nothing. -/
def requestHandlerThread : MgEvent → Thread :=
  requestHandlerWith (requestHandlerWith (fun _ => .done) bufsiz H w r) bufsiz H w r

/-- Logging is printing a message. -/
theorem cry_requestHandlerWith : cry (requestHandlerWith userCallback bufsiz H w r) = .act .log :=
  rfl

variable {userCallback} in
/-- Only the calls for logging matter. -/
theorem requestHandlerWith_congr {userCallback' : MgEvent → Thread}
    (h : cry userCallback = cry userCallback') :
    requestHandlerWith userCallback bufsiz H w r =
      requestHandlerWith userCallback' bufsiz H w r := by
  funext event
  cases event with
  | newRequest => exact congrArg (newRequestThread · bufsiz H w r) h
  | httpError => rfl
  | eventLog => rfl

/-- It calls itself: no call is deeper than that. -/
theorem requestHandlerThread_eq :
    requestHandlerThread bufsiz H w r =
      requestHandlerWith (requestHandlerThread bufsiz H w r) bufsiz H w r := by
  have hcry : cry (requestHandlerThread bufsiz H w r) = .act .log := by
    rw [requestHandlerThread]
    exact cry_requestHandlerWith ..
  exact requestHandlerWith_congr _ _ _ _ ((cry_requestHandlerWith ..).trans hcry.symm)

end Events

/-! ### Two views of the same code -/

/-- A thread makes the callbacks of an outcome, sends what it sends and ends as it
ends. -/
structure Follows (t : Thread) (o : Outcome σ) : Prop where
  calls : t.acts.filterMap Act.call = o.calls
  replies : t.acts.filterMap Act.reply = o.replies
  halt : t.halt = o.halt

/-- A thread that calls nobody, sends nothing and gets to its end. -/
structure Silent (t : Thread) : Prop where
  calls : t.acts.filterMap Act.call = []
  replies : t.acts.filterMap Act.reply = []
  halt : t.halt = none

theorem silent_done : Silent .done := ⟨rfl, rfl, rfl⟩

/-- What is logged is not sent. -/
theorem silent_log : Silent (.act .log) := ⟨rfl, rfl, rfl⟩

section Follows

variable {log : Thread} {bufsiz : ℕ} {H : Host σ} {w : World σ} {r : MgRequest} {appName : CStr}
  {t p : Thread} {o : Outcome σ}

/-- Only what is called, what is sent and how it ends counts. -/
theorem Follows.of_eq {o' : Outcome σ} (h : Follows t o) (hcalls : o'.calls = o.calls)
    (hreplies : o'.replies = o.replies) (hhalt : o'.halt = o.halt) : Follows t o' :=
  ⟨h.calls.trans hcalls.symm, h.replies.trans hreplies.symm, h.halt.trans hhalt.symm⟩

theorem follows_die (h : Halt) : Follows (.die h) (.crash w [] h) := ⟨rfl, rfl, rfl⟩

theorem Follows.lock (h : Follows t o) : Follows ((Script.act .lock).andThen t) o :=
  ⟨h.calls, h.replies, h.halt⟩

/-- What is silent in front of a thread leaves no trace in its outcome. -/
theorem Follows.silent (hp : Silent p) (h : Follows t o) : Follows (p.andThen t) o := by
  have hacts : p.andThen t = ⟨p.acts ++ t.acts, t.halt⟩ := by
    simp only [Script.andThen, hp.halt]
  rw [hacts]
  refine ⟨?_, ?_, h.halt⟩
  · rw [List.filterMap_append, hp.calls, h.calls, List.nil_append]
  · rw [List.filterMap_append, hp.replies, h.replies, List.nil_append]

/-- Nor does it behind the thread. -/
theorem Follows.andThen_silent (hp : Silent p) (h : Follows t o) : Follows (t.andThen p) o := by
  obtain ⟨acts, halt⟩ := t
  cases halt with
  | some halt => exact h
  | none =>
    refine ⟨?_, ?_, hp.halt.trans h.halt⟩
    · rw [← h.calls]
      simp [Script.andThen, hp.calls]
    · rw [← h.replies]
      simp [Script.andThen, hp.replies]

theorem Follows.unlock (h : Follows t o) : Follows (t.andThen (.act .unlock)) o :=
  h.andThen_silent ⟨rfl, rfl, rfl⟩

/-- A callback comes in front of what is done after it. -/
theorem Follows.callback {w v : World σ} {calls : List Call} {replies : List Reply}
    {halt : Option Halt} (call : Call) (h : Follows t ⟨w, calls, replies, halt⟩) :
    Follows ((Script.act (.callback call)).andThen t) (⟨v, call :: calls, replies, halt⟩) :=
  ⟨congrArg (call :: ·) h.calls, h.replies, h.halt⟩

theorem Silent.andThen {q : Thread} (hp : Silent p) (hq : Silent q) : Silent (p.andThen q) := by
  have hacts : p.andThen q = ⟨p.acts ++ q.acts, q.halt⟩ := by
    simp only [Script.andThen, hp.halt]
  rw [hacts]
  refine ⟨?_, ?_, hq.halt⟩
  · rw [List.filterMap_append, hp.calls, hq.calls, List.nil_append]
  · rw [List.filterMap_append, hp.replies, hq.replies, List.nil_append]

/-- A comparison that leaves its array ends the thread with the lock. -/
theorem Follows.comparing {appName : AppName} (h : Follows t o) :
    Follows (comparingThread w appName t) (comparing w appName True o) := by
  rw [comparingThread]
  by_cases hcrash : appName.full ∧ OutrunsArray w.apps appName.str
  · rw [if_pos hcrash, comparing_eq_crash ⟨hcrash.1, trivial, hcrash.2⟩]
    exact ⟨rfl, rfl, rfl⟩
  · rw [if_neg hcrash, comparing_eq_self fun h => hcrash ⟨h.1, h.2.2⟩]
    exact h

theorem Follows.freeAppName (h : Follows t o) (name : AppName) :
    Follows (t.andThen (freeAppNameThread name)) (freeAppName name o) := by
  obtain ⟨acts, halt⟩ := t
  have hhalt : halt = o.halt := h.halt
  rw [DialServer.freeAppName, ← hhalt]
  cases halt with
  | some halt => exact h
  | none =>
    have hkept : Follows ((⟨acts, none⟩ : Thread).andThen .done) o :=
      ⟨by rw [← h.calls]; exact congrArg _ (List.append_nil acts),
        by rw [← h.replies]; exact congrArg _ (List.append_nil acts), hhalt⟩
    rcases hheap : name.onHeap with _ | _
    · rw [freeAppNameThread, hheap]
      exact ⟨hkept.calls, hkept.replies, rfl⟩
    · rw [freeAppNameThread, hheap]
      exact hkept

section Logging

variable (hlog : Silent log)

include hlog

theorem silent_mgVsnprintf {buflen : ℕ} {text : CStr} : Silent (mgVsnprintf log buflen text) := by
  rw [mgVsnprintf]
  split_ifs
  · exact silent_done
  · exact hlog
  · exact silent_done

theorem follows_mgPrintf {text : CStr} :
    Follows (mgPrintf log bufsiz text) (⟨w, [], [.printf text], none⟩ : Outcome σ) :=
  Follows.silent (silent_mgVsnprintf hlog) ⟨rfl, rfl, rfl⟩

theorem follows_errorThread {status : ℕ} {reason : String} :
    Follows (errorThread log bufsiz status reason) (Outcome.error w [] status reason) := by
  rw [errorThread, sendHttpError]
  refine Follows.silent ?_ (Follows.silent (silent_mgVsnprintf hlog) ?_)
  · split
    · exact (silent_mgVsnprintf hlog).andThen (hlog.andThen (silent_mgVsnprintf hlog))
    · exact silent_done
  · -- what is logged after the error went out leaves no trace either
    exact Follows.andThen_silent (silent_mgVsnprintf hlog) ⟨rfl, rfl, rfl⟩

theorem follows_guardedThread {appName : AppName} (h : Follows t o) :
    Follows (guardedThread log bufsiz w r appName t)
      (comparing w appName (r.host.isSome ∧ scansFor r.origin)
        (if r.host.isSome ∧ isAllowedOrigin w.apps r.origin appName.str then o
          else .error w [] 403 "Forbidden")) := by
  rw [guardedThread]
  by_cases hhost : r.host.isSome
  · have hchosen : Follows (if isAllowedOrigin w.apps r.origin appName.str then t
          else errorThread log bufsiz 403 "Forbidden")
        (if r.host.isSome ∧ isAllowedOrigin w.apps r.origin appName.str then o
          else .error w [] 403 "Forbidden") := by
      by_cases hallowed : isAllowedOrigin w.apps r.origin appName.str
      · rw [if_pos hallowed, if_pos ⟨hhost, hallowed⟩]
        exact h
      · rw [if_neg hallowed, if_neg fun h => hallowed h.2]
        exact follows_errorThread hlog
    rw [if_pos hhost, isAllowedOriginThread]
    by_cases hscan : scansFor r.origin
    · rw [if_pos hscan, comparingThread]
      by_cases hcrash : appName.full ∧ OutrunsArray w.apps appName.str
      · rw [if_pos hcrash, comparing_eq_crash ⟨hcrash.1, ⟨hhost, hscan⟩, hcrash.2⟩]
        exact ⟨rfl, rfl, rfl⟩
      · rw [if_neg hcrash, comparing_eq_self fun h => hcrash ⟨h.1, h.2.2⟩]
        exact Follows.silent ⟨rfl, rfl, rfl⟩ hchosen
    · rw [if_neg hscan, comparing_eq_self fun h => hscan h.2.1.2]
      exact Follows.silent silent_done hchosen
  · rw [if_neg hhost, comparing_eq_self fun h => hhost h.2.1.1, if_neg fun h => hhost h.1]
    exact follows_errorThread hlog

theorem follows_optionsResponseThread {appName : AppName} {methods : CStr} :
    Follows (optionsResponseThread log bufsiz w r appName methods)
      (comparing w appName (r.host.isSome ∧ scansFor r.origin)
        (optionsResponse w r.host r.origin appName.str methods)) :=
  follows_guardedThread hlog (follows_mgPrintf hlog)

/-- A name that does not fill its array is compared inside it. -/
theorem follows_guardedThread_of_not_full {appName : AppName} (hfull : appName.full = false)
    (h : Follows t o) :
    Follows (guardedThread log bufsiz w r appName t)
      (if r.host.isSome ∧ isAllowedOrigin w.apps r.origin appName.str then o
        else .error w [] 403 "Forbidden") := by
  have hguarded : Follows (guardedThread log bufsiz w r appName t) _ :=
    follows_guardedThread hlog h
  rwa [comparing_of_not_full w hfull] at hguarded

theorem follows_optionsResponseThread_of_not_full {appName : AppName} {methods : CStr}
    (hfull : appName.full = false) :
    Follows (optionsResponseThread log bufsiz w r appName methods)
      (optionsResponse w r.host r.origin appName.str methods) :=
  follows_guardedThread_of_not_full hlog hfull (follows_mgPrintf hlog)

/-- A launch makes one callback and sends one of two replies. -/
theorem follows_launch {app : DIALApp} {param : CStr} (body : Payload) :
    Follows
      ((Script.act (.callback ⟨app.name, .start (.ofBuffer body.bytes) param,
        launchArgs app appName, some (launchResult H w app appName body param).2.1⟩)).andThen
        (if (launchResult H w app appName body param).2.1 = .running then
          mgPrintf log bufsiz (createdText r.localAddr w.port appName r.origin)
        else errorThread log bufsiz 503 "Service Unavailable"))
      (launch H w r (findApp w.apps appName) app appName r.origin body param) := by
  have hreplies := launch_replies H w r (findApp w.apps appName) app appName r.origin body param
  split at hreplies
  · rename_i hrun
    rw [if_pos hrun]
    exact ((follows_mgPrintf (w := w) hlog).callback (v := w) _).of_eq (launch_calls ..) hreplies
      (launch_halt ..)
  · rename_i hrun
    rw [if_neg hrun]
    exact ((follows_errorThread (w := w) hlog).callback (v := w) _).of_eq (launch_calls ..) hreplies
      (launch_halt ..)

theorem follows_handleAppStartThread :
    Follows (handleAppStartThread log bufsiz H w r appName)
      (handleAppStart H w r appName r.origin) := by
  rw [handleAppStartThread, handleAppStart]
  refine (Follows.unlock ?_).lock
  rcases w.apps[findApp w.apps appName]? with _ | app
  · exact follows_errorThread hlog
  · dsimp only
    split
    · exact follows_errorThread hlog
    · split
      · exact follows_errorThread hlog
      · rcases additionalDataFor app w.port appName with f | param
        · exact follows_die _
        · exact follows_launch hlog ⟨_, _⟩

theorem follows_handleAppStatusThread :
    Follows (handleAppStatusThread log bufsiz H w r appName)
      (handleAppStatus H w r appName r.origin) := by
  rw [handleAppStatusThread, handleAppStatus]
  refine Follows.lock ?_
  rcases w.apps[findApp w.apps appName]? with _ | app
  · exact (follows_errorThread hlog).unlock
  · dsimp only
    rcases renderDialData app.dialData with f | dialData
    · exact follows_die _
    · exact (follows_mgPrintf (w := w) hlog).unlock.callback _

theorem follows_handleAppStopThread :
    Follows (handleAppStopThread log bufsiz H w r appName)
      (handleAppStop H w appName r.origin) := by
  rw [handleAppStopThread, handleAppStop]
  refine (Follows.unlock ?_).lock
  rcases w.apps[findApp w.apps appName]? with _ | app
  · exact follows_errorThread hlog
  · dsimp only
    split
    · exact (follows_errorThread (w := w) hlog).callback _
    · exact ((follows_mgPrintf (w := w) hlog).callback (v := w) _).callback _

theorem follows_handleAppHideThread :
    Follows (handleAppHideThread log bufsiz H w r appName)
      (handleAppHide H w appName r.origin) := by
  rw [handleAppHideThread, handleAppHide]
  refine (Follows.unlock ?_).lock
  rcases w.apps[findApp w.apps appName]? with _ | app
  · exact follows_errorThread hlog
  · dsimp only
    split
    · exact (follows_errorThread (w := w) hlog).callback _
    · split
      · exact ((follows_errorThread (w := w) hlog).callback (v := w) _).callback _
      · exact ((follows_mgPrintf (w := w) hlog).callback (v := w) _).callback _

theorem follows_handleDialDataThread {usePayload : Bool} :
    Follows (handleDialDataThread log bufsiz H w r appName usePayload)
      (handleDialData H w r appName r.origin usePayload) := by
  rw [handleDialDataThread, handleDialData]
  refine Follows.lock ?_
  rcases w.apps[findApp w.apps appName]? with _ | app
  · exact (follows_errorThread hlog).unlock
  · dsimp only
    split
    · exact (follows_errorThread hlog).unlock
    · split
      · exact (follows_errorThread hlog).unlock
      · rcases parseParams (some (.ofBuffer (dialDataBody r usePayload))) with f | dialData
        · exact follows_die _
        · dsimp only
          rcases storeDialData (H.canOpen w.host) w.dialDataDir w.files app.name dialData with
            halt | files
          · exact ⟨rfl, rfl, rfl⟩
          · refine Follows.unlock ?_
            exact (follows_mgPrintf (w := w) hlog).of_eq rfl rfl rfl

/-- **The scripts and the outcomes are two views of the same code.** -/
theorem follows_newRequestThread :
    Follows (newRequestThread log bufsiz H w r) (requestHandler H w r) := by
  rw [newRequestThread, requestHandler]
  split
  · -- `/run`
    cases copyAppName r.uri (runNameLength r.uri) with
    | error f => exact follows_die _
    | ok appName =>
      dsimp only
      split
      · exact follows_optionsResponseThread hlog
      · split
        · exact follows_guardedThread hlog (follows_handleAppStopThread hlog).comparing
        · exact follows_errorThread hlog
  · split
    · -- `/apps/X`
      dsimp only
      split
      · exact follows_optionsResponseThread_of_not_full hlog rfl
      · split
        · exact follows_guardedThread_of_not_full hlog rfl (follows_handleAppStartThread hlog)
        · split
          · exact follows_handleAppStatusThread hlog
          · exact follows_errorThread hlog
    · split
      · -- `/hide`
        cases copyAppName r.uri (hideNameLength r.uri) with
        | error f => exact follows_die _
        | ok appName =>
          dsimp only
          split
          · exact follows_optionsResponseThread hlog
          · split
            · exact (follows_handleAppHideThread hlog).comparing
            · exact follows_errorThread hlog
      · -- `/dial_data`
        split
        · split
          · split
            · exact (follows_optionsResponseThread_of_not_full hlog
                (full_parseAppName _)).freeAppName _
            · exact (follows_handleDialDataThread hlog).freeAppName _
          · exact follows_errorThread hlog
        · exact follows_errorThread hlog

end Logging

/-- A new request makes the callbacks and sends the replies of `requestHandler`. -/
theorem follows_requestHandlerThread :
    Follows (requestHandlerThread bufsiz H w r .newRequest) (requestHandler H w r) := by
  rw [requestHandlerThread_eq]
  exact follows_newRequestThread silent_log

end Follows

/-! ### The discipline -/

section Discipline

variable {log : Thread} {bufsiz : ℕ} {H : Host σ} {w : World σ} {r : MgRequest} {appName : CStr}
  {held : Bool}

theorem holds_lock : Holds false (.act .lock) true := triple_lock rfl

theorem holds_unlock : Holds true (.act .unlock) false := triple_unlock rfl

/-- A callback takes no lock. -/
theorem holds_callback {call : Call} : Holds held (.act (.callback call)) held := triple_act rfl

theorem holds_send {reply : Reply} : Holds held (.act (.send reply)) held := triple_act rfl

/-- A comparison under the lock, which may leave its array, is in the way of no pair. -/
theorem holds_comparingThread {appName : AppName} {t : Thread} (h : Holds false t false) :
    Holds false (comparingThread w appName t) false := by
  rw [comparingThread]
  split
  · exact holds_lock.andThen (triple_die _)
  · exact h

theorem holds_isAllowedOriginThread {origin : Option CStr} {appName : AppName} :
    Holds false (isAllowedOriginThread w origin appName) false := by
  rw [isAllowedOriginThread]
  split
  · exact holds_comparingThread (holds_lock.andThen holds_unlock)
  · exact triple_done

theorem holds_freeAppNameThread {name : AppName} : Holds held (freeAppNameThread name) held := by
  rw [freeAppNameThread]
  split
  · exact triple_done
  · exact triple_die _

section Logging

/- Logging takes no lock, whether the thread holds it or not. -/
variable (hlog : ∀ held, Holds held log held)

include hlog

theorem holds_mgVsnprintf {buflen : ℕ} {text : CStr} :
    Holds held (mgVsnprintf log buflen text) held := by
  rw [mgVsnprintf]
  split_ifs
  · exact triple_done
  · exact hlog held
  · exact triple_done

theorem holds_mgPrintf {text : CStr} : Holds held (mgPrintf log bufsiz text) held :=
  (holds_mgVsnprintf hlog).andThen holds_send

theorem holds_errorThread {status : ℕ} {reason : String} :
    Holds held (errorThread log bufsiz status reason) held := by
  rw [errorThread, sendHttpError]
  refine Triple.andThen ?_
    ((holds_mgVsnprintf hlog).andThen (holds_send.andThen (holds_mgVsnprintf hlog)))
  split
  · exact (holds_mgVsnprintf hlog).andThen ((hlog held).andThen (holds_mgVsnprintf hlog))
  · exact triple_done

theorem holds_guardedThread {appName : AppName} {handler : Thread} (h : Holds false handler false) :
    Holds false (guardedThread log bufsiz w r appName handler) false := by
  rw [guardedThread]
  split
  · refine holds_isAllowedOriginThread.andThen ?_
    split
    · exact h
    · exact holds_errorThread hlog
  · exact holds_errorThread hlog

/-- The answer to `OPTIONS` is guarded like a handler. -/
theorem holds_optionsResponseThread {appName : AppName} {methods : CStr} :
    Holds false (optionsResponseThread log bufsiz w r appName methods) false :=
  holds_guardedThread hlog (holds_mgPrintf hlog)

theorem holds_handleAppStartThread :
    Holds false (handleAppStartThread log bufsiz H w r appName) false := by
  rw [handleAppStartThread]
  refine holds_lock.andThen (Triple.andThen ?_ holds_unlock)
  rcases w.apps[findApp w.apps appName]? with _ | app
  · exact holds_errorThread hlog
  · dsimp only
    split
    · exact holds_errorThread hlog
    · split
      · exact holds_errorThread hlog
      · rcases additionalDataFor app w.port appName with f | param
        · exact triple_die _
        · refine holds_callback.andThen ?_
          split
          · exact holds_mgPrintf hlog
          · exact holds_errorThread hlog

theorem holds_handleAppStatusThread :
    Holds false (handleAppStatusThread log bufsiz H w r appName) false := by
  rw [handleAppStatusThread]
  refine holds_lock.andThen ?_
  rcases w.apps[findApp w.apps appName]? with _ | app
  · exact (holds_errorThread hlog).andThen holds_unlock
  · dsimp only
    rcases renderDialData app.dialData with f | dialData
    · exact triple_die _
    · exact holds_callback.andThen ((holds_mgPrintf hlog).andThen holds_unlock)

theorem holds_handleAppStopThread :
    Holds false (handleAppStopThread log bufsiz H w r appName) false := by
  rw [handleAppStopThread]
  refine holds_lock.andThen (Triple.andThen ?_ holds_unlock)
  rcases w.apps[findApp w.apps appName]? with _ | app
  · exact holds_errorThread hlog
  · refine holds_callback.andThen ?_
    split
    · exact holds_errorThread hlog
    · exact holds_callback.andThen (holds_mgPrintf hlog)

theorem holds_handleAppHideThread :
    Holds false (handleAppHideThread log bufsiz H w r appName) false := by
  rw [handleAppHideThread]
  refine holds_lock.andThen (Triple.andThen ?_ holds_unlock)
  rcases w.apps[findApp w.apps appName]? with _ | app
  · exact holds_errorThread hlog
  · refine holds_callback.andThen ?_
    split
    · exact holds_errorThread hlog
    · refine holds_callback.andThen ?_
      split
      · exact holds_errorThread hlog
      · exact holds_mgPrintf hlog

theorem holds_handleDialDataThread {usePayload : Bool} :
    Holds false (handleDialDataThread log bufsiz H w r appName usePayload) false := by
  rw [handleDialDataThread]
  refine holds_lock.andThen ?_
  rcases w.apps[findApp w.apps appName]? with _ | app
  · exact (holds_errorThread hlog).andThen holds_unlock
  · dsimp only
    split
    · exact (holds_errorThread hlog).andThen holds_unlock
    · split
      · exact (holds_errorThread hlog).andThen holds_unlock
      · rcases parseParams (some (.ofBuffer (dialDataBody r usePayload))) with f | dialData
        · exact triple_die _
        · dsimp only
          rcases storeDialData (H.canOpen w.host) w.dialDataDir w.files app.name dialData with
            halt | files
          · exact triple_die _
          · exact (holds_mgPrintf hlog).andThen holds_unlock

theorem holds_newRequestThread : Holds false (newRequestThread log bufsiz H w r) false := by
  rw [newRequestThread]
  split
  · -- `/run`
    cases copyAppName r.uri (runNameLength r.uri) with
    | error f => exact triple_die _
    | ok appName =>
      dsimp only
      split
      · exact holds_optionsResponseThread hlog
      · split
        · exact holds_guardedThread hlog (holds_comparingThread (holds_handleAppStopThread hlog))
        · exact holds_errorThread hlog
  · split
    · -- `/apps/X`
      dsimp only
      split
      · exact holds_optionsResponseThread hlog
      · split
        · exact holds_guardedThread hlog (holds_handleAppStartThread hlog)
        · split
          · exact holds_handleAppStatusThread hlog
          · exact holds_errorThread hlog
    · split
      · -- `/hide`
        cases copyAppName r.uri (hideNameLength r.uri) with
        | error f => exact triple_die _
        | ok appName =>
          dsimp only
          split
          · exact holds_optionsResponseThread hlog
          · split
            · exact holds_comparingThread (holds_handleAppHideThread hlog)
            · exact holds_errorThread hlog
      · -- `/dial_data`
        split
        · split
          · dsimp only
            split
            · exact (holds_optionsResponseThread hlog).andThen holds_freeAppNameThread
            · exact (holds_handleDialDataThread hlog).andThen holds_freeAppNameThread
          · exact holds_errorThread hlog
        · exact holds_errorThread hlog

end Logging

/-- **What `request_handler` does, when what it calls back for logging leaves the lock alone.** -/
theorem holds_requestHandlerWith {userCallback : MgEvent → Thread}
    (hlog : ∀ held, Holds held (cry userCallback) held) (event : MgEvent) :
    Holds false (requestHandlerWith userCallback bufsiz H w r event) false := by
  cases event with
  | newRequest => exact holds_newRequestThread hlog
  | httpError => exact triple_done
  | eventLog => exact triple_act rfl

/-- It calls back itself, and leaves the lock alone when it does, held or not. -/
theorem holds_cry : Holds held (cry (requestHandlerThread bufsiz H w r)) held := by
  rw [requestHandlerThread_eq]
  exact triple_act rfl

end Discipline

/-- **The lock is taken and given back in pairs, never one inside another**: in
every state of the server, for every event and every request, whatever the
callbacks answer and however short the buffers of the HTTP layer are, a call of
`request_handler` that returns has made matched pairs of operations and ends
without the lock – with the error replies sent under the lock, and what logging
them calls, among what it does (`follows_requestHandlerThread`). -/
theorem lock_discipline (bufsiz : ℕ) (H : Host σ) (w : World σ) (r : MgRequest) (event : MgEvent)
    (hreturns : (requestHandlerThread bufsiz H w r event).halt = none) :
    Paired ((requestHandlerThread bufsiz H w r event).acts.filterMap Act.mutexOp) := by
  refine Triple.paired ?_ hreturns
  rw [requestHandlerThread_eq]
  exact holds_requestHandlerWith (fun _ => holds_cry) event

/-- Launching what is not registered: the error is logged under the lock. -/
theorem lock_discipline_notFound :
    let r := probeRequest (.lit "POST") (.lit "/apps/Netflix")
    let t := requestHandlerThread 512 probeHost (probeWorld (.lit "YouTube")) r .newRequest
    t.acts.take 2 = [.lock, .log] ∧ Paired (t.acts.filterMap Act.mutexOp) := by
  refine ⟨by decide +kernel, ?_⟩
  exact lock_discipline 512 probeHost (probeWorld (.lit "YouTube"))
    (probeRequest (.lit "POST") (.lit "/apps/Netflix")) .newRequest (by decide +kernel)

end DialServer
