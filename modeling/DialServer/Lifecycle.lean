import DialServer.Lib.Trace
import DialServer.Router

/-!
# The life of an application

The handlers for starting, asking, stopping and hiding share the recorded state of
an application: three of them overwrite it with what `status_cb` reports before
they decide anything, and what they decide is recorded again. Callbacks are free to
answer what they like, so nothing can be said about the recorded state alone; what
the server guarantees is about the *trace* of its callbacks, and about each answer
in terms of what was called.

The guarantee for the trace is `DialServer.Polls`: the application is asked right
before it is told to stop or to hide. The guarantees for the answers are one
structure for each request, `DialServer.StartAnswer` to `DialServer.HideAnswer`.
`DialServer.lifecycle` puts them together for runs: whatever requests come, in
whatever order, the trace polls, and each request is answered as it should be in
the state the others left.
-/

namespace DialServer

open CLib

variable {σ : Type}

/-! ### The trace -/

/-- The calls that need the status of the application first. -/
def NeedsStatus (call : Call) : Prop := call.kind = .stop ∨ call.kind = .hide

/-- The status call that goes with a call: the same application was asked, with
the same name, user data and run id, and did not report that it is stopped. -/
structure Polls (poll call : Call) : Prop where
  kind : poll.kind = .status
  owner : poll.owner = call.owner
  appName : poll.args.appName = call.args.appName
  callbackData : poll.args.callbackData = call.args.callbackData
  runId : poll.args.runId = call.args.runId
  ret : ∃ state, poll.ret = some state ∧ state ≠ .stopped

/-- A poll that did not report “stopped” is what a call with the polled entry
needs. -/
theorem polls_pollStatus {H : Host σ} {w : World σ} {slot : ℕ} {app : DIALApp} {appName : CStr}
    {call : Call} (hstate : (pollStatus H w slot app appName).app.state ≠ .stopped)
    (howner : call.owner = app.name) (hname : call.args.appName = appName)
    (hdata : call.args.callbackData = app.callbackData) (hrun : call.args.runId = app.runId) :
    Polls (pollStatus H w slot app appName).call call :=
  ⟨rfl, howner.symm, hname.symm, hdata.symm, hrun.symm, _, rfl, hstate⟩

/-- A call that is not a stop or a hide needs nothing. -/
theorem not_needsStatus {call : Call} (h : call.kind = .status) : ¬NeedsStatus call := by
  rintro (hstop | hhide)
  · exact absurd (h.symm.trans hstop) (by simp)
  · exact absurd (h.symm.trans hhide) (by simp)

/-- **Every handler asks before it stops or hides.** -/
theorem preceded_handle (H : Host σ) (w : World σ) (r : MgRequest) (action : Action) (X : CStr) :
    Trace.Preceded NeedsStatus Polls (handle H w r action X).calls := by
  have hpoll : ∀ slot app, Trace.Preceded NeedsStatus Polls
      [(pollStatus H w slot app X).call] := fun slot app =>
    Trace.preceded_of_forall_not fun call hcall => by
      rw [List.mem_singleton.mp hcall]
      exact not_needsStatus rfl
  cases action with
  | start =>
    rw [handle]
    -- the only call is `start_cb`, which nothing has to precede
    refine Trace.preceded_of_forall_not fun call hcall hneeds => ?_
    obtain ⟨app, body, param, -, -, -, -, hlaunch⟩ :=
      handleAppStart_eq_launch (List.ne_nil_of_mem hcall)
    rw [hlaunch, launch_calls, List.mem_singleton] at hcall
    rw [hcall] at hneeds
    rcases hneeds with h | h
    · exact absurd h (by simp)
    · exact absurd h (by simp)
  | status =>
    simp only [handle, handleAppStatus]
    split
    · exact Trace.preceded_nil
    · split
      · exact Trace.preceded_nil
      · exact hpoll _ _
  | stop =>
    simp only [handle, handleAppStop]
    split
    · exact Trace.preceded_nil
    · split
      · exact hpoll _ _
      · rename_i hstate
        -- the poll, and then the stop it allows
        exact Trace.preceded_pair (not_needsStatus rfl) (polls_pollStatus hstate rfl rfl rfl rfl)
  | hide =>
    simp only [handle, handleAppHide]
    split
    · exact Trace.preceded_nil
    · split
      · exact hpoll _ _
      · rename_i hstate
        split
        · exact Trace.preceded_pair (not_needsStatus rfl)
            (polls_pollStatus (not_hidden_iff.mp hstate) rfl rfl rfl rfl)
        · exact Trace.preceded_pair (not_needsStatus rfl)
            (polls_pollStatus (not_hidden_iff.mp hstate) rfl rfl rfl rfl)
  | dialData usePayload =>
    rw [handle, handleDialData_calls]
    exact Trace.preceded_nil

/-! ### The answers -/

/-- The state recorded for an application. -/
def recorded (w : World σ) (X : CStr) : Option DIALStatus :=
  (lookupApp w.apps X).map DIALApp.state

/-- A start request that calls `start_cb` records what it returned, and answers
201 if that was “running” and 503 otherwise. -/
def StartAnswer (o : Outcome σ) (X : CStr) : Prop :=
  ∀ call ∈ o.calls, ∃ payload additional state, call.kind = .start payload additional ∧
    call.ret = some state ∧ recorded o.world X = some state ∧
    o.answers = [if state = .running then 201 else 503]

/-- A stop request answers 200 if it called `stop_cb`, and then the state recorded
is “stopped”; otherwise it answers 404. -/
structure StopAnswer (o : Outcome σ) (X : CStr) : Prop where
  ok : o.answers = [200] ↔ ∃ call ∈ o.calls, call.kind = .stop
  state : o.answers = [200] → recorded o.world X = some .stopped
  otherwise : o.answers ≠ [200] → o.answers = [404]

/-- A hide request answers 200 if `hide_cb` returned “hide”, and then that is the
state recorded; it answers 501 if `hide_cb` returned anything else, and then the
state recorded is what `status_cb` reported; otherwise it answers 404. -/
structure HideAnswer (o : Outcome σ) (X : CStr) : Prop where
  ok : o.answers = [200] ↔ ∃ call ∈ o.calls, call.kind = .hide ∧ call.ret = some .hide
  state : o.answers = [200] → recorded o.world X = some .hide
  notImplemented : o.answers = [501] ↔
    ∃ call ∈ o.calls, call.kind = .hide ∧ call.ret ≠ some .hide
  reported : o.answers = [501] →
    ∃ call ∈ o.calls, call.kind = .status ∧ recorded o.world X = call.ret
  otherwise : o.answers ≠ [200] → o.answers ≠ [501] → o.answers = [404]

/-- What is recorded for an application after its entry was written. -/
theorem recorded_set {w w' : World σ} {X : CStr} {app app' : DIALApp} {state : DIALStatus}
    (happ : lookupApp w.apps X = some app) (happs : w'.apps = w.apps.set (findApp w.apps X) app')
    (hname : app'.name = app.name) (hstate : app'.state = state) : recorded w' X = some state := by
  rw [recorded, happs, lookupApp_set happ hname, Option.map_some, hstate]

theorem startAnswer_handleAppStart (H : Host σ) (w : World σ) (r : MgRequest) (X : CStr) :
    StartAnswer (handleAppStart H w r X r.origin) X := by
  intro call hcall
  obtain ⟨app, body, param, happ, -, -, -, hlaunch⟩ :=
    handleAppStart_eq_launch (List.ne_nil_of_mem hcall)
  rw [hlaunch, launch_calls, List.mem_singleton] at hcall
  refine ⟨_, _, (launchResult H w app X body param).2.1, by rw [hcall], by rw [hcall], ?_, ?_⟩
  · rw [hlaunch]
    simp only [launch]
    split
    · exact recorded_set happ rfl rfl rfl
    · exact recorded_set happ rfl rfl rfl
  · rw [hlaunch, launchResult, launchArgs]
    simp only [launch]
    split
    · simp [Outcome.answers]
    · simp

theorem stopAnswer_handleAppStop (H : Host σ) (w : World σ) (X : CStr) (origin : Option CStr) :
    StopAnswer (handleAppStop H w X origin) X := by
  simp only [handleAppStop]
  split
  · constructor <;> simp
  · rename_i app happ
    split
    · constructor <;> simp
    · refine ⟨?_, fun _ => recorded_set happ (List.set_set _) rfl rfl, ?_⟩
      · simp [Outcome.answers]
      · simp [Outcome.answers]

theorem hideAnswer_handleAppHide (H : Host σ) (w : World σ) (X : CStr) (origin : Option CStr) :
    HideAnswer (handleAppHide H w X origin) X := by
  simp only [handleAppHide]
  split
  · constructor <;> simp
  · rename_i app happ
    split
    · constructor <;> simp
    · split
      · rename_i hstatus
        refine ⟨?_, ?_, ?_, fun _ => ?_, ?_⟩
        · simpa using hstatus
        · simp
        · simpa using hstatus
        · refine ⟨_, List.mem_cons_self, rfl, ?_⟩
          exact recorded_set happ (List.set_set _) rfl rfl
        · simp
      · rename_i hstatus
        refine ⟨?_, fun _ => recorded_set happ (List.set_set _) rfl rfl, ?_, ?_, ?_⟩
        · simpa [Outcome.answers] using hstatus
        · simpa [Outcome.answers] using hstatus
        · simp [Outcome.answers]
        · simp [Outcome.answers]

/-! ### The calls -/

/-- What a call passes on is what the entry holds. -/
structure PassesOn (app : DIALApp) (X : CStr) (call : Call) : Prop where
  owner : call.owner = app.name
  appName : call.args.appName = X
  callbackData : call.args.callbackData = app.callbackData
  runId : call.args.runId = app.runId

/-- **The calls of one request**: none, one, or a poll and one more, all of them to
the entry found, with what it holds. -/
def CallsEntry (w : World σ) (o : Outcome σ) (X : CStr) : Prop :=
  o.calls = [] ∨ ∃ app, lookupApp w.apps X = some app ∧
    (∀ call ∈ o.calls, PassesOn app X call) ∧
    ((∃ call, o.calls = [call]) ∨ ∃ poll call, o.calls = [poll, call] ∧ poll.kind = .status)

theorem callsEntry_singleton {w : World σ} {o : Outcome σ} {X : CStr} {app : DIALApp} {call : Call}
    (happ : lookupApp w.apps X = some app) (hcalls : o.calls = [call])
    (hcall : PassesOn app X call) : CallsEntry w o X := by
  refine Or.inr ⟨app, happ, fun c hc => ?_, Or.inl ⟨call, hcalls⟩⟩
  rw [hcalls, List.mem_singleton] at hc
  rwa [hc]

theorem callsEntry_pair {w : World σ} {o : Outcome σ} {X : CStr} {app : DIALApp} {poll call : Call}
    (happ : lookupApp w.apps X = some app) (hcalls : o.calls = [poll, call])
    (hkind : poll.kind = .status) (hpoll : PassesOn app X poll) (hcall : PassesOn app X call) :
    CallsEntry w o X := by
  refine Or.inr ⟨app, happ, fun c hc => ?_, Or.inr ⟨poll, call, hcalls, hkind⟩⟩
  rw [hcalls, List.mem_pair] at hc
  rcases hc with rfl | rfl
  · exact hpoll
  · exact hcall

/-- **Every handler calls the entry it found**, with what that holds. -/
theorem handle_calls (H : Host σ) (w : World σ) (r : MgRequest) (action : Action) (X : CStr) :
    CallsEntry w (handle H w r action X) X := by
  cases action with
  | start =>
    rw [handle]
    -- a start request that calls somebody is a launch
    by_cases hnil : (handleAppStart H w r X r.origin).calls = []
    · exact Or.inl hnil
    · obtain ⟨app, body, param, happ, -, -, -, hlaunch⟩ := handleAppStart_eq_launch hnil
      exact callsEntry_singleton happ (by rw [hlaunch, launch_calls]) ⟨rfl, rfl, rfl, rfl⟩
  | status =>
    simp only [handle, handleAppStatus]
    split
    · exact Or.inl rfl
    · rename_i app happ
      split
      · exact Or.inl rfl
      · exact callsEntry_singleton happ rfl ⟨rfl, rfl, rfl, rfl⟩
  | stop =>
    simp only [handle, handleAppStop]
    split
    · exact Or.inl rfl
    · rename_i app happ
      split
      · exact callsEntry_singleton happ rfl ⟨rfl, rfl, rfl, rfl⟩
      · exact callsEntry_pair happ rfl rfl ⟨rfl, rfl, rfl, rfl⟩ ⟨rfl, rfl, rfl, rfl⟩
  | hide =>
    simp only [handle, handleAppHide]
    split
    · exact Or.inl rfl
    · rename_i app happ
      split
      · exact callsEntry_singleton happ rfl ⟨rfl, rfl, rfl, rfl⟩
      · split
        · exact callsEntry_pair happ rfl rfl ⟨rfl, rfl, rfl, rfl⟩ ⟨rfl, rfl, rfl, rfl⟩
        · exact callsEntry_pair happ rfl rfl ⟨rfl, rfl, rfl, rfl⟩ ⟨rfl, rfl, rfl, rfl⟩
  | dialData usePayload => exact Or.inl (handleDialData_calls _ _ _ _ _ _)

/-! ### Runs -/

/-- One request to an application. -/
structure Job where
  action : Action
  request : MgRequest
  appName : CStr

/-- The process: the world, and the way it ended, if it did. -/
structure Process (σ : Type) where
  world : World σ
  halt : Option Halt

/-- The process as a machine that serves requests and emits callbacks. -/
def handlerMachine (H : Host σ) : Trace.Machine (Process σ) Job Call where
  step p job :=
    let o := handle H p.world job.request job.action job.appName
    (⟨o.world, o.halt⟩, o.calls)
  up p := p.halt.isNone

/-- What a run of requests leaves. -/
def processAfter (H : Host σ) (w : World σ) (jobs : List Job) : Process σ :=
  ((handlerMachine H).run ⟨w, none⟩ jobs).1

/-- The callbacks of a run of requests. -/
def callsOf (H : Host σ) (w : World σ) (jobs : List Job) : List Call :=
  ((handlerMachine H).run ⟨w, none⟩ jobs).2

/-- **What is guaranteed of one request**, in the world it is served in. -/
structure Served (w : World σ) (job : Job) (o : Outcome σ) : Prop where
  /-- What the calls pass on is what is recorded. -/
  current : ∀ call ∈ o.calls, ∃ app, lookupApp w.apps job.appName = some app ∧
    PassesOn app job.appName call
  /-- At most one of them is not a status call. -/
  atMostOne : (o.calls.filter fun call => call.kind ≠ .status).length ≤ 1
  /-- An application that is not registered is answered 404, and nobody is
  called. -/
  unregistered : lookupApp w.apps job.appName = none → o.answers = [404] ∧ o.calls = []
  /-- The answer to a start request. -/
  start : job.action = .start → StartAnswer o job.appName
  /-- The answer to a stop request. -/
  stop : job.action = .stop → StopAnswer o job.appName
  /-- The answer to a hide request. -/
  hide : job.action = .hide → HideAnswer o job.appName

theorem served_handle (H : Host σ) (w : World σ) (job : Job) :
    Served w job (handle H w job.request job.action job.appName) := by
  refine ⟨fun call hcall => ?_, ?_, fun hnone => ?_, fun hstart => ?_, fun hstop => ?_,
    fun hhide => ?_⟩
  · rcases handle_calls H w job.request job.action job.appName with hnil | ⟨app, happ, hpass, -⟩
    · rw [hnil] at hcall
      exact absurd hcall List.not_mem_nil
    · exact ⟨app, happ, hpass call hcall⟩
  · rcases handle_calls H w job.request job.action job.appName with
      hnil | ⟨-, -, -, ⟨call, hone⟩ | ⟨poll, call, htwo, hkind⟩⟩
    · simp [hnil]
    · rw [hone]
      exact List.length_filter_le _ _
    · rw [htwo, List.filter_cons_of_neg (by simp [hkind])]
      exact List.length_filter_le _ _
  · rw [handle_of_lookup_none hnone]
    exact ⟨rfl, rfl⟩
  · rw [hstart, handle]
    exact startAnswer_handleAppStart _ _ _ _
  · rw [hstop, handle]
    exact stopAnswer_handleAppStop _ _ _ _
  · rw [hhide, handle]
    exact hideAnswer_handleAppHide _ _ _ _

/-- **The protocol of an application**: over every run of requests, on whatever is
registered and whatever the callbacks answer, the application is asked for its
status right before it is told to stop or to hide; and each request is answered,
and its effect recorded, in terms of the callbacks it made. -/
theorem lifecycle (H : Host σ) (w : World σ) (jobs : List Job) :
    Trace.Preceded NeedsStatus Polls (callsOf H w jobs) ∧
      ∀ pre job post, jobs = pre ++ job :: post →
        Served (processAfter H w pre).world job
          (handle H (processAfter H w pre).world job.request job.action job.appName) :=
  ⟨(handlerMachine H).preceded_run (fun _ _ => preceded_handle H _ _ _ _) _ _,
    fun _ _ _ _ => served_handle H _ _⟩

end DialServer
