import DialServer.Registration
import DialServer.Routing

/-!
# The protection against other origins

Two properties of the protection, and the exact extent of each.

*The guard.* A request from an origin that the application refuses is answered
403 and changes nothing – if the branch it takes asks. The branches for starting
and stopping do, those for hiding and for dial data do not
(`DialServer.refused_iff`): no handler ever answers 403 itself
(`DialServer.handle_status_ne`).

*The policy.* The list an application was registered with is the list its
requests are held to, as long as it fits the array it is copied to; a longer one
is dropped, and an application without a list allows every origin
(`DialServer.policy_enforced_iff`).
-/

namespace DialServer

open CLib

variable {σ : Type}

/-! ### The guard -/

/-- The request was refused: it was answered 403, at most the status of an
application was asked, and the entry and the file of `X` are as they were. -/
structure Refused (w : World σ) (o : Outcome σ) (X : CStr) : Prop where
  /-- The answer. -/
  answer : o.answers = [403]
  /-- No `start_cb`, `stop_cb` or `hide_cb` was called. -/
  quiet : ∀ call ∈ o.calls, call.kind = .status
  /-- The entry is as it was. -/
  entry : lookupApp o.world.apps X = lookupApp w.apps X
  /-- The file is as it was. -/
  file : o.world.files (getAppPath w.dialDataDir X) = w.files (getAppPath w.dialDataDir X)

/-- The status codes of everything that was sent are among these. -/
def AnswersIn (o : Outcome σ) (codes : List ℕ) : Prop :=
  ∀ reply ∈ o.replies, reply.status ∈ codes

theorem answersIn_error {w : World σ} {calls : List Call} {status : ℕ} {reason : String}
    {codes : List ℕ} (h : status ∈ codes) : AnswersIn (.error w calls status reason) codes := by
  intro reply hreply
  rwa [List.mem_singleton.mp hreply]

theorem answersIn_crash {w : World σ} {calls : List Call} {halt : Halt} {codes : List ℕ} :
    AnswersIn (.crash w calls halt) codes :=
  fun _ hreply => absurd hreply List.not_mem_nil

section Answers

variable (H : Host σ) (w : World σ) (r : MgRequest) (X : CStr) (origin : Option CStr)

theorem answersIn_handleAppStart :
    AnswersIn (handleAppStart H w r X origin) [201, 400, 404, 413, 503] := by
  simp only [handleAppStart]
  split
  · exact answersIn_error (by decide)
  · split
    · exact answersIn_error (by decide)
    · split
      · exact answersIn_error (by decide)
      · split
        · exact answersIn_crash
        · simp only [launch]
          split
          · simp [AnswersIn]
          · exact answersIn_error (by decide)

theorem answersIn_handleAppStatus : AnswersIn (handleAppStatus H w r X origin) [200, 404] := by
  simp only [handleAppStatus]
  split
  · exact answersIn_error (by decide)
  · split
    · exact answersIn_crash
    · simp [AnswersIn]

theorem answersIn_handleAppStop : AnswersIn (handleAppStop H w X origin) [200, 404] := by
  simp only [handleAppStop]
  split
  · exact answersIn_error (by decide)
  · split
    · exact answersIn_error (by decide)
    · simp [AnswersIn]

theorem answersIn_handleAppHide : AnswersIn (handleAppHide H w X origin) [200, 404, 501] := by
  simp only [handleAppHide]
  split
  · exact answersIn_error (by decide)
  · split
    · exact answersIn_error (by decide)
    · split
      · exact answersIn_error (by decide)
      · simp [AnswersIn]

theorem answersIn_handleDialData (usePayload : Bool) :
    AnswersIn (handleDialData H w r X origin usePayload) [200, 400, 404, 413] := by
  simp only [handleDialData]
  split
  · exact answersIn_error (by decide)
  · split
    · exact answersIn_error (by decide)
    · split
      · exact answersIn_error (by decide)
      · split
        · exact answersIn_crash
        · split
          · exact answersIn_crash
          · simp [AnswersIn]

/-- **No handler answers 403.** -/
theorem handle_status_ne (action : Action) :
    ∀ reply ∈ (handle H w r action X).replies, reply.status ≠ 403 := by
  obtain ⟨codes, hcodes, hanswers⟩ : ∃ codes, 403 ∉ codes ∧
      AnswersIn (handle H w r action X) codes := by
    cases action with
    | start => exact ⟨_, by decide, answersIn_handleAppStart H w r X r.origin⟩
    | status => exact ⟨_, by decide, answersIn_handleAppStatus H w r X r.origin⟩
    | stop => exact ⟨_, by decide, answersIn_handleAppStop H w X r.origin⟩
    | hide => exact ⟨_, by decide, answersIn_handleAppHide H w X r.origin⟩
    | dialData usePayload =>
      exact ⟨_, by decide, answersIn_handleDialData H w r X r.origin usePayload⟩
  rintro reply hreply hc
  exact hcodes (hc ▸ hanswers reply hreply)

/-- An action that is done is not refused. -/
theorem answers_handle_ne (action : Action) (name : AppName) :
    (freeAppName name (handle H w r action X)).answers ≠ [403] := by
  intro hanswer
  rw [Outcome.answers, freeAppName_replies, List.map_eq_singleton_iff] at hanswer
  obtain ⟨reply, hreplies, hstatus⟩ := hanswer
  exact handle_status_ne H w r X action reply (by rw [hreplies]; simp) hstatus

end Answers

/-- **A request from a refused origin is refused exactly on the guarded
branches**: those that start or stop the application. -/
theorem refused_iff (H : Host σ) (w : World σ) (r : MgRequest) {action : Action} {name : AppName}
    (hroute : r.route = .act action name) (haction : action ≠ .status)
    (horigin : isAllowedOrigin w.apps r.origin name.str = false) :
    Refused w (requestHandler H w r) name.str ↔ action = .start ∨ action = .stop := by
  have hguarded : action.guarded = true ↔ action = .start ∨ action = .stop := by
    cases action <;> simp_all [Action.guarded]
  rw [requestHandler_eq, hroute, perform, ← hguarded]
  split
  · rename_i h
    exact iff_of_true ⟨rfl, fun call hcall => absurd hcall List.not_mem_nil, rfl, rfl⟩ h.1
  · rename_i h
    have hopen : action.guarded ≠ true := fun hg =>
      h ⟨hg, fun hc => absurd (hc.2.symm.trans horigin) (by simp)⟩
    -- the handler ran, and answered something else
    exact iff_of_false (fun hrefused => answers_handle_ne H w r name.str action name
      hrefused.answer) hopen

/-- YouTube, registered for the origins that end in `.youtube.com`. -/
def youTube : Registration := ⟨.lit "YouTube", ⟨0, 0, 0, 0⟩, 0, 0, some (.lit ".youtube.com")⟩

/-- A server with YouTube registered. -/
def youTubeWorld : World Unit := { probeWorld youTube.appName with apps := [newApp youTube []] }

/-- A request from another origin. -/
def foreignRequest (method uri : CStr) : MgRequest :=
  { probeRequest method uri with
    httpHeaders := [(.lit "Host", .lit "localhost"), (.lit "Origin", .lit "https://example.com")] }

/-- YouTube refuses the other origin. -/
theorem isAllowedOrigin_foreign (method uri : CStr) :
    isAllowedOrigin youTubeWorld.apps (foreignRequest method uri).origin youTube.appName =
      false := by
  have horigin : (foreignRequest method uri).origin = some (.lit "https://example.com") := rfl
  have hcors : copyCorsAllowedOrigin (some (.lit ".youtube.com")) =
      ⟨.lit ".youtube.com", by decide⟩ := rfl
  rw [horigin, isAllowedOrigin_of_checked (by decide), Bool.eq_false_iff, Ne, originScan_iff]
  rintro ⟨app, happ, -, hallows⟩
  obtain rfl : app = newApp youTube [] := List.mem_singleton.mp happ
  rw [CorsAllows, newApp, youTube, hcors] at hallows
  exact absurd hallows (by decide)

/-- Launching from another origin is refused. -/
theorem refused_iff_launch :
    Refused youTubeWorld
        (requestHandler probeHost youTubeWorld
          (foreignRequest (.lit "POST") (.lit "/apps/YouTube"))) (.lit "YouTube") ↔
      Action.start = .start ∨ Action.start = .stop :=
  have hroute : (foreignRequest (.lit "POST") (.lit "/apps/YouTube")).route =
      .act .start (.kept (.lit "YouTube")) :=
    route_app (X := .lit "YouTube") (by decide) (by decide)
  refused_iff probeHost youTubeWorld _ hroute (by decide) (isAllowedOrigin_foreign _ _)

/-- **Hiding from another origin is not refused**: YouTube is hidden, and the
answer is 200. -/
theorem not_refused_hide :
    lookupApp youTubeWorld.apps (.lit "YouTube") = some (newApp youTube []) ∧
    isAllowedOrigin youTubeWorld.apps
      (foreignRequest (.lit "POST") (.lit "/apps/YouTube/run/hide")).origin (.lit "YouTube") =
        false ∧
    (requestHandler probeHost youTubeWorld
      (foreignRequest (.lit "POST") (.lit "/apps/YouTube/run/hide"))).answers = [200] ∧
    ¬Refused youTubeWorld
      (requestHandler probeHost youTubeWorld
        (foreignRequest (.lit "POST") (.lit "/apps/YouTube/run/hide"))) (.lit "YouTube") := by
  have hroute : (foreignRequest (.lit "POST") (.lit "/apps/YouTube/run/hide")).route =
      .act .hide (.kept (.lit "YouTube")) :=
    route_appRunHide (X := .lit "YouTube") (by decide) (by decide)
  have hanswer : (requestHandler probeHost youTubeWorld
      (foreignRequest (.lit "POST") (.lit "/apps/YouTube/run/hide"))).answers = [200] := by
    rw [requestHandler_eq, hroute, perform_act_kept fun h => absurd h (by decide)]
    rfl
  refine ⟨rfl, isAllowedOrigin_foreign _ _, hanswer, fun hrefused => ?_⟩
  exact absurd (hanswer.symm.trans hrefused.answer) (by decide)

/-! ### The policy -/

/-- An entry made from a list that fits is held to that list. -/
theorem corsAllows_newApp_of_lt {r : Registration} {dialData : List DIALData} {cors origin : CStr}
    (hcors : r.corsAllowedOrigin = some cors) (hne : cors ≠ .nil) (hlt : cors.strlen < 256) :
    CorsAllows (newApp r dialData) origin ↔ EndsWithEntry origin cors := by
  rw [CorsAllows, newApp, hcors, copyCorsAllowedOrigin, dif_pos hlt]
  exact or_iff_right hne

/-- An entry made from a list that does not fit is held to none. -/
theorem corsAllows_newApp_of_le {r : Registration} {dialData : List DIALData} {cors origin : CStr}
    (hcors : r.corsAllowedOrigin = some cors) (hle : 256 ≤ cors.strlen) :
    CorsAllows (newApp r dialData) origin := by
  rw [CorsAllows, newApp, hcors, copyCorsAllowedOrigin, dif_neg (Nat.not_lt.mpr hle)]
  exact Or.inl rfl

/-- **The policy is enforced exactly when it fits**: after any sequence of calls,
an origin with a checked protocol is allowed only if it ends in an entry of the
list the name was registered with – when that list is shorter than 256 bytes, or
the origin ends in one of its entries anyway. A name that is not registered is
allowed no such origin. -/
theorem policy_enforced_iff (ops : List RegOp) {origin : CStr} (horigin : HasCheckedProto origin) :
    (∀ X t r dialData cors, CurrentRegistration ops X t r dialData →
      r.corsAllowedOrigin = some cors → cors ≠ .nil →
      ((isAllowedOrigin (runApps ops) (some origin) X = true → EndsWithEntry origin cors) ↔
        cors.strlen < 256 ∨ EndsWithEntry origin cors)) ∧
    (∀ X, (∀ t r dialData, ¬CurrentRegistration ops X t r dialData) →
      isAllowedOrigin (runApps ops) (some origin) X = false) := by
  refine ⟨fun X t r dialData cors hcurrent hcors hne => ?_, fun X hnone => ?_⟩
  · have hlookup : lookupApp (runApps ops) X = some (newApp r dialData) :=
      lookupApp_run_iff.mpr ⟨t, r, dialData, rfl, hcurrent⟩
    rw [isAllowedOrigin_of_checked horigin,
      originScan_of_lookup (namesDistinct_runApps ops) hlookup]
    -- a list of 256 bytes or more is not copied, and an empty one allows everything
    rcases Nat.lt_or_ge cors.strlen 256 with hlt | hle
    · rw [corsAllows_newApp_of_lt hcors hne hlt]
      exact iff_of_true id (Or.inl hlt)
    · have hallows : CorsAllows (newApp r dialData) origin := corsAllows_newApp_of_le hcors hle
      rw [forall_prop_of_true hallows, or_iff_right (Nat.not_lt.mpr hle)]
  · rw [isAllowedOrigin_of_checked horigin]
    refine originScan_of_lookup_none ?_
    rcases h : lookupApp (runApps ops) X with _ | app
    · rfl
    · obtain ⟨t, r, dialData, -, hcurrent⟩ := lookupApp_run_iff.mp h
      exact absurd hcurrent (hnone t r dialData)

/-- One call registers the name it is made for. -/
theorem currentRegistration_singleton (r : Registration) (dialData : List DIALData) :
    CurrentRegistration [.register r dialData] r.appName 0 r dialData := by
  refine ⟨rfl, rfl, rfl, fun t' ht' => ?_⟩
  rw [List.getElem?_eq_none_iff.mpr ht']
  simp

/-- YouTube is held to its list. -/
theorem policy_enforced_iff_youTube :
    (isAllowedOrigin (runApps [.register youTube []]) (some (.lit "https://example.com"))
          (.lit "YouTube") = true →
        EndsWithEntry (.lit "https://example.com") (.lit ".youtube.com")) ↔
      (CStr.lit ".youtube.com").strlen < 256 ∨
        EndsWithEntry (.lit "https://example.com") (.lit ".youtube.com") :=
  have horigin : HasCheckedProto (.lit "https://example.com") := by decide
  (policy_enforced_iff [.register youTube []] horigin).1 (.lit "YouTube") 0 youTube []
    (.lit ".youtube.com")
    (currentRegistration_singleton youTube []) rfl (by decide)

/-- A list of 256 bytes. -/
def longList : CStr where
  bytes := List.replicate 256 'a'.toUInt8
  nul_free h := absurd (List.eq_of_mem_replicate h) (by decide)

/-- **A list that is too long fails open**: the registration is successful, the
origin ends in no entry of the list, and it is allowed. -/
theorem longList_not_enforced :
    CurrentRegistration [.register { youTube with corsAllowedOrigin := some longList } []]
      (.lit "YouTube") 0 { youTube with corsAllowedOrigin := some longList } [] ∧
    HasCheckedProto (.lit "https://example.com") ∧
    isAllowedOrigin (runApps [.register { youTube with corsAllowedOrigin := some longList } []])
      (some (.lit "https://example.com")) (.lit "YouTube") = true ∧
    ¬EndsWithEntry (.lit "https://example.com") longList := by
  have hproto : HasCheckedProto (.lit "https://example.com") := by decide
  have hlen : longList.strlen = 256 := by rw [CStr.strlen, longList, List.length_replicate]
  refine ⟨currentRegistration_singleton _ _, hproto, ?_, ?_⟩
  · rw [isAllowedOrigin_of_checked hproto, originScan_iff]
    exact ⟨_, List.mem_singleton.mpr rfl, rfl, corsAllows_newApp_of_le rfl hlen.ge⟩
  · have hone : ' '.toUInt8 ∉ longList.bytes := fun h =>
      absurd (List.eq_of_mem_replicate h) (by decide)
    rw [EndsWithEntry, List.splitOn_eq_singleton hone]
    rintro ⟨entry, hentry, hsuf⟩
    rw [List.mem_singleton.mp hentry] at hsuf
    have hle := hsuf.length_le
    rw [← CStr.strlen, hlen] at hle
    exact absurd hle (by decide)

end DialServer
