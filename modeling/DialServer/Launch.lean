import DialServer.Persistence

/-!
# Launches

A `POST` to `/apps/X` is answered 404, 413 or 400 without anything happening, or
`start_cb` is called with the body of the request. `DialServer.launchExact_handleAppStart`
says when the handler does that; that a request to `/apps/X` gets to the handler
for `X` is another matter, and `DialServer.launchExact_iff` says when the whole
request does what it should.
-/

namespace DialServer

open CLib

variable {σ : Type}

/-! ### The additional data -/

/-- The text of `additionalDataUrl` fits in its array. -/
def AdditionalDataFits (dialPort : UInt16) (appName : CStr) : Prop :=
  (additionalDataText dialPort appName).strlen < 256

instance (dialPort : UInt16) (appName : CStr) : Decidable (AdditionalDataFits dialPort appName) :=
  inferInstanceAs (Decidable (_ < _))

/-- **An application can be told its additional data** unless it asks for it and the
text does not fit. -/
theorem additionalDataFor_eq {app : DIALApp} {dialPort : UInt16} {appName : CStr} :
    (∃ param, additionalDataFor app dialPort appName = .ok param) ↔
      (app.useAdditionalData ≠ 0 → AdditionalDataFits dialPort appName) := by
  rw [additionalDataFor]
  split
  · rename_i huse
    constructor
    · rintro ⟨param, hparam⟩ _
      exact (additionalDataParam_eq_ok.mp hparam).1
    · exact fun h => ⟨_, additionalDataParam_eq_ok.mpr ⟨h huse, rfl⟩⟩
  · rename_i huse
    exact ⟨fun _ h => absurd h huse, fun _ => ⟨_, rfl⟩⟩

/-! ### The handler -/

section Handler

variable {H : Host σ} {w : World σ} {r : MgRequest} {X : CStr} {origin : Option CStr}
  {app : DIALApp}

/-- The buffer has room for more than the limit, so a body that is too long is
noticed. -/
theorem length_startBody_gt (r : MgRequest) :
    dialMaxPayload < (r.body.take (dialMaxPayload + 256 + 2)).length ↔
      dialMaxPayload < r.body.length := by
  rw [List.length_take]
  omega

theorem take_startBody (hlen : r.body.length ≤ dialMaxPayload) :
    r.body.take (dialMaxPayload + 256 + 2) = r.body := by
  have hroom : r.body.length ≤ dialMaxPayload + (256 + 2) := le_trans hlen (Nat.le_add_right _ _)
  exact List.take_of_length_le hroom

theorem handleAppStart_tooLarge (happ : lookupApp w.apps X = some app)
    (h : dialMaxPayload < r.body.length) :
    handleAppStart H w r X origin = .error w [] 413 "413 Request Entity Too Large" := by
  have hslot : w.apps[findApp w.apps X]? = some app := happ
  simp only [handleAppStart, hslot, gt_iff_lt, (length_startBody_gt r).mpr h, dif_pos]

theorem handleAppStart_bad (happ : lookupApp w.apps X = some app)
    (hlen : r.body.length ≤ dialMaxPayload) (hbad : ¬Printable r.body) :
    handleAppStart H w r X origin = .error w [] 400 "400 Bad Request" := by
  have hslot : w.apps[findApp w.apps X]? = some app := happ
  have hbody := take_startBody hlen
  have hisbad : isBadPayload r.body = true := by
    rwa [← Bool.not_eq_false, isBadPayload_eq_false]
  simp only [handleAppStart, hslot, hbody, gt_iff_lt, Nat.not_lt.mpr hlen, dif_neg, hisbad, if_true,
    not_false_eq_true]

/-- **A good payload is launched**, unless the additional data does not fit. -/
theorem handleAppStart_good (happ : lookupApp w.apps X = some app)
    (hlen : r.body.length ≤ dialMaxPayload) (hgood : Printable r.body) :
    handleAppStart H w r X origin = match additionalDataFor app w.port X with
      | .error f => .crash w [] (.fault f)
      | .ok param => launch H w r (findApp w.apps X) app X origin ⟨r.body, hlen⟩ param := by
  have hslot : w.apps[findApp w.apps X]? = some app := happ
  have hbody := take_startBody hlen
  have hisgood : isBadPayload r.body = false := isBadPayload_eq_false.mpr hgood
  rcases hparam : additionalDataFor app w.port X with f | param <;>
    simp only [handleAppStart, hslot, hbody, gt_iff_lt, Nat.not_lt.mpr hlen, dif_neg, hisgood,
      Bool.false_eq_true, if_false, not_false_eq_true, hparam]

end Handler

/-! ### What a launch should do -/

/-- The bytes of the array: what was copied, and zeros up to its end. -/
def Payload.array (p : Payload) : List UInt8 :=
  p.bytes ++ List.replicate (dialMaxPayload - p.bytes.length) 0

/-- The array `payload` of an application. -/
def storedPayload (w : World σ) (X : CStr) : Option (Option (List UInt8)) :=
  (lookupApp w.apps X).map fun app => app.payload.map Payload.array

/-- Nothing happened but an answer. -/
def OnlyAnswers (w : World σ) (o : Outcome σ) (status : ℕ) : Prop :=
  o.answers = [status] ∧ o.calls = [] ∧ o.world = w

/-- **A launch is exact**: it is answered 404, 413 or 400 and nothing else happens, or
`start_cb` is called once with the body; and the body is stored just when the answer
is 201. -/
structure LaunchExact (w : World σ) (X : CStr) (body : List UInt8) (o : Outcome σ) : Prop where
  notFound : lookupApp w.apps X = none → OnlyAnswers w o 404
  tooLarge : lookupApp w.apps X ≠ none → dialMaxPayload < body.length → OnlyAnswers w o 413
  bad : lookupApp w.apps X ≠ none → body.length ≤ dialMaxPayload → ¬Printable body →
    OnlyAnswers w o 400
  good : ∀ app, lookupApp w.apps X = some app → body.length ≤ dialMaxPayload → Printable body →
    ∃ call payload additional, o.calls = [call] ∧ call.owner = X ∧
      call.kind = .start payload additional ∧ payload.bytes = body ∧
      call.args.fn = app.callbacks.startCb
  stored : o.answers = [201] → storedPayload o.world X =
    some (some (body ++ List.replicate (dialMaxPayload - body.length) 0))
  kept : o.answers ≠ [201] → storedPayload o.world X = storedPayload w X

/-- Where only an answer is given, the answer has to be the right one. -/
theorem launchExact_of_onlyAnswers {w : World σ} {X : CStr} {body : List UInt8} {o : Outcome σ}
    {status : ℕ} (h : OnlyAnswers w o status) :
    LaunchExact w X body o ↔
      if lookupApp w.apps X = none then status = 404
      else if dialMaxPayload < body.length then status = 413
      else if Printable body then False else status = 400 := by
  obtain ⟨hanswers, hcalls, hworld⟩ := h
  have honly : ∀ s, OnlyAnswers w o s ↔ status = s := fun s => by
    rw [OnlyAnswers, hanswers, hcalls, hworld]
    simp
  constructor
  · intro hexact
    split
    · rename_i hnone
      exact (honly 404).mp (hexact.notFound hnone)
    · rename_i hsome
      split
      · rename_i hlong
        exact (honly 413).mp (hexact.tooLarge hsome hlong)
      · rename_i hlen
        split
        · -- an accepted payload calls somebody
          rename_i hgood
          obtain ⟨app, happ⟩ := Option.ne_none_iff_exists'.mp hsome
          obtain ⟨call, -, -, hcall, -⟩ := hexact.good app happ (by omega) hgood
          rw [hcalls] at hcall
          exact absurd hcall (by simp)
        · rename_i hbad
          exact (honly 400).mp (hexact.bad hsome (by omega) hbad)
  · intro hstatus
    have hne : status ≠ 201 := by
      rintro rfl
      split_ifs at hstatus <;> omega
    refine ⟨fun hnone => ?_, fun hsome hlong => ?_, fun hsome hlen hbad => ?_,
      fun app happ hlen hgood => ?_, fun h => ?_, fun _ => by rw [hworld]⟩
    · rw [if_pos hnone] at hstatus
      exact (honly 404).mpr hstatus
    · rw [if_neg hsome, if_pos hlong] at hstatus
      exact (honly 413).mpr hstatus
    · rw [if_neg hsome, if_neg (by omega), if_neg hbad] at hstatus
      exact (honly 400).mpr hstatus
    · rw [if_neg (by rw [happ]; simp), if_neg (by omega), if_pos hgood] at hstatus
      exact hstatus.elim
    · rw [hanswers] at h
      exact absurd (List.singleton_inj.mp h) hne

section Launched

variable {H : Host σ} {w : World σ} {r : MgRequest} {X : CStr} {app : DIALApp} {body : Payload}
  {param : CStr}

/-- A launch is answered 201 or 503. -/
theorem answers_launch (origin : Option CStr) :
    (launch H w r (findApp w.apps X) app X origin body param).answers =
      [if (launchResult H w app X body param).2.1 = .running then 201 else 503] := by
  rw [Outcome.answers, launch_replies]
  split
  · rw [List.map_singleton, status_createdText]
  · rfl

theorem lookupApp_launch (happ : lookupApp w.apps X = some app) (origin : Option CStr) :
    lookupApp (launch H w r (findApp w.apps X) app X origin body param).world.apps X =
      some (launchedApp H w app X body param) := by
  rw [launch_apps]
  exact lookupApp_set happ rfl

/-- **A launch does what it should.** -/
theorem launchExact_launch (happ : lookupApp w.apps X = some app) (hgood : Printable body.bytes)
    (origin : Option CStr) :
    LaunchExact w X body.bytes (launch H w r (findApp w.apps X) app X origin body param) := by
  have hsome : lookupApp w.apps X ≠ none := by rw [happ]; simp
  refine ⟨fun hnone => absurd hnone hsome, fun _ hlong => ?_, fun _ _ hbad => absurd hgood hbad,
    fun app' happ' _ _ => ?_, fun h => ?_, fun h => ?_⟩
  · exact absurd body.fits (by omega)
  · obtain rfl : app = app' := Option.some.inj (happ.symm.trans happ')
    exact ⟨_, _, _, launch_calls .., name_of_lookupApp happ, rfl,
      CStr.bytes_ofBuffer hgood.zero_notMem, rfl⟩
  · rw [answers_launch, List.singleton_inj] at h
    have hrun : (launchResult H w app X body param).2.1 = .running := by
      by_contra hno
      rw [if_neg hno] at h
      exact absurd h (by decide)
    rw [storedPayload, lookupApp_launch happ, Option.map_some, launchedApp, if_pos hrun]
    rfl
  · rw [answers_launch, Ne, List.singleton_inj] at h
    have hrun : (launchResult H w app X body param).2.1 ≠ .running := fun hrun =>
      h (by rw [if_pos hrun])
    rw [storedPayload, storedPayload, lookupApp_launch happ, happ, Option.map_some,
      Option.map_some, launchedApp, if_neg hrun]

/-- An outcome that calls nobody and gives none of the three answers is no launch. -/
theorem not_launchExact {bytes : List UInt8} {o : Outcome σ} (hcalls : o.calls = [])
    (hanswers : ∀ status ∈ [404, 413, 400], o.answers ≠ [status]) : ¬LaunchExact w X bytes o := by
  intro hexact
  rcases happ : lookupApp w.apps X with _ | app
  · exact hanswers 404 (by simp) (hexact.notFound happ).1
  · have hsome : lookupApp w.apps X ≠ none := by rw [happ]; simp
    by_cases hlong : dialMaxPayload < bytes.length
    · exact hanswers 413 (by simp) (hexact.tooLarge hsome hlong).1
    · by_cases hgood : Printable bytes
      · obtain ⟨call, -, -, hcall, -⟩ := hexact.good app happ (by omega) hgood
        rw [hcalls] at hcall
        exact absurd hcall (by simp)
      · exact hanswers 400 (by simp) (hexact.bad hsome (by omega) hgood).1

theorem not_launchExact_crash {bytes : List UInt8} {w' : World σ} {halt : Halt} :
    ¬LaunchExact w X bytes (Outcome.crash w' [] halt) :=
  not_launchExact rfl (by simp)

/-- **The handler does what it should, unless an accepted payload comes with
additional data that does not fit.** -/
theorem launchExact_handleAppStart (H : Host σ) (w : World σ) (r : MgRequest) (X : CStr)
    (origin : Option CStr) :
    LaunchExact w X r.body (handleAppStart H w r X origin) ↔
      ∀ app, lookupApp w.apps X = some app → r.body.length ≤ dialMaxPayload → Printable r.body →
        app.useAdditionalData ≠ 0 → AdditionalDataFits w.port X := by
  rcases happ : lookupApp w.apps X with _ | app
  · have hslot : w.apps[findApp w.apps X]? = none := happ
    have hnone : handleAppStart H w r X origin = .error w [] 404 "Not Found" := by
      simp only [handleAppStart, hslot]
    have honly : OnlyAnswers w (handleAppStart H w r X origin) 404 := by
      rw [hnone]
      exact ⟨rfl, rfl, rfl⟩
    rw [launchExact_of_onlyAnswers honly, if_pos happ]
    simp
  · have hsome : ¬lookupApp w.apps X = none := by rw [happ]; simp
    simp only [Option.some.injEq, forall_eq']
    by_cases hlong : dialMaxPayload < r.body.length
    · have honly : OnlyAnswers w (handleAppStart H w r X origin) 413 := by
        rw [handleAppStart_tooLarge happ hlong]
        exact ⟨rfl, rfl, rfl⟩
      rw [launchExact_of_onlyAnswers honly, if_neg hsome, if_pos hlong]
      exact ⟨fun _ hlen => absurd hlong (by omega), fun _ => rfl⟩
    · have hlen : r.body.length ≤ dialMaxPayload := by omega
      by_cases hgood : Printable r.body
      · rw [handleAppStart_good happ hlen hgood]
        rcases hparam : additionalDataFor app w.port X with f | param
        · -- the text of the URL leaves its array
          refine ⟨fun h => absurd h not_launchExact_crash, fun h => ?_⟩
          obtain ⟨param, hok⟩ := additionalDataFor_eq.mpr (h hlen hgood)
          rw [hparam] at hok
          exact absurd hok (by simp)
        · have hlaunched : LaunchExact w X (Payload.mk r.body hlen).bytes
              (launch H w r (findApp w.apps X) app X origin ⟨r.body, hlen⟩ param) :=
            launchExact_launch happ hgood origin
          exact ⟨fun _ _ _ => additionalDataFor_eq.mp ⟨param, hparam⟩, fun _ => hlaunched⟩
      · have honly : OnlyAnswers w (handleAppStart H w r X origin) 400 := by
          rw [handleAppStart_bad happ hlen hgood]
          exact ⟨rfl, rfl, rfl⟩
        rw [launchExact_of_onlyAnswers honly, if_neg hsome, if_neg hlong, if_neg hgood]
        exact ⟨fun _ _ h => absurd h hgood, fun _ => rfl⟩

end Launched

/-! ### The request -/

/-- **When a `POST` to `/apps/X` does what it should.** A name without a slash has to be
another one than `run`, and an accepted payload must not come with additional data that
does not fit. A name with a slash is taken for something else. If it is registered, that
can only be right by chance: where a bad body ends up as the dial data of some
application, it is answered 400 there. If it is not registered, all that it is taken for
must not be registered either, and its length not be too much for the copy; where the copy fills
the array, no name may go on where the array ends. -/
def LaunchReaches (w : World σ) (r : MgRequest) (X : CStr) : Prop :=
  if '/'.toUInt8 ∉ X.bytes then
    X ≠ .lit "run" ∧
      ∀ app, lookupApp w.apps X = some app → r.body.length ≤ dialMaxPayload → Printable r.body →
        app.useAdditionalData ≠ 0 → AdditionalDataFits w.port X
  else if runUri.bytes <:+ r.uri.bytes then False
  else if hideUri.bytes <:+ r.uri.bytes then
    15 < r.uri.strlen ∧ r.uri.strlen ≤ 271 ∧
      lookupApp w.apps (middle r.uri (runUri.strlen + hideUri.strlen)) = none ∧
      (r.uri.strlen = 271 →
        ¬OutrunsArray w.apps (middle r.uri (runUri.strlen + hideUri.strlen))) ∧
      lookupApp w.apps X = none
  else if dialDataUri.bytes <:+: r.uri.bytes then
    (inetNtop r.remoteAddr).eqN gLocalhost gLocalhost.strlen = true ∧
      if lookupApp w.apps (parseAppName (some r.uri)).str = none then lookupApp w.apps X = none
      else lookupApp w.apps X ≠ none ∧ r.body.length ≤ dialMaxPayload ∧ ¬Printable r.body
  else lookupApp w.apps X = none

section Elsewhere

variable {H : Host σ} {w : World σ} {r : MgRequest} {X : CStr}

/-- A request that only answers does what it should if the answer is that of a name that
is not registered, or that of a bad body. -/
theorem launchExact_of_status {o : Outcome σ} {status : ℕ} (h : OnlyAnswers w o status)
    (hne : status ≠ 413) :
    LaunchExact w X r.body o ↔
      if lookupApp w.apps X = none then status = 404
      else r.body.length ≤ dialMaxPayload ∧ ¬Printable r.body ∧ status = 400 := by
  rw [launchExact_of_onlyAnswers h]
  split_ifs with hnone hlong hgood
  · exact Iff.rfl
  · exact ⟨fun h => absurd h hne, fun h => absurd h.1 (by omega)⟩
  · exact ⟨False.elim, fun h => h.2.1 hgood⟩
  · exact ⟨fun h => ⟨by omega, hgood, h⟩, fun h => h.2.2⟩

/-- The answer 404 is right for a name that is not registered. -/
theorem launchExact_of_404 {o : Outcome σ} (h : OnlyAnswers w o 404) :
    LaunchExact w X r.body o ↔ lookupApp w.apps X = none := by
  rw [launchExact_of_status h (by decide)]
  split_ifs with hnone
  · exact iff_of_true rfl hnone
  · exact iff_of_false (fun h => absurd h.2.2 (by decide)) hnone

/-- The answers 403 and 501 are never right. -/
theorem not_launchExact_refuse {status : ℕ} {reason : String} (hne : status = 403 ∨ status = 501) :
    ¬LaunchExact w X r.body (Outcome.error w [] status reason) := by
  have honly : OnlyAnswers w (Outcome.error w [] status reason) status := ⟨rfl, rfl, rfl⟩
  rw [launchExact_of_status honly (by omega)]
  split_ifs <;> omega

/-- A callback that is not `start_cb` is no launch. -/
theorem not_launchExact_of_call {o : Outcome σ} {call : Call} {calls : List Call}
    (hcalls : o.calls = call :: calls) (hkind : call.kind = .status) :
    ¬LaunchExact w X r.body o := by
  intro hexact
  have hnil : ∀ status, ¬OnlyAnswers w o status := fun status h =>
    absurd (hcalls.symm.trans h.2.1) (by simp)
  rcases happ : lookupApp w.apps X with _ | app
  · exact hnil _ (hexact.notFound happ)
  · have hsome : lookupApp w.apps X ≠ none := by rw [happ]; simp
    by_cases hlong : dialMaxPayload < r.body.length
    · exact hnil _ (hexact.tooLarge hsome hlong)
    · by_cases hgood : Printable r.body
      · obtain ⟨start, payload, additional, hstart, -, hstartkind, -⟩ :=
          hexact.good app happ (by omega) hgood
        rw [hcalls] at hstart
        rw [← (List.cons.inj hstart).1, hkind] at hstartkind
        exact absurd hstartkind (by simp)
      · exact hnil _ (hexact.bad hsome (by omega) hgood)

/-- The end of a branch changes neither answers, nor calls, nor the world. -/
theorem OnlyAnswers.freeAppName {o : Outcome σ} {status : ℕ} (h : OnlyAnswers w o status)
    (name : AppName) : OnlyAnswers w (freeAppName name o) status :=
  ⟨by rw [Outcome.answers, freeAppName_replies]; exact h.1,
    by rw [freeAppName_calls]; exact h.2.1, by rw [freeAppName_world]; exact h.2.2⟩

/-- A request that leads to a name that is not registered is answered 404. -/
theorem onlyAnswers_handle {action : Action} {Y : CStr} (hnone : lookupApp w.apps Y = none) :
    OnlyAnswers w (handle H w r action Y) 404 := by
  rw [handle_of_lookup_none hnone]
  exact ⟨rfl, rfl, rfl⟩

/-- The handler for hiding asks for the status first, if it finds anything. -/
theorem calls_handleAppHide {Y : CStr} {app : DIALApp} (happ : lookupApp w.apps Y = some app)
    (origin : Option CStr) : ∃ calls, (handleAppHide H w Y origin).calls =
      (pollStatus H w (findApp w.apps Y) app Y).call :: calls := by
  have hslot : w.apps[findApp w.apps Y]? = some app := happ
  simp only [handleAppHide, hslot]
  split
  · exact ⟨[], rfl⟩
  · split
    · exact ⟨_, rfl⟩
    · exact ⟨_, rfl⟩

/-- As a request to hide an application, a launch is right only if neither name is
registered. -/
theorem launchExact_handleAppHide {Y : CStr} (origin : Option CStr) :
    LaunchExact w X r.body (handleAppHide H w Y origin) ↔
      lookupApp w.apps Y = none ∧ lookupApp w.apps X = none := by
  rcases happ : lookupApp w.apps Y with _ | app
  · have honly : OnlyAnswers w (handleAppHide H w Y origin) 404 := by
      have hslot : w.apps[findApp w.apps Y]? = none := happ
      simp only [handleAppHide, hslot]
      exact ⟨rfl, rfl, rfl⟩
    rw [launchExact_of_404 honly]
    simp
  · obtain ⟨calls, hcalls⟩ := calls_handleAppHide (H := H) happ origin
    exact iff_of_false (not_launchExact_of_call hcalls rfl) (by simp)

/-- As dial data for an application, a bad body is answered 400, and no other answer
fits. -/
theorem launchExact_handleDialData {name : AppName} {app : DIALApp}
    (happ : lookupApp w.apps name.str = some app) :
    LaunchExact w X r.body
        (freeAppName name (handleDialData H w r name.str r.origin true)) ↔
      lookupApp w.apps X ≠ none ∧ r.body.length ≤ dialMaxPayload ∧ ¬Printable r.body := by
  have hbody : r.body.length ≤ dialMaxPayload → dialDataBody r true = r.body := fun hlen => by
    rw [dialDataBody, if_pos rfl]
    exact List.take_of_length_le hlen
  rcases hbad : isBadPayload (dialDataBody r true) with _ | _
  · -- a good body is answered 200 or not at all
    have hnot : ¬LaunchExact w X r.body
        (freeAppName name (handleDialData H w r name.str r.origin true)) := by
      refine not_launchExact (by rw [freeAppName_calls, handleDialData_calls]) ?_
      rw [Outcome.answers, freeAppName_replies]
      by_cases hcond : QueryConverts (postedQuery r true) ∧
          H.canOpen w.host (getAppPath w.dialDataDir name.str) = true
      · obtain ⟨nodes, -, -, hdone⟩ :=
          handleDialData_done H r r.origin true happ hbad hcond.1 hcond.2
        rw [hdone]
        simp
      · obtain ⟨w', halt, hcrash⟩ := handleDialData_crash H r true happ hbad hcond
        rw [hcrash]
        simp [Outcome.crash]
    refine iff_of_false hnot ?_
    rintro ⟨-, hlen, hno⟩
    rw [hbody hlen, isBadPayload_eq_false] at hbad
    exact hno hbad
  · have honly : OnlyAnswers w
        (freeAppName name (handleDialData H w r name.str r.origin true)) 400 := by
      rw [handleDialData_bad H r r.origin true happ hbad]
      exact OnlyAnswers.freeAppName ⟨rfl, rfl, rfl⟩ name
    rw [launchExact_of_status honly (by decide)]
    split_ifs with hnone
    · exact iff_of_false (by decide) fun h => h.1 hnone
    · exact ⟨fun h => ⟨hnone, h.1, h.2.1⟩, fun h => ⟨h.2.1, h.2.2, rfl⟩⟩

/-- As a request to hide an application whose name fills its array, a launch is right if the
comparisons stay in the array and the name is not registered. -/
theorem launchExact_hideFilled {Y : CStr} :
    LaunchExact w X r.body (perform H w r (.actFilled .hide Y)) ↔
      ¬OutrunsArray w.apps Y ∧ lookupApp w.apps X = none := by
  have hguarded : ¬(Action.hide.guarded = true) := by decide
  rw [perform_actFilled]
  by_cases hout : OutrunsArray w.apps Y
  · rw [if_pos ⟨fun h => absurd h hguarded, hout⟩]
    exact iff_of_false not_launchExact_crash fun h => h.1 hout
  · have honly : OnlyAnswers w (Outcome.error w [] 404 "Not Found") 404 := ⟨rfl, rfl, rfl⟩
    rw [if_neg fun h => hout h.2, if_neg fun h => hguarded h.1, launchExact_of_404 honly]
    exact ⟨fun h => ⟨hout, h⟩, fun h => h.2⟩

/-- What the branch for `/hide` does with a launch. -/
theorem launchExact_toHide :
    LaunchExact w X r.body
        (perform H w r (.toAct .hide (copied r.uri (runUri.strlen + hideUri.strlen)))) ↔
      lookupApp w.apps (middle r.uri (runUri.strlen + hideUri.strlen)) = none ∧
      (r.uri.strlen = 271 →
        ¬OutrunsArray w.apps (middle r.uri (runUri.strlen + hideUri.strlen))) ∧
      lookupApp w.apps X = none := by
  have htotal : appsUri.strlen + (runUri.strlen + hideUri.strlen) + 256 = 271 := by decide
  by_cases hfull : r.uri.strlen = 271
  · have hcopied : copied r.uri (runUri.strlen + hideUri.strlen) =
        .filled (middle r.uri (runUri.strlen + hideUri.strlen)) := if_pos (hfull.trans htotal.symm)
    rw [hcopied]
    refine Iff.trans launchExact_hideFilled ?_
    exact ⟨fun h => ⟨lookupApp_of_not_outrunsArray h.1, fun _ => h.1, h.2⟩,
      fun h => ⟨h.2.1 hfull, h.2.2⟩⟩
  · have hkept : perform H w r (.toAct .hide
          (.kept (middle r.uri (runUri.strlen + hideUri.strlen)))) =
        handleAppHide H w (middle r.uri (runUri.strlen + hideUri.strlen)) r.origin :=
      perform_act_kept fun h => absurd h (by decide)
    rw [copied_of_ne (by omega), hkept, launchExact_handleAppHide]
    exact ⟨fun h => ⟨h.1, fun hc => absurd hc hfull, h.2⟩, fun h => ⟨h.1, h.2.2⟩⟩

/-- A name with a slash. -/
theorem launchExact_longPath (hmethod : r.requestMethod = .lit "POST") (huri : r.uri = appsUri ++ X)
    (hX : '/'.toUInt8 ∈ X.bytes) :
    LaunchExact w X r.body (requestHandler H w r) ↔ LaunchReaches w r X := by
  have hoptions : CStr.lit "POST" ≠ .lit "OPTIONS" := by decide
  have happ : ¬IsAppUri r.uri := by
    rw [huri]
    exact not_isAppUri X hX
  have hmin : 6 < r.uri.strlen := by
    have hpos : 0 < X.strlen := List.length_pos_of_mem hX
    rw [huri, CStr.strlen_append, strlen_appsUri]
    omega
  rw [LaunchReaches, if_neg (not_not_intro hX), requestHandler_eq, MgRequest.route, hmethod]
  -- the name has a slash, so the URI is taken for whatever it ends in
  by_cases hrun : runUri.bytes <:+ r.uri.bytes
  · rw [if_pos hrun, iff_false]
    by_cases hlen : 10 ≤ r.uri.strlen ∧ r.uri.strlen ≤ 266
    · rw [route_run_copied hrun hlen.1 hlen.2, if_neg hoptions,
        if_neg fun h => absurd h.2 (by decide)]
      exact not_launchExact_refuse (by simp)
    · obtain ⟨f, hcrash⟩ : ∃ f, route (.lit "POST") r.uri r.remoteAddr = .crash f :=
        exists_route_eq_crash.mpr fun hlengths => hlen (hlengths.1 hrun)
      rw [hcrash]
      exact not_launchExact_crash
  · rw [if_neg hrun]
    by_cases hhide : hideUri.bytes <:+ r.uri.bytes
    · rw [if_pos hhide]
      by_cases hlen : 15 ≤ r.uri.strlen ∧ r.uri.strlen ≤ 271
      · rw [route_hide_copied hrun happ hhide hlen.1 hlen.2, if_neg hoptions, copied_str]
        by_cases hlong : 15 < r.uri.strlen
        · rw [if_pos ⟨middle_ne_nil.mpr hlong, rfl⟩, launchExact_toHide]
          exact ⟨fun h => ⟨hlong, hlen.2, h⟩, fun h => h.2.2⟩
        · -- `/apps//hide`, whose name is empty
          rw [if_neg fun h => hlong (middle_ne_nil.mp h.1)]
          exact iff_of_false (not_launchExact_refuse (by simp)) fun h => hlong h.1
      · obtain ⟨f, hcrash⟩ : ∃ f, route (.lit "POST") r.uri r.remoteAddr = .crash f :=
          exists_route_eq_crash.mpr fun hlengths => hlen (hlengths.2 happ hhide)
        rw [hcrash]
        exact iff_of_false not_launchExact_crash fun h => hlen ⟨h.1.le, h.2.1⟩
    · rw [if_neg hhide, route_dialData hrun happ hhide]
      by_cases hdial : dialDataUri.bytes <:+: r.uri.bytes
      · rw [if_pos hdial, if_pos hdial, if_neg hoptions]
        by_cases hlocal : (inetNtop r.remoteAddr).eqN gLocalhost gLocalhost.strlen = true
        · rw [if_pos hlocal, and_iff_right hlocal, perform,
            if_neg fun h => absurd h.1 (by simp [Action.guarded]), decide_eq_true rfl]
          by_cases hnone : lookupApp w.apps (parseAppName (some r.uri)).str = none
          · have honly : OnlyAnswers w
                (handle H w r (.dialData true) (parseAppName (some r.uri)).str) 404 :=
              onlyAnswers_handle hnone
            rw [if_pos hnone, launchExact_of_404 (honly.freeAppName _)]
          · obtain ⟨app, hfound⟩ := Option.ne_none_iff_exists'.mp hnone
            rw [if_neg hnone, handle, launchExact_handleDialData hfound]
        · rw [if_neg hlocal]
          exact iff_of_false (not_launchExact_refuse (by simp)) fun h => hlocal h.1
      · have honly : OnlyAnswers w (perform H w r (.refuse 404 "Not Found")) 404 :=
          ⟨rfl, rfl, rfl⟩
        rw [if_neg hdial, if_neg hdial, launchExact_of_404 honly]

end Elsewhere

/-- **A `POST` to `/apps/X` does what it should exactly when it reaches the handler for
`X`**, and an accepted payload does not come with additional data too long for its
array. -/
theorem launchExact_iff (H : Host σ) (w : World σ) (r : MgRequest) (X : CStr)
    (hmethod : r.requestMethod = .lit "POST") (huri : r.uri = appsUri ++ X)
    (hauth : Authorised w r X) :
    LaunchExact w X r.body (requestHandler H w r) ↔ LaunchReaches w r X := by
  by_cases hX : '/'.toUInt8 ∈ X.bytes
  · exact launchExact_longPath hmethod huri hX
  · rw [LaunchReaches, if_pos hX, requestHandler_eq, MgRequest.route, hmethod, huri]
    by_cases hrun : X = .lit "run"
    · have hsuffix : runUri.bytes <:+ (appsUri ++ X).bytes := by
        rw [hrun]
        decide
      obtain ⟨f, hcrash⟩ : ∃ f, route (.lit "POST") (appsUri ++ X) r.remoteAddr = .crash f := by
        refine exists_route_eq_crash.mpr fun hlengths => ?_
        have hlen := (hlengths.1 hsuffix).1
        rw [hrun] at hlen
        exact absurd hlen (by decide)
      rw [hcrash]
      exact iff_of_false not_launchExact_crash fun h => h.1 hrun
    · rw [route_app hX hrun, if_neg (by decide), if_pos rfl, perform_act_kept fun _ => hauth,
        handle, launchExact_handleAppStart]
      exact ⟨fun h => ⟨hrun, h⟩, fun h => h.2⟩

/-- A request to start an application. -/
def launchRequest (X : CStr) (body : List UInt8) : MgRequest :=
  { probeRequest (.lit "POST") (appsUri ++ X) with body := body }

/-- Starting YouTube with the payload `v=1`. -/
theorem launchExact_iff_youTube :
    LaunchExact (probeWorld (.lit "YouTube")) (.lit "YouTube") onePair
      (requestHandler probeHost (probeWorld (.lit "YouTube"))
        (launchRequest (.lit "YouTube") onePair)) := by
  refine (launchExact_iff probeHost (probeWorld (.lit "YouTube"))
    (launchRequest (.lit "YouTube") onePair) (.lit "YouTube") rfl rfl ⟨rfl, rfl⟩).mpr ?_
  rw [LaunchReaches, if_pos (by decide)]
  refine ⟨by decide, fun app _ _ _ _ => ?_⟩
  decide

/-- A name of 200 bytes. -/
def longName : CStr := .ofBuffer (List.replicate 200 'a'.toUInt8)

/-- A server with an application of that name that asks for the URL of its dial data. -/
def longNameWorld : World Unit :=
  { probeWorld longName with apps := [newApp ⟨longName, ⟨0, 0, 0, 0⟩, 0, 1, none⟩ []] }

/-- The URL takes more than the array, so `start_cb` is never called. -/
theorem not_launchExact_longName :
    ¬LaunchExact longNameWorld longName onePair
      (requestHandler probeHost longNameWorld (launchRequest longName onePair)) := by
  intro hexact
  have hcalls : (requestHandler probeHost longNameWorld
      (launchRequest longName onePair)).calls = [] := by decide +kernel
  have happ : lookupApp longNameWorld.apps longName =
      some (newApp ⟨longName, ⟨0, 0, 0, 0⟩, 0, 1, none⟩ []) := by decide +kernel
  have hgood : Printable onePair := by decide +kernel
  obtain ⟨call, -, -, hcall, -⟩ := hexact.good _ happ (by decide) hgood
  rw [hcalls] at hcall
  exact absurd hcall (by simp)

end DialServer
