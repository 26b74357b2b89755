import DialServer.Cors
import DialServer.Responses

/-!
# The case of header names

The names of HTTP headers are the same whatever the case of their letters, and the HTTP
layer looks them up that way: `mg_strcasecmp` is 0 exactly for names that differ in case
only (`DialServer.mgStrcasecmp_eq_zero`), so two requests whose headers differ in no
other way are one request to `get_header` (`DialServer.SameButCase.getHeader_eq`).

The scan of `request_handler` compares with `strcmp`, and knows two spellings of either
name. What it makes of the headers is used for two things only, and in one place each: a
guarded branch asks whether there is a host and whether the origin is allowed, and a text
that is sent prints the origin (`DialServer.PrintsOrigin`). So two such requests are
treated alike exactly when the scan finds headers in them that do not differ to the test
that is asked, and not in the text that is sent (`DialServer.treatedAlike_iff`). An
origin in a third spelling is not found, and a request without an origin is allowed
(`DialServer.not_treatedAlike_capitals`).
-/

namespace DialServer

open CLib

variable {σ : Type}

/-! ### The headers of the HTTP layer -/

/-- `lowercase`: the byte at a pointer, the terminator included. -/
def lowercase (s : List UInt8) : ℤ := (tolower (s.headD 0)).toNat

/-- The loop of `mg_strcasecmp`. -/
def mgStrcasecmpLoop : List UInt8 → List UInt8 → ℤ
  | [], s2 => lowercase [] - lowercase s2
  | c :: s1, s2 =>
    let diff := lowercase (c :: s1) - lowercase s2
    if diff = 0 then mgStrcasecmpLoop s1 s2.tail else diff

/-- `mg_strcasecmp`. -/
def mgStrcasecmp (s1 s2 : CStr) : ℤ := mgStrcasecmpLoop s1.bytes s2.bytes

/-- `get_header`: the first header of the name. -/
def getHeader (httpHeaders : List (CStr × CStr)) (name : CStr) : Option CStr :=
  (httpHeaders.find? fun header => mgStrcasecmp name header.1 = 0).map Prod.snd

theorem lowercase_sub_eq_zero {s1 s2 : List UInt8} :
    lowercase s1 - lowercase s2 = 0 ↔ tolower (s1.headD 0) = tolower (s2.headD 0) := by
  rw [lowercase, lowercase, ← UInt8.toNat_inj]
  omega

/-- A byte of a string is not taken for its terminator. -/
theorem tolower_ne_of_cons {c : UInt8} {s : List UInt8} (h : (0 : UInt8) ∉ c :: s) :
    tolower c ≠ tolower 0 := by
  rw [tolower_eq_zero.mpr rfl, Ne, tolower_eq_zero]
  rintro rfl
  exact h List.mem_cons_self

/-- The loop compares the strings byte by byte. -/
theorem mgStrcasecmpLoop_eq_zero {s1 s2 : List UInt8} (h1 : (0 : UInt8) ∉ s1)
    (h2 : (0 : UInt8) ∉ s2) :
    mgStrcasecmpLoop s1 s2 = 0 ↔ s1.map tolower = s2.map tolower := by
  induction s1 generalizing s2 with
  | nil =>
    rw [mgStrcasecmpLoop, lowercase_sub_eq_zero]
    cases s2 with
    | nil => exact iff_of_true rfl rfl
    | cons d s2 => exact iff_of_false (tolower_ne_of_cons h2).symm (by simp)
  | cons c s1 ih =>
    have hdiff : lowercase (c :: s1) - lowercase s2 = 0 ↔ tolower c = tolower (s2.headD 0) :=
      lowercase_sub_eq_zero
    rw [mgStrcasecmpLoop]
    cases s2 with
    | nil =>
      -- the terminator of the second string is met first
      have hne := hdiff.not.mpr (tolower_ne_of_cons h1)
      rw [if_neg hne]
      exact iff_of_false hne (by simp)
    | cons d s2 =>
      have htail := ih (fun h => h1 (List.mem_cons_of_mem _ h))
        (fun h => h2 (List.mem_cons_of_mem _ h))
      rw [List.map_cons, List.map_cons, List.cons.injEq]
      split
      · rename_i h
        rw [List.tail_cons, htail]
        exact (and_iff_right (hdiff.mp h)).symm
      · rename_i h
        exact iff_of_false h fun hc => h (hdiff.mpr hc.1)

/-- **`mg_strcasecmp` ignores the case**, and nothing else. -/
theorem mgStrcasecmp_eq_zero {s1 s2 : CStr} :
    mgStrcasecmp s1 s2 = 0 ↔ s1.bytes.map tolower = s2.bytes.map tolower :=
  mgStrcasecmpLoop_eq_zero s1.nul_free s2.nul_free

/-! ### Requests that differ in case -/

/-- Two headers with the same value, and the same name but for its case. -/
def SameHeader (header header' : CStr × CStr) : Prop :=
  mgStrcasecmp header.1 header'.1 = 0 ∧ header.2 = header'.2

instance (header header' : CStr × CStr) : Decidable (SameHeader header header') :=
  inferInstanceAs (Decidable (_ ∧ _))

/-- Two requests that are the same but for the case of the names of their headers. -/
structure SameButCase (r r' : MgRequest) : Prop where
  /-- Everything but the headers is the same. -/
  rest : r' = { r with httpHeaders := r'.httpHeaders }
  /-- The headers are the same but for the case of their names. -/
  headers : List.Forall₂ SameHeader r.httpHeaders r'.httpHeaders

/-- A name matches headers that differ in case, or none of them. -/
theorem SameHeader.matches_iff {header header' : CStr × CStr} (h : SameHeader header header')
    (name : CStr) : mgStrcasecmp name header.1 = 0 ↔ mgStrcasecmp name header'.1 = 0 := by
  rw [mgStrcasecmp_eq_zero, mgStrcasecmp_eq_zero, mgStrcasecmp_eq_zero.mp h.1]

/-- **`get_header` finds the same in both.** -/
theorem SameButCase.getHeader_eq {r r' : MgRequest} (h : SameButCase r r') (name : CStr) :
    getHeader r.httpHeaders name = getHeader r'.httpHeaders name := by
  rw [getHeader, getHeader]
  have hheaders := h.headers
  generalize r.httpHeaders = headers, r'.httpHeaders = headers' at hheaders
  induction hheaders with
  | nil => rfl
  | @cons header header' _ _ hheader _ ih =>
    have hmatch := hheader.matches_iff name
    by_cases hname : mgStrcasecmp name header.1 = 0
    · have hname' := hmatch.mp hname
      rw [List.find?_cons_of_pos (by simpa), List.find?_cons_of_pos (by simpa), Option.map_some,
        Option.map_some, hheader.2]
    · have hname' := hmatch.not.mp hname
      rw [List.find?_cons_of_neg (by simpa), List.find?_cons_of_neg (by simpa), ih]

theorem SameButCase.route_eq {r r' : MgRequest} (h : SameButCase r r') : r'.route = r.route := by
  rw [h.rest]
  rfl

/-! ### What is sent of the origin -/

/-- A text that prints the origin, and nothing else of it. -/
def PrintsOnce (text : Option CStr → CStr) : Prop :=
  ∀ origin origin', text origin = text origin' ↔ formatString origin = formatString origin'

theorem printsOnce_optionsText (methods : CStr) : PrintsOnce (optionsText methods) :=
  fun _ _ => by simp [optionsText]

theorem printsOnce_createdText (laddr : InAddr) (dialPort : UInt16) (appName : CStr) :
    PrintsOnce (createdText laddr dialPort appName) :=
  fun _ _ => by simp [createdText]

theorem printsOnce_statusText (name : CStr) (canStop : ℤ) (localState : DIALStatus)
    (dialData : CStr) :
    PrintsOnce fun origin => statusText origin name canStop localState dialData :=
  fun _ _ => by simp [statusText]

theorem printsOnce_okText : PrintsOnce okText := fun _ _ => by simp [okText]

theorem printsOnce_dialDataText : PrintsOnce dialDataText := fun _ _ => by simp [dialDataText]

/-- What a part of the handler makes of the origin header: if `P` holds, a text that
prints it is sent, and otherwise nothing depends on it. -/
inductive PrintsOrigin (f : Option CStr → Outcome σ) : Prop → Prop
  /-- A text is sent. -/
  | text {P : Prop} {text : Option CStr → CStr} (htext : PrintsOnce text) (hP : P)
    (h : ∀ origin, f origin = { f none with replies := [.printf (text origin)] }) :
    PrintsOrigin f P
  /-- Something else happens. -/
  | const {P : Prop} (hP : ¬P) (h : ∀ origin, f origin = f none) : PrintsOrigin f P

section PrintsOrigin

variable {f : Option CStr → Outcome σ} {P : Prop}

/-- **Two origins lead to the same outcome** when they print the same, or none is
printed. -/
theorem PrintsOrigin.eq_iff (h : PrintsOrigin f P) (origin origin' : Option CStr) :
    f origin = f origin' ↔ (P → formatString origin = formatString origin') := by
  cases h with
  | text htext hP h => rw [h, h origin', forall_prop_of_true hP, ← htext]; simp
  | const hP h => rw [h, h origin', forall_prop_of_false hP]; simp

/-- **Behind a guard** two requests lead to the same outcome when both are let through,
and print the same, or both are refused. -/
theorem PrintsOrigin.guarded_eq_iff (h : PrintsOrigin f P) {refusal : Outcome σ}
    {origin origin' : Option CStr} (hne : f origin ≠ refusal) (hne' : f origin' ≠ refusal)
    {A A' : Prop} [Decidable A] [Decidable A'] :
    (if A then f origin else refusal) = (if A' then f origin' else refusal) ↔
      (A ↔ A') ∧ (A → P → formatString origin = formatString origin') := by
  by_cases hA : A
  · by_cases hA' : A'
    · rw [if_pos hA, if_pos hA', h.eq_iff, and_iff_right (iff_of_true hA hA'),
        forall_prop_of_true hA]
    · rw [if_pos hA, if_neg hA']
      exact iff_of_false hne fun hc => hA' (hc.1.mp hA)
  · by_cases hA' : A'
    · rw [if_neg hA, if_pos hA']
      exact iff_of_false hne'.symm fun hc => hA (hc.1.mpr hA')
    · rw [if_neg hA, if_neg hA']
      exact iff_of_true rfl ⟨iff_of_false hA hA', fun hc => absurd hc hA⟩

theorem PrintsOrigin.congr {Q : Prop} (h : PrintsOrigin f P) (hPQ : P ↔ Q) : PrintsOrigin f Q :=
  propext hPQ ▸ h

theorem freeAppName_with (appName : AppName) (o : Outcome σ) (replies : List Reply) :
    freeAppName appName { o with replies := replies } =
      { freeAppName appName o with replies := replies } := by
  obtain ⟨w, calls, before, halt⟩ := o
  rw [freeAppName, freeAppName]
  cases halt with
  | some halt => rfl
  | none => cases appName.onHeap <;> rfl

/-- Freeing the name does not change what is printed. -/
theorem printsOrigin_freeAppName (h : PrintsOrigin f P) (appName : AppName) :
    PrintsOrigin (fun origin => freeAppName appName (f origin)) P := by
  cases h with
  | text htext hP h => exact .text htext hP fun origin => by rw [h, freeAppName_with]
  | const hP h => exact .const hP fun origin => by rw [h]

end PrintsOrigin

/-- What `hide_cb` returns, once the state has been asked. -/
def hideResult (H : Host σ) (w : World σ) (app : DIALApp) (X : CStr) :
    σ × DIALStatus × Option Ptr :=
  let polled := pollStatus H w (findApp w.apps X) app X
  H.hideCb polled.world.host
    ⟨polled.app.callbacks.hideCb, X, polled.app.runId, polled.app.callbackData⟩
    (getPayload polled.world.apps)

/-- **What an action needs to send a text**: everything goes well. -/
def Succeeds (H : Host σ) (w : World σ) (r : MgRequest) (X : CStr) (app : DIALApp) :
    Action → Prop
  | .start => ∃ (hlen : r.body.length ≤ dialMaxPayload) (param : CStr), Printable r.body ∧
    additionalDataFor app w.port X = .ok param ∧
      (launchResult H w app X ⟨r.body, hlen⟩ param).2.1 = .running
  | .status => Renders app.dialData
  | .stop => (pollStatus H w (findApp w.apps X) app X).app.state ≠ .stopped
  | .hide => (pollStatus H w (findApp w.apps X) app X).app.state ≠ .stopped ∧
    (hideResult H w app X).2.1 = .hide
  | .dialData usePayload => isBadPayload (dialDataBody r usePayload) = false ∧
    QueryConverts (postedQuery r usePayload) ∧
      H.canOpen w.host (getAppPath w.dialDataDir X) = true

section Handlers

variable {H : Host σ} {w : World σ} {r : MgRequest} {X : CStr} {app : DIALApp}

theorem printsOrigin_launch (slot : ℕ) (body : Payload) (param : CStr) :
    PrintsOrigin (fun origin => launch H w r slot app X origin body param)
      ((launchResult H w app X body param).2.1 = .running) := by
  by_cases hrun : (launchResult H w app X body param).2.1 = .running
  · refine .text (printsOnce_createdText r.localAddr w.port X) hrun fun origin => ?_
    rw [launchResult, launchArgs] at hrun
    simp only [launch, if_pos hrun]
  · refine .const hrun fun origin => ?_
    rw [launchResult, launchArgs] at hrun
    simp only [launch, if_neg hrun]

theorem printsOrigin_handleAppStart (happ : lookupApp w.apps X = some app) :
    PrintsOrigin (handleAppStart H w r X) (Succeeds H w r X app .start) := by
  by_cases hlong : dialMaxPayload < r.body.length
  · refine .const (fun ⟨hlen, _⟩ => absurd hlong (by omega)) fun origin => ?_
    rw [handleAppStart_tooLarge happ hlong, handleAppStart_tooLarge happ hlong]
  · have hlen : r.body.length ≤ dialMaxPayload := by omega
    by_cases hgood : Printable r.body
    · have hstart : ∀ origin, handleAppStart H w r X origin = _ :=
        fun origin => handleAppStart_good happ hlen hgood
      rcases hparam : additionalDataFor app w.port X with f | param
      · rw [hparam] at hstart
        refine .const ?_ fun origin => (hstart origin).trans (hstart none).symm
        rintro ⟨-, param, -, hok, -⟩
        rw [hparam] at hok
        exact absurd hok (by simp)
      · rw [hparam] at hstart
        rw [funext hstart]
        refine (printsOrigin_launch _ _ _).congr
          ⟨fun hrun => ⟨hlen, param, hgood, hparam, hrun⟩, ?_⟩
        rintro ⟨_, param', -, hok, hrun⟩
        obtain rfl : param = param' := Except.ok.inj (hparam.symm.trans hok)
        exact hrun
    · refine .const (fun ⟨_, _, h, _⟩ => hgood h) fun origin => ?_
      rw [handleAppStart_bad happ hlen hgood, handleAppStart_bad happ hlen hgood]

theorem printsOrigin_handleAppStatus (happ : lookupApp w.apps X = some app) :
    PrintsOrigin (handleAppStatus H w r X) (Succeeds H w r X app .status) := by
  have hslot : w.apps[findApp w.apps X]? = some app := happ
  rw [Succeeds, ← renders_iff]
  rcases hrender : renderDialData app.dialData with f | dialData
  · refine .const (by simp) fun origin => ?_
    simp only [handleAppStatus, hslot, hrender]
  · exact .text (printsOnce_statusText _ _ _ dialData) ⟨dialData, rfl⟩ fun origin => by
      simp only [handleAppStatus, hslot, hrender]
      rfl

theorem printsOrigin_handleAppStop (happ : lookupApp w.apps X = some app) :
    PrintsOrigin (handleAppStop H w X) (Succeeds H w r X app .stop) := by
  have hslot : w.apps[findApp w.apps X]? = some app := happ
  by_cases hstopped : (pollStatus H w (findApp w.apps X) app X).app.state = .stopped
  · refine .const (not_not_intro hstopped) fun origin => ?_
    simp only [handleAppStop, hslot, if_pos hstopped]
  · refine .text printsOnce_okText hstopped fun origin => ?_
    simp only [handleAppStop, hslot, if_neg hstopped]

/-- An application that is not stopped is asked to hide. -/
theorem handleAppHide_asked (happ : lookupApp w.apps X = some app)
    (hstopped : (pollStatus H w (findApp w.apps X) app X).app.state ≠ .stopped) :
    ∃ refused hidden calls, ∀ origin, handleAppHide H w X origin =
      if (hideResult H w app X).2.1 ≠ .hide then .error refused calls 501 "Not Implemented"
      else ⟨hidden, calls, [.printf (okText origin)], none⟩ := by
  have hslot : w.apps[findApp w.apps X]? = some app := happ
  exact ⟨_, _, _, fun origin => by
    simp only [handleAppHide, hslot, if_neg (not_hidden_iff.mpr hstopped)]
    rfl⟩

theorem printsOrigin_handleAppHide (happ : lookupApp w.apps X = some app) :
    PrintsOrigin (handleAppHide H w X) (Succeeds H w r X app .hide) := by
  by_cases hstopped : (pollStatus H w (findApp w.apps X) app X).app.state = .stopped
  · have hslot : w.apps[findApp w.apps X]? = some app := happ
    refine .const (fun h => h.1 hstopped) fun origin => ?_
    simp only [handleAppHide, hslot, hstopped]
    rfl
  · obtain ⟨refused, hidden, calls, hasked⟩ := handleAppHide_asked happ hstopped
    rw [funext hasked]
    by_cases hhide : (hideResult H w app X).2.1 = .hide
    · refine .text printsOnce_okText ⟨hstopped, hhide⟩ fun origin => ?_
      rw [if_neg (not_not_intro hhide), if_neg (not_not_intro hhide)]
    · refine .const (fun h => hhide h.2) fun origin => ?_
      rw [if_pos hhide, if_pos hhide]

theorem printsOrigin_handleDialData (happ : lookupApp w.apps X = some app) (usePayload : Bool) :
    PrintsOrigin (fun origin => handleDialData H w r X origin usePayload)
      (Succeeds H w r X app (.dialData usePayload)) := by
  rcases hbad : isBadPayload (dialDataBody r usePayload) with _ | _
  · by_cases hcond : QueryConverts (postedQuery r usePayload) ∧
        H.canOpen w.host (getAppPath w.dialDataDir X) = true
    · refine .text printsOnce_dialDataText ⟨hbad, hcond⟩ fun origin => ?_
      obtain ⟨nodes, hnodes, -, hdone⟩ :=
        handleDialData_done H r origin usePayload happ hbad hcond.1 hcond.2
      obtain ⟨nodes', hnodes', -, hdone'⟩ :=
        handleDialData_done H r none usePayload happ hbad hcond.1 hcond.2
      obtain rfl : nodes = nodes' := Except.ok.inj (hnodes.symm.trans hnodes')
      rw [hdone, hdone']
    · refine .const (fun h => hcond h.2) fun origin => ?_
      obtain ⟨w', halt, hcrash⟩ := handleDialData_crash H r usePayload happ hbad hcond
      rw [hcrash, hcrash]
  · refine .const (fun h => absurd (hbad.symm.trans h.1) (by simp)) fun origin => ?_
    rw [handleDialData_bad H r origin usePayload happ hbad,
      handleDialData_bad H r none usePayload happ hbad]

end Handlers

/-- **The handler of an action makes of the headers what it prints of the origin**, when
the action succeeds for a registered application, and nothing else. -/
theorem printsOrigin_handle (H : Host σ) (w : World σ) (r : MgRequest) (action : Action)
    (X : CStr) :
    ∃ f, PrintsOrigin f (∃ app, lookupApp w.apps X = some app ∧ Succeeds H w r X app action) ∧
      ∀ httpHeaders, handle H w { r with httpHeaders := httpHeaders } action X =
        f (scanHeaders httpHeaders).origin := by
  rcases happ : lookupApp w.apps X with _ | app
  · exact ⟨fun _ => .error w [] 404 "Not Found", .const (by simp) fun _ => rfl,
      fun _ => handle_of_lookup_none happ⟩
  · simp only [Option.some.injEq, exists_eq_left']
    cases action with
    | start => exact ⟨_, printsOrigin_handleAppStart happ, fun _ => rfl⟩
    | status => exact ⟨_, printsOrigin_handleAppStatus happ, fun _ => rfl⟩
    | stop => exact ⟨_, printsOrigin_handleAppStop happ, fun _ => rfl⟩
    | hide => exact ⟨_, printsOrigin_handleAppHide happ, fun _ => rfl⟩
    | dialData usePayload => exact ⟨_, printsOrigin_handleDialData happ usePayload, fun _ => rfl⟩

/-! ### Two requests that are one -/

instance (w : World σ) (r : MgRequest) (X : CStr) : Decidable (Authorised w r X) :=
  inferInstanceAs (Decidable (_ ∧ _))

/-- What is decided about a request under a name that fills its array: nothing, where the scan
leaves the array. -/
def decisionFilled (w : World σ) (r : MgRequest) (name : CStr) : Option Bool :=
  if r.host.isSome ∧ scansFor r.origin ∧ OutrunsArray w.apps name then none
  else some (Authorised w r name)

/-- What is decided about the headers of a request, where something is. -/
def decision (w : World σ) (r : MgRequest) : Option Bool :=
  match r.route with
  | .crash _ => none
  | .refuse _ _ => none
  | .options appName _ => some (Authorised w r appName.str)
  | .act action appName => if action.guarded then some (Authorised w r appName.str) else none
  | .optionsFilled name _ => decisionFilled w r name
  | .actFilled action name => if action.guarded then decisionFilled w r name else none

/-- **Two requests are treated alike**: the same is decided about them, and the same
callbacks are made, the same state is left and the same is sent. -/
structure TreatedAlike (H : Host σ) (w : World σ) (r r' : MgRequest) : Prop where
  /-- The decision. -/
  decision : decision w r = decision w r'
  /-- The outcome. -/
  outcome : requestHandler H w r = requestHandler H w r'

/-- **The headers that the scan finds do not differ where it matters.** To a list of
methods and to a guarded action it matters whether there is a host and the origin is
allowed, and to what is sent after that, how the origin is printed. Under a name that fills its
array it also matters whether that can be told. -/
def HeadersAgree (H : Host σ) (w : World σ) (r r' : MgRequest) : Prop :=
  match r.route with
  | .crash _ => True
  | .refuse _ _ => True
  | .options appName _ => (Authorised w r appName.str ↔ Authorised w r' appName.str) ∧
    (Authorised w r appName.str → formatString r.origin = formatString r'.origin)
  | .act action appName =>
    (action.guarded = true → (Authorised w r appName.str ↔ Authorised w r' appName.str)) ∧
      ((action.guarded = true → Authorised w r appName.str) →
        ∀ app, lookupApp w.apps appName.str = some app → Succeeds H w r appName.str app action →
          formatString r.origin = formatString r'.origin)
  | .optionsFilled name _ => decisionFilled w r name = decisionFilled w r' name ∧
    (decisionFilled w r name = some true → formatString r.origin = formatString r'.origin)
  | .actFilled action name =>
    action.guarded = true → decisionFilled w r name = decisionFilled w r' name

section TwoRequests

variable {H : Host σ} {w : World σ} {r r' : MgRequest}

/-- An answer to `OPTIONS` is not a refusal. -/
theorem freeAppName_optionsText_ne (appName : AppName) (text : CStr) :
    freeAppName appName (⟨w, [], [.printf text], none⟩ : Outcome σ) ≠
      freeAppName appName (.error w [] 403 "Forbidden") := by
  intro heq
  have hreplies := congrArg Outcome.replies heq
  rw [freeAppName_replies, freeAppName_replies] at hreplies
  exact absurd hreplies (by simp [Outcome.error])

/-- **On a list of methods** two outcomes are the same exactly when the headers agree. -/
theorem perform_options_eq_iff (appName : AppName) (methods : CStr) :
    perform H w r (.options appName methods) = perform H w r' (.options appName methods) ↔
      (Authorised w r appName.str ↔ Authorised w r' appName.str) ∧
        (Authorised w r appName.str → formatString r.origin = formatString r'.origin) := by
  have hprints : PrintsOrigin (fun origin =>
      (⟨w, [], [.printf (optionsText methods origin)], none⟩ : Outcome σ)) True :=
    .text (printsOnce_optionsText methods) trivial fun _ => rfl
  have hallowed : ∀ q : MgRequest, perform H w q (.options appName methods) =
      if Authorised w q appName.str then
        freeAppName appName ⟨w, [], [.printf (optionsText methods q.origin)], none⟩
      else freeAppName appName (.error w [] 403 "Forbidden") :=
    fun q => apply_ite (freeAppName appName) _ _ _
  rw [hallowed, hallowed, (printsOrigin_freeAppName hprints appName).guarded_eq_iff
    (freeAppName_optionsText_ne _ _) (freeAppName_optionsText_ne _ _)]
  simp only [true_imp_iff]

/-- **On an action** likewise. -/
theorem perform_act_eq_iff (h : SameButCase r r') (action : Action) (appName : AppName) :
    perform H w r (.act action appName) = perform H w r' (.act action appName) ↔
      (action.guarded = true → (Authorised w r appName.str ↔ Authorised w r' appName.str)) ∧
        ((action.guarded = true → Authorised w r appName.str) →
          ∀ app, lookupApp w.apps appName.str = some app →
            Succeeds H w r appName.str app action →
              formatString r.origin = formatString r'.origin) := by
  obtain ⟨f, hprints, hf⟩ := printsOrigin_handle H w r action appName.str
  have hr : handle H w r action appName.str = f r.origin := hf r.httpHeaders
  have hr' : handle H w r' action appName.str = f r'.origin := by
    rw [h.rest]
    exact hf r'.httpHeaders
  have hpassed : ∀ q : MgRequest, perform H w q (.act action appName) =
      if action.guarded = true → Authorised w q appName.str then
        freeAppName appName (handle H w q action appName.str)
      else .error w [] 403 "Forbidden" := by
    intro q
    rw [perform, ← ite_not]
    exact if_congr not_and_not_right rfl rfl
  have hne : ∀ q, freeAppName appName (handle H w q action appName.str) ≠
      .error w [] 403 "Forbidden" := fun q heq =>
    answers_handle_ne H w q appName.str action appName (congrArg Outcome.answers heq)
  have hne₁ := hne r
  have hne₂ := hne r'
  rw [hr] at hne₁
  rw [hr'] at hne₂
  rw [hpassed, hpassed, hr, hr',
    (printsOrigin_freeAppName hprints appName).guarded_eq_iff hne₁ hne₂]
  refine and_congr ?_ (imp_congr_right fun _ => by simp only [forall_exists_index, and_imp])
  constructor
  · intro hiff hguarded
    simpa [hguarded] using hiff
  · exact fun hiff => forall_congr' hiff

/-! A full name is let through, refused, or in the way of the check. -/

theorem decisionFilled_eq_none {q : MgRequest} {name : CStr} :
    decisionFilled w q name = none ↔
      (q.host.isSome ∧ scansFor q.origin) ∧ OutrunsArray w.apps name := by
  rw [decisionFilled, and_assoc]
  split_ifs with h
  · exact iff_of_true rfl h
  · exact iff_of_false (by simp) h

theorem decisionFilled_eq_some_true {q : MgRequest} {name : CStr} :
    decisionFilled w q name = some true ↔ q.host.isSome ∧ scansFor q.origin = false := by
  by_cases hnone : decisionFilled w q name = none
  · have hscan := (decisionFilled_eq_none.mp hnone).1.2
    exact iff_of_false (by simp [hnone]) fun h => absurd (h.2.symm.trans hscan) (by simp)
  · have hcheck := decisionFilled_eq_none.not.mp hnone
    have hsome : decisionFilled w q name = some (decide (Authorised w q name)) :=
      if_neg fun h => hcheck ⟨⟨h.1, h.2.1⟩, h.2.2⟩
    rw [hsome, Option.some.injEq, decide_eq_true_iff, Authorised]
    refine and_congr_right fun hhost => ?_
    cases hscan : scansFor q.origin with
    | false => exact iff_of_true (isAllowedOrigin_of_not_scansFor hscan _ _) rfl
    | true =>
      have hout : ¬OutrunsArray w.apps name := fun h => hcheck ⟨⟨hhost, hscan⟩, h⟩
      rw [isAllowedOrigin_of_lookup_none (lookupApp_of_not_outrunsArray hout), hscan]
      simp

/-- A decision is made inside the array. -/
theorem not_outrunsArray_of_decisionFilled {q : MgRequest} {name : CStr} {allowed : Bool}
    (h : decisionFilled w q name = some allowed) :
    ¬((q.host.isSome ∧ scansFor q.origin) ∧ OutrunsArray w.apps name) := fun hnone =>
  absurd (h.symm.trans (decisionFilled_eq_none.mpr hnone)) (by simp)

theorem scansFor_of_decisionFilled_false {q : MgRequest} {name : CStr}
    (h : decisionFilled w q name = some false) : q.host.isSome → scansFor q.origin := by
  intro hhost
  by_contra hscan
  have htrue : decisionFilled w q name = some true :=
    decisionFilled_eq_some_true.mpr ⟨hhost, Bool.eq_false_iff.mpr hscan⟩
  exact absurd (h.symm.trans htrue) (by simp)

/-- What follows the check. -/
def afterDecision (w : World σ) (o : Outcome σ) : Option Bool → Outcome σ
  | none => .crash w [] (.fault .unterminated)
  | some true => o
  | some false => .error w [] 403 "Forbidden"

theorem perform_optionsFilled_eq (q : MgRequest) (name methods : CStr) :
    perform H w q (.optionsFilled name methods) =
      afterDecision w ⟨w, [], [.printf (optionsText methods q.origin)], none⟩
        (decisionFilled w q name) := by
  rw [perform_optionsFilled]
  rcases hdecision : decisionFilled w q name with _ | _ | _
  · rw [if_pos (decisionFilled_eq_none.mp hdecision), afterDecision]
  · rw [if_neg (not_outrunsArray_of_decisionFilled hdecision),
      if_pos (scansFor_of_decisionFilled_false hdecision), afterDecision]
  · have hpass := decisionFilled_eq_some_true.mp hdecision
    rw [if_neg (not_outrunsArray_of_decisionFilled hdecision),
      if_neg fun h => absurd (hpass.2.symm.trans (h hpass.1)) (by simp), afterDecision]

theorem perform_actFilled_eq {action : Action} (hguarded : action.guarded = true) (q : MgRequest)
    (name : CStr) : perform H w q (.actFilled action name) =
      afterDecision w (if OutrunsArray w.apps name then .crash w [] (.fault .unterminated)
        else .error w [] 404 "Not Found") (decisionFilled w q name) := by
  rw [perform_actFilled]
  rcases hdecision : decisionFilled w q name with _ | _ | _
  · obtain ⟨⟨hhost, -⟩, hout⟩ := decisionFilled_eq_none.mp hdecision
    rw [if_pos ⟨fun _ => hhost, hout⟩, afterDecision]
  · have hcheck := not_outrunsArray_of_decisionFilled hdecision
    have hscan := scansFor_of_decisionFilled_false hdecision
    rw [if_neg fun h => hcheck ⟨⟨h.1 hguarded, hscan (h.1 hguarded)⟩, h.2⟩,
      if_pos ⟨hguarded, hscan⟩, afterDecision]
  · have hpass := decisionFilled_eq_some_true.mp hdecision
    have hallowed : ¬(action.guarded = true ∧ (q.host.isSome → scansFor q.origin)) := fun h =>
      absurd (hpass.2.symm.trans (h.2 hpass.1)) (by simp)
    rw [if_congr (and_iff_right fun _ => hpass.1) rfl rfl, if_neg hallowed, afterDecision]

/-- **Two requests that differ in the case of header names are treated alike exactly when
the headers that the scan finds in them agree.** -/
theorem treatedAlike_iff (H : Host σ) (w : World σ) {r r' : MgRequest} (h : SameButCase r r') :
    TreatedAlike H w r r' ↔ HeadersAgree H w r r' := by
  suffices hboth : decision w r = decision w r' ∧ requestHandler H w r = requestHandler H w r' ↔
      HeadersAgree H w r r' from
    ⟨fun halike => hboth.mp ⟨halike.decision, halike.outcome⟩,
      fun hagree => ⟨(hboth.mpr hagree).1, (hboth.mpr hagree).2⟩⟩
  rw [decision, decision, requestHandler_eq, requestHandler_eq, h.route_eq, HeadersAgree]
  cases r.route with
  | crash f => exact iff_of_true ⟨rfl, rfl⟩ trivial
  | refuse status reason => exact iff_of_true ⟨rfl, rfl⟩ trivial
  | options appName methods =>
    rw [perform_options_eq_iff]
    refine and_iff_right_of_imp fun hagree => ?_
    exact congrArg some (decide_eq_decide.mpr hagree.1)
  | act action appName =>
    rw [perform_act_eq_iff h]
    refine and_iff_right_of_imp fun hagree => ?_
    dsimp only
    split
    · rename_i hguarded
      exact congrArg some (decide_eq_decide.mpr (hagree.1 hguarded))
    · rfl
  | optionsFilled name methods =>
    rw [perform_optionsFilled_eq, perform_optionsFilled_eq]
    refine and_congr_right fun hdecision => ?_
    dsimp only at hdecision
    rw [← hdecision]
    rcases decisionFilled w r name with _ | _ | _
    · exact iff_of_true rfl (by simp)
    · exact iff_of_true rfl (by simp)
    · rw [forall_prop_of_true rfl, ← printsOnce_optionsText methods, afterDecision, afterDecision]
      simp
  | actFilled action name =>
    dsimp only
    cases hguarded : action.guarded with
    | false =>
      refine iff_of_true ⟨rfl, ?_⟩ (by simp)
      rw [perform_actFilled, perform_actFilled, hguarded]
      simp
    | true =>
      rw [perform_actFilled_eq hguarded, perform_actFilled_eq hguarded, forall_prop_of_true rfl]
      exact ⟨fun hboth => hboth.1, fun hdecision => ⟨hdecision, by rw [hdecision]⟩⟩

end TwoRequests

/-! ### Spellings -/

/-- A header whose name is spelled in a way that the scan knows, if it is one of those it
looks for. -/
def KnownSpelling (header : CStr × CStr) : Prop :=
  (mgStrcasecmp (.lit "Host") header.1 = 0 →
      header.1 = .lit "Host" ∨ header.1 = .lit "host") ∧
    (mgStrcasecmp (.lit "Origin") header.1 = 0 →
      header.1 = .lit "Origin" ∨ header.1 = .lit "origin")

instance (header : CStr × CStr) : Decidable (KnownSpelling header) :=
  inferInstanceAs (Decidable (_ ∧ _))

section Spellings

variable {header header' : CStr × CStr} {r r' : MgRequest}

theorem KnownSpelling.host_iff (h : KnownSpelling header) :
    (header.1 = .lit "Host" ∨ header.1 = .lit "host") ↔
      mgStrcasecmp (.lit "Host") header.1 = 0 := by
  refine ⟨fun hname => ?_, h.1⟩
  rcases hname with hname | hname <;> rw [hname] <;> decide

theorem KnownSpelling.origin_iff (h : KnownSpelling header) :
    (header.1 = .lit "Origin" ∨ header.1 = .lit "origin") ↔
      mgStrcasecmp (.lit "Origin") header.1 = 0 := by
  refine ⟨fun hname => ?_, h.2⟩
  rcases hname with hname | hname <;> rw [hname] <;> decide

/-- The scan does the same with two spellings that it knows. -/
theorem scanHeader_eq (hsame : SameHeader header header') (h : KnownSpelling header)
    (h' : KnownSpelling header') (found : Headers) :
    scanHeader found header = scanHeader found header' := by
  simp only [scanHeader, h.host_iff, h'.host_iff, h.origin_iff, h'.origin_iff,
    hsame.matches_iff, hsame.2]

theorem scanHeaders_eq (hsame : SameButCase r r')
    (h : ∀ header ∈ r.httpHeaders, KnownSpelling header)
    (h' : ∀ header ∈ r'.httpHeaders, KnownSpelling header) :
    scanHeaders r.httpHeaders = scanHeaders r'.httpHeaders := by
  have hheaders := hsame.headers
  rw [scanHeaders, scanHeaders]
  generalize (⟨none, none⟩ : Headers) = found
  generalize r.httpHeaders = headers, r'.httpHeaders = headers' at hheaders h h'
  induction hheaders generalizing found with
  | nil => rfl
  | cons hheader _ ih =>
    rw [List.foldl_cons, List.foldl_cons,
      scanHeader_eq hheader (h _ List.mem_cons_self) (h' _ List.mem_cons_self)]
    exact ih _ (fun _ hmem => h _ (List.mem_cons_of_mem _ hmem))
      (fun _ hmem => h' _ (List.mem_cons_of_mem _ hmem))

/-- **Headers in known spellings agree**, whatever is asked. -/
theorem headersAgree_of_knownSpelling (H : Host σ) (w : World σ) (hsame : SameButCase r r')
    (h : ∀ header ∈ r.httpHeaders, KnownSpelling header)
    (h' : ∀ header ∈ r'.httpHeaders, KnownSpelling header) : HeadersAgree H w r r' := by
  have hscan := scanHeaders_eq hsame h h'
  have horigin : r.origin = r'.origin := congrArg Headers.origin hscan
  have hauth : ∀ X, Authorised w r X ↔ Authorised w r' X := fun X => by
    rw [Authorised, Authorised, horigin, MgRequest.host, MgRequest.host, hscan]
  have hdecision : ∀ X, decisionFilled w r X = decisionFilled w r' X := fun X => by
    rw [decisionFilled, decisionFilled, horigin, MgRequest.host, MgRequest.host, hscan]
    simp only [hauth]
  rw [HeadersAgree, horigin]
  cases r.route with
  | crash f => trivial
  | refuse status reason => trivial
  | options appName methods => exact ⟨hauth _, fun _ => rfl⟩
  | act action appName => exact ⟨fun _ => hauth _, fun _ _ _ _ => rfl⟩
  | optionsFilled name methods => exact ⟨hdecision name, fun _ => rfl⟩
  | actFilled action name => exact fun _ => hdecision name

end Spellings

/-- The request from another origin, with its headers spelled in some way. -/
def respelledRequest (host origin method uri : CStr) : MgRequest :=
  { probeRequest method uri with
    httpHeaders := [(host, .lit "localhost"), (origin, .lit "https://example.com")] }

theorem sameButCase_respelled {host origin : CStr}
    (hhost : mgStrcasecmp (.lit "Host") host = 0)
    (horigin : mgStrcasecmp (.lit "Origin") origin = 0) (method uri : CStr) :
    SameButCase (foreignRequest method uri) (respelledRequest host origin method uri) :=
  ⟨rfl, .cons ⟨hhost, rfl⟩ (.cons ⟨horigin, rfl⟩ .nil)⟩

/-- Small letters are known. -/
theorem treatedAlike_small : TreatedAlike probeHost youTubeWorld
    (foreignRequest (.lit "POST") (.lit "/apps/YouTube"))
    (respelledRequest (.lit "host") (.lit "origin") (.lit "POST") (.lit "/apps/YouTube")) := by
  have hsame : SameButCase (foreignRequest (.lit "POST") (.lit "/apps/YouTube"))
      (respelledRequest (.lit "host") (.lit "origin") (.lit "POST") (.lit "/apps/YouTube")) :=
    sameButCase_respelled (by decide) (by decide) _ _
  exact (treatedAlike_iff probeHost youTubeWorld hsame).mpr
    (headersAgree_of_knownSpelling _ _ hsame (by decide) (by decide))

/-- **Capitals are not**: the same request from an origin that YouTube refuses is answered
403 or launches it. -/
theorem not_treatedAlike_capitals :
    SameButCase (foreignRequest (.lit "POST") (.lit "/apps/YouTube"))
        (respelledRequest (.lit "Host") (.lit "ORIGIN") (.lit "POST") (.lit "/apps/YouTube")) ∧
      (requestHandler probeHost youTubeWorld
        (foreignRequest (.lit "POST") (.lit "/apps/YouTube"))).answers = [403] ∧
      (requestHandler probeHost youTubeWorld
        (respelledRequest (.lit "Host") (.lit "ORIGIN") (.lit "POST")
          (.lit "/apps/YouTube"))).answers = [201] ∧
      ¬TreatedAlike probeHost youTubeWorld (foreignRequest (.lit "POST") (.lit "/apps/YouTube"))
        (respelledRequest (.lit "Host") (.lit "ORIGIN") (.lit "POST") (.lit "/apps/YouTube")) := by
  have hroute : ∀ r : MgRequest, r.requestMethod = .lit "POST" → r.uri = .lit "/apps/YouTube" →
      r.route = .act .start (.kept (.lit "YouTube")) := fun r hmethod huri => by
    rw [MgRequest.route, hmethod, huri]
    exact route_app (X := .lit "YouTube") (by decide) (by decide)
  have hrefused : (requestHandler probeHost youTubeWorld
      (foreignRequest (.lit "POST") (.lit "/apps/YouTube"))).answers = [403] := by
    rw [requestHandler_eq, hroute _ rfl rfl, perform, if_pos]
    · rfl
    · exact ⟨rfl, fun h => absurd (h.2.symm.trans (isAllowedOrigin_foreign _ _)) (by simp)⟩
  have hlaunched : (requestHandler probeHost youTubeWorld
      (respelledRequest (.lit "Host") (.lit "ORIGIN") (.lit "POST")
        (.lit "/apps/YouTube"))).answers = [201] := by
    rw [requestHandler_eq, hroute _ rfl rfl, perform_act_kept fun _ => ⟨rfl, rfl⟩]
    rfl
  refine ⟨sameButCase_respelled (by decide) (by decide) _ _, hrefused, hlaunched, fun halike => ?_⟩
  rw [halike.outcome, hlaunched] at hrefused
  exact absurd hrefused (by decide)

end DialServer
