import DialServer.Extraction

/-!
# Which requests act on which application

The resources of an application `X` are `/apps/X`, `/apps/X/run`,
`/apps/X/run/hide` and `…/X/dial_data`; `DialServer.Canonical` lists the requests
on them that may act on it. Both directions are settled here.

*Completeness*: on the canonical URIs of a name that the fixed-size copies can
hold, every method reaches the handler it should, with exactly that name
(`DialServer.requestHandler_canonical`).

*Soundness*: the other way round the tests let more through than they should.
`DialServer.OffGrammar` describes the requests that reach an application without
being canonical – the run and hide branches never look at what stands before the
part they count to, and the dial data branch looks neither at the method nor at
what follows – and `DialServer.routingSound_iff` shows that these are all of them.
-/

namespace DialServer

open CLib

/-- A text that can be one component of a path. -/
def IsComponent (X : CStr) : Prop := X ≠ .nil ∧ '/'.toUInt8 ∉ X.bytes

instance (X : CStr) : Decidable (IsComponent X) :=
  inferInstanceAs (Decidable (X ≠ .nil ∧ '/'.toUInt8 ∉ X.bytes))

/-- The requests that may act on the application `X`. -/
def Canonical (method uri X : CStr) : Prop :=
  IsComponent X ∧
    ((method = .lit "GET" ∨ method = .lit "POST") ∧ uri = appsUri ++ X ∨
      method = .lit "DELETE" ∧ uri = appsUri ++ X ++ runUri ∨
      method = .lit "POST" ∧ uri = appsUri ++ X ++ (runUri ++ hideUri) ∨
      (method = .lit "GET" ∨ method = .lit "POST") ∧
        (uri = X ++ dialDataUri ∨ ∃ front, uri = front ++ .lit "/" ++ X ++ dialDataUri))

variable {σ : Type}

/-- A request called back an application, or changed its entry or its file. -/
def Touched (w : World σ) (o : Outcome σ) (X : CStr) : Prop :=
  (∃ call ∈ o.calls, call.owner = X) ∨ lookupApp o.world.apps X ≠ lookupApp w.apps X ∨
    o.world.files (getAppPath w.dialDataDir X) ≠ w.files (getAppPath w.dialDataDir X)

/-! ### The canonical routes -/

section CanonicalRoutes

variable {method X : CStr} {remoteAddr : InAddr}

theorem slash_mem_append {t : CStr} : '/'.toUInt8 ∈ (X ++ (runUri ++ t)).bytes :=
  List.mem_append_right _ (List.mem_append_left _ (by decide))

theorem route_appRun (hX : IsComponent X) (hlen : X.strlen ≤ 255) :
    route method (appsUri ++ X ++ runUri) remoteAddr =
      if method = .lit "OPTIONS" then .options (.kept X) (.lit "DELETE, OPTIONS")
      else if method = .lit "DELETE" then .act .stop (.kept X)
      else .refuse 501 "Not Implemented" := by
  have hlength : (appsUri ++ X ++ runUri).strlen = X.strlen + 10 := by
    rw [CStr.strlen_append, CStr.strlen_append, strlen_appsUri, strlen_runUri]
    omega
  rw [route_run (List.suffix_append _ _) (by omega) (by omega), middle_append]
  simp only [ne_eq, hX.1, not_false_eq_true, true_and]

theorem route_appRunHide (hX : IsComponent X) (hlen : X.strlen ≤ 255) :
    route method (appsUri ++ X ++ (runUri ++ hideUri)) remoteAddr =
      if method = .lit "OPTIONS" then .options (.kept X) (.lit "POST, OPTIONS")
      else if method = .lit "POST" then .act .hide (.kept X)
      else .refuse 501 "Not Implemented" := by
  have hlength : (appsUri ++ X ++ (runUri ++ hideUri)).strlen = X.strlen + 15 := by
    rw [CStr.strlen_append, CStr.strlen_append, CStr.strlen_append, strlen_appsUri, strlen_runUri,
      strlen_hideUri]
    omega
  have hhide : hideUri.bytes <:+ (appsUri ++ X ++ (runUri ++ hideUri)).bytes :=
    (List.suffix_append runUri.bytes hideUri.bytes).trans (List.suffix_append _ _)
  have hrun := not_runUri_of_hideUri hhide
  have happ : ¬IsAppUri (appsUri ++ X ++ (runUri ++ hideUri)) := by
    rw [CStr.append_assoc]
    exact not_isAppUri _ slash_mem_append
  rw [route_hide hrun happ hhide (by omega) (by omega), ← CStr.strlen_append, middle_append]
  simp only [ne_eq, hX.1, not_false_eq_true, true_and]

/-- The name of a dial data resource. -/
theorem parseAppName_dialData (front : CStr) (hX : '/'.toUInt8 ∉ X.bytes) :
    parseAppName (some (front ++ .lit "/" ++ X ++ dialDataUri)) = .kept X := by
  have hsplit : front ++ .lit "/" ++ X ++ dialDataUri =
      front ++ .lit "/" ++ X ++ .lit "/" ++ .lit "dial_data" := by
    rw [CStr.append_assoc _ (.lit "/") (.lit "dial_data")]
    rfl
  rw [hsplit, parseAppName_eq hX (by decide)]

/-- A dial data resource does not end like the others. -/
theorem not_suffix_dialData {front : CStr} :
    ¬runUri.bytes <:+ (front ++ dialDataUri).bytes ∧
      ¬hideUri.bytes <:+ (front ++ dialDataUri).bytes :=
  ⟨fun h => absurd (lastComponent_inj front.bytes (CStr.lit "run").bytes
      (CStr.lit "dial_data").bytes (by decide) (by decide) h) (by decide),
    fun h => absurd (lastComponent_inj front.bytes (CStr.lit "hide").bytes
      (CStr.lit "dial_data").bytes (by decide) (by decide) h) (by decide)⟩

theorem route_appDialData (hX : IsComponent X)
    (hlocal : (inetNtop remoteAddr).eqN gLocalhost gLocalhost.strlen = true) :
    route method (appsUri ++ X ++ dialDataUri) remoteAddr =
      if method = .lit "OPTIONS" then .options (.kept X) (.lit "POST, OPTIONS")
      else .act (.dialData (method = .lit "POST")) (.kept X) := by
  have happ : ¬IsAppUri (appsUri ++ X ++ dialDataUri) := by
    rw [CStr.append_assoc]
    exact not_isAppUri _ (List.mem_append_right _ (by decide))
  have hparse : parseAppName (some (appsUri ++ X ++ dialDataUri)) = .kept X :=
    parseAppName_dialData (.lit "/apps") hX.2
  rw [route_dialData not_suffix_dialData.1 happ not_suffix_dialData.2, if_pos, if_pos hlocal,
    hparse]
  exact (List.suffix_append _ _).isInfix

end CanonicalRoutes

/-! ### A server with one application -/

/-- Callbacks that succeed and write nothing. -/
def probeHost : Host Unit where
  startCb _ _ _ _ _ := ((), .running, none)
  hideCb _ _ _ := ((), .hide, none)
  stopCb _ _ _ := ()
  statusCb _ _ _ := ((), .running, none)
  canOpen _ _ := true
  belowVersion _ := false

/-- A server with one application, registered for every origin and without
files. -/
def probeWorld (X : CStr) : World Unit where
  apps := [newApp ⟨X, ⟨0, 0, 0, 0⟩, 0, 0, none⟩ []]
  files _ := none
  host := ()
  port := 56789
  dialDataDir := defaultDialDataDir

/-- A local request with a host header and nothing else. -/
def probeRequest (method uri : CStr) : MgRequest where
  requestMethod := method
  uri := uri
  queryString := none
  httpHeaders := [(.lit "Host", .lit "localhost")]
  localAddr := (127, 0, 0, 1)
  remoteAddr := (127, 0, 0, 1)
  body := []

/-! ### Completeness -/

/-- A request with a host header whose origin the application allows. -/
def Authorised (w : World σ) (r : MgRequest) (X : CStr) : Prop :=
  r.host.isSome = true ∧ isAllowedOrigin w.apps r.origin X = true

theorem perform_act_kept {H : Host σ} {w : World σ} {r : MgRequest} {action : Action} {X : CStr}
    (h : action.guarded = true → Authorised w r X) :
    perform H w r (.act action (.kept X)) = handle H w r action X := by
  rw [perform, if_neg, freeAppName_kept, AppName.kept_str]
  rintro ⟨hguarded, hnot⟩
  exact hnot (h hguarded)

/-- **On the canonical URIs every method reaches its handler**, with the name of
the application byte for byte. -/
theorem requestHandler_canonical (H : Host σ) (w : World σ) (r : MgRequest) {X : CStr}
    (hX : IsComponent X) (hlen : X.strlen ≤ 255) (hrun : X ≠ .lit "run") :
    (r.uri = appsUri ++ X →
      (r.requestMethod = .lit "POST" → Authorised w r X →
        requestHandler H w r = handleAppStart H w r X r.origin) ∧
      (r.requestMethod = .lit "GET" →
        requestHandler H w r = handleAppStatus H w r X r.origin) ∧
      (r.requestMethod = .lit "OPTIONS" → requestHandler H w r =
        optionsResponse w r.host r.origin X (.lit "GET, POST, OPTIONS"))) ∧
    (r.uri = appsUri ++ X ++ runUri →
      (r.requestMethod = .lit "DELETE" → Authorised w r X →
        requestHandler H w r = handleAppStop H w X r.origin) ∧
      (r.requestMethod = .lit "OPTIONS" → requestHandler H w r =
        optionsResponse w r.host r.origin X (.lit "DELETE, OPTIONS"))) ∧
    (r.uri = appsUri ++ X ++ (runUri ++ hideUri) →
      (r.requestMethod = .lit "POST" →
        requestHandler H w r = handleAppHide H w X r.origin) ∧
      (r.requestMethod = .lit "OPTIONS" → requestHandler H w r =
        optionsResponse w r.host r.origin X (.lit "POST, OPTIONS"))) ∧
    (r.uri = appsUri ++ X ++ dialDataUri → r.remoteAddr = (127, 0, 0, 1) →
      (r.requestMethod = .lit "POST" →
        requestHandler H w r = handleDialData H w r X r.origin true) ∧
      (r.requestMethod = .lit "OPTIONS" → requestHandler H w r =
        optionsResponse w r.host r.origin X (.lit "POST, OPTIONS"))) := by
  have hmethods : CStr.lit "POST" ≠ .lit "OPTIONS" ∧ CStr.lit "GET" ≠ .lit "OPTIONS" ∧
      CStr.lit "GET" ≠ .lit "POST" ∧ CStr.lit "DELETE" ≠ .lit "OPTIONS" := by decide
  have hoptions : ∀ methods, perform H w r (.options (.kept X) methods) =
      optionsResponse w r.host r.origin X methods := fun methods => by
    rw [perform, freeAppName_kept, AppName.kept_str]
  rw [requestHandler_eq, MgRequest.route]
  refine ⟨fun huri => ?_, fun huri => ?_, fun huri => ?_, fun huri haddr => ?_⟩
  · -- `/apps/X`
    rw [huri, route_app hX.2 hrun]
    refine ⟨fun hm hauth => ?_, fun hm => ?_, fun hm => ?_⟩
    · rw [hm, if_neg hmethods.1, if_pos rfl, perform_act_kept fun _ => hauth, handle]
    · rw [hm, if_neg hmethods.2.1, if_neg hmethods.2.2.1, if_pos rfl,
        perform_act_kept fun h => absurd h (by decide), handle]
    · rw [hm, if_pos rfl, hoptions]
  · -- `/apps/X/run`
    rw [huri, route_appRun hX hlen]
    refine ⟨fun hm hauth => ?_, fun hm => ?_⟩
    · rw [hm, if_neg hmethods.2.2.2, if_pos rfl, perform_act_kept fun _ => hauth, handle]
    · rw [hm, if_pos rfl, hoptions]
  · -- `/apps/X/run/hide`
    rw [huri, route_appRunHide hX hlen]
    refine ⟨fun hm => ?_, fun hm => ?_⟩
    · rw [hm, if_neg hmethods.1, if_pos rfl, perform_act_kept fun h => absurd h (by decide), handle]
    · rw [hm, if_pos rfl, hoptions]
  · -- `/apps/X/dial_data`, which only the local host reaches
    rw [huri, haddr, route_appDialData hX (by decide)]
    refine ⟨fun hm => ?_, fun hm => ?_⟩
    · rw [hm, if_neg hmethods.1, perform_act_kept fun h => absurd h (by simp [Action.guarded]),
        handle, decide_eq_true rfl]
    · rw [hm, if_pos rfl, hoptions]

/-- Starting YouTube, without an origin. -/
theorem requestHandler_canonical_start :
    requestHandler probeHost (probeWorld (.lit "YouTube"))
        (probeRequest (.lit "POST") (.lit "/apps/YouTube")) =
      handleAppStart probeHost (probeWorld (.lit "YouTube"))
        (probeRequest (.lit "POST") (.lit "/apps/YouTube")) (.lit "YouTube") none :=
  (requestHandler_canonical probeHost (probeWorld (.lit "YouTube"))
    (probeRequest (.lit "POST") (.lit "/apps/YouTube")) (X := .lit "YouTube")
    (by decide) (by decide) (by decide)).1 rfl |>.1 rfl ⟨rfl, rfl⟩

/-! ### Soundness -/

/-- The requests with a method and a URI act on an application only if they are
canonical for it, whatever is registered and whatever the callbacks do. -/
def RoutingSound (method uri : CStr) : Prop :=
  ∀ (σ : Type) (H : Host σ) (w : World σ) (r : MgRequest) (X : CStr),
    r.requestMethod = method → r.uri = uri → Touched w (requestHandler H w r) X →
      Canonical method uri X

/-- **The requests that get through without being canonical**: a `DELETE` of
something that ends in `/run` but is not `/apps/X/run`; a `GET` or `POST` of
`/apps/` with no name; a `POST` of something that ends in `/hide` but is not
`/apps/X/run/hide`; and anything but `OPTIONS` that contains `/dial_data` and
reaches the last branch, unless it is a `GET` or `POST` of `…/X/dial_data`. -/
def OffGrammar (method uri : CStr) : Prop :=
  (method = .lit "DELETE" ∧ runUri.bytes <:+ uri.bytes ∧ 10 < uri.strlen ∧
      ¬∃ X, IsComponent X ∧ uri = appsUri ++ X ++ runUri) ∨
    ((method = .lit "GET" ∨ method = .lit "POST") ∧ uri = appsUri) ∨
    (method = .lit "POST" ∧ hideUri.bytes <:+ uri.bytes ∧ 15 < uri.strlen ∧
      ¬∃ X, IsComponent X ∧ uri = appsUri ++ X ++ (runUri ++ hideUri)) ∨
    (method ≠ .lit "OPTIONS" ∧ dialDataUri.bytes <:+: uri.bytes ∧ ¬runUri.bytes <:+ uri.bytes ∧
      ¬IsAppUri uri ∧ ¬hideUri.bytes <:+ uri.bytes ∧
      ¬((method = .lit "GET" ∨ method = .lit "POST") ∧
        ∃ front X, IsComponent X ∧ uri = front ++ .lit "/" ++ X ++ dialDataUri))

section Soundness

variable {method uri : CStr} {remoteAddr : InAddr} {action : Action} {name : AppName}

/-- An outcome that leaves the world alone and calls nobody touches nothing. -/
theorem not_touched {w : World σ} {o : Outcome σ} {X : CStr} (hw : o.world = w)
    (hcalls : o.calls = []) : ¬Touched w o X := by
  rintro (⟨call, hcall, -⟩ | happ | hfile)
  · rw [hcalls] at hcall
    exact absurd hcall (by simp)
  · exact happ (by rw [hw])
  · exact hfile (by rw [hw])

/-- What a handler acts on is all a request touches. -/
theorem route_of_touched {H : Host σ} {w : World σ} {r : MgRequest} {X : CStr}
    (h : Touched w (requestHandler H w r) X) :
    ∃ action name, r.route = .act action name ∧ name.str = X := by
  rw [requestHandler_eq] at h
  cases hroute : r.route with
  | crash f =>
    rw [hroute] at h
    exact absurd h (not_touched rfl rfl)
  | refuse status reason =>
    rw [hroute] at h
    exact absurd h (not_touched rfl rfl)
  | options name methods =>
    rw [hroute, perform] at h
    exact absurd h (not_touched (by simp) (by simp))
  | act action name =>
    refine ⟨action, name, rfl, ?_⟩
    rw [hroute, perform] at h
    split at h
    · exact absurd h (not_touched rfl rfl)
    · have hacts := actsOn_handle H w r action name.str
      -- a handler acts on the name it was given, and on no other
      by_contra hne
      rcases h with ⟨call, hcall, rfl⟩ | happ | hfile
      · rw [freeAppName_calls] at hcall
        exact hne (hacts.owners call hcall).symm
      · rw [freeAppName_world] at happ
        exact happ (hacts.lookupApp_of_ne (Ne.symm hne))
      · rw [freeAppName_world] at hfile
        exact hfile (hacts.files _ fun hc => hne (getAppPath_injective _ hc).symm)
  | optionsFilled name methods =>
    rw [hroute] at h
    exact absurd h (not_touched (perform_optionsFilled_world ..) (perform_optionsFilled_calls ..))
  | actFilled action name =>
    rw [hroute] at h
    exact absurd h (not_touched (perform_actFilled_world ..) (perform_actFilled_calls ..))

/-- What the branch for `/run` lets through. -/
theorem canonical_of_route_run (hrun : runUri.bytes <:+ uri.bytes) (hmin : 10 ≤ uri.strlen)
    (hmax : uri.strlen ≤ 265) (hroute : route method uri remoteAddr = .act action name)
    (hoff : ¬OffGrammar method uri) : Canonical method uri name.str := by
  rw [route_run hrun hmin hmax] at hroute
  split_ifs at hroute with _ hdelete
  obtain ⟨hne, hm⟩ := hdelete
  obtain ⟨X, hX, huri⟩ : ∃ X, IsComponent X ∧ uri = appsUri ++ X ++ runUri := by
    by_contra hno
    exact hoff (Or.inl ⟨hm, hrun, middle_ne_nil.mp hne, hno⟩)
  obtain rfl : name = .kept X := by
    rw [← (Route.act.inj hroute).2, huri, middle_append]
  exact ⟨hX, Or.inr (Or.inl ⟨hm, huri⟩)⟩

/-- What the branch for `/apps/` and a name lets through. -/
theorem canonical_of_route_app {X : CStr} (hX : '/'.toUInt8 ∉ X.bytes) (hne : X ≠ .lit "run")
    (hroute : route method (appsUri ++ X) remoteAddr = .act action name)
    (hoff : ¬OffGrammar method (appsUri ++ X)) : Canonical method (appsUri ++ X) name.str := by
  rw [route_app hX hne] at hroute
  obtain ⟨hm, rfl⟩ : (method = .lit "GET" ∨ method = .lit "POST") ∧ name = .kept X := by
    split_ifs at hroute with _ hpost hget
    · exact ⟨Or.inr hpost, (Route.act.inj hroute).2.symm⟩
    · exact ⟨Or.inl hget, (Route.act.inj hroute).2.symm⟩
  refine ⟨⟨fun hnil => hoff (Or.inr (Or.inl ⟨hm, ?_⟩)), hX⟩, Or.inl ⟨hm, rfl⟩⟩
  rw [show X = .nil from hnil]
  exact CStr.ext (List.append_nil _)

/-- What the branch for `/hide` lets through. -/
theorem canonical_of_route_hide (happ : ¬IsAppUri uri) (hhide : hideUri.bytes <:+ uri.bytes)
    (hmin : 15 ≤ uri.strlen) (hmax : uri.strlen ≤ 270)
    (hroute : route method uri remoteAddr = .act action name)
    (hoff : ¬OffGrammar method uri) : Canonical method uri name.str := by
  rw [route_hide (not_runUri_of_hideUri hhide) happ hhide hmin hmax] at hroute
  split_ifs at hroute with _ hpost
  obtain ⟨hne, hm⟩ := hpost
  obtain ⟨X, hX, huri⟩ : ∃ X, IsComponent X ∧ uri = appsUri ++ X ++ (runUri ++ hideUri) := by
    by_contra hno
    exact hoff (Or.inr (Or.inr (Or.inl ⟨hm, hhide, middle_ne_nil.mp hne, hno⟩)))
  obtain rfl : name = .kept X := by
    rw [← (Route.act.inj hroute).2, huri, ← CStr.strlen_append, middle_append]
  exact ⟨hX, Or.inr (Or.inr (Or.inl ⟨hm, huri⟩))⟩

/-- What the branch for `/dial_data` lets through. -/
theorem canonical_of_route_dialData (hrun : ¬runUri.bytes <:+ uri.bytes)
    (happ : ¬IsAppUri uri) (hhide : ¬hideUri.bytes <:+ uri.bytes)
    (hroute : route method uri remoteAddr = .act action name)
    (hoff : ¬OffGrammar method uri) : Canonical method uri name.str := by
  rw [route_dialData hrun happ hhide] at hroute
  split_ifs at hroute with hdata _ hm
  obtain ⟨hgetPost, front, X, hX, huri⟩ : (method = .lit "GET" ∨ method = .lit "POST") ∧
      ∃ front X, IsComponent X ∧ uri = front ++ .lit "/" ++ X ++ dialDataUri := by
    by_contra hno
    exact hoff (Or.inr (Or.inr (Or.inr ⟨hm, hdata, hrun, happ, hhide, hno⟩)))
  obtain rfl : name = .kept X := by
    rw [← (Route.act.inj hroute).2, huri, parseAppName_dialData _ hX.2]
  exact ⟨hX, Or.inr (Or.inr (Or.inr ⟨hgetPost, Or.inr ⟨front, huri⟩⟩))⟩

/-- Every route to an application is canonical, if it is not off the grammar. -/
theorem canonical_of_route (hsafe : SafeLengths uri) (hoff : ¬OffGrammar method uri)
    (hroute : route method uri remoteAddr = .act action name) : Canonical method uri name.str := by
  obtain ⟨-, hrunLen, hrest⟩ := hsafe
  by_cases hrun : runUri.bytes <:+ uri.bytes
  · exact canonical_of_route_run hrun (hrunLen hrun).1 (hrunLen hrun).2 hroute hoff
  · by_cases happ : IsAppUri uri
    · obtain ⟨X, hX, rfl⟩ := happ
      have hne : X ≠ .lit "run" := fun hc => hrun (by rw [hc]; decide)
      exact canonical_of_route_app hX hne hroute hoff
    · obtain ⟨-, hhideLen⟩ := hrest hrun happ
      by_cases hhide : hideUri.bytes <:+ uri.bytes
      · obtain ⟨hmin, hmax⟩ := hhideLen hhide
        exact canonical_of_route_hide happ hhide hmin hmax hroute hoff
      · exact canonical_of_route_dialData hrun happ hhide hroute hoff

/-- Without a slash in front, the name cut out of a dial data URI is not its
first component. -/
theorem parseAppName_ne {X : CStr} (hX : IsComponent X) :
    (parseAppName (some (X ++ dialDataUri))).str ≠ X := by
  have hpos : 0 < X.bytes.length := by
    rw [List.length_pos_iff]
    exact fun h => hX.1 (CStr.ext h)
  have hlast : strrchr (X ++ dialDataUri).bytes '/'.toUInt8 = some X.bytes.length :=
    strrchr_append_cons X.bytes (CStr.lit "dial_data").bytes (by decide)
  obtain ⟨n, hn⟩ : ∃ n, X.bytes.length = n + 1 := ⟨_, (Nat.sub_add_cancel hpos).symm⟩
  intro h
  rw [parseAppName] at h
  simp only [hlast, hn] at h
  have hlen := congrArg CStr.strlen h
  rw [CStr.strlen_take, CStr.strlen, CStr.strlen, hn] at hlen
  omega

/-- A local request that reaches an application it is not canonical for. -/
def Misrouted (method uri : CStr) : Prop :=
  ∃ action name, route method uri (127, 0, 0, 1) = .act action name ∧
    ¬Canonical method uri name.str

/-- Something else that ends in `/run`. -/
theorem misrouted_run (hrun : runUri.bytes <:+ uri.bytes) (hlong : 10 < uri.strlen)
    (hmax : uri.strlen ≤ 265) (hno : ¬∃ X, IsComponent X ∧ uri = appsUri ++ X ++ runUri) :
    Misrouted (.lit "DELETE") uri := by
  refine ⟨.stop, .kept (middle uri runUri.strlen), ?_, ?_⟩
  · rw [route_run hrun hlong.le hmax, if_neg (by decide), if_pos ⟨middle_ne_nil.mpr hlong, rfl⟩]
  · rintro ⟨hX, ⟨hc, -⟩ | ⟨-, huri⟩ | ⟨hc, -⟩ | ⟨hc, -⟩⟩
    · exact absurd hc (by decide)
    · exact hno ⟨_, hX, huri⟩
    · exact absurd hc (by decide)
    · exact absurd hc (by decide)

/-- No name. -/
theorem misrouted_noName (hm : method = .lit "GET" ∨ method = .lit "POST") :
    Misrouted method appsUri := by
  obtain ⟨action, hroute⟩ : ∃ action,
      route method appsUri (127, 0, 0, 1) = .act action (.kept .nil) := by
    have hnil : appsUri ++ .nil = appsUri := CStr.ext (List.append_nil _)
    have happ : route method (appsUri ++ .nil) (127, 0, 0, 1) = _ :=
      route_app (by decide) (by decide)
    rw [hnil] at happ
    rcases hm with rfl | rfl
    · exact ⟨.status, by rw [happ]; rfl⟩
    · exact ⟨.start, by rw [happ]; rfl⟩
  exact ⟨action, _, hroute, fun hc => hc.1.1 rfl⟩

/-- `/apps/` and a name ends in `/hide` only if the name is `hide`. -/
theorem not_isAppUri_of_hideUri (hhide : hideUri.bytes <:+ uri.bytes) (hlong : 15 < uri.strlen) :
    ¬IsAppUri uri := by
  rintro ⟨X, hX, rfl⟩
  have hname : (CStr.lit "hide").bytes = X.bytes :=
    lastComponent_inj (CStr.lit "/apps").bytes _ _ (by decide) hX hhide
  rw [← CStr.ext hname] at hlong
  exact absurd hlong (by decide)

/-- Something else that ends in `/hide`. -/
theorem misrouted_hide (hhide : hideUri.bytes <:+ uri.bytes) (hlong : 15 < uri.strlen)
    (hmax : uri.strlen ≤ 270)
    (hno : ¬∃ X, IsComponent X ∧ uri = appsUri ++ X ++ (runUri ++ hideUri)) :
    Misrouted (.lit "POST") uri := by
  have happ := not_isAppUri_of_hideUri hhide hlong
  refine ⟨.hide, .kept (middle uri (runUri.strlen + hideUri.strlen)), ?_, ?_⟩
  · rw [route_hide (not_runUri_of_hideUri hhide) happ hhide hlong.le hmax, if_neg (by decide),
      if_pos ⟨middle_ne_nil.mpr hlong, rfl⟩]
  · rintro ⟨hX, ⟨-, huri⟩ | ⟨hc, -⟩ | ⟨-, huri⟩ | ⟨-, huri | ⟨front, huri⟩⟩⟩
    · exact happ ⟨_, hX.2, huri⟩
    · exact absurd hc (by decide)
    · exact hno ⟨_, hX, huri⟩
    · rw [huri] at hhide
      exact not_suffix_dialData.2 hhide
    · rw [huri] at hhide
      exact not_suffix_dialData.2 hhide

/-- Something that only contains `/dial_data`, or comes with another method. -/
theorem misrouted_dialData (hm : method ≠ .lit "OPTIONS")
    (hdata : dialDataUri.bytes <:+: uri.bytes) (hrun : ¬runUri.bytes <:+ uri.bytes)
    (happ : ¬IsAppUri uri) (hhide : ¬hideUri.bytes <:+ uri.bytes)
    (hno : ¬((method = .lit "GET" ∨ method = .lit "POST") ∧
      ∃ front X, IsComponent X ∧ uri = front ++ .lit "/" ++ X ++ dialDataUri)) :
    Misrouted method uri := by
  refine ⟨.dialData (method = .lit "POST"), parseAppName (some uri), ?_, ?_⟩
  · rw [route_dialData hrun happ hhide, if_pos hdata, if_pos (by decide), if_neg hm]
  · rintro ⟨hX, ⟨-, huri⟩ | ⟨-, huri⟩ | ⟨-, huri⟩ | ⟨hgetPost, huri | ⟨front, huri⟩⟩⟩
    · exact happ ⟨_, hX.2, huri⟩
    · exact hrun (by rw [huri]; exact List.suffix_append _ _)
    · refine hhide ?_
      rw [huri]
      exact (List.suffix_append runUri.bytes hideUri.bytes).trans (List.suffix_append _ _)
    · -- the name of a URI without a leading slash is cut short
      exact parseAppName_ne hX (by rw [← huri])
    · exact hno ⟨hgetPost, front, _, hX, huri⟩

/-- **What is off the grammar reaches an application it has no business with.** -/
theorem misrouted_of_offGrammar (hsafe : SafeLengths uri) (hoff : OffGrammar method uri) :
    Misrouted method uri := by
  obtain ⟨-, hrunLen, hrest⟩ := hsafe
  rcases hoff with ⟨rfl, hrun, hlong, hno⟩ | ⟨hm, rfl⟩ | ⟨rfl, hhide, hlong, hno⟩ |
    ⟨hm, hdata, hrun, happ, hhide, hno⟩
  · exact misrouted_run hrun hlong (hrunLen hrun).2 hno
  · exact misrouted_noName hm
  · obtain ⟨-, hhideLen⟩ :=
      hrest (not_runUri_of_hideUri hhide) (not_isAppUri_of_hideUri hhide hlong)
    exact misrouted_hide hhide hlong (hhideLen hhide).2 hno
  · exact misrouted_dialData hm hdata hrun happ hhide hno

theorem renderDialData_nil : renderDialData [] = .ok .nil := by
  have hcells : (Block.calloc dialDataSize).cells = some 0 :: List.replicate 8191 (some 0) := rfl
  rw [renderDialData, renderLoop]
  change Block.readString (Block.calloc dialDataSize).cells = _
  rw [hcells]
  exact Block.readString_append .nil _

/-- Every action touches the one application of `probeWorld`. -/
theorem touched_handle_probe (method uri X : CStr) (action : Action) :
    Touched (probeWorld X) (handle probeHost (probeWorld X) (probeRequest method uri) action X)
      X := by
  have hfind : (probeWorld X).apps[findApp (probeWorld X).apps X]? =
      some (newApp ⟨X, ⟨0, 0, 0, 0⟩, 0, 0, none⟩ []) := by
    rw [show findApp (probeWorld X).apps X = 0 from if_pos rfl]
    rfl
  cases action with
  | start =>
    refine Or.inl ⟨⟨X, .start .nil .nil, ⟨0, X, none, 0⟩, some .running⟩, ?_, rfl⟩
    simp only [handle, handleAppStart, hfind]
    simp [probeRequest, isBadPayload, additionalDataFor, newApp, probeHost, CStr.ofBuffer, CStr.nil,
      launchArgs, launchResult]
  | status =>
    refine Or.inl ⟨⟨X, .status, ⟨0, X, none, 0⟩, some .running⟩, ?_, rfl⟩
    simp only [handle, handleAppStatus, hfind, newApp, renderDialData_nil]
    simp [pollStatus, probeHost]
  | stop =>
    refine Or.inl ⟨⟨X, .stop, ⟨0, X, none, 0⟩, none⟩, ?_, rfl⟩
    simp only [handle, handleAppStop, hfind]
    simp [pollStatus, probeHost, newApp]
  | hide =>
    refine Or.inl ⟨⟨X, .hide, ⟨0, X, none, 0⟩, some .hide⟩, ?_, rfl⟩
    simp only [handle, handleAppHide, hfind]
    simp [pollStatus, probeHost, newApp]
  | dialData usePayload =>
    -- the file is there afterwards
    refine Or.inr (Or.inr ?_)
    have hbody : dialDataBody (probeRequest method uri) usePayload = [] := by
      cases usePayload <;> rfl
    have hparse : parseParams (some (.ofBuffer [])) = .ok [] := rfl
    simp only [handle, handleDialData, hfind, hbody, hparse]
    simp [isBadPayload, storeDialData, probeHost, dataLines, newApp, probeWorld]

/-- A route to an application is taken when it is the one registered. -/
theorem touched_probe (h : route method uri (127, 0, 0, 1) = .act action name) :
    Touched (probeWorld name.str)
      (requestHandler probeHost (probeWorld name.str) (probeRequest method uri)) name.str := by
  have hroute : (probeRequest method uri).route = .act action name := h
  rw [requestHandler_eq, hroute, perform, if_neg (fun hc => hc.2 ⟨rfl, rfl⟩)]
  rcases touched_handle_probe method uri name.str action with
    ⟨call, hcall, howner⟩ | happ | hfile
  · exact Or.inl ⟨call, by rwa [freeAppName_calls], howner⟩
  · exact Or.inr (Or.inl (by rwa [freeAppName_world]))
  · exact Or.inr (Or.inr (by rwa [freeAppName_world]))

end Soundness

/-- **The router is sound exactly on the grammar**, for the URIs whose name it can
cut out. -/
theorem routingSound_iff {method uri : CStr} (hsafe : SafeLengths uri) :
    RoutingSound method uri ↔ ¬OffGrammar method uri := by
  constructor
  · intro hsound hoff
    obtain ⟨action, name, hroute, hno⟩ := misrouted_of_offGrammar hsafe hoff
    exact hno (hsound _ _ _ _ _ rfl rfl (touched_probe hroute))
  · rintro hoff σ H w r X rfl rfl htouched
    obtain ⟨action, name, hroute, rfl⟩ := route_of_touched htouched
    exact canonical_of_route hsafe hoff hroute

/-- Launching an application is on the grammar. -/
theorem routingSound_iff_launch :
    RoutingSound (.lit "POST") (.lit "/apps/YouTube") ↔
      ¬OffGrammar (.lit "POST") (.lit "/apps/YouTube") :=
  routingSound_iff ⟨by decide, by decide, fun _ _ => ⟨by decide, by decide⟩⟩

/-- `POST /apps/YouTube/xyz/hide` hides YouTube. -/
theorem not_routingSound_hide :
    ¬RoutingSound (.lit "POST") (.lit "/apps/YouTube/xyz/hide") := by
  intro hsound
  have happ : ¬IsAppUri (.lit "/apps/YouTube/xyz/hide") :=
    not_isAppUri (.lit "YouTube/xyz/hide") (by decide)
  have hroute : route (.lit "POST") (.lit "/apps/YouTube/xyz/hide") (127, 0, 0, 1) =
      .act .hide (.kept (.lit "YouTube")) := by
    rw [route_hide (by decide) happ (by decide) (by decide) (by decide)]
    decide
  obtain ⟨-, ⟨-, huri⟩ | ⟨hm, -⟩ | ⟨-, huri⟩ | ⟨-, huri | ⟨front, huri⟩⟩⟩ :=
    hsound _ _ _ _ _ rfl rfl (touched_probe hroute)
  · exact absurd huri (by decide)
  · exact absurd hm (by decide)
  · exact absurd huri (by decide)
  · exact absurd huri (by decide)
  · have hhide : hideUri.bytes <:+ (CStr.lit "/apps/YouTube/xyz/hide").bytes := by decide
    rw [huri] at hhide
    exact not_suffix_dialData.2 hhide

end DialServer
