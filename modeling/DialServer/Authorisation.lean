import DialServer.Concurrency
import DialServer.Cors
import DialServer.History
import DialServer.Lib.Interference

/-!
# Authorisation, and the application that is acted on

`request_handler` asks `is_allowed_origin` and then calls a handler, and each of the two
takes the mutex, looks the application up by its name and gives the mutex back. The
program that runs the server registers and unregisters applications in the meantime, under
the same mutex. So the entry that was asked about and the entry whose `start_cb` or
`stop_cb` is called need not be the same.

`DialServer.calls_authorised` says when the origin of a request was accepted by the entry
that is called: as long as nobody registers a new entry, under the name a request has been
let through for, with a list that does not accept the origin of the request. And
`DialServer.not_calls_authorised` is a run in which somebody does.
-/

namespace DialServer

open CLib TwoPhase

variable {σ : Type}

/-! ### The calls of a handler -/

/-- The callbacks that need the origin to be accepted. -/
def CallbackKind.guarded : CallbackKind → Bool
  | .start _ _ => true
  | .stop => true
  | .status => false
  | .hide => false

/-- The function pointer of an entry. -/
def DIALApp.callback (app : DIALApp) : CallbackKind → Ptr
  | .start _ _ => app.callbacks.startCb
  | .stop => app.callbacks.stopCb
  | .status => app.callbacks.statusCb
  | .hide => app.callbacks.hideCb

/-- A call through an entry. -/
structure Through (app : DIALApp) (call : Call) : Prop where
  owner : call.owner = app.name
  fn : call.args.fn = app.callback call.kind
  callbackData : call.args.callbackData = app.callbackData

/-- **Handlers call through the entry they find**, and only the guarded ones call
`start_cb` or `stop_cb`. -/
theorem through_of_mem_calls {H : Host σ} {w : World σ} {r : MgRequest} {action : Action}
    {X : CStr} {call : Call} (hcall : call ∈ (handle H w r action X).calls) :
    (call.kind.guarded = true → action.guarded = true) ∧
      ∃ app, lookupApp w.apps X = some app ∧ Through app call := by
  cases action with
  | start =>
    obtain ⟨app, body, param, happ, -, -, -, hlaunch⟩ :=
      handleAppStart_eq_launch (List.ne_nil_of_mem hcall)
    rw [handle, hlaunch, launch_calls, List.mem_singleton] at hcall
    obtain rfl := hcall
    exact ⟨fun _ => rfl, app, happ, rfl, rfl, rfl⟩
  | status =>
    simp only [handle, handleAppStatus] at hcall
    split at hcall
    · exact absurd hcall List.not_mem_nil
    · rename_i app happ
      split at hcall
      · exact absurd hcall List.not_mem_nil
      · obtain rfl := List.mem_singleton.mp hcall
        exact ⟨fun h => absurd h (by simp [CallbackKind.guarded]), app, happ, rfl, rfl, rfl⟩
  | stop =>
    simp only [handle, handleAppStop] at hcall
    split at hcall
    · exact absurd hcall List.not_mem_nil
    · rename_i app happ
      refine ⟨fun _ => rfl, app, happ, ?_⟩
      split at hcall
      · obtain rfl := List.mem_singleton.mp hcall
        exact ⟨rfl, rfl, rfl⟩
      · rcases List.mem_pair.mp hcall with rfl | rfl
        · exact ⟨rfl, rfl, rfl⟩
        · exact ⟨rfl, rfl, rfl⟩
  | hide =>
    simp only [handle, handleAppHide] at hcall
    split at hcall
    · exact absurd hcall List.not_mem_nil
    · rename_i app happ
      -- neither of the calls it makes is one of the guarded ones
      suffices hcall : call.kind.guarded = false ∧ Through app call from
        ⟨fun h => absurd (hcall.1.symm.trans h) (by simp), app, happ, hcall.2⟩
      split at hcall
      · obtain rfl := List.mem_singleton.mp hcall
        exact ⟨rfl, rfl, rfl, rfl⟩
      · split at hcall
        · rcases List.mem_pair.mp hcall with rfl | rfl
          · exact ⟨rfl, rfl, rfl, rfl⟩
          · exact ⟨rfl, rfl, rfl, rfl⟩
        · rcases List.mem_pair.mp hcall with rfl | rfl
          · exact ⟨rfl, rfl, rfl, rfl⟩
          · exact ⟨rfl, rfl, rfl, rfl⟩
  | dialData usePayload =>
    rw [handle, handleDialData_calls] at hcall
    exact absurd hcall List.not_mem_nil

/-- The first step of a request calls nobody. -/
theorem calls_of_firstStep {w : World σ} {r : MgRequest} {o : Outcome σ}
    (h : firstStep w r = .inl o) : o.calls = [] := by
  rw [firstStep] at h
  cases hroute : r.route with
  | crash f =>
    rw [hroute] at h
    rw [← Sum.inl.inj h]
    rfl
  | refuse status reason =>
    rw [hroute] at h
    rw [← Sum.inl.inj h]
    rfl
  | options appName methods =>
    rw [hroute] at h
    rw [← Sum.inl.inj h, freeAppName_calls, optionsResponse_calls]
  | act action appName =>
    rw [hroute] at h
    dsimp only at h
    split at h
    · rw [← Sum.inl.inj h]
      rfl
    · exact absurd h (by simp)
  | optionsFilled name methods =>
    rw [hroute] at h
    refine List.eq_nil_iff_forall_not_mem.mpr fun call hcall => ?_
    rw [← Sum.inl.inj h] at hcall
    exact absurd (mem_calls_of_comparing hcall) (by simp)
  | actFilled action name =>
    rw [hroute] at h
    dsimp only at h
    split_ifs at h
    · rw [← Sum.inl.inj h]
      rfl
    · rw [← Sum.inl.inj h]
      rfl

/-! ### What was let through -/

/-- The entry accepts the origin of a request, if it is one that is checked. -/
def Accepts (app : DIALApp) (r : MgRequest) : Prop :=
  ∀ origin, r.origin = some origin → HasCheckedProto origin → CorsAllows app origin

/-- What a request that was let through may act on: an entry that accepts its origin, if
the action is guarded. -/
def MayAct (p : Process σ) (r : MgRequest) (passed : Action × AppName) : Prop :=
  passed.1.guarded = true →
    ∀ app, lookupApp p.world.apps passed.2.str = some app → Accepts app r

/-- What the check asks. -/
theorem accepts_of_isAllowedOrigin {apps : List DIALApp} {r : MgRequest} {appName : CStr}
    {app : DIALApp} (hd : NamesDistinct apps) (happ : lookupApp apps appName = some app)
    (h : isAllowedOrigin apps r.origin appName = true) : Accepts app r := by
  intro origin horigin hproto
  rw [horigin, isAllowedOrigin_of_checked hproto] at h
  exact (originScan_of_lookup hd happ).mp h

/-- Whether an entry accepts an origin was fixed when it was registered. -/
theorem accepts_congr {app app' : DIALApp} (h : app'.fixed = app.fixed) {r : MgRequest}
    (haccepts : Accepts app r) : Accepts app' r := by
  have hcors : app'.corsAllowedOrigin = app.corsAllowedOrigin := by
    simp only [DIALApp.fixed, Prod.mk.injEq] at h
    exact h.2.2.2.2
  intro origin horigin hproto
  rw [CorsAllows, hcors]
  exact haccepts origin horigin hproto

/-- **No request changes what was let through.** -/
theorem server_protects (H : Host σ) :
    (server H).Protects (fun p => NamesDistinct p.world.apps) MayAct := by
  refine ⟨fun p r passed hd hcheck hguarded app happ => ?_, fun p r res hd hcheck => ?_,
    fun p r passed hd => ?_, fun p r res r' passed hcheck hmay => ?_,
    fun p r passed r' passed' hmay hguarded app happ => ?_⟩
  · rw [server_check_eq_inr, firstStep] at hcheck
    cases hroute : r.route with
    | crash f => simp [hroute] at hcheck
    | refuse status reason => simp [hroute] at hcheck
    | options appName methods => simp [hroute] at hcheck
    | act action appName =>
      rw [hroute] at hcheck
      dsimp only at hcheck
      split at hcheck
      · exact absurd hcheck (by simp)
      · rename_i hpass
        obtain rfl := Sum.inr.inj hcheck
        have hallowed := not_and_not_right.mp hpass hguarded
        exact accepts_of_isAllowedOrigin hd happ hallowed.2
    | optionsFilled name methods => simp [hroute] at hcheck
    | actFilled action name =>
      rw [hroute] at hcheck
      dsimp only at hcheck
      split_ifs at hcheck with hcrash hpass
      obtain rfl := Sum.inr.inj hcheck
      have hallowed := not_and_not_right.mp hpass hguarded
      exact accepts_of_isAllowedOrigin hd happ hallowed.2
  · obtain ⟨o, ho, rfl⟩ := server_check_eq_inl.mp hcheck
    rw [Outcome.react, world_of_firstStep ho]
    exact hd
  · exact (actsOn_secondStep H p.world r passed.1 passed.2).namesDistinct hd
  · obtain ⟨o, ho, rfl⟩ := server_check_eq_inl.mp hcheck
    rw [MayAct, Outcome.react, world_of_firstStep ho]
    exact hmay
  · have hacts := actsOn_secondStep H p.world r passed.1 passed.2
    have happ' : (secondStep H p.world r passed.1 passed.2).world.apps[
        findApp p.world.apps passed'.2.str]? = some app := by
      rw [← hacts.findApp_eq]
      exact happ
    -- the entry that is found now was there before, with the same list
    have hfixed := congrArg (·[findApp p.world.apps passed'.2.str]?) hacts.fixed
    simp only [List.getElem?_map, happ', Option.map_some] at hfixed
    obtain ⟨old, hold, holdfixed⟩ := Option.map_eq_some_iff.mp hfixed.symm
    exact accepts_congr holdfixed.symm (hmay hguarded old hold)

/-! ### Registering and unregistering -/

/-- What the program that runs the server does to the list of applications. -/
inductive RegistryOp
  | register (r : Registration)
  | unregister (appName : CStr)

/-- The process after such a call. -/
def RegistryOp.apply (p : Process σ) : RegistryOp → Process σ
  | .register r =>
    match registerApp p.world r with
    | .error f => ⟨p.world, some (.fault f)⟩
    | .ok (w, _) => ⟨w, none⟩
  | .unregister appName => ⟨(unregisterApp p.world appName).1, none⟩

/-- The list after it: unchanged, or with a new entry, or without an old one. -/
theorem RegistryOp.apply_apps (p : Process σ) (op : RegistryOp) :
    (op.apply p).world.apps = p.world.apps ∨
      (∃ r dialData, op = .register r ∧ (op.apply p).world.apps =
        KeyedList.insertNew DIALApp.name p.world.apps (newApp r dialData)) ∨
      ∃ appName, op = .unregister appName ∧ (op.apply p).world.apps =
        KeyedList.remove DIALApp.name p.world.apps appName := by
  cases op with
  | register r =>
    rcases hreg : registerApp p.world r with f | ⟨w, ret⟩
    · exact Or.inl (by rw [apply, hreg])
    · obtain ⟨dialData, happs⟩ := registerApp_apps hreg
      rw [registerApps_eq] at happs
      refine Or.inr (Or.inl ⟨r, dialData, rfl, ?_⟩)
      rw [apply, hreg]
      exact congrArg Prod.fst happs
  | unregister appName =>
    refine Or.inr (Or.inr ⟨appName, rfl, ?_⟩)
    rw [apply, unregisterApp, unregisterApps_eq]

theorem RegistryOp.namesDistinct_apply {p : Process σ} (hd : NamesDistinct p.world.apps)
    (op : RegistryOp) : NamesDistinct (op.apply p).world.apps := by
  rcases op.apply_apps p with happs | ⟨r, dialData, -, happs⟩ | ⟨appName, -, happs⟩
  · rwa [happs]
  · rw [happs]
    exact KeyedList.distinct_insertNew hd _
  · rw [happs]
    exact KeyedList.distinct_remove hd appName

section Runs

variable {ι : Type} [DecidableEq ι]

/-- What a run of requests and of calls of the other program leads to, from a server
without applications. -/
def served (H : Host σ) (files : Files) (host : σ) (port : UInt16) (dir : CharArray 256)
    (requests : ι → MgRequest) (moves : List (Move ι RegistryOp)) :
    Config (Process σ) (Action × AppName) Reaction ι :=
  (server H).play RegistryOp.apply requests ⟨emptyServer files host port dir, none⟩ moves

/-- **A call that does no harm**: it makes no entry for the name of a guarded request that was
let through and has not been handled, unless the entry accepts the origin of the
request. -/
def Harmless (requests : ι → MgRequest)
    (c : Config (Process σ) (Action × AppName) Reaction ι) : RegistryOp → Prop
  | .unregister _ => True
  | .register r => lookupApp c.state.world.apps r.appName = none →
    ∀ i action appName, c.phase i = .checked (action, appName) → action.guarded = true →
      appName.str = r.appName → Accepts (newApp r []) (requests i)

omit [DecidableEq ι] in
/-- A harmless call keeps what the checks established. -/
theorem mayAct_of_harmless {requests : ι → MgRequest}
    {c : Config (Process σ) (Action × AppName) Reaction ι} {op : RegistryOp}
    (hc : Guarded (fun p : Process σ => NamesDistinct p.world.apps) MayAct requests c)
    (hop : Harmless requests c op) {i : ι} {passed : Action × AppName}
    (hi : c.phase i = .checked passed) : MayAct (op.apply c.state) (requests i) passed := by
  intro hguarded app happ
  have hold := hc.safe i passed hi hguarded
  rw [lookupApp_eq] at happ
  rcases op.apply_apps c.state with happs | ⟨r, dialData, rfl, happs⟩ | ⟨appName, rfl, happs⟩
  · rw [happs, ← lookupApp_eq] at happ
    exact hold app happ
  · rw [happs] at happ
    by_cases hname : r.appName = passed.2.str
    · rcases hnew : KeyedList.lookup DIALApp.name c.state.world.apps r.appName with _ | old
      · -- the entry is new
        have hself := KeyedList.lookup_insertNew_self (a := newApp r dialData) hc.inv hnew
        rw [← hname] at happ
        obtain rfl := Option.some.inj (happ.symm.trans hself)
        have hnone : lookupApp c.state.world.apps r.appName = none := by rwa [lookupApp_eq]
        exact hop hnone i passed.1 passed.2 hi hguarded hname.symm
      · rw [KeyedList.insertNew_of_some (a := newApp r dialData) hnew, ← lookupApp_eq] at happ
        exact hold app happ
    · rw [KeyedList.lookup_insertNew_of_ne hc.inv hname, ← lookupApp_eq] at happ
      exact hold app happ
  · rw [happs] at happ
    by_cases hname : passed.2.str = appName
    · rw [hname, KeyedList.lookup_remove_self hc.inv] at happ
      exact absurd happ (by simp)
    · rw [KeyedList.lookup_remove_of_ne hc.inv hname, ← lookupApp_eq] at happ
      exact hold app happ

/-- The callbacks called in a turn. -/
def callsOfTurn (H : Host σ) (requests : ι → MgRequest)
    (c : Config (Process σ) (Action × AppName) Reaction ι) (i : ι) : List Call :=
  tracedCalls (((server H).turn requests c i).answered.drop c.answered.length)

/-- **Authorisation**: every `start_cb` and `stop_cb` called in a turn is that of a registered
entry, which accepts the origin of the request. -/
def AuthorisedTurn (H : Host σ) (requests : ι → MgRequest)
    (c : Config (Process σ) (Action × AppName) Reaction ι) (i : ι) : Prop :=
  ∀ call ∈ callsOfTurn H requests c i, call.kind.guarded = true →
    ∃ app ∈ c.state.world.apps, Through app call ∧ Accepts app (requests i)

/-- Only a request that was let through calls anybody. -/
theorem mem_callsOfTurn {H : Host σ} {requests : ι → MgRequest}
    {c : Config (Process σ) (Action × AppName) Reaction ι} {i : ι} {call : Call}
    (h : call ∈ callsOfTurn H requests c i) : ∃ passed, c.phase i = .checked passed ∧
      call ∈ (handle H c.state.world (requests i) passed.1 passed.2.str).calls := by
  rw [callsOfTurn, System.turn] at h
  split at h
  · rcases hphase : c.phase i with _ | passed | _
    · rw [hphase] at h
      dsimp only at h
      rcases hcheck : (server H).check c.state (requests i) with res | passed
      · obtain ⟨o, ho, rfl⟩ := server_check_eq_inl.mp hcheck
        rw [hcheck] at h
        simp [Config.finish, tracedCalls, Outcome.react, calls_of_firstStep ho] at h
      · rw [hcheck] at h
        simp [tracedCalls] at h
    · rw [hphase] at h
      refine ⟨passed, rfl, ?_⟩
      have hsecond : call ∈
          (secondStep H c.state.world (requests i) passed.1 passed.2).calls := by
        simpa [Config.finish, tracedCalls, server, Outcome.react] using h
      rw [← freeAppName_calls passed.2]
      exact mem_calls_of_comparing hsecond
    · rw [hphase] at h
      simp [tracedCalls] at h
  · simp [tracedCalls] at h

/-- **Authorised all along**: in every run in which the other program does no harm, every
call of `start_cb` and `stop_cb` is authorised. -/
theorem calls_authorised (H : Host σ) (files : Files) (host : σ) (port : UInt16)
    (dir : CharArray 256) (requests : ι → MgRequest) (moves : List (Move ι RegistryOp))
    (h : ∀ pre op post, moves = pre ++ .change op :: post →
      Harmless requests (served H files host port dir requests pre) op) :
    ∀ pre i post, moves = pre ++ .turn i :: post →
      AuthorisedTurn H requests (served H files host port dir requests pre) i := by
  rintro pre i post rfl call hcall hkind
  have hempty : NamesDistinct (emptyServer files host port dir).apps := List.nodup_nil
  have hguarded : Guarded (fun p : Process σ => NamesDistinct p.world.apps) MayAct requests
      (served H files host port dir requests pre) :=
    System.guarded_play (server_protects H) (fun p op hd => op.namesDistinct_apply hd)
      (fun c op hc hop i passed hi => mayAct_of_harmless hc hop hi) hempty pre
      fun pre' op post' hpre => h pre' op (post' ++ .turn i :: post) (by simp [hpre])
  obtain ⟨passed, hphase, hmem⟩ := mem_callsOfTurn hcall
  obtain ⟨hkinds, app, happ, hthrough⟩ := through_of_mem_calls hmem
  refine ⟨app, ?_, hthrough, hguarded.safe i passed hphase (hkinds hkind) app happ⟩
  rw [lookupApp_eq] at happ
  exact KeyedList.mem_of_lookup happ

end Runs

/-! ### A run without harm, and one that does harm -/

/-- A request to start YouTube from one of its origins. -/
def originRequest : MgRequest :=
  { probeRequest (.lit "POST") (.lit "/apps/YouTube") with
    httpHeaders := [(.lit "Host", .lit "localhost"),
      (.lit "Origin", .lit "https://www.youtube.com")] }

/-- YouTube, registered for the origins that end in `.netflix.com`. -/
def otherYouTube : Registration := { youTube with corsAllowedOrigin := some (.lit ".netflix.com") }

/-- A run of the one request. -/
def servedOne (moves : List (Move Unit RegistryOp)) :
    Config (Process Unit) (Action × AppName) Reaction Unit :=
  served probeHost (fun _ => none) () 56789 defaultDialDataDir (fun _ => originRequest) moves

/-- The process with one application and nothing else. -/
def serving (r : Registration) : Process Unit :=
  ⟨⟨[newApp r []], fun _ => none, (), 56789, defaultDialDataDir⟩, none⟩

/-- The request has been let through, and the application is registered so. -/
def letThrough (r : Registration) : Config (Process Unit) (Action × AppName) Reaction Unit where
  state := serving r
  phase := Function.update (fun _ => .fresh) () (.checked (.start, .kept (.lit "YouTube")))
  answered := []
  acted := []

/-- YouTube accepts the origin of the request. -/
theorem accepts_youTube : Accepts (newApp youTube []) originRequest := by
  intro origin horigin _
  have hcors : copyCorsAllowedOrigin (some (.lit ".youtube.com")) =
      ⟨.lit ".youtube.com", by decide⟩ := rfl
  obtain rfl : CStr.lit "https://www.youtube.com" = origin := Option.some.inj horigin
  rw [CorsAllows, newApp, youTube, hcors]
  decide

/-- YouTube lets the request through. -/
theorem check_originRequest :
    (server probeHost).check (serving youTube) originRequest =
      .inr (.start, .kept (.lit "YouTube")) := by
  have hroute : originRequest.route = .act .start (.kept (.lit "YouTube")) := by decide +kernel
  have horigin : originRequest.origin = some (.lit "https://www.youtube.com") := rfl
  have hallowed : isAllowedOrigin (serving youTube).world.apps originRequest.origin
      (.lit "YouTube") = true := by
    rw [horigin, isAllowedOrigin_of_checked (by decide), originScan_iff]
    exact ⟨_, List.mem_singleton_self _, rfl, accepts_youTube _ horigin (by decide)⟩
  rw [server_check_eq_inr, firstStep, hroute]
  exact if_neg fun hrefused => hrefused.2 ⟨rfl, hallowed⟩

/-- The request is let through, and then YouTube is registered anew. -/
def movesAnew (r : Registration) : List (Move Unit RegistryOp) :=
  [.change (.register youTube), .turn (), .change (.unregister (.lit "YouTube")),
    .change (.register r)]

/-- The check, and then the entry is changed. -/
theorem servedOne_letThrough {r : Registration}
    (hr : (RegistryOp.register r).apply ((RegistryOp.unregister (.lit "YouTube")).apply
      (serving youTube)) = serving r) : servedOne (movesAnew r) = letThrough r := by
  have hturn : (server probeHost).turn (fun _ => originRequest)
      ⟨serving youTube, fun _ => .fresh, [], []⟩ () = letThrough youTube := by
    have hup : (server probeHost).up (serving youTube) = true := rfl
    rw [System.turn, if_pos hup]
    dsimp only
    rw [check_originRequest]
    rfl
  have hmoves : servedOne (movesAnew r) =
      (server probeHost).move RegistryOp.apply (fun _ => originRequest)
        ((server probeHost).move RegistryOp.apply (fun _ => originRequest)
          ((server probeHost).turn (fun _ => originRequest)
            ⟨serving youTube, fun _ => .fresh, [], []⟩ ())
          (.change (.unregister (.lit "YouTube")))) (.change (.register r)) := rfl
  rw [hmoves, hturn]
  exact congrArg (fun p => { letThrough r with state := p }) hr

/-- YouTube is unregistered and registered as it was between the check and the handler, which
then starts it. -/
theorem calls_authorised_youTube :
    callsOfTurn probeHost (fun _ => originRequest) (servedOne (movesAnew youTube)) () =
        [⟨.lit "YouTube", .start .nil .nil, ⟨0, .lit "YouTube", none, 0⟩, some .running⟩] ∧
      AuthorisedTurn probeHost (fun _ => originRequest) (servedOne (movesAnew youTube)) () := by
  refine ⟨?_, ?_⟩
  · rw [servedOne_letThrough rfl]
    rfl
  · refine calls_authorised probeHost (fun _ => none) () 56789 defaultDialDataDir _
      (movesAnew youTube ++ [.turn ()]) ?_ (movesAnew youTube) () [] rfl
    intro pre op post hmoves
    have hmem : Move.change op ∈ movesAnew youTube ++ [.turn ()] := by
      rw [hmoves]
      simp
    obtain rfl | rfl | rfl : op = .register youTube ∨ op = .unregister (.lit "YouTube") ∨
        op = .register youTube := by simpa [movesAnew] using hmem
    · exact fun _ _ _ _ _ _ _ => accepts_youTube
    · trivial
    · exact fun _ _ _ _ _ _ _ => accepts_youTube

/-- **A stale check**: the request is let through, YouTube is registered anew with a list that
does not accept its origin, and is started for it. -/
theorem not_calls_authorised :
    ¬AuthorisedTurn probeHost (fun _ => originRequest)
      (servedOne (movesAnew otherYouTube)) () := by
  intro h
  rw [servedOne_letThrough rfl] at h
  have hcalls : callsOfTurn probeHost (fun _ => originRequest) (letThrough otherYouTube) () =
      [⟨.lit "YouTube", .start .nil .nil, ⟨0, .lit "YouTube", none, 0⟩, some .running⟩] := rfl
  obtain ⟨app, happ, -, haccepts⟩ := h _ (by rw [hcalls]; exact List.mem_singleton_self _) rfl
  obtain rfl := List.mem_singleton.mp happ
  have horigin : originRequest.origin = some (.lit "https://www.youtube.com") := rfl
  have hcors : copyCorsAllowedOrigin (some (.lit ".netflix.com")) =
      ⟨.lit ".netflix.com", by decide⟩ := rfl
  have hallows := haccepts _ horigin (by decide)
  rw [CorsAllows, newApp, otherYouTube, hcors] at hallows
  exact absurd hallows (by decide)

end DialServer
