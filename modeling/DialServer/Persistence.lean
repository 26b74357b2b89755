import DialServer.Locking
import DialServer.FileFormat
import DialServer.Isolation

/-!
# Updates of dial data

`handle_dial_data` replaces the dial data of an application by what the body of a
request parses to, writes it to the file and answers 200. What can go wrong comes
after the answer is decided: a piece of the body that does not convert, or a file
that cannot be opened, ends the process (`DialServer.handleDialData_done`,
`DialServer.handleDialData_crash`).

Three promises of an update are settled here: it is complete or undone
(`DialServer.updateAtomic_iff`), a body that is too long is refused and not cut
(`DialServer.oversizeRefused_iff`), and what was accepted survives a restart
(`DialServer.survives_iff`). Each of them is kept under a condition only.
-/

namespace DialServer

open CLib

variable {σ : Type}

/-! ### What an update does -/

/-- The text an update is parsed from. -/
def postedQuery (r : MgRequest) (usePayload : Bool) : CStr := .ofBuffer (dialDataBody r usePayload)

/-- The world after the dial data of an application was replaced and written. -/
def updated (w : World σ) (X : CStr) (app : DIALApp) (nodes : List DIALData)
    (content : List UInt8) : World σ :=
  { w with
    apps := w.apps.set (findApp w.apps X) { app with dialData := nodes }
    files := fun path =>
      if path = getAppPath w.dialDataDir X then some content else w.files path }

section Update

variable (H : Host σ) {w : World σ} (r : MgRequest) {X : CStr} (origin : Option CStr)
  (usePayload : Bool) {app : DIALApp}

@[simp] theorem lookupApp_updated (happ : lookupApp w.apps X = some app) (nodes : List DIALData)
    (content : List UInt8) :
    lookupApp (updated w X app nodes content).apps X = some { app with dialData := nodes } :=
  lookupApp_set happ rfl

@[simp] theorem files_updated (nodes : List DIALData) (content : List UInt8) :
    (updated w X app nodes content).files (getAppPath w.dialDataDir X) = some content :=
  if_pos rfl

/-- The read is capped at the limit, so the limit is never exceeded. -/
theorem length_dialDataBody_le :
    (dialDataBody r usePayload).length ≤ dialDataMaxPayload := by
  rw [dialDataBody]
  split
  · exact List.length_take_le _ _
  · split
    · exact List.length_take_le _ _
    · exact Nat.zero_le _

/-- A bad body changes nothing. -/
theorem handleDialData_bad (happ : lookupApp w.apps X = some app)
    (hbad : isBadPayload (dialDataBody r usePayload) = true) :
    handleDialData H w r X origin usePayload = .error w [] 400 "400 Bad Request" := by
  have hslot : w.apps[findApp w.apps X]? = some app := happ
  have hle := Nat.not_lt.mpr (length_dialDataBody_le r usePayload)
  simp only [handleDialData, hslot, if_neg hle, if_pos hbad]

/-- **An update whose pieces convert and whose file opens goes through.** -/
theorem handleDialData_done (happ : lookupApp w.apps X = some app)
    (hgood : isBadPayload (dialDataBody r usePayload) = false)
    (hconv : QueryConverts (postedQuery r usePayload))
    (hopen : H.canOpen w.host (getAppPath w.dialDataDir X) = true) :
    ∃ nodes, parseParams (some (postedQuery r usePayload)) = .ok nodes ∧
      nodes.map DIALData.pair = (queryPairs (postedQuery r usePayload)).map .ok ∧
      handleDialData H w r X origin usePayload =
        ⟨updated w X app nodes (fileLines (queryPairs (postedQuery r usePayload))), [],
          [.printf (dialDataText origin)], none⟩ := by
  obtain ⟨nodes, hnodes, hpairs⟩ := parseParams_of_converts hconv
  refine ⟨nodes, hnodes, hpairs, ?_⟩
  have hslot : w.apps[findApp w.apps X]? = some app := happ
  have hle := Nat.not_lt.mpr (length_dialDataBody_le r usePayload)
  have hbad : ¬isBadPayload (dialDataBody r usePayload) = true := by rw [hgood]; simp
  rw [postedQuery] at hnodes
  simp only [handleDialData, hslot, if_neg hle, if_neg hbad, hnodes, storeDialData,
    name_of_lookupApp happ, hopen, if_true, dataLines_of_pairs hpairs, updated]

/-- **Any other update that passes the checks ends the process**, whatever its origin. -/
theorem handleDialData_crash (happ : lookupApp w.apps X = some app)
    (hgood : isBadPayload (dialDataBody r usePayload) = false)
    (h : ¬(QueryConverts (postedQuery r usePayload) ∧
      H.canOpen w.host (getAppPath w.dialDataDir X) = true)) :
    ∃ w' halt, ∀ origin, handleDialData H w r X origin usePayload = .crash w' [] halt := by
  have hslot : w.apps[findApp w.apps X]? = some app := happ
  have hle := Nat.not_lt.mpr (length_dialDataBody_le r usePayload)
  have hbad : ¬isBadPayload (dialDataBody r usePayload) = true := by rw [hgood]; simp
  simp only [handleDialData, hslot, if_neg hle, if_neg hbad]
  rcases hparse : parseParams (some (.ofBuffer (dialDataBody r usePayload))) with f | nodes
  · exact ⟨_, _, fun _ => rfl⟩
  · dsimp only
    rw [storeDialData, name_of_lookupApp happ]
    split
    · rename_i halt hhalt
      exact ⟨_, halt, fun _ => rfl⟩
    · -- what was written are pairs, so every piece has converted
      rename_i files hfiles
      split at hfiles
      · rename_i hopen
        split at hfiles
        · exact absurd hfiles (by simp)
        · rename_i content hcontent
          exact absurd ⟨converts_of_parseParams hparse (pairs_of_dataLines hcontent), hopen⟩ h
      · exact absurd hfiles (by simp)

/-- An update that is answered 200 has passed the checks and gone through. -/
theorem handleDialData_of_answers
    (hok : (handleDialData H w r X origin usePayload).answers = [200]) :
    ∃ app, lookupApp w.apps X = some app ∧ isBadPayload (dialDataBody r usePayload) = false ∧
      QueryConverts (postedQuery r usePayload) ∧
      H.canOpen w.host (getAppPath w.dialDataDir X) = true := by
  rcases happ : lookupApp w.apps X with _ | app
  · have hslot : w.apps[findApp w.apps X]? = none := happ
    simp only [handleDialData, hslot] at hok
    exact absurd hok (by simp)
  · refine ⟨app, rfl, ?_⟩
    rcases hbad : isBadPayload (dialDataBody r usePayload) with _ | _
    · refine ⟨rfl, ?_⟩
      by_contra hcond
      obtain ⟨w', halt, hcrash⟩ := handleDialData_crash H r usePayload happ hbad hcond
      rw [hcrash] at hok
      exact absurd hok (by simp)
    · rw [handleDialData_bad H r origin usePayload happ hbad] at hok
      exact absurd hok (by simp)

end Update

/-! ### Complete or undone -/

/-- **The update is complete**: the dial data is what the body parses to, the file
is what it is written as, and the answer is 200. -/
def UpdateComplete (w : World σ) (r : MgRequest) (X : CStr) (usePayload : Bool)
    (o : Outcome σ) : Prop :=
  ∃ nodes content, parseParams (some (postedQuery r usePayload)) = .ok nodes ∧
    (lookupApp o.world.apps X).map DIALApp.dialData = some nodes ∧
    dataLines nodes = .ok content ∧
    o.world.files (getAppPath w.dialDataDir X) = some content ∧ o.answers = [200] ∧ o.halt = none

/-- **The update is undone**: the dial data is what it was, an error is sent, the
lock is given back and the process goes on. -/
structure UpdateUndone (w : World σ) (X : CStr) (t : Thread) (o : Outcome σ) : Prop where
  dialData : (lookupApp o.world.apps X).map DIALApp.dialData =
    (lookupApp w.apps X).map DIALApp.dialData
  answer : ∃ status, 400 ≤ status ∧ o.answers = [status]
  lock : Mutex.exec false (t.acts.filterMap Act.mutexOp) = some false
  serving : o.halt = none

/-- A request for new dial data is carried out completely, or undone where the file
cannot be opened. -/
def UpdateAtomic (bufsiz : ℕ) (H : Host σ) (w : World σ) (r : MgRequest) (X : CStr)
    (usePayload : Bool) : Prop :=
  UpdateComplete w r X usePayload (handleDialData H w r X r.origin usePayload) ∨
    H.canOpen w.host (getAppPath w.dialDataDir X) = false ∧
      UpdateUndone w X
        (handleDialDataThread (cry (requestHandlerThread bufsiz H w r)) bufsiz H w r X usePayload)
        (handleDialData H w r X r.origin usePayload)

/-- **An update that passes the checks is atomic exactly when the file can be opened
and every piece of the body converts.** Where the file cannot be opened the process
exits, with the new dial data in memory and the lock held. -/
theorem updateAtomic_iff (bufsiz : ℕ) (H : Host σ) (w : World σ) (r : MgRequest) (X : CStr)
    (usePayload : Bool) (happ : lookupApp w.apps X ≠ none)
    (hgood : isBadPayload (dialDataBody r usePayload) = false) :
    UpdateAtomic bufsiz H w r X usePayload ↔
      H.canOpen w.host (getAppPath w.dialDataDir X) = true ∧
        QueryConverts (postedQuery r usePayload) := by
  obtain ⟨app, happ⟩ := Option.ne_none_iff_exists'.mp happ
  constructor
  · intro hatomic
    by_contra hcond
    -- a process that has exited has sent no answer, so neither alternative holds
    obtain ⟨w', halt, hcrash⟩ :=
      handleDialData_crash H r usePayload happ hgood fun h => hcond h.symm
    rw [UpdateAtomic, hcrash] at hatomic
    rcases hatomic with ⟨nodes, content, -, -, -, -, hanswer, -⟩ | ⟨-, hundone⟩
    · exact absurd hanswer (by simp)
    · obtain ⟨status, -, hanswer⟩ := hundone.answer
      exact absurd hanswer (by simp)
  · rintro ⟨hopen, hconv⟩
    obtain ⟨nodes, hnodes, hpairs, hdone⟩ :=
      handleDialData_done H r r.origin usePayload happ hgood hconv hopen
    refine Or.inl ⟨nodes, _, hnodes, ?_, dataLines_of_pairs hpairs, ?_, ?_, ?_⟩
    · rw [hdone, lookupApp_updated happ, Option.map_some]
    · rw [hdone, files_updated]
    · rw [hdone]
      simp [Outcome.answers]
    · rw [hdone]

/-- A `POST` of dial data to an application. -/
def dialDataRequest (X : CStr) (body : List UInt8) : MgRequest :=
  { probeRequest (.lit "POST") (appsUri ++ X ++ dialDataUri) with body := body }

/-- The body `v=1`. -/
def onePair : List UInt8 := (CStr.lit "v=1").bytes

/-- The update of one pair. -/
theorem updateAtomic_iff_onePair :
    UpdateAtomic 512 probeHost (probeWorld (.lit "YouTube"))
        (dialDataRequest (.lit "YouTube") onePair) (.lit "YouTube") true ↔
      probeHost.canOpen () (getAppPath defaultDialDataDir (.lit "YouTube")) = true ∧
        QueryConverts (postedQuery (dialDataRequest (.lit "YouTube") onePair) true) :=
  updateAtomic_iff 512 probeHost (probeWorld (.lit "YouTube"))
    (dialDataRequest (.lit "YouTube") onePair) (.lit "YouTube") true (by decide) (by decide)

/-- Callbacks as before, on a disk that nothing can be written to. -/
def fullDiskHost : Host Unit := { probeHost with canOpen := fun _ _ => false }

/-- On such a disk the process exits. -/
theorem not_updateAtomic_fullDisk :
    lookupApp (probeWorld (.lit "YouTube")).apps (.lit "YouTube") ≠ none ∧
      isBadPayload (dialDataBody (dialDataRequest (.lit "YouTube") onePair) true) = false ∧
      ¬UpdateAtomic 512 fullDiskHost (probeWorld (.lit "YouTube"))
        (dialDataRequest (.lit "YouTube") onePair) (.lit "YouTube") true := by
  refine ⟨by decide, by decide, ?_⟩
  have hcrash : (handleDialData fullDiskHost (probeWorld (.lit "YouTube"))
      (dialDataRequest (.lit "YouTube") onePair) (.lit "YouTube") none true).halt =
        some (.exit 1) := by
    decide +kernel
  rintro (⟨nodes, content, -, -, -, -, -, hhalt⟩ | ⟨-, hundone⟩)
  · exact absurd (hcrash.symm.trans hhalt) (by simp)
  · exact absurd (hcrash.symm.trans hundone.serving) (by simp)

/-! ### Refused, not cut -/

/-- **A body that is too long is refused**, a good one is taken whole and a bad one
changes nothing. -/
structure OversizeRefused (w : World σ) (X : CStr) (body : List UInt8) (o : Outcome σ) : Prop where
  oversize : dialDataMaxPayload < body.length → o.answers = [413] ∧
    (lookupApp o.world.apps X).map DIALApp.dialData =
      (lookupApp w.apps X).map DIALApp.dialData ∧
    o.world.files (getAppPath w.dialDataDir X) = w.files (getAppPath w.dialDataDir X)
  good : body.length ≤ dialDataMaxPayload → Printable body → o.answers = [200] ∧
    ∃ nodes, parseParams (some (.ofBuffer body)) = .ok nodes ∧
      (lookupApp o.world.apps X).map DIALApp.dialData = some nodes
  bad : body.length ≤ dialDataMaxPayload → ¬Printable body → o.answers = [400] ∧ o.world = w

theorem requestHandler_dialData {H : Host σ} {w : World σ} {r : MgRequest} {X : CStr}
    {usePayload : Bool} (hroute : r.route = .act (.dialData usePayload) (.kept X)) :
    requestHandler H w r = handleDialData H w r X r.origin usePayload := by
  rw [requestHandler_eq, hroute, perform_act_kept fun h => absurd h (by simp [Action.guarded]),
    handle]

/-- No update is answered 413. -/
theorem answers_handleDialData_ne (H : Host σ) {w : World σ} (r : MgRequest) {X : CStr}
    (origin : Option CStr) (usePayload : Bool) (happ : lookupApp w.apps X ≠ none) :
    (handleDialData H w r X origin usePayload).answers ≠ [413] := by
  obtain ⟨app, happ⟩ := Option.ne_none_iff_exists'.mp happ
  intro hanswer
  rcases hbad : isBadPayload (dialDataBody r usePayload) with _ | _
  · by_cases hcond : QueryConverts (postedQuery r usePayload) ∧
        H.canOpen w.host (getAppPath w.dialDataDir X) = true
    · obtain ⟨nodes, -, -, hdone⟩ :=
        handleDialData_done H r origin usePayload happ hbad hcond.1 hcond.2
      rw [hdone] at hanswer
      exact absurd hanswer (by simp [Outcome.answers])
    · obtain ⟨w', halt, hcrash⟩ := handleDialData_crash H r usePayload happ hbad hcond
      rw [hcrash] at hanswer
      exact absurd hanswer (by simp)
  · rw [handleDialData_bad H r origin usePayload happ hbad] at hanswer
    exact absurd hanswer (by simp)

/-- **A `POST` to the dial data of an application keeps the promise exactly for
bodies within the limit** that are bad, or that convert while the file can be
opened. Beyond the limit the body is cut and what is left is taken. -/
theorem oversizeRefused_iff (H : Host σ) (w : World σ) (r : MgRequest) (X : CStr)
    (hroute : r.route = .act (.dialData true) (.kept X)) (happ : lookupApp w.apps X ≠ none) :
    OversizeRefused w X r.body (requestHandler H w r) ↔
      r.body.length ≤ dialDataMaxPayload ∧
        (¬Printable r.body ∨ H.canOpen w.host (getAppPath w.dialDataDir X) = true ∧
          QueryConverts (.ofBuffer r.body)) := by
  rw [requestHandler_dialData hroute]
  have hne := answers_handleDialData_ne H r r.origin true happ
  obtain ⟨app, happ⟩ := Option.ne_none_iff_exists'.mp happ
  constructor
  · intro hrefused
    have hle : r.body.length ≤ dialDataMaxPayload := by
      by_contra hlong
      -- the handler has a branch for 413, but no body takes it
      exact hne (hrefused.oversize (by omega)).1
    refine ⟨hle, ?_⟩
    have hbody : dialDataBody r true = r.body := by
      rw [dialDataBody, if_pos rfl, List.take_of_length_le hle]
    by_cases hgood : Printable r.body
    · refine Or.inr ?_
      have hisgood : isBadPayload (dialDataBody r true) = false := by
        rw [hbody]
        exact isBadPayload_eq_false.mpr hgood
      by_contra hcond
      obtain ⟨w', halt, hcrash⟩ := handleDialData_crash H r true happ hisgood
        (by rw [postedQuery, hbody]; exact fun h => hcond h.symm)
      have hanswer := (hrefused.good hle hgood).1
      rw [hcrash] at hanswer
      exact absurd hanswer (by simp)
    · exact Or.inl hgood
  · rintro ⟨hle, hcond⟩
    have hbody : dialDataBody r true = r.body := by
      rw [dialDataBody, if_pos rfl, List.take_of_length_le hle]
    refine ⟨fun hlong => absurd hle (by omega), fun _ hgood => ?_, fun _ hbad => ?_⟩
    · obtain ⟨hopen, hconv⟩ := hcond.resolve_left fun h => h hgood
      have hisgood : isBadPayload (dialDataBody r true) = false := by
        rw [hbody]
        exact isBadPayload_eq_false.mpr hgood
      obtain ⟨nodes, hnodes, -, hdone⟩ := handleDialData_done H r r.origin true happ hisgood
        (by rw [postedQuery, hbody]; exact hconv) hopen
      rw [postedQuery, hbody] at hnodes
      rw [hdone]
      refine ⟨by simp [Outcome.answers], nodes, hnodes, ?_⟩
      rw [lookupApp_updated happ, Option.map_some]
    · have hisbad : isBadPayload (dialDataBody r true) = true := by
        rw [hbody, ← Bool.not_eq_false, isBadPayload_eq_false]
        exact hbad
      rw [handleDialData_bad H r r.origin true happ hisbad]
      exact ⟨rfl, rfl⟩

theorem route_dialDataRequest {X : CStr} (hX : IsComponent X) (body : List UInt8) :
    (dialDataRequest X body).route = .act (.dialData true) (.kept X) := by
  have hlocal : (inetNtop (127, 0, 0, 1)).eqN gLocalhost gLocalhost.strlen = true := by decide
  exact route_appDialData hX hlocal

/-- The body `v=1` again. -/
theorem oversizeRefused_iff_onePair :
    OversizeRefused (probeWorld (.lit "YouTube")) (.lit "YouTube") onePair
        (requestHandler probeHost (probeWorld (.lit "YouTube"))
          (dialDataRequest (.lit "YouTube") onePair)) ↔
      onePair.length ≤ dialDataMaxPayload ∧
        (¬Printable onePair ∨
          probeHost.canOpen () (getAppPath defaultDialDataDir (.lit "YouTube")) = true ∧
            QueryConverts (.ofBuffer onePair)) :=
  oversizeRefused_iff probeHost (probeWorld (.lit "YouTube"))
    (dialDataRequest (.lit "YouTube") onePair) (.lit "YouTube")
    (route_dialDataRequest (by decide) _) (by decide)

/-- A pair whose value takes the body one byte over the limit. -/
def oversizePair : List UInt8 := (CStr.lit "v=").bytes ++ List.replicate 4095 'a'.toUInt8

/-- It is not refused. -/
theorem not_oversizeRefused_oversizePair :
    ¬OversizeRefused (probeWorld (.lit "YouTube")) (.lit "YouTube") oversizePair
      (requestHandler probeHost (probeWorld (.lit "YouTube"))
        (dialDataRequest (.lit "YouTube") oversizePair)) := by
  intro hrefused
  have hlong : dialDataMaxPayload < oversizePair.length := by
    rw [oversizePair, List.length_append, List.length_replicate]
    decide
  rw [requestHandler_dialData (route_dialDataRequest (by decide) _)] at hrefused
  exact answers_handleDialData_ne _ _ _ _ (by decide) (hrefused.oversize hlong).1

/-! ### A restart -/

/-- An application is unregistered and registered again. -/
def restart (w : World σ) (reg : Registration) : Except Fault (World σ × ℕ) :=
  registerApp (unregisterApp w reg.appName).1 reg

/-- The pairs an application holds. -/
def heldPairs (w : World σ) (X : CStr) : Option (List (CStr × CStr)) :=
  (lookupApp w.apps X).map fun app => app.dialData.map DIALData.texts

/-- **The dial data survives a restart**: the application holds the same pairs
afterwards, in whatever order. -/
def Survives (w : World σ) (reg : Registration) : Prop :=
  ∃ w' before after, restart w reg = .ok (w', 1) ∧ heldPairs w reg.appName = some before ∧
    heldPairs w' reg.appName = some after ∧ after.Perm before

/-- A restart reads the file of the application. -/
theorem restart_of_file {w : World σ} (reg : Registration) {content : List UInt8}
    (hd : NamesDistinct w.apps)
    (hfile : w.files (getAppPath w.dialDataDir reg.appName) = some content) :
    (∀ f, retrieveLoop content none [] = .error f → restart w reg = .error f) ∧
      ∀ dialData, retrieveLoop content none [] = .ok dialData →
        ∃ w', restart w reg = .ok (w', 1) ∧
          heldPairs w' reg.appName = some (dialData.map DIALData.texts) := by
  have hread : retrieveDialData (unregisterApp w reg.appName).1.dialDataDir
      (unregisterApp w reg.appName).1.files reg.appName = retrieveLoop content none [] := by
    rw [retrieveDialData, unregisterApp]
    dsimp only
    rw [hfile]
  -- the name is free again, so the call makes a new entry
  have hgone : lookupApp (unregisterApp w reg.appName).1.apps reg.appName = none :=
    lookupApp_unregisterApp_self hd
  have hnew := registerApp_new (r := reg) hgone
  rw [hread] at hnew
  refine ⟨fun f hf => ?_, fun dialData hdata => ?_⟩
  · rw [restart, hnew, hf]
    rfl
  · rw [hdata] at hnew
    refine ⟨_, hnew, ?_⟩
    have hkey : (newApp reg dialData).name = reg.appName := rfl
    rw [lookupApp_eq, ← hkey] at hgone
    have hfound := KeyedList.lookup_insertNew_self (namesDistinct_unregisterApp hd _) hgone
    rw [heldPairs, lookupApp_eq]
    exact congrArg _ hfound

/-- **What was accepted survives a restart exactly when every key and every value is
free of white space and has at most 255 bytes.** Anything else is cut into several
words when it is read back. -/
theorem survives_iff (H : Host σ) (w : World σ) (r : MgRequest) (usePayload : Bool)
    (reg : Registration) (hd : NamesDistinct w.apps)
    (hok : (handleDialData H w r reg.appName r.origin usePayload).answers = [200]) :
    Survives (handleDialData H w r reg.appName r.origin usePayload).world reg ↔
      ∀ p ∈ queryPairs (postedQuery r usePayload), Storable p.1 ∧ Storable p.2 := by
  obtain ⟨app, happ, hgood, hconv, hopen⟩ := handleDialData_of_answers H r r.origin usePayload hok
  obtain ⟨nodes, -, hpairs, hdone⟩ := handleDialData_done H r r.origin usePayload happ hgood hconv
    hopen
  have hacts : ActsOn w (handleDialData H w r reg.appName r.origin usePayload) reg.appName :=
    actsOn_handleDialData
  have hdistinct := hacts.namesDistinct hd
  rw [hdone] at hdistinct ⊢
  obtain ⟨hfault, hload⟩ := restart_of_file reg hdistinct (files_updated _ _)
  have hbefore : heldPairs (updated w reg.appName app nodes
      (fileLines (queryPairs (postedQuery r usePayload)))) reg.appName =
        some (queryPairs (postedQuery r usePayload)) := by
    rw [heldPairs, lookupApp_updated happ, Option.map_some, texts_of_pairs hpairs]
  constructor
  · -- what came back is storable, and it is the same up to order
    rintro ⟨w', before, after, hrestart, hheld, hheld', hperm⟩ p hp
    rw [hbefore, Option.some.injEq] at hheld
    rcases hloop : retrieveLoop (fileLines (queryPairs (postedQuery r usePayload))) none [] with
      f | dialData
    · rw [hfault f hloop] at hrestart
      exact absurd hrestart (by simp)
    · obtain ⟨w'', hrestart', hheld''⟩ := hload dialData hloop
      obtain rfl : w' = w'' := by
        rw [hrestart', Except.ok.injEq, Prod.mk.injEq] at hrestart
        exact hrestart.1.symm
      rw [hheld'', Option.some.injEq] at hheld'
      rw [hheld, ← hperm.mem_iff, ← hheld'] at hp
      obtain ⟨node, hnode, rfl⟩ := List.mem_map.mp hp
      exact storable_of_retrieveLoop (fun _ h => absurd h (by simp)) (by simp) hloop node hnode
  · intro hstorable
    obtain ⟨w', hrestart, hheld⟩ :=
      hload _ (retrieveLoop_lines hstorable (fun p hp => hconv.ne_nil hp) none [])
    refine ⟨w', _, _, hrestart, hbefore, hheld, ?_⟩
    -- the loop puts each pair in front, so the list comes back in reverse
    rw [List.append_nil, List.map_reverse, List.map_map]
    have htexts : DIALData.texts ∘ loadedNode = id := funext texts_loadedNode
    rw [htexts, List.map_id]
    exact List.reverse_perm _

/-- One pair, posted to YouTube. -/
theorem survives_iff_onePair :
    Survives (handleDialData probeHost (probeWorld (.lit "YouTube"))
        (dialDataRequest (.lit "YouTube") onePair) (.lit "YouTube") none true).world
        (plain (.lit "YouTube")) ↔
      ∀ p ∈ queryPairs (postedQuery (dialDataRequest (.lit "YouTube") onePair) true),
        Storable p.1 ∧ Storable p.2 :=
  survives_iff probeHost (probeWorld (.lit "YouTube")) (dialDataRequest (.lit "YouTube") onePair)
    true (plain (.lit "YouTube")) (List.nodup_singleton _) (by decide +kernel)

/-- A pair whose key has a space in it. -/
def spacedPair : List UInt8 := (CStr.lit "a b=c").bytes

/-- The world after that pair was posted to YouTube. -/
def spacedWorld : World Unit :=
  (handleDialData probeHost (probeWorld (.lit "YouTube"))
    (dialDataRequest (.lit "YouTube") spacedPair) (.lit "YouTube") none true).world

/-- It comes back as two pairs. -/
theorem not_survives_spacedPair :
    (handleDialData probeHost (probeWorld (.lit "YouTube"))
        (dialDataRequest (.lit "YouTube") spacedPair) (.lit "YouTube") none true).answers = [200] ∧
      ¬Survives spacedWorld (plain (.lit "YouTube")) := by
  refine ⟨by decide +kernel, ?_⟩
  have hbefore : heldPairs spacedWorld (.lit "YouTube") = some [(.lit "a b", .lit "c")] := by
    decide +kernel
  have hafter : (restart spacedWorld (plain (.lit "YouTube"))).toOption.bind
      (fun p => heldPairs p.1 (.lit "YouTube")) =
        some [(.lit "c", .lit "b"), (.lit "a", .lit "b")] := by
    decide +kernel
  rintro ⟨w', before, after, hrestart, hheld, hheld', hperm⟩
  rw [hrestart] at hafter
  obtain rfl := Option.some.inj (hbefore.symm.trans hheld)
  obtain rfl := Option.some.inj (hafter.symm.trans hheld')
  exact absurd hperm.length_eq (by simp)

end DialServer
