import DialServer.Handlers

/-!
# What a handler leaves alone

A handler reaches the list through one slot and the files through one path. The
statement `DialServer.ActsOn` says so for an outcome: the entries elsewhere are
untouched, the entry in the slot keeps what registration gave it
(`DialServer.DIALApp.fixed`), the other files are untouched, and every callback
made belongs to that entry. The five handlers satisfy it, one lemma each.

What follows from it is stated once, for any outcome: names keep their places
(`ActsOn.findApp_eq`), other names keep their entries (`ActsOn.lookupApp_of_ne`)
and, since that depends on what registration fixed only, every decision about an
origin stays as it was (`isAllowedOrigin_congr`).
-/

namespace DialServer

open CLib

/-- What registration fixes about an entry. -/
def DIALApp.fixed (app : DIALApp) :
    CStr × DIALAppCallbacks × Ptr × ℤ × CharArray 256 :=
  (app.name, app.callbacks, app.callbackData, app.useAdditionalData, app.corsAllowedOrigin)

theorem originScan_congr {apps apps' : List DIALApp}
    (h : apps.map DIALApp.fixed = apps'.map DIALApp.fixed) (origin appName : CStr) :
    originScan origin appName apps = originScan origin appName apps' := by
  induction apps generalizing apps' with
  | nil =>
    rw [List.map_nil, eq_comm, List.map_eq_nil_iff] at h
    rw [h]
  | cons app apps ih =>
    rw [List.map_cons, eq_comm, List.map_eq_cons_iff] at h
    obtain ⟨app', apps'', rfl, hfixed, hrest⟩ := h
    obtain ⟨hname, -, -, -, hcors⟩ : app'.name = app.name ∧ _ ∧ _ ∧ _ ∧
        app'.corsAllowedOrigin = app.corsAllowedOrigin := by simpa [DIALApp.fixed] using hfixed
    rw [originScan, originScan, ih hrest.symm, hname, hcors]

/-- Registration alone decides about origins. -/
theorem isAllowedOrigin_congr {apps apps' : List DIALApp}
    (h : apps.map DIALApp.fixed = apps'.map DIALApp.fixed) (origin : Option CStr)
    (appName : CStr) :
    isAllowedOrigin apps origin appName = isAllowedOrigin apps' origin appName := by
  cases origin with
  | none => rfl
  | some origin => rw [isAllowedOrigin, isAllowedOrigin, originScan_congr h]

variable {σ : Type}

/-- **What acting on one application may change.** -/
structure ActsOn (w : World σ) (o : Outcome σ) (appName : CStr) : Prop where
  /-- Every entry keeps what registration gave it. -/
  fixed : o.world.apps.map DIALApp.fixed = w.apps.map DIALApp.fixed
  /-- The entries in other slots are untouched. -/
  others : ∀ i, i ≠ findApp w.apps appName → o.world.apps[i]? = w.apps[i]?
  /-- So are the files of other applications. -/
  files : ∀ path, path ≠ getAppPath w.dialDataDir appName → o.world.files path = w.files path
  /-- The port stays. -/
  port : o.world.port = w.port
  /-- The directory stays. -/
  dir : o.world.dialDataDir = w.dialDataDir
  /-- Only this application is called. -/
  owners : ∀ call ∈ o.calls, call.owner = appName

/-! ### Consequences -/

namespace ActsOn

variable {w : World σ} {o : Outcome σ} {appName : CStr}

theorem map_name (h : ActsOn w o appName) :
    o.world.apps.map DIALApp.name = w.apps.map DIALApp.name := by
  have hname : ∀ apps : List DIALApp,
      apps.map DIALApp.name = (apps.map DIALApp.fixed).map Prod.fst := fun apps => by
    rw [List.map_map]
    rfl
  rw [hname, hname, h.fixed]

/-- Every name keeps its place in the list. -/
theorem findApp_eq (h : ActsOn w o appName) (name : CStr) :
    findApp o.world.apps name = findApp w.apps name := by
  have hslot : ∀ apps : List DIALApp,
      findApp apps name = KeyedList.slot id (apps.map DIALApp.name) name := fun apps => by
    rw [findApp_eq_slot]
    have hmap : KeyedList.slot id (apps.map DIALApp.name) name =
        KeyedList.slot DIALApp.name apps name := KeyedList.slot_map fun _ => rfl
    exact hmap.symm
  rw [hslot, hslot, h.map_name]

theorem length_eq (h : ActsOn w o appName) : o.world.apps.length = w.apps.length := by
  simpa using congrArg List.length h.fixed

/-- Other names keep their entries. -/
theorem lookupApp_of_ne (h : ActsOn w o appName) {name : CStr} (hne : name ≠ appName) :
    lookupApp o.world.apps name = lookupApp w.apps name := by
  rw [lookupApp, lookupApp, h.findApp_eq]
  by_cases hslot : findApp w.apps name = findApp w.apps appName
  · -- the only slot two names can share is the end of the list
    have hnone : w.apps[findApp w.apps name]? = none := by
      rcases hl : w.apps[findApp w.apps name]? with _ | app
      · rfl
      · have h1 : app.name = name := name_of_lookupApp hl
        have h2 : app.name = appName := name_of_lookupApp (by rw [lookupApp, ← hslot, hl])
        exact absurd (h1.symm.trans h2) hne
    rw [hnone, List.getElem?_eq_none_iff, h.length_eq]
    exact List.getElem?_eq_none_iff.mp hnone
  · exact h.others _ hslot

theorem namesDistinct (h : ActsOn w o appName) (hd : NamesDistinct w.apps) :
    NamesDistinct o.world.apps := by
  rw [NamesDistinct, KeyedList.Distinct, h.map_name]
  exact hd

end ActsOn

/-! ### The handlers -/

section Handlers

variable {H : Host σ} {w : World σ} {r : MgRequest} {appName : CStr} {originHeader : Option CStr}

/-- An outcome that leaves the world alone and calls no one else. -/
theorem actsOn_of_eq {o : Outcome σ} (hw : o.world = w)
    (hcalls : ∀ call ∈ o.calls, call.owner = appName) : ActsOn w o appName := by
  subst hw
  exact ⟨rfl, fun _ _ => rfl, fun _ _ => rfl, rfl, rfl, hcalls⟩

/-- An outcome that writes the entry in the slot, and perhaps its file. -/
theorem actsOn_of_set {o : Outcome σ} {app app' : DIALApp}
    (happ : lookupApp w.apps appName = some app)
    (happs : o.world.apps = w.apps.set (findApp w.apps appName) app')
    (hfixed : app'.fixed = app.fixed)
    (hfiles : ∀ path, path ≠ getAppPath w.dialDataDir appName →
      o.world.files path = w.files path)
    (hport : o.world.port = w.port) (hdir : o.world.dialDataDir = w.dialDataDir)
    (hcalls : ∀ call ∈ o.calls, call.owner = app.name) : ActsOn w o appName := by
  refine ⟨?_, fun i hi => ?_, hfiles, hport, hdir, fun call hcall => ?_⟩
  · have hget : (w.apps.map DIALApp.fixed)[findApp w.apps appName]? = some app.fixed := by
      rw [List.getElem?_map]
      exact congrArg (Option.map DIALApp.fixed) happ
    obtain ⟨hlt, hval⟩ := List.getElem?_eq_some_iff.mp hget
    rw [happs, List.map_set, hfixed, ← hval, List.set_getElem_self]
  · rw [happs, List.getElem?_set_ne (Ne.symm hi)]
  · rw [hcalls call hcall, name_of_lookupApp happ]

theorem actsOn_launch {app : DIALApp} {body : Payload} {param : CStr}
    (happ : lookupApp w.apps appName = some app) :
    ActsOn w (launch H w r (findApp w.apps appName) app appName originHeader body param)
      appName := by
  simp only [launch]
  split
  · exact actsOn_of_set happ rfl rfl (fun _ _ => rfl) rfl rfl (by simp)
  · exact actsOn_of_set happ rfl rfl (fun _ _ => rfl) rfl rfl (by simp [Outcome.error])

theorem actsOn_handleAppStart :
    ActsOn w (handleAppStart H w r appName originHeader) appName := by
  rw [handleAppStart]
  dsimp only
  split
  · exact actsOn_of_eq rfl (by simp [Outcome.error])
  · rename_i app happ
    split
    · exact actsOn_of_eq rfl (by simp [Outcome.error])
    · split
      · exact actsOn_of_eq rfl (by simp [Outcome.error])
      · split
        · exact actsOn_of_eq rfl (by simp [Outcome.crash])
        · exact actsOn_launch happ

theorem actsOn_handleAppStatus :
    ActsOn w (handleAppStatus H w r appName originHeader) appName := by
  rw [handleAppStatus]
  dsimp only
  split
  · exact actsOn_of_eq rfl (by simp [Outcome.error])
  · rename_i app happ
    split
    · exact actsOn_of_eq rfl (by simp [Outcome.crash])
    · exact actsOn_of_set happ rfl rfl (fun _ _ => rfl) rfl rfl (by simp)

theorem actsOn_handleAppStop : ActsOn w (handleAppStop H w appName originHeader) appName := by
  rw [handleAppStop]
  dsimp only
  split
  · exact actsOn_of_eq rfl (by simp [Outcome.error])
  · rename_i app happ
    split
    · exact actsOn_of_set happ rfl rfl (fun _ _ => rfl) rfl rfl
        (by simp [Outcome.error])
    · exact actsOn_of_set happ (List.set_set _) rfl (fun _ _ => rfl) rfl rfl (by simp)

theorem actsOn_handleAppHide : ActsOn w (handleAppHide H w appName originHeader) appName := by
  rw [handleAppHide]
  dsimp only
  split
  · exact actsOn_of_eq rfl (by simp [Outcome.error])
  · rename_i app happ
    split
    · exact actsOn_of_set happ rfl rfl (fun _ _ => rfl) rfl rfl
        (by simp [Outcome.error])
    · split
      · exact actsOn_of_set happ (List.set_set _) rfl (fun _ _ => rfl) rfl rfl
          (by simp [Outcome.error])
      · exact actsOn_of_set happ (List.set_set _) rfl (fun _ _ => rfl) rfl rfl (by simp)

theorem actsOn_handleDialData {usePayload : Bool} :
    ActsOn w (handleDialData H w r appName originHeader usePayload) appName := by
  rw [handleDialData]
  dsimp only
  split
  · exact actsOn_of_eq rfl (by simp [Outcome.error])
  · rename_i app happ
    split
    · exact actsOn_of_eq rfl (by simp [Outcome.error])
    · split
      · exact actsOn_of_eq rfl (by simp [Outcome.error])
      · split
        · exact actsOn_of_eq rfl (by simp [Outcome.crash])
        · split
          · exact actsOn_of_set happ rfl rfl (fun _ _ => rfl) rfl rfl (by simp [Outcome.crash])
          · rename_i files hfiles
            refine actsOn_of_set happ rfl rfl (fun path hpath => ?_) rfl rfl (by simp)
            rw [name_of_lookupApp happ] at hfiles
            exact storeDialData_frame hfiles hpath

end Handlers

end DialServer
