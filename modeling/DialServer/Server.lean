import DialServer.UrlLib
import DialServer.Lib.KeyedList

/-!
# The state of the server

The records of `dial_server.h`, and the functions of `DIALServer` that keep the
list of registered applications. The list is linked through `next` and searched
for a slot – a pointer to the pointer that leads to the entry, or to the one a
new entry is hung from. Here the list is a `List` and a slot is an index, one past
the end standing for the last `next`; `DialServer.Registry` does the same with
the pointers themselves and shows that nothing is lost.

What the server does not decide is a parameter, `DialServer.Host`: the callbacks,
which may read the payload of any application, read and write the run id they are
given a pointer to, and change a state of their own; whether a file can be
opened; and how `atof` reads a version.
-/

namespace DialServer

open CLib

/-- A pointer the server keeps for others and never follows: a callback, the user
data or a run id. -/
abbrev Ptr := ℕ

/-- The status of an application. -/
inductive DIALStatus
  | stopped
  | hide
  | running
  deriving DecidableEq

/-- The callbacks of an application. -/
structure DIALAppCallbacks where
  startCb : Ptr
  hideCb : Ptr
  stopCb : Ptr
  statusCb : Ptr
  deriving DecidableEq

/-- The most bytes a launch payload may have. -/
def dialMaxPayload : ℕ := 4096

/-- What the array `payload` holds once it has been written: some bytes, and
zeros up to its end. -/
structure Payload where
  /-- The bytes copied. -/
  bytes : List UInt8
  /-- They fit. -/
  fits : bytes.length ≤ dialMaxPayload
  deriving DecidableEq

/-- A registered application. The pointer `next` is the order of the list;
`none` stands for a field that `malloc` left as it was. -/
structure DIALApp where
  callbacks : DIALAppCallbacks
  dialData : List DIALData
  callbackData : Ptr
  runId : Option Ptr
  state : DIALStatus
  name : CStr
  payload : Option Payload
  useAdditionalData : ℤ
  corsAllowedOrigin : CharArray 256
  deriving DecidableEq

/-- What `get_payload` finds for a name: nothing, or an array that may not have
been written. -/
abbrev PayloadView := CStr → Option (Option Payload)

/-- What every callback is called with: the function pointer the server calls
through, the name, the run id and the user data. A callback that gets a pointer
to the run id sees the value there. -/
structure Invocation where
  fn : Ptr
  appName : CStr
  runId : Option Ptr
  callbackData : Ptr
  deriving DecidableEq

/-- The part of the process that is not the server. -/
structure Host (σ : Type) where
  /-- `start_cb`, with the payload and the additional data: its status, and what
  it writes through `run_id`, if it does. -/
  startCb : σ → Invocation → CStr → CStr → PayloadView → σ × DIALStatus × Option Ptr
  /-- `hide_cb`, which gets the pointer as well. -/
  hideCb : σ → Invocation → PayloadView → σ × DIALStatus × Option Ptr
  /-- `stop_cb`. -/
  stopCb : σ → Invocation → PayloadView → σ
  /-- `status_cb`: its status, and what it writes to `canStop`, if it does. -/
  statusCb : σ → Invocation → PayloadView → σ × DIALStatus × Option ℤ
  /-- Whether a file can be opened for writing. -/
  canOpen : σ → CStr → Bool
  /-- Whether `atof` reads the text as a number below 2.09. -/
  belowVersion : CStr → Bool

/-- The server and what it acts on. -/
structure World (σ : Type) where
  /-- The list of applications. -/
  apps : List DIALApp
  /-- The files. -/
  files : Files
  /-- The state of the callbacks. -/
  host : σ
  /-- The port the server listens at. -/
  port : UInt16
  /-- The array `dial_data_dir`. -/
  dialDataDir : CharArray 256

/-! ### The traversal -/

/-- The slot of an application: the index it stands at, or the end of the
list. -/
def findApp : List DIALApp → CStr → ℕ
  | [], _ => 0
  | app :: apps, appName => if appName = app.name then 0 else findApp apps appName + 1

/-- The traversal is the search of a keyed list. -/
theorem findApp_eq_slot (apps : List DIALApp) (appName : CStr) :
    findApp apps appName = KeyedList.slot DIALApp.name apps appName := by
  induction apps with
  | nil => rfl
  | cons app apps ih => rw [findApp, KeyedList.slot, ih]

/-- What the slot points to. -/
def lookupApp (apps : List DIALApp) (appName : CStr) : Option DIALApp :=
  apps[findApp apps appName]?

theorem lookupApp_eq (apps : List DIALApp) (appName : CStr) :
    lookupApp apps appName = KeyedList.lookup DIALApp.name apps appName := by
  rw [lookupApp, findApp_eq_slot, KeyedList.lookup]

/-- The entry found has the name asked for. -/
theorem name_of_lookupApp {apps : List DIALApp} {appName : CStr} {app : DIALApp}
    (h : lookupApp apps appName = some app) : app.name = appName := by
  rw [lookupApp_eq] at h
  exact KeyedList.key_of_lookup h

/-- What is written through the slot of a name is what the name finds. -/
theorem lookupApp_set {apps : List DIALApp} {appName : CStr} {app app' : DIALApp}
    (h : lookupApp apps appName = some app) (hname : app'.name = app.name) :
    lookupApp (apps.set (findApp apps appName) app') appName = some app' := by
  have hfound : app'.name = appName := hname.trans (name_of_lookupApp h)
  rw [lookupApp_eq] at h
  rw [lookupApp_eq, findApp_eq_slot]
  exact KeyedList.lookup_set_self hfound h

/-- Names are unique. -/
def NamesDistinct (apps : List DIALApp) : Prop := KeyedList.Distinct DIALApp.name apps

/-- The payload of an application, as `get_payload` hands it out. -/
def getPayload (apps : List DIALApp) : PayloadView := fun appName =>
  (lookupApp apps appName).map DIALApp.payload

/-! ### Registration -/

/-- The arguments of `register_app`. -/
structure Registration where
  appName : CStr
  callbacks : DIALAppCallbacks
  userData : Ptr
  useAdditionalData : ℤ
  corsAllowedOrigin : Option CStr
  deriving DecidableEq

/-- The array `corsAllowedOrigin`, filled from the argument when it is there and
fits, and empty otherwise. -/
def copyCorsAllowedOrigin (corsAllowedOrigin : Option CStr) : CharArray 256 :=
  match corsAllowedOrigin with
  | none => ⟨.nil, by decide⟩
  | some cors => if h : cors.strlen < 256 then ⟨cors, h⟩ else ⟨.nil, by decide⟩

/-- The entry made for a registration, with the dial data read back for it. -/
def newApp (r : Registration) (dialData : List DIALData) : DIALApp where
  callbacks := r.callbacks
  dialData := dialData
  callbackData := r.userData
  runId := none
  state := .stopped
  name := r.appName
  payload := none
  useAdditionalData := r.useAdditionalData
  corsAllowedOrigin := copyCorsAllowedOrigin r.corsAllowedOrigin

/-- What `register_app` does to the list, with the dial data it read back, and
what it returns. -/
def registerApps (apps : List DIALApp) (r : Registration) (dialData : List DIALData) :
    List DIALApp × ℕ :=
  let slot := findApp apps r.appName
  match apps[slot]? with
  | some _ => (apps, 0) -- app already registered
  | none => (apps.take slot ++ [newApp r dialData], 1)

/-- What `unregister_app` does to the list, and what it returns. -/
def unregisterApps (apps : List DIALApp) (appName : CStr) : List DIALApp × ℕ :=
  let slot := findApp apps appName
  match apps[slot]? with
  | none => (apps, 0) -- no such app
  | some _ => (apps.eraseIdx slot, 1)

variable {σ : Type}

/-- `register_app`. The dial data is read back for a new entry only, and reading
it can fail. -/
def registerApp (w : World σ) (r : Registration) : Except Fault (World σ × ℕ) :=
  match lookupApp w.apps r.appName with
  | some _ => .ok (w, 0)
  | none =>
    match retrieveDialData w.dialDataDir w.files r.appName with
    | .error f => .error f
    | .ok dialData =>
      let (apps, ret) := registerApps w.apps r dialData
      .ok ({ w with apps := apps }, ret)

/-- `unregister_app`. -/
def unregisterApp (w : World σ) (appName : CStr) : World σ × ℕ :=
  let (apps, ret) := unregisterApps w.apps appName
  ({ w with apps := apps }, ret)

/-- **Registering inserts into the keyed list**, and says whether the name was
new. -/
theorem registerApps_eq (apps : List DIALApp) (r : Registration) (dialData : List DIALData) :
    registerApps apps r dialData =
      (KeyedList.insertNew DIALApp.name apps (newApp r dialData),
        if lookupApp apps r.appName = none then 1 else 0) := by
  simp only [registerApps]
  split
  · rename_i app happ
    have hl : lookupApp apps r.appName = some app := happ
    rw [hl, if_neg (by simp)]
    rw [lookupApp_eq] at hl
    rw [KeyedList.insertNew_of_some (b := app) hl]
  · rename_i happ
    have hl : lookupApp apps r.appName = none := happ
    rw [hl, if_pos rfl]
    rw [lookupApp_eq] at hl
    rw [KeyedList.insertNew_of_none hl, List.take_of_length_le]
    exact List.getElem?_eq_none_iff.mp happ

/-- **Unregistering removes from the keyed list**, and says whether the name was
there. -/
theorem unregisterApps_eq (apps : List DIALApp) (appName : CStr) :
    unregisterApps apps appName =
      (KeyedList.remove DIALApp.name apps appName,
        if lookupApp apps appName = none then 0 else 1) := by
  simp only [unregisterApps]
  split
  · rename_i happ
    have hl : lookupApp apps appName = none := happ
    rw [hl, if_pos rfl]
    rw [lookupApp_eq] at hl
    rw [KeyedList.remove_of_none hl]
  · rename_i app happ
    have hl : lookupApp apps appName = some app := happ
    rw [hl, if_neg (by simp), KeyedList.remove, findApp_eq_slot]

/-- **Registering a new name** reads its dial data back and hangs the entry in. -/
theorem registerApp_new {w : World σ} {r : Registration} (h : lookupApp w.apps r.appName = none) :
    registerApp w r = (retrieveDialData w.dialDataDir w.files r.appName).map fun dialData =>
      ({ w with apps := KeyedList.insertNew DIALApp.name w.apps (newApp r dialData) }, 1) := by
  rw [registerApp, h]
  dsimp only
  rcases retrieveDialData w.dialDataDir w.files r.appName with f | dialData
  · rfl
  · dsimp only
    rw [registerApps_eq, h, if_pos rfl]
    rfl

theorem namesDistinct_unregisterApp {w : World σ} (hd : NamesDistinct w.apps) (appName : CStr) :
    NamesDistinct (unregisterApp w appName).1.apps := by
  rw [unregisterApp, unregisterApps_eq]
  exact KeyedList.distinct_remove hd appName

/-- A name that was unregistered is not found. -/
theorem lookupApp_unregisterApp_self {w : World σ} {appName : CStr} (hd : NamesDistinct w.apps) :
    lookupApp (unregisterApp w appName).1.apps appName = none := by
  rw [unregisterApp, unregisterApps_eq, lookupApp_eq]
  exact KeyedList.lookup_remove_self hd

/-- The list after `register_app`, when it returns. -/
theorem registerApp_apps {w w' : World σ} {r : Registration} {ret : ℕ}
    (h : registerApp w r = .ok (w', ret)) :
    ∃ dialData, (w'.apps, ret) = registerApps w.apps r dialData := by
  rw [registerApp] at h
  split at h
  · rename_i app happ
    obtain ⟨rfl, rfl⟩ := Prod.mk.inj (Except.ok.inj h)
    refine ⟨[], ?_⟩
    rw [registerApps]
    simp only [show w.apps[findApp w.apps r.appName]? = some app from happ]
  · split at h
    · exact absurd h (by simp)
    · rename_i dialData _
      obtain ⟨rfl, rfl⟩ := Prod.mk.inj (Except.ok.inj h)
      exact ⟨dialData, rfl⟩

end DialServer
