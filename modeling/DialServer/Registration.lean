import DialServer.Origin

/-!
# Runs of registrations

Sequences of calls of `register_app` and `unregister_app`, from the empty server.
The list they leave is a run of a keyed list, so what `DialServer.Lib.KeyedList`
proves about runs holds of it: names are distinct, and a lookup finds the entry of
the last registration of the name that returned 1, if no later call took the name
away (`DialServer.lookupApp_run_iff`).

Each call of `register_app` comes with the dial data read back for it, whatever
that is: nothing below depends on it.
-/

namespace DialServer

open CLib

/-- One call. -/
inductive RegOp
  /-- `register_app`, with the dial data read back. -/
  | register (r : Registration) (dialData : List DIALData)
  /-- `unregister_app`. -/
  | unregister (appName : CStr)
  deriving DecidableEq

/-- The call as an operation on a keyed list. -/
def RegOp.toOp : RegOp → KeyedList.Op DIALApp CStr
  | .register r dialData => .insert (newApp r dialData)
  | .unregister appName => .remove appName

/-- What a call does, and what it returns. -/
def regStep (apps : List DIALApp) : RegOp → List DIALApp × ℕ
  | .register r dialData => registerApps apps r dialData
  | .unregister appName => unregisterApps apps appName

/-- What a sequence of calls leaves, from the empty server. -/
def runApps (ops : List RegOp) : List DIALApp :=
  ops.foldl (fun apps op => (regStep apps op).1) []

/-- What the call at the moment `t` of a sequence returned. -/
def retAt (ops : List RegOp) (t : ℕ) : Option ℕ :=
  ops[t]?.map fun op => (regStep (runApps (ops.take t)) op).2

/-- **The registration a name has**: it was made by a call that returned 1, and
the name was not unregistered later. -/
structure CurrentRegistration (ops : List RegOp) (appName : CStr) (t : ℕ) (r : Registration)
    (dialData : List DIALData) : Prop where
  /-- The call. -/
  call : ops[t]? = some (.register r dialData)
  /-- It was made for the name. -/
  name : r.appName = appName
  /-- It returned 1. -/
  ret : retAt ops t = some 1
  /-- The name was not unregistered later. -/
  kept : ∀ t', t < t' → ops[t']? ≠ some (.unregister appName)

theorem regStep_fst (apps : List DIALApp) (op : RegOp) :
    (regStep apps op).1 = KeyedList.step DIALApp.name apps op.toOp := by
  cases op with
  | register r dialData => rw [regStep, registerApps_eq, RegOp.toOp, KeyedList.step]
  | unregister appName => rw [regStep, unregisterApps_eq, RegOp.toOp, KeyedList.step]

/-- A sequence of calls is a run of a keyed list. -/
theorem runApps_eq (ops : List RegOp) :
    runApps ops = KeyedList.run DIALApp.name (ops.map RegOp.toOp) := by
  rw [runApps, KeyedList.run, List.foldl_map]
  exact congrArg (fun f => ops.foldl f []) (funext fun apps => funext fun op => regStep_fst apps op)

theorem runApps_append_singleton (ops : List RegOp) (op : RegOp) :
    runApps (ops ++ [op]) = (regStep (runApps ops) op).1 := by
  rw [runApps, List.foldl_append]
  rfl

/-- **Names are distinct after any sequence of calls.** -/
theorem namesDistinct_runApps (ops : List RegOp) : NamesDistinct (runApps ops) := by
  rw [runApps_eq]
  exact KeyedList.distinct_run _

/-- A registration returns 1 exactly when the name was not there. -/
theorem retAt_register {ops : List RegOp} {t : ℕ} {r : Registration} {dialData : List DIALData}
    (hcall : ops[t]? = some (.register r dialData)) :
    retAt ops t = some 1 ↔
      KeyedList.lookup DIALApp.name (runApps (ops.take t)) r.appName = none := by
  rw [retAt, hcall, Option.map_some, regStep, registerApps_eq, lookupApp_eq, Option.some.injEq]
  split <;> simp_all

/-- A name is unregistered when its key is removed. -/
theorem toOp_eq_remove {ops : List RegOp} {t : ℕ} {appName : CStr} :
    (ops.map RegOp.toOp)[t]? = some (.remove appName) ↔ ops[t]? = some (.unregister appName) := by
  rw [List.getElem?_map, Option.map_eq_some_iff]
  constructor
  · rintro ⟨op, hop, hremove⟩
    cases op with
    | register r dialData => exact absurd hremove (by simp [RegOp.toOp])
    | unregister name => rw [hop, KeyedList.Op.remove.inj hremove]
  · exact fun h => ⟨_, h, rfl⟩

/-- A name is registered when an entry made for it is inserted. -/
theorem toOp_eq_insert {ops : List RegOp} {t : ℕ} {app : DIALApp} :
    (ops.map RegOp.toOp)[t]? = some (.insert app) ↔
      ∃ r dialData, app = newApp r dialData ∧ ops[t]? = some (.register r dialData) := by
  rw [List.getElem?_map, Option.map_eq_some_iff]
  constructor
  · rintro ⟨op, hop, hinsert⟩
    cases op with
    | register r dialData => exact ⟨r, dialData, (KeyedList.Op.insert.inj hinsert).symm, hop⟩
    | unregister name => exact absurd hinsert (by simp [RegOp.toOp])
  · rintro ⟨r, dialData, rfl, hop⟩
    exact ⟨_, hop, rfl⟩

/-- A live entry of the run is the current registration of its name. -/
theorem live_iff {ops : List RegOp} {t : ℕ} {app : DIALApp} :
    KeyedList.Live DIALApp.name (ops.map RegOp.toOp) t app ↔
      ∃ r dialData, app = newApp r dialData ∧
        CurrentRegistration ops app.name t r dialData := by
  have hrun : KeyedList.run DIALApp.name ((ops.map RegOp.toOp).take t) =
      runApps (ops.take t) := by
    rw [runApps_eq, List.map_take]
  constructor
  · rintro ⟨hins, habs, hkeep⟩
    obtain ⟨r, dialData, rfl, hcall⟩ := toOp_eq_insert.mp hins
    rw [hrun] at habs
    refine ⟨r, dialData, rfl, hcall, rfl, (retAt_register hcall).mpr habs, fun t' ht' hc => ?_⟩
    exact hkeep t' ht' (toOp_eq_remove.mpr hc)
  · rintro ⟨r, dialData, rfl, hcall, -, hone, hkeep⟩
    refine ⟨toOp_eq_insert.mpr ⟨r, dialData, rfl, hcall⟩, ?_, fun t' ht' hc => ?_⟩
    · rw [hrun]
      exact (retAt_register hcall).mp hone
    · exact hkeep t' ht' (toOp_eq_remove.mp hc)

/-- **A lookup finds the current registration of the name.** -/
theorem lookupApp_run_iff {ops : List RegOp} {appName : CStr} {app : DIALApp} :
    lookupApp (runApps ops) appName = some app ↔
      ∃ t r dialData, app = newApp r dialData ∧
        CurrentRegistration ops appName t r dialData := by
  rw [lookupApp_eq, runApps_eq, KeyedList.lookup_run_eq_some]
  constructor
  · rintro ⟨rfl, t, hlive⟩
    obtain ⟨r, dialData, happ, hcurrent⟩ := live_iff.mp hlive
    exact ⟨t, r, dialData, happ, hcurrent⟩
  · rintro ⟨t, r, dialData, rfl, hcurrent⟩
    obtain rfl := hcurrent.name
    exact ⟨rfl, t, live_iff.mpr ⟨r, dialData, rfl, hcurrent⟩⟩

end DialServer
