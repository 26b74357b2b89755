import DialServer.Registration
import DialServer.Lib.SlotList

/-!
# The list of applications, pointer by pointer

`find_app`, `register_app` and `unregister_app` as they run: on a heap of
applications linked through `next`, with a loop that carries the slot of the
application it looks at, and writes through the slot it ends with. The functions
of `DialServer.Server` do the same on a list and an index, and this file shows
that they lose nothing: the pointers never lead astray, and the list they lead
through is the one the list functions compute
(`DialServer.Linked.exists_runCalls`).

What follows for the registry is `DialServer.Linked.isOrderedMap_run`: after any
sequence of calls from the empty server, wherever `malloc` put the entries, the
list is a finite map from names to applications, in the order of registration.
-/

namespace DialServer.Linked

open CLib SlotList

/-! ### The functions -/

/-- The loop of `find_app`. -/
def findApp (s : Store DIALApp) (appName : CStr) : Option Slot :=
  s.find fun app => decide (appName = app.name)

/-- What the slot found points to. -/
def lookupApp (s : Store DIALApp) (appName : CStr) : Option (Option DIALApp) := do
  let ptr ← findApp s appName
  match ← s.get ptr with
  | none => some none
  | some a => (s.heap.lookup a).map fun app => some app.val

/-- `register_app`, with the dial data it reads back, and what it returns. -/
def registerApp (allocator : Allocator DIALApp) (s : Store DIALApp) (r : Registration)
    (dialData : List DIALData) : Option (Store DIALApp × ℕ) := do
  let ptr ← findApp s r.appName
  match ← s.get ptr with
  | some _ => some (s, 0) -- app already registered
  | none =>
    let s' ← s.link ptr (allocator.malloc s.heap) (newApp r dialData)
    some (s', 1)

/-- `unregister_app`, and what it returns. -/
def unregisterApp (s : Store DIALApp) (appName : CStr) : Option (Store DIALApp × ℕ) := do
  let ptr ← findApp s appName
  match ← s.get ptr with
  | none => some (s, 0) -- no such app
  | some _ =>
    let s' ← s.unlink ptr
    some (s', 1)

/-- One call. -/
def call (allocator : Allocator DIALApp) (s : Store DIALApp) :
    RegOp → Option (Store DIALApp × ℕ)
  | .register r dialData => registerApp allocator s r dialData
  | .unregister appName => unregisterApp s appName

/-- A sequence of calls from the empty server, each with the `malloc` it meets:
the list it leaves, and what the calls returned. -/
def runCalls (calls : List (RegOp × Allocator DIALApp)) : Option (Store DIALApp × List ℕ) :=
  calls.foldlM (fun (s, rets) (op, allocator) =>
    (call allocator s op).map fun (s', ret) => (s', rets ++ [ret])) (Store.empty, [])

/-! ### Single calls -/

variable {s : Store DIALApp} {cells : List (Addr × DIALApp)}

/-- The applications of a list of cells. -/
abbrev appsOf (cells : List (Addr × DIALApp)) : List DIALApp := cells.map Prod.snd

/-- **The loop ends at the slot of the index** that the search of the list
returns. -/
theorem findApp_eq (h : Represents s cells) (appName : CStr) :
    findApp s appName =
      some (slotAfter .head (cells.take (DialServer.findApp (appsOf cells) appName))) := by
  have hslot : DialServer.findApp (appsOf cells) appName =
      KeyedList.slot (fun cell : Addr × DIALApp => cell.2.name) cells appName := by
    rw [findApp_eq_slot]
    exact KeyedList.slot_map fun _ => rfl
  rw [findApp, h.find_eq, hslot, ← KeyedList.takeWhile_eq_take_slot]

/-- What is in the slot. -/
theorem get_findApp (h : Represents s cells) (appName : CStr) :
    s.get (slotAfter .head (cells.take (DialServer.findApp (appsOf cells) appName))) =
      some (cells[DialServer.findApp (appsOf cells) appName]?.map Prod.fst) := by
  rw [← List.head?_drop]
  exact Represents.get_slotAfter (by rwa [List.take_append_drop])

/-- The application at the index is the one the list functions find. -/
theorem lookupApp_appsOf (cells : List (Addr × DIALApp)) (appName : CStr) :
    DialServer.lookupApp (appsOf cells) appName =
      cells[DialServer.findApp (appsOf cells) appName]?.map Prod.snd := by
  rw [DialServer.lookupApp, List.getElem?_map]

/-- The cells, parted at the one found. -/
theorem split_of_getElem? {i : ℕ} {cell : Addr × DIALApp} (h : cells[i]? = some cell) :
    cells = cells.take i ++ cell :: cells.drop (i + 1) := by
  obtain ⟨hi, rfl⟩ := List.getElem?_eq_some_iff.mp h
  rw [List.getElem_cons_drop, List.take_append_drop]

theorem lookupApp_eq (h : Represents s cells) (appName : CStr) :
    lookupApp s appName = some (DialServer.lookupApp (appsOf cells) appName) := by
  rw [lookupApp, findApp_eq h, lookupApp_appsOf]
  simp only [Option.bind_eq_bind, Option.bind_some, get_findApp h]
  rcases hi : cells[DialServer.findApp (appsOf cells) appName]? with _ | ⟨a, app⟩
  · rfl
  · have hsplit := h
    rw [split_of_getElem? hi] at hsplit
    simp [hsplit.lookup_eq]

/-- Registering a name that is there changes nothing. -/
theorem registerApp_of_some (h : Represents s cells) (allocator : Allocator DIALApp)
    {r : Registration} {app : DIALApp} (dialData : List DIALData)
    (hl : DialServer.lookupApp (appsOf cells) r.appName = some app) :
    registerApp allocator s r dialData = some (s, 0) := by
  rw [lookupApp_appsOf, Option.map_eq_some_iff] at hl
  obtain ⟨cell, hi, -⟩ := hl
  rw [registerApp, findApp_eq h]
  simp [get_findApp h, hi]

/-- **Registering a new name appends one entry.** -/
theorem registerApp_of_none (h : Represents s cells) (allocator : Allocator DIALApp)
    {r : Registration} (dialData : List DIALData)
    (hl : DialServer.lookupApp (appsOf cells) r.appName = none) :
    ∃ s' a, registerApp allocator s r dialData = some (s', 1) ∧
      Represents s' (cells ++ [(a, newApp r dialData)]) := by
  rw [lookupApp_appsOf, Option.map_eq_none_iff] at hl
  have hend : cells.take (DialServer.findApp (appsOf cells) r.appName) = cells :=
    List.take_of_length_le (List.getElem?_eq_none_iff.mp hl)
  have hcells : Represents s (cells ++ []) := by rwa [List.append_nil]
  obtain ⟨s', hlink, hs'⟩ := hcells.link (allocator.fresh s.heap) (newApp r dialData)
  have hget := get_findApp h r.appName
  rw [hl, hend] at hget
  refine ⟨s', _, ?_, hs'⟩
  rw [registerApp, findApp_eq h, hend]
  simp [hget, hlink]

/-- Unregistering a name that is not there changes nothing. -/
theorem unregisterApp_of_none (h : Represents s cells) {appName : CStr}
    (hl : DialServer.lookupApp (appsOf cells) appName = none) :
    unregisterApp s appName = some (s, 0) := by
  rw [lookupApp_appsOf, Option.map_eq_none_iff] at hl
  rw [unregisterApp, findApp_eq h]
  simp [get_findApp h, hl]

/-- **Unregistering a name removes its entry.** -/
theorem unregisterApp_of_some (h : Represents s cells) {appName : CStr} {app : DIALApp}
    (hl : DialServer.lookupApp (appsOf cells) appName = some app) :
    ∃ s' pre a post, cells = pre ++ (a, app) :: post ∧
      unregisterApp s appName = some (s', 1) ∧ Represents s' (pre ++ post) ∧
      pre.length = DialServer.findApp (appsOf cells) appName := by
  rw [lookupApp_appsOf, Option.map_eq_some_iff] at hl
  obtain ⟨⟨a, app⟩, hi, rfl⟩ := hl
  have hsplit := h
  rw [split_of_getElem? hi] at hsplit
  obtain ⟨s', hunlink, hs'⟩ := hsplit.unlink
  refine ⟨s', _, a, _, split_of_getElem? hi, ?_, hs', ?_⟩
  · rw [unregisterApp, findApp_eq h]
    simp [get_findApp h, hi, hunlink]
  · rw [List.length_take_of_le (List.getElem?_eq_some_iff.mp hi).1.le]

/-- **One call does to the linked list what it does to the list**, and returns the
same. -/
theorem call_eq (h : Represents s cells) (allocator : Allocator DIALApp) (op : RegOp) :
    ∃ s' cells', call allocator s op = some (s', (regStep (appsOf cells) op).2) ∧
      Represents s' cells' ∧ appsOf cells' = (regStep (appsOf cells) op).1 := by
  cases op with
  | register r dialData =>
    rw [regStep, registerApps_eq]
    rcases hl : DialServer.lookupApp (appsOf cells) r.appName with _ | app
    · -- a free name: the scan ends at the last slot, and a cell is linked there
      obtain ⟨s', a, hcall, hs'⟩ := registerApp_of_none h allocator dialData hl
      refine ⟨s', _, hcall, hs', ?_⟩
      rw [DialServer.lookupApp_eq] at hl
      rw [KeyedList.insertNew_of_none (by exact hl)]
      simp
    · refine ⟨s, cells, registerApp_of_some h allocator dialData hl, h, ?_⟩
      rw [DialServer.lookupApp_eq] at hl
      rw [KeyedList.insertNew_of_some (by exact hl)]
  | unregister appName =>
    rw [regStep, unregisterApps_eq]
    rcases hl : DialServer.lookupApp (appsOf cells) appName with _ | app
    · refine ⟨s, cells, unregisterApp_of_none h hl, h, ?_⟩
      rw [DialServer.lookupApp_eq] at hl
      rw [KeyedList.remove_of_none hl]
    · -- the cell found is unlinked and freed
      obtain ⟨s', pre, a, post, hcells, hcall, hs', hpre⟩ := unregisterApp_of_some h hl
      refine ⟨s', _, hcall, hs', ?_⟩
      rw [KeyedList.remove, ← findApp_eq_slot, ← hpre, hcells]
      simp [List.eraseIdx_append_of_length_le]

/-! ### Sequences of calls -/

/-- **No sequence of calls goes astray**: it leaves the list of
`DialServer.runApps`, and each call returned what the call on lists returns. -/
theorem exists_runCalls (calls : List (RegOp × Allocator DIALApp)) :
    ∃ s rets cells, runCalls calls = some (s, rets) ∧ Represents s cells ∧
      appsOf cells = runApps (calls.map Prod.fst) ∧ rets.length = calls.length ∧
      ∀ t, rets[t]? = retAt (calls.map Prod.fst) t := by
  induction calls using List.reverseRecOn with
  | nil => exact ⟨Store.empty, [], [], rfl, represents_empty, rfl, rfl, fun _ => rfl⟩
  | append_singleton calls last ih =>
    -- one more call, on what the calls before it have left
    obtain ⟨op, allocator⟩ := last
    obtain ⟨s, rets, cells, hrun, hs, happs, hlen, hrets⟩ := ih
    obtain ⟨s', cells', hcall, hs', happs'⟩ := call_eq hs allocator op
    rw [happs] at hcall happs'
    refine ⟨s', rets ++ [(regStep (runApps (calls.map Prod.fst)) op).2], cells', ?_, hs', ?_,
      by simpa using hlen, fun t => ?_⟩
    · rw [runCalls, List.foldlM_append, ← runCalls, hrun]
      simp only [Option.bind_eq_bind, Option.bind_some, List.foldlM_cons, List.foldlM_nil, hcall,
        Option.map_some, Option.pure_def]
    · rw [List.map_append, List.map_singleton, runApps_append_singleton, happs']
    · rw [List.map_append, List.map_singleton, retAt]
      rcases lt_trichotomy t calls.length with ht | rfl | ht
      · rw [List.getElem?_append_left (by omega), hrets, retAt,
          List.getElem?_append_left (by simpa using ht),
          List.take_append_of_le_length (by simpa using ht.le)]
      · rw [← hlen, List.getElem?_concat_length, hlen]
        simp
      · rw [List.getElem?_eq_none_iff.mpr (by simp; omega),
          List.getElem?_eq_none_iff.mpr (by simp; omega)]
        rfl

/-- **An insertion-ordered finite map**: what the server keeps after some calls
that returned `rets`, in the cells it reaches from `apps`. -/
structure IsOrderedMap (calls : List RegOp) (rets : List ℕ) (s : Store DIALApp)
    (cells : List (Addr × DIALApp)) : Prop where
  /-- The traversal goes through these cells, and through no others. -/
  reached : Represents s cells
  /-- The names are distinct. -/
  distinct : NamesDistinct (appsOf cells)
  /-- What the calls returned. -/
  returned : ∀ t, rets[t]? = retAt calls t
  /-- The entries are in the order of the registrations that made them. -/
  ordered : ∃ stamps : List ℕ, stamps.Pairwise (· < ·) ∧
    List.Forall₂ (fun t cell => ∃ r dialData, cell.2 = newApp r dialData ∧
      CurrentRegistration calls cell.2.name t r dialData) stamps cells
  /-- A new name is appended, and the call returns 1. -/
  register_absent : ∀ allocator r dialData, r.appName ∉ (appsOf cells).map DIALApp.name →
    ∃ s' a, registerApp allocator s r dialData = some (s', 1) ∧
      Represents s' (cells ++ [(a, newApp r dialData)])
  /-- A name that is there is refused with 0. -/
  register_present : ∀ allocator r dialData, r.appName ∈ (appsOf cells).map DIALApp.name →
    registerApp allocator s r dialData = some (s, 0)
  /-- A name that is there is removed, and the call returns 1. -/
  unregister_present : ∀ appName ∈ (appsOf cells).map DIALApp.name,
    ∃ s' pre a app post, cells = pre ++ (a, app) :: post ∧ app.name = appName ∧
      unregisterApp s appName = some (s', 1) ∧ Represents s' (pre ++ post)
  /-- A name that is not there is refused with 0. -/
  unregister_absent : ∀ appName ∉ (appsOf cells).map DIALApp.name,
    unregisterApp s appName = some (s, 0)
  /-- A name with a current registration leads to what was registered. -/
  lookup_current : ∀ appName t r dialData, CurrentRegistration calls appName t r dialData →
    ∃ app, lookupApp s appName = some (some app) ∧ app.name = appName ∧
      app.callbacks = r.callbacks ∧ app.callbackData = r.userData ∧
      app.useAdditionalData = r.useAdditionalData
  /-- A name without one leads nowhere. -/
  lookup_absent : ∀ appName, (∀ t r dialData, ¬ CurrentRegistration calls appName t r dialData) →
    lookupApp s appName = some none

/-- The entries a sequence of calls leaves, dated. -/
theorem exists_stamps_runApps (calls : List RegOp) :
    ∃ stamps : List ℕ, stamps.Pairwise (· < ·) ∧
      List.Forall₂ (fun t app => ∃ r dialData, app = newApp r dialData ∧
        CurrentRegistration calls app.name t r dialData) stamps (runApps calls) := by
  obtain ⟨stamps, hrun, hsorted, hlive⟩ :=
    KeyedList.exists_stamps DIALApp.name (calls.map RegOp.toOp)
  refine ⟨stamps.map Prod.fst, List.pairwise_map.mpr hsorted, ?_⟩
  rw [runApps_eq, ← hrun, List.forall₂_map_left_iff, List.forall₂_map_right_iff,
    List.forall₂_same]
  exact fun p hp => live_iff.mp (hlive p hp)

/-- **The registry is an insertion-ordered finite map** after every sequence of
calls from the empty server. -/
theorem isOrderedMap_run (calls : List (RegOp × Allocator DIALApp)) :
    ∃ s rets cells, runCalls calls = some (s, rets) ∧
      IsOrderedMap (calls.map Prod.fst) rets s cells := by
  obtain ⟨s, rets, cells, hrun, hs, happs, -, hrets⟩ := exists_runCalls calls
  have habsent : ∀ appName, appName ∉ (appsOf cells).map DIALApp.name ↔
      DialServer.lookupApp (appsOf cells) appName = none := fun appName => by
    rw [DialServer.lookupApp_eq, KeyedList.lookup_eq_none]
  have hpresent : ∀ appName ∈ (appsOf cells).map DIALApp.name,
      ∃ app, DialServer.lookupApp (appsOf cells) appName = some app := fun appName hmem => by
    rw [← Option.ne_none_iff_exists']
    exact fun hc => (habsent appName).mpr hc hmem
  refine ⟨s, rets, cells, hrun, hs, ?_, hrets, ?_, ?_, ?_, ?_, ?_, ?_, ?_⟩
  · rw [happs]
    exact namesDistinct_runApps _
  · -- each entry is dated by the call that made it
    obtain ⟨stamps, hsorted, hdated⟩ := exists_stamps_runApps (calls.map Prod.fst)
    rw [← happs, List.forall₂_map_right_iff] at hdated
    exact ⟨stamps, hsorted, hdated⟩
  · intro allocator r dialData hr
    exact registerApp_of_none hs allocator dialData ((habsent _).mp hr)
  · intro allocator r dialData hr
    obtain ⟨app, hl⟩ := hpresent _ hr
    exact registerApp_of_some hs allocator dialData hl
  · intro appName hmem
    obtain ⟨app, hl⟩ := hpresent _ hmem
    obtain ⟨s', pre, a, post, hcells, hcall, hs', -⟩ := unregisterApp_of_some hs hl
    exact ⟨s', pre, a, app, post, hcells, name_of_lookupApp hl, hcall, hs'⟩
  · intro appName hmem
    exact unregisterApp_of_none hs ((habsent _).mp hmem)
  · intro appName t r dialData hcurrent
    have hl : DialServer.lookupApp (appsOf cells) appName = some (newApp r dialData) := by
      rw [happs]
      exact lookupApp_run_iff.mpr ⟨t, r, dialData, rfl, hcurrent⟩
    exact ⟨newApp r dialData, by rw [lookupApp_eq hs, hl], hcurrent.name, rfl, rfl, rfl⟩
  · intro appName hnone
    rw [lookupApp_eq hs, Option.some.injEq, Option.eq_none_iff_forall_ne_some]
    intro app hl
    rw [happs] at hl
    obtain ⟨t, r, dialData, -, hcurrent⟩ := lookupApp_run_iff.mp hl
    exact hnone t r dialData hcurrent

end DialServer.Linked
