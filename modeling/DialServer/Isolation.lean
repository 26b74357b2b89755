import DialServer.Registration
import DialServer.Routing

/-!
# Isolation

The worlds a server can get into: applications come and go, and requests are
served. Names stay distinct in all of them (`Reachable.namesDistinct`), so the
three ways the server looks an application up – the traversal of `find_app`, the
scan of `is_allowed_origin` and `get_payload` – mean the same entry, and a request
for one application leaves all the others alone (`DialServer.isolation`).
-/

namespace DialServer

open CLib

variable {σ : Type}

/-- **The worlds a server can get into**, from a start without applications. -/
inductive Reachable (H : Host σ) : World σ → Prop
  /-- The server starts empty, whatever is on the disk. -/
  | empty (files : Files) (host : σ) (port : UInt16) (dir : CharArray 256) :
    Reachable H ⟨[], files, host, port, dir⟩
  /-- An application is registered, or found registered. -/
  | register {w w' : World σ} {r : Registration} {ret : ℕ} :
    Reachable H w → registerApp w r = .ok (w', ret) → Reachable H w'
  /-- An application is unregistered, or found missing. -/
  | unregister {w : World σ} (appName : CStr) :
    Reachable H w → Reachable H (unregisterApp w appName).1
  /-- A request is served, and the process survives. -/
  | request {w : World σ} (r : MgRequest) :
    Reachable H w → (requestHandler H w r).halt = none → Reachable H (requestHandler H w r).world

variable {H : Host σ} {w : World σ}

theorem namesDistinct_requestHandler (r : MgRequest) (hd : NamesDistinct w.apps) :
    NamesDistinct (requestHandler H w r).world.apps := by
  -- the name is that of the route, if there is one, and any name otherwise
  have hacts : ActsOn w (requestHandler H w r) (r.route.target.getD .nil) :=
    actsOn_requestHandler fun Y hY => by rw [hY, Option.getD_some]
  exact hacts.namesDistinct hd

/-- **Names are distinct in every world the server gets into.** -/
theorem Reachable.namesDistinct (h : Reachable H w) : NamesDistinct w.apps := by
  induction h with
  | empty files host port dir => exact List.nodup_nil
  | register hw hreg ih =>
    obtain ⟨dialData, happs⟩ := registerApp_apps hreg
    rw [registerApps_eq] at happs
    rw [(Prod.mk.inj happs).1]
    exact KeyedList.distinct_insertNew ih _
  | unregister appName hw ih => exact namesDistinct_unregisterApp ih appName
  | request r hw hup ih => exact namesDistinct_requestHandler r ih

/-- The three ways of looking a name up mean the same entry: `get_payload` hands
out its payload, and `is_allowed_origin` asks its list. -/
def LookupsAgree (w : World σ) (name : CStr) : Prop :=
  (∀ app, lookupApp w.apps name = some app →
    getPayload w.apps name = some app.payload ∧
      ∀ origin, HasCheckedProto origin →
        (isAllowedOrigin w.apps (some origin) name = true ↔ CorsAllows app origin)) ∧
  (lookupApp w.apps name = none →
    getPayload w.apps name = none ∧
      ∀ origin, HasCheckedProto origin → isAllowedOrigin w.apps (some origin) name = false)

theorem Reachable.lookupsAgree (h : Reachable H w) (name : CStr) : LookupsAgree w name := by
  refine ⟨fun app happ => ⟨?_, fun origin horigin => ?_⟩,
    fun hnone => ⟨?_, fun origin horigin => ?_⟩⟩
  · rw [getPayload, happ, Option.map_some]
  · rw [isAllowedOrigin_of_checked horigin]
    exact originScan_of_lookup h.namesDistinct happ
  · rw [getPayload, hnone, Option.map_none]
  · rw [isAllowedOrigin_of_checked horigin]
    exact originScan_of_lookup_none hnone

/-- **A request to one application leaves every other one alone**: in every world
the server gets into, no callback of another application is called, its entry is
the same and in the same place, and so is its file. And all lookups of a name
agree. -/
theorem isolation (h : Reachable H w) :
    (∀ (r : MgRequest) (X Y : CStr) (app : DIALApp), r.route.target = some X →
      lookupApp w.apps Y = some app → Y ≠ X →
        (∀ call ∈ (requestHandler H w r).calls, call.owner ≠ Y) ∧
        lookupApp (requestHandler H w r).world.apps Y = some app ∧
        findApp (requestHandler H w r).world.apps Y = findApp w.apps Y ∧
        (requestHandler H w r).world.files (getAppPath w.dialDataDir Y) =
          w.files (getAppPath w.dialDataDir Y)) ∧
    ∀ name, LookupsAgree w name := by
  refine ⟨fun r X Y app hX hY hne => ?_, h.lookupsAgree⟩
  have hacts : ActsOn w (requestHandler H w r) X :=
    actsOn_requestHandler fun Z hZ => Option.some.inj (hZ.symm.trans hX)
  refine ⟨fun call hcall hc => ?_, ?_, hacts.findApp_eq Y, ?_⟩
  · exact hne (hc.symm.trans (hacts.owners call hcall))
  · rw [hacts.lookupApp_of_ne hne, hY]
  · exact hacts.files _ fun hc => hne (getAppPath_injective _ hc)

/-- A registration of the default kind. -/
def plain (appName : CStr) : Registration := ⟨appName, ⟨0, 0, 0, 0⟩, 0, 0, none⟩

/-- A server with YouTube and Netflix registered. -/
def twoApps : World Unit :=
  { probeWorld .nil with apps := [newApp (plain (.lit "YouTube")) [],
      newApp (plain (.lit "Netflix")) []] }

theorem reachable_twoApps : Reachable probeHost twoApps := by
  have hempty : Reachable probeHost { twoApps with apps := [] } := .empty _ _ _ _
  have hfirst : registerApp { twoApps with apps := [] } (plain (.lit "YouTube")) =
      .ok ({ twoApps with apps := [newApp (plain (.lit "YouTube")) []] }, 1) := rfl
  have hsecond : registerApp { twoApps with apps := [newApp (plain (.lit "YouTube")) []] }
      (plain (.lit "Netflix")) = .ok (twoApps, 1) := rfl
  exact (hempty.register hfirst).register hsecond

/-- Launching YouTube leaves Netflix alone. -/
theorem isolation_twoApps :
    let r := probeRequest (.lit "POST") (.lit "/apps/YouTube")
    (∀ call ∈ (requestHandler probeHost twoApps r).calls, call.owner ≠ .lit "Netflix") ∧
      lookupApp (requestHandler probeHost twoApps r).world.apps (.lit "Netflix") =
        some (newApp (plain (.lit "Netflix")) []) ∧
      findApp (requestHandler probeHost twoApps r).world.apps (.lit "Netflix") =
        findApp twoApps.apps (.lit "Netflix") ∧
      (requestHandler probeHost twoApps r).world.files
          (getAppPath twoApps.dialDataDir (.lit "Netflix")) =
        twoApps.files (getAppPath twoApps.dialDataDir (.lit "Netflix")) := by
  have hroute : (probeRequest (.lit "POST") (.lit "/apps/YouTube")).route =
      .act .start (.kept (.lit "YouTube")) :=
    route_app (X := .lit "YouTube") (by decide) (by decide)
  exact (isolation reachable_twoApps).1 _ (.lit "YouTube") (.lit "Netflix") _
    (by rw [hroute, Route.target, AppName.kept_str]) rfl (by decide)

end DialServer
