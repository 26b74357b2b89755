import DialServer.Routing

/-!
# The name in a dial data URI

What reaches the branch for `/dial_data` (`DialServer.ReachesDialData`) has its name cut
out by `parse_app_name`, and the pointer that returns is freed at the end of the
branch. The name should be what stands between the last two slashes, or in front of
the only one.

The backward scan for the slash in front of the name stops at the start of the URI
too, and goes on as if a slash stood there; and where the last slash is itself the
start, a string literal is returned. So `DialServer.parseAppName` is right just on the
URIs with two slashes (`DialServer.namesComponent_iff`).
-/

namespace DialServer

open CLib

/-- The URIs the first three branches leave to the one for `/dial_data`. -/
structure ReachesDialData (uri : CStr) : Prop where
  contains : dialDataUri.bytes <:+: uri.bytes
  not_run : ¬runUri.bytes <:+ uri.bytes
  not_app : ¬IsAppUri uri
  not_hide : ¬hideUri.bytes <:+ uri.bytes

/-- The request comes from the host the server runs on. -/
def MgRequest.IsLocal (r : MgRequest) : Prop :=
  (inetNtop r.remoteAddr).eqN gLocalhost gLocalhost.strlen = true

instance (r : MgRequest) : Decidable r.IsLocal := inferInstanceAs (Decidable (_ = true))

/-- What is done with the name in the branch for `/dial_data`. -/
def actOnDialData {σ : Type} (H : Host σ) (w : World σ) (r : MgRequest) (appName : CStr) :
    Outcome σ :=
  if r.requestMethod = .lit "OPTIONS" then
    optionsResponse w r.host r.origin appName (.lit "POST, OPTIONS")
  else handleDialData H w r appName r.origin (r.requestMethod = .lit "POST")

/-- **The branch uses the name and frees it.** -/
theorem requestHandler_dialData_of_local {σ : Type} (H : Host σ) (w : World σ) {r : MgRequest}
    (h : ReachesDialData r.uri) (hlocal : r.IsLocal) :
    requestHandler H w r =
      freeAppName (parseAppName (some r.uri))
        (actOnDialData H w r (parseAppName (some r.uri)).str) := by
  rw [requestHandler_eq, MgRequest.route, route_dialData h.not_run h.not_app h.not_hide,
    if_pos h.contains, if_pos (show _ = true from hlocal), actOnDialData]
  split
  · rw [perform]
  · rw [perform, if_neg (fun hc => absurd hc.1 (by simp [Action.guarded])), handle]

/-- The name is the component in front of the last slash: what stands between it and the
slash before, or the start of the URI when there is none. -/
def IsNameOf (X uri : CStr) : Prop :=
  ∃ last : CStr, '/'.toUInt8 ∉ last.bytes ∧ '/'.toUInt8 ∉ X.bytes ∧
    (uri = X ++ .lit "/" ++ last ∨ ∃ front : CStr, uri = front ++ .lit "/" ++ X ++ .lit "/" ++ last)

/-- **The name in a URI is what it should be**: it was allocated, so that freeing it has
no further effect, and it is the right component. -/
structure NamesComponent (uri : CStr) : Prop where
  allocated : (parseAppName (some uri)).onHeap = true
  freed : ∀ {σ : Type} (H : Host σ) (w : World σ) (r : MgRequest), r.uri = uri → r.IsLocal →
    requestHandler H w r = actOnDialData H w r (parseAppName (some uri)).str
  spells : IsNameOf (parseAppName (some uri)).str uri

/-! ### Slashes -/

/-- A URI with a slash, cut at its last one. -/
theorem exists_lastSlash {uri : CStr} (h : '/'.toUInt8 ∈ uri.bytes) :
    ∃ front last : CStr, uri = front ++ .lit "/" ++ last ∧ '/'.toUInt8 ∉ last.bytes := by
  obtain ⟨as, bs, heq, has⟩ := List.eq_append_cons_of_mem (List.mem_reverse.mpr h)
  have huri : uri.bytes = bs.reverse ++ '/'.toUInt8 :: as.reverse := by
    rw [← List.reverse_reverse uri.bytes, heq]
    simp
  have hpart : ∀ l : List UInt8, (∀ c ∈ l, c ∈ uri.bytes) → ∃ t : CStr, t.bytes = l :=
    fun l hl => ⟨⟨l, fun hzero => uri.nul_free (hl 0 hzero)⟩, rfl⟩
  obtain ⟨front, hfront⟩ := hpart bs.reverse fun c hc => by
    rw [huri]
    exact List.mem_append_left _ hc
  obtain ⟨last, hlast⟩ := hpart as.reverse fun c hc => by
    rw [huri]
    exact List.mem_append_right _ (List.mem_cons_of_mem _ hc)
  refine ⟨front, last, CStr.ext ?_, by rwa [hlast, List.mem_reverse]⟩
  rw [huri, CStr.bytes_append, CStr.bytes_append, hfront, hlast,
    show (CStr.lit "/").bytes = ['/'.toUInt8] by decide, List.append_assoc, List.singleton_append]

theorem count_slash_append (front last : CStr) :
    (front ++ .lit "/" ++ last).bytes.count '/'.toUInt8 =
      front.bytes.count '/'.toUInt8 + 1 + last.bytes.count '/'.toUInt8 := by
  simp only [CStr.bytes_append, List.count_append]
  rfl

/-! ### The name -/

section Name

variable {uri front last : CStr}

/-- The last slash is the first byte: there is no name. -/
theorem parseAppName_of_nil (hlast : '/'.toUInt8 ∉ last.bytes) :
    parseAppName (some (.nil ++ .lit "/" ++ last)) =
      ⟨.lit "unknown", false, false⟩ := by
  have hslash : strrchr (.nil ++ .lit "/" ++ last : CStr).bytes '/'.toUInt8 = some 0 :=
    strrchr_append_cons [] last.bytes hlast
  rw [parseAppName]
  simp only [hslash]

/-- No slash stands in front of the last one: the name is one byte short. -/
theorem strlen_parseAppName_lt (hne : front ≠ .nil) (hlast : '/'.toUInt8 ∉ last.bytes) :
    (parseAppName (some (front ++ .lit "/" ++ last))).str.strlen < front.strlen := by
  have hpos : 0 < front.bytes.length := List.length_pos_iff.mpr fun h => hne (CStr.ext h)
  obtain ⟨n, hn⟩ : ∃ n, front.bytes.length = n + 1 := ⟨_, (Nat.sub_add_cancel hpos).symm⟩
  have hslash : strrchr (front ++ .lit "/" ++ last).bytes '/'.toUInt8 = some (n + 1) := by
    rw [← hn, CStr.bytes_append, CStr.bytes_append, List.append_assoc]
    exact strrchr_append_cons front.bytes last.bytes hlast
  rw [parseAppName]
  simp only [hslash]
  have hlen : front.strlen = n + 1 := hn
  rw [CStr.strlen_take, hlen]
  omega

/-- With one slash the name is a literal, or is short. -/
theorem not_namesComponent (hfront : '/'.toUInt8 ∉ front.bytes) (hlast : '/'.toUInt8 ∉ last.bytes) :
    ¬NamesComponent (front ++ .lit "/" ++ last) := by
  intro h
  by_cases hne : front = .nil
  · rw [hne] at h
    exact absurd h.allocated (by rw [parseAppName_of_nil hlast]; decide)
  · have hshort := strlen_parseAppName_lt hne hlast
    have hslash : (CStr.lit "/").bytes = ['/'.toUInt8] := by decide
    obtain ⟨last', hlast', -, heq | ⟨front', heq⟩⟩ := h.spells
    · have hname : front.bytes = (parseAppName (some (front ++ .lit "/" ++ last))).str.bytes := by
        have hbytes := congrArg CStr.bytes heq
        simp only [CStr.bytes_append, hslash, List.append_assoc, List.singleton_append] at hbytes ⊢
        exact (append_cons_inj hlast hlast' hbytes).1
      rw [CStr.strlen, CStr.strlen, ← hname] at hshort
      exact lt_irrefl _ hshort
    · -- the other form has two slashes
      have hcount := congrArg (fun u : CStr => u.bytes.count '/'.toUInt8) heq
      simp only [CStr.bytes_append, List.count_append,
        List.count_eq_zero.mpr hfront, List.count_eq_zero.mpr hlast, hslash,
        List.count_singleton_self] at hcount
      omega

end Name

/-- **The name in a dial data URI is right, and can be freed**, just if the URI has two
slashes. -/
theorem namesComponent_iff (uri : CStr) (h : ReachesDialData uri) :
    NamesComponent uri ↔ 2 ≤ uri.bytes.count '/'.toUInt8 := by
  have hslash : '/'.toUInt8 ∈ uri.bytes := h.contains.mem (by decide)
  obtain ⟨front, last, huri, hlast⟩ := exists_lastSlash hslash
  have hcount : uri.bytes.count '/'.toUInt8 = front.bytes.count '/'.toUInt8 + 1 := by
    rw [huri, count_slash_append, List.count_eq_zero.mpr hlast]
  by_cases hfront : '/'.toUInt8 ∈ front.bytes
  · obtain ⟨front', X, rfl, hX⟩ := exists_lastSlash hfront
    have hname : parseAppName (some uri) = .kept X := by rw [huri, parseAppName_eq hX hlast]
    have hpos : 0 < (front' ++ .lit "/" ++ X).bytes.count '/'.toUInt8 :=
      List.count_pos_iff.mpr hfront
    refine iff_of_true ⟨by rw [hname]; rfl, ?_, ?_⟩ (by omega)
    · rintro σ H w r rfl hlocal
      rw [requestHandler_dialData_of_local H w h hlocal, hname, freeAppName_kept]
    · rw [hname]
      exact ⟨last, hlast, hX, Or.inr ⟨front', huri⟩⟩
  · rw [hcount, List.count_eq_zero.mpr hfront, huri]
    exact iff_of_false (not_namesComponent hfront hlast) (by omega)

/-- The dial data of YouTube. -/
theorem namesComponent_youTube :
    NamesComponent (.lit "/apps/YouTube/dial_data") ↔
      2 ≤ (CStr.lit "/apps/YouTube/dial_data").bytes.count '/'.toUInt8 :=
  namesComponent_iff _ ⟨by decide, by decide, not_isAppUri (.lit "YouTube/dial_data") (by decide),
    by decide⟩

/-- `/dial_data` reaches the branch, and a literal is freed. -/
theorem not_namesComponent_dialData :
    ReachesDialData (.lit "/dial_data") ∧ ¬NamesComponent (.lit "/dial_data") ∧
      (requestHandler probeHost (probeWorld .nil)
        (probeRequest (.lit "OPTIONS") (.lit "/dial_data"))).halt = some (.fault .badFree) := by
  have hreaches : ReachesDialData (.lit "/dial_data") := by
    refine ⟨by decide, by decide, ?_, by decide⟩
    rw [← isAppUri_iff]
    decide
  have hnot : ¬NamesComponent (.nil ++ .lit "/" ++ .lit "dial_data") :=
    not_namesComponent (by decide) (by decide)
  have hhandler := requestHandler_dialData_of_local probeHost (probeWorld .nil)
    (r := probeRequest (.lit "OPTIONS") (.lit "/dial_data")) hreaches (by decide)
  refine ⟨hreaches, hnot, ?_⟩
  rw [hhandler]
  rfl

end DialServer
