import DialServer.Router

/-!
# Cutting the name out of a URI

What the tests of the router decide and what the two fixed-offset copies cut out,
for URIs of every length. A comparison with the end of the URI starts at
`uri + strlen(uri) - 4`, which is an address inside the URI only if it is long
enough; a copy starts at `strlen("/apps/")` and its length is an unsigned
difference, so it wraps around when the URI is shorter than its fixed parts.

`DialServer.ExtractionSafe` collects the four facts the code relies on, for the
comparisons and the copy a URI leads to, in the arithmetic of the code.
`DialServer.extractionSafe_iff_safeLengths` settles for which URIs they hold – a
matter of length and ending alone.

What happens to the others is less than that. A comparison that starts in front of the URI
fails on the NUL that stands there (`DialServer.uriEndsWith_eq_true`), and a name of 256
bytes fills its array without leaving it. `DialServer.exists_route_eq_crash` says for which
URIs the router itself does not get past the copy.
-/

namespace DialServer

open CLib

/-! ### The tests -/

/-- What stands in front of a URI ends with a NUL. -/
theorem exists_drop_bufferFront (method : CStr) {k : ℕ} (h : k < (bufferFront method).length) :
    ∃ front, (bufferFront method).drop k = front ++ [0] := by
  have hlast : bufferFront method = (0 :: method.bytes) ++ [0] := rfl
  have hlen : (bufferFront method).length = (0 :: method.bytes).length + 1 := by
    rw [hlast, List.length_append, List.length_singleton]
  refine ⟨(0 :: method.bytes).drop k, ?_⟩
  rw [hlast, List.drop_append_of_le_length (by omega)]

/-- **The comparison decides whether the text is the end of the URI**, for a URI that is too
short as well: the text reaches over the NUL in front of it. -/
theorem uriEndsWith_eq_true {method uri text : CStr} :
    uriEndsWith method uri text = true ↔ text.bytes <:+ uri.bytes := by
  have hbuffer : (bufferFront method ++ uri.bytes).length =
      (bufferFront method).length + uri.strlen := List.length_append
  simp only [uriEndsWith]
  rw [CStr.eqN_strlen, hbuffer]
  rcases Nat.lt_or_ge uri.strlen text.strlen with hlt | hle
  · obtain ⟨front, hfront⟩ := exists_drop_bufferFront method
      (show (bufferFront method).length + uri.strlen - text.strlen <
        (bufferFront method).length by
          have : 0 < (bufferFront method).length := Nat.succ_pos _
          omega)
    have hcut := congrArg List.length hfront
    rw [List.length_drop, List.length_append, List.length_singleton] at hcut
    refine ⟨fun h => ?_, fun h => absurd h.length_le (Nat.not_le.mpr hlt)⟩
    rw [List.drop_append_of_le_length (by omega), hfront, List.append_assoc] at h
    have hread : (CStr.ofBuffer (front ++ ([0] ++ uri.bytes))).strlen ≤ front.length :=
      CStr.strlen_ofBuffer_le front uri.bytes
    have hlong : text.strlen ≤ (CStr.ofBuffer (front ++ ([0] ++ uri.bytes))).strlen :=
      h.length_le
    omega
  · have hstart : (bufferFront method).length + uri.strlen - text.strlen =
        (bufferFront method).length + (uri.strlen - text.strlen) := by omega
    have hread : (CStr.ofBuffer (uri.bytes.drop (uri.strlen - text.strlen))).bytes =
        uri.bytes.drop (uri.strlen - text.strlen) :=
      CStr.bytes_ofBuffer fun h => uri.nul_free (List.mem_of_mem_drop h)
    rw [hstart, List.drop_append, List.drop_of_length_le (Nat.le_add_right _ _), List.nil_append,
      Nat.add_sub_cancel_left, hread, ← drop_eq_iff_suffix hle, List.prefix_iff_eq_take,
      List.take_of_length_le]
    · exact eq_comm
    · rw [List.length_drop, CStr.strlen, CStr.strlen]
      omega

/-- The last component of a URI is determined by the URI. -/
theorem lastComponent_inj (front t t' : List UInt8) (ht : '/'.toUInt8 ∉ t)
    (ht' : '/'.toUInt8 ∉ t') (h : '/'.toUInt8 :: t <:+ front ++ '/'.toUInt8 :: t') : t = t' := by
  obtain ⟨front', hfront⟩ := h
  exact (append_cons_inj ht ht' hfront).2

/-- The URI is `/apps/` and a name without a slash. -/
def IsAppUri (uri : CStr) : Prop := ∃ X : CStr, '/'.toUInt8 ∉ X.bytes ∧ uri = appsUri ++ X

/-- What the test of the second branch decides. -/
theorem isAppUri_iff {uri : CStr} :
    (uri.eqN appsUri appsUri.strlen = true ∧
      strchr (uri.drop appsUri.strlen).bytes '/'.toUInt8 = none) ↔ IsAppUri uri := by
  rw [CStr.eqN_strlen, strchr_eq_none]
  constructor
  · rintro ⟨⟨rest, hrest⟩, hslash⟩
    refine ⟨uri.drop appsUri.strlen, hslash, CStr.ext ?_⟩
    rw [CStr.bytes_append, CStr.bytes_drop, ← hrest, CStr.strlen, List.drop_left]
  · rintro ⟨X, hX, rfl⟩
    refine ⟨List.prefix_append _ _, ?_⟩
    rwa [CStr.bytes_drop, CStr.bytes_append, CStr.strlen, List.drop_left]

theorem not_isAppUri (rest : CStr) (h : '/'.toUInt8 ∈ rest.bytes) :
    ¬IsAppUri (appsUri ++ rest) := by
  rintro ⟨X, hX, heq⟩
  have hrest : rest.bytes = X.bytes := List.append_cancel_left (congrArg CStr.bytes heq)
  exact hX (hrest ▸ h)

/-! ### The copies -/

/-- The part of a URI after `/apps/` and before its last `tail` bytes. -/
def middle (uri : CStr) (tail : ℕ) : CStr :=
  (uri.drop appsUri.strlen).take (uri.strlen - (appsUri.strlen + tail))

theorem middle_append (X text : CStr) : middle (appsUri ++ X ++ text) text.strlen = X := by
  refine CStr.ext ?_
  have hlen : (appsUri ++ X ++ text).strlen - (appsUri.strlen + text.strlen) = X.bytes.length := by
    rw [CStr.strlen_append, CStr.strlen_append, ← CStr.strlen]
    omega
  rw [middle, hlen, CStr.bytes_take, CStr.bytes_drop, CStr.bytes_append, CStr.bytes_append,
    List.append_assoc, CStr.strlen, List.drop_left, List.take_left]

/-- The middle is empty only if the fixed parts are all there is. -/
theorem middle_ne_nil {uri : CStr} {tail : ℕ} :
    middle uri tail ≠ .nil ↔ appsUri.strlen + tail < uri.strlen := by
  have hlen : (middle uri tail).strlen = uri.strlen - (appsUri.strlen + tail) := by
    rw [middle, CStr.strlen_take, CStr.strlen_drop]
    omega
  have hnil : middle uri tail = .nil ↔ (middle uri tail).strlen = 0 := by
    rw [CStr.strlen, List.length_eq_zero_iff]
    exact ⟨fun h => congrArg CStr.bytes h, fun h => CStr.ext h⟩
  rw [Ne, hnil, hlen]
  omega

/-- What is too much for the array, whatever the source has. -/
theorem copyAppName_of_gt {uri : CStr} {n : ℕ} (h : 256 < n) :
    copyAppName uri n = .error .outOfBounds := by
  have hsize : (Block.calloc 256).size = 256 := List.length_replicate
  rw [copyAppName]
  split
  · rfl
  · rw [Block.strncpy, if_neg (by omega)]
    rfl

section Copies

variable {uri : CStr} {n : ℕ} (hn : appsUri.strlen + n ≤ uri.strlen)

include hn

/-- A copy that leaves room for the terminator. -/
theorem copyAppName_of_lt_256 (hlt : n < 256) :
    copyAppName uri n = .ok (.kept ((uri.drop appsUri.strlen).take n)) := by
  obtain ⟨b, hcopy, hcstr⟩ := Block.exists_strncpy_calloc (n := 256)
    (show n ≤ (uri.drop appsUri.strlen).strlen by rw [CStr.strlen_drop]; omega) hlt
  rw [copyAppName, if_neg (by omega), hcopy]
  simp only [bind, Except.bind, hcstr]
  rfl

/-- **A copy of 256 bytes fills the array.** -/
theorem copyAppName_256 (hfull : n = 256) :
    copyAppName uri n = .ok (.filled ((uri.drop appsUri.strlen).take n)) := by
  subst hfull
  have hcopy := Block.strncpy_calloc_full
    (show 256 ≤ (uri.drop appsUri.strlen).strlen by rw [CStr.strlen_drop]; omega)
  have hcstr : Block.cstr ⟨((uri.drop appsUri.strlen).take 256).bytes.map some⟩ =
      .error .unterminated := Block.readString_map _
  rw [copyAppName, if_neg (by omega), hcopy]
  simp only [bind, Except.bind, hcstr, Block.text_map]
  rfl

end Copies

/-- What a copy of the middle of a URI leaves in the array. -/
def copied (uri : CStr) (tail : ℕ) : AppName :=
  if uri.strlen = appsUri.strlen + tail + 256 then .filled (middle uri tail)
  else .kept (middle uri tail)

/-- **A copy whose length is what an unsigned difference leaves of the URI**, without
`/apps/` and its last `tail` bytes: the URI has all its fixed parts and at most 256 bytes more,
or the copy leaves the array. -/
theorem copyAppName_sizeSub {uri : CStr} {tail : ℕ} (htail : tail ≤ 255) :
    copyAppName uri (sizeSub uri.strlen (6 + tail)) =
      if 6 + tail ≤ uri.strlen ∧ uri.strlen ≤ 6 + tail + 256 then .ok (copied uri tail)
      else .error .outOfBounds := by
  rcases Nat.lt_or_ge uri.strlen (6 + tail) with hlt | hle
  · -- the difference wraps around
    have hwrap : 256 < sizeSub uri.strlen (6 + tail) := by
      rw [sizeSub, if_neg (by omega)]
      omega
    rw [copyAppName_of_gt hwrap, if_neg (by omega)]
  · have hmiddle : uri.strlen - (6 + tail) = uri.strlen - (appsUri.strlen + tail) := by
      rw [strlen_appsUri]
    rw [sizeSub_of_le hle, copied, strlen_appsUri]
    rcases lt_trichotomy (uri.strlen - (6 + tail)) 256 with hlt | heq | hgt
    · rw [copyAppName_of_lt_256 (by rw [strlen_appsUri]; omega) hlt, if_pos (by omega),
        if_neg (by omega), hmiddle, middle]
    · rw [copyAppName_256 (by rw [strlen_appsUri]; omega) heq, if_pos (by omega),
        if_pos (by omega), hmiddle, middle]
    · rw [copyAppName_of_gt hgt, if_neg (by omega)]

@[simp] theorem copied_str (uri : CStr) (tail : ℕ) : (copied uri tail).str = middle uri tail := by
  rw [copied]
  split <;> rfl

theorem copied_of_ne {uri : CStr} {tail : ℕ} (h : uri.strlen ≠ appsUri.strlen + tail + 256) :
    copied uri tail = .kept (middle uri tail) := if_neg h

theorem runNameLength_eq (uri : CStr) : runNameLength uri = sizeSub uri.strlen (6 + 4) := by
  rw [runNameLength, strlen_appsUri, sizeSub_sizeSub (by decide)]

theorem hideNameLength_eq (uri : CStr) : hideNameLength uri = sizeSub uri.strlen (6 + 9) := by
  rw [hideNameLength, strlen_runUri, strlen_hideUri, strlen_appsUri, sizeSub_sizeSub (by decide),
    sizeSub_sizeSub (by decide)]

/-- The copy of the branch for `/run`. -/
theorem copyAppName_run (uri : CStr) :
    copyAppName uri (runNameLength uri) =
      if 10 ≤ uri.strlen ∧ uri.strlen ≤ 266 then .ok (copied uri runUri.strlen)
      else .error .outOfBounds := by
  rw [runNameLength_eq, copyAppName_sizeSub (by decide), strlen_runUri]

/-- The copy of the branch for `/hide`. -/
theorem copyAppName_hide (uri : CStr) :
    copyAppName uri (hideNameLength uri) =
      if 15 ≤ uri.strlen ∧ uri.strlen ≤ 271 then
        .ok (copied uri (runUri.strlen + hideUri.strlen))
      else .error .outOfBounds := by
  rw [hideNameLength_eq, copyAppName_sizeSub (by decide), strlen_runUri, strlen_hideUri]

/-! ### Which URIs are safe -/

/-- What the code relies on when it copies a name out of a URI. -/
structure CopySafe (uri : CStr) (fixedPart copyLength : ℕ) : Prop where
  /-- The copy starts inside the URI. -/
  offset : appsUri.strlen ≤ uri.strlen
  /-- The unsigned difference is the difference. -/
  noWrap : (copyLength : ℤ) = uri.strlen - fixedPart
  /-- The array keeps its terminator. -/
  fits : copyLength ≤ 255

/-- **What the router relies on for one URI**: the comparisons it makes start
inside the URI, and the copy it makes, if it makes one, is safe. -/
def ExtractionSafe (method uri : CStr) : Prop :=
  runUri.strlen ≤ uri.strlen ∧
    (uriEndsWith method uri runUri = true → CopySafe uri (4 + 6) (runNameLength uri)) ∧
    (uriEndsWith method uri runUri ≠ true →
      ¬(uri.eqN appsUri appsUri.strlen = true ∧
        strchr (uri.drop appsUri.strlen).bytes '/'.toUInt8 = none) →
      hideUri.strlen ≤ uri.strlen ∧
        (uriEndsWith method uri hideUri = true →
          CopySafe uri (4 + 5 + 6) (hideNameLength uri)))

/-- The lengths for which the extraction works: at least 4 bytes; between 10 and
265 for a URI that ends in `/run`; and for the others, unless they are `/apps/` and
a name, at least 5, and between 15 and 270 for one that ends in `/hide`. -/
def SafeLengths (uri : CStr) : Prop :=
  4 ≤ uri.strlen ∧
    (runUri.bytes <:+ uri.bytes → 10 ≤ uri.strlen ∧ uri.strlen ≤ 265) ∧
    (¬runUri.bytes <:+ uri.bytes → ¬IsAppUri uri →
      5 ≤ uri.strlen ∧
        (hideUri.bytes <:+ uri.bytes → 15 ≤ uri.strlen ∧ uri.strlen ≤ 270))

/-- A copy is safe when the URI has its fixed parts and at most 255 bytes more. -/
theorem copySafe_sizeSub {uri : CStr} {fixedPart : ℕ} (hmin : 6 ≤ fixedPart)
    (hmax : fixedPart ≤ 255) :
    CopySafe uri fixedPart (sizeSub uri.strlen fixedPart) ↔
      fixedPart ≤ uri.strlen ∧ uri.strlen ≤ fixedPart + 255 := by
  constructor
  · rintro ⟨-, hwrap, hfits⟩
    rw [sizeSub] at hfits
    split at hfits <;> omega
  · rintro ⟨hle, hlong⟩
    rw [sizeSub_of_le hle]
    exact ⟨by rw [strlen_appsUri]; omega, by omega, by omega⟩

/-- **The extraction is safe exactly for the safe lengths.** -/
theorem extractionSafe_iff_safeLengths (method uri : CStr) :
    ExtractionSafe method uri ↔ SafeLengths uri := by
  have hrun : CopySafe uri (4 + 6) (runNameLength uri) ↔ 10 ≤ uri.strlen ∧ uri.strlen ≤ 265 := by
    rw [runNameLength_eq]
    exact copySafe_sizeSub (by decide) (by decide)
  have hhide : CopySafe uri (4 + 5 + 6) (hideNameLength uri) ↔
      15 ≤ uri.strlen ∧ uri.strlen ≤ 270 := by
    rw [hideNameLength_eq]
    exact copySafe_sizeSub (by decide) (by decide)
  rw [ExtractionSafe, SafeLengths, Ne, uriEndsWith_eq_true, uriEndsWith_eq_true, hrun, hhide,
    isAppUri_iff, strlen_runUri, strlen_hideUri]

/-- `/apps/run`, the resource of an application called `run`, is taken for the
running instance of another one, and the length of its name wraps around. -/
theorem not_extractionSafe_appsRun : ¬ExtractionSafe (.lit "GET") (.lit "/apps/run") := by
  intro h
  have hcopy : CopySafe (.lit "/apps/run") (4 + 6) (runNameLength (.lit "/apps/run")) :=
    h.2.1 (by decide)
  exact absurd hcopy.fits (by decide)

/-! ### The routes -/

section Routes

variable {method uri : CStr} {remoteAddr : InAddr}

/-- The branch for `/run`. -/
theorem route_run_copied (hrun : runUri.bytes <:+ uri.bytes) (hmin : 10 ≤ uri.strlen)
    (hmax : uri.strlen ≤ 266) :
    route method uri remoteAddr =
      if method = .lit "OPTIONS" then
        .toOptions (copied uri runUri.strlen) (.lit "DELETE, OPTIONS")
      else if (copied uri runUri.strlen).str ≠ .nil ∧ method = .lit "DELETE" then
        .toAct .stop (copied uri runUri.strlen)
      else .refuse 501 "Not Implemented" := by
  rw [route, if_pos (uriEndsWith_eq_true.mpr hrun), copyAppName_run, if_pos ⟨hmin, hmax⟩]

/-- The branch for `/run`, with room for the terminator. -/
theorem route_run (hrun : runUri.bytes <:+ uri.bytes) (hmin : 10 ≤ uri.strlen)
    (hmax : uri.strlen ≤ 265) :
    route method uri remoteAddr =
      if method = .lit "OPTIONS" then
        .options (.kept (middle uri runUri.strlen)) (.lit "DELETE, OPTIONS")
      else if middle uri runUri.strlen ≠ .nil ∧ method = .lit "DELETE" then
        .act .stop (.kept (middle uri runUri.strlen))
      else .refuse 501 "Not Implemented" := by
  rw [route_run_copied hrun hmin (by omega),
    copied_of_ne (by rw [strlen_appsUri, strlen_runUri]; omega)]
  rfl

/-- `/apps/` and a name without a slash ends in `/run` only if the name is
`run`. -/
theorem not_runUri_suffix {X : CStr} (hX : '/'.toUInt8 ∉ X.bytes) (hne : X ≠ .lit "run") :
    ¬runUri.bytes <:+ (appsUri ++ X).bytes := by
  intro h
  have hname : (CStr.lit "run").bytes = X.bytes :=
    lastComponent_inj (CStr.lit "/apps").bytes _ _ (by decide) hX h
  exact hne (CStr.ext hname.symm)

/-- What ends in `/hide` does not end in `/run`. -/
theorem not_runUri_of_hideUri (h : hideUri.bytes <:+ uri.bytes) : ¬runUri.bytes <:+ uri.bytes := by
  obtain ⟨front, hfront⟩ := h
  intro hrun
  rw [← hfront] at hrun
  have heq := lastComponent_inj front (CStr.lit "run").bytes (CStr.lit "hide").bytes (by decide)
    (by decide) hrun
  exact absurd heq (by decide)

/-- The branch for `/apps/` and a name. -/
theorem route_app {X : CStr} (hX : '/'.toUInt8 ∉ X.bytes) (hne : X ≠ .lit "run") :
    route method (appsUri ++ X) remoteAddr =
      if method = .lit "OPTIONS" then .options (.kept X) (.lit "GET, POST, OPTIONS")
      else if method = .lit "POST" then .act .start (.kept X)
      else if method = .lit "GET" then .act .status (.kept X)
      else .refuse 501 "Not Implemented" := by
  have hrun : ¬uriEndsWith method (appsUri ++ X) runUri = true := fun h =>
    not_runUri_suffix hX hne (uriEndsWith_eq_true.mp h)
  have hdrop : (appsUri ++ X).drop appsUri.strlen = X := CStr.ext List.drop_left
  rw [route, if_neg hrun, if_pos (isAppUri_iff.mpr ⟨X, hX, rfl⟩), hdrop]

/-- The branch for `/hide`. -/
theorem route_hide_copied (hrun : ¬runUri.bytes <:+ uri.bytes) (happ : ¬IsAppUri uri)
    (hhide : hideUri.bytes <:+ uri.bytes) (hmin : 15 ≤ uri.strlen) (hmax : uri.strlen ≤ 271) :
    route method uri remoteAddr =
      if method = .lit "OPTIONS" then
        .toOptions (copied uri (runUri.strlen + hideUri.strlen)) (.lit "POST, OPTIONS")
      else if (copied uri (runUri.strlen + hideUri.strlen)).str ≠ .nil ∧ method = .lit "POST" then
        .toAct .hide (copied uri (runUri.strlen + hideUri.strlen))
      else .refuse 501 "Not Implemented" := by
  rw [route, if_neg fun h => hrun (uriEndsWith_eq_true.mp h),
    if_neg fun h => happ (isAppUri_iff.mp h), if_pos (uriEndsWith_eq_true.mpr hhide),
    copyAppName_hide, if_pos ⟨hmin, hmax⟩]

/-- The branch for `/hide`, with room for the terminator. -/
theorem route_hide (hrun : ¬runUri.bytes <:+ uri.bytes) (happ : ¬IsAppUri uri)
    (hhide : hideUri.bytes <:+ uri.bytes) (hmin : 15 ≤ uri.strlen) (hmax : uri.strlen ≤ 270) :
    route method uri remoteAddr =
      if method = .lit "OPTIONS" then
        .options (.kept (middle uri (runUri.strlen + hideUri.strlen))) (.lit "POST, OPTIONS")
      else if middle uri (runUri.strlen + hideUri.strlen) ≠ .nil ∧ method = .lit "POST" then
        .act .hide (.kept (middle uri (runUri.strlen + hideUri.strlen)))
      else .refuse 501 "Not Implemented" := by
  rw [route_hide_copied hrun happ hhide hmin (by omega),
    copied_of_ne (by rw [strlen_appsUri, strlen_runUri, strlen_hideUri]; omega)]
  rfl

/-- The branch for `/dial_data`, and what is left. -/
theorem route_dialData (hrun : ¬runUri.bytes <:+ uri.bytes)
    (happ : ¬IsAppUri uri) (hhide : ¬hideUri.bytes <:+ uri.bytes) :
    route method uri remoteAddr =
      if dialDataUri.bytes <:+: uri.bytes then
        if (inetNtop remoteAddr).eqN gLocalhost gLocalhost.strlen then
          if method = .lit "OPTIONS" then .options (parseAppName (some uri)) (.lit "POST, OPTIONS")
          else .act (.dialData (method = .lit "POST")) (parseAppName (some uri))
        else .refuse 403 "Forbidden"
      else .refuse 404 "Not Found" := by
  rw [route, if_neg fun h => hrun (uriEndsWith_eq_true.mp h),
    if_neg fun h => happ (isAppUri_iff.mp h), if_neg fun h => hhide (uriEndsWith_eq_true.mp h)]
  simp only [strstr_isSome]

/-- The errors of the router. -/
def routerErrors : List (ℕ × String) :=
  [(501, "Not Implemented"), (403, "Forbidden"), (404, "Not Found")]

/-- What a route carries: a refusal is one of three errors, the methods of a resource are one of
three lists, only `POST` on `/apps/X` starts `X`, and only what is stopped or hidden can have a
name that fills its array. -/
def Route.Fits (method uri : CStr) : Route → Prop
  | .crash _ => True
  | .refuse status reason => (status, reason) ∈ routerErrors
  | .options _ methods =>
    methods ∈ [.lit "DELETE, OPTIONS", .lit "GET, POST, OPTIONS", .lit "POST, OPTIONS"]
  | .act action name =>
    name.full = false ∧ (action = .start → method = .lit "POST" ∧ uri = appsUri ++ name.str)
  | .optionsFilled _ methods => methods ∈ [.lit "DELETE, OPTIONS", .lit "POST, OPTIONS"]
  | .actFilled action _ => action = .stop ∨ action = .hide

theorem fits_refuse {status : ℕ} {reason : String} (h : (status, reason) ∈ routerErrors) :
    (Route.refuse status reason).Fits method uri := h

theorem fits_options (appName : AppName) {methods : CStr}
    (h : methods ∈ [CStr.lit "DELETE, OPTIONS", .lit "GET, POST, OPTIONS",
      .lit "POST, OPTIONS"]) : (Route.options appName methods).Fits method uri := h

theorem fits_toOptions (appName : AppName) {methods : CStr}
    (h : methods ∈ [CStr.lit "DELETE, OPTIONS", .lit "POST, OPTIONS"]) :
    (Route.toOptions appName methods).Fits method uri := by
  rw [Route.toOptions]
  split
  · exact h
  · rcases List.mem_pair.mp h with rfl | rfl
    · exact List.mem_cons_self
    · exact List.mem_cons_of_mem _ (List.mem_cons_of_mem _ List.mem_cons_self)

theorem fits_toAct (appName : AppName) {action : Action} (h : action = .stop ∨ action = .hide) :
    (Route.toAct action appName).Fits method uri := by
  rw [Route.toAct]
  split
  · exact h
  · rename_i hfull
    refine ⟨Bool.eq_false_iff.mpr hfull, ?_⟩
    rintro rfl
    exact absurd h (by decide)

/-- **Every route fits its request.** -/
theorem route_fits {ro : Route} (h : route method uri remoteAddr = ro) : ro.Fits method uri := by
  subst h
  by_cases hrun : uriEndsWith method uri runUri = true
  · -- `/run`
    rw [route, if_pos hrun]
    cases copyAppName uri (runNameLength uri) with
    | error f => trivial
    | ok appName =>
      dsimp only
      split_ifs
      · exact fits_toOptions appName (by simp)
      · exact fits_toAct appName (.inl rfl)
      · exact fits_refuse (by decide)
  rw [route, if_neg hrun]
  by_cases happ : uri.eqN appsUri appsUri.strlen = true ∧
      strchr (uri.drop appsUri.strlen).bytes '/'.toUInt8 = none
  · -- `/apps/X`
    rw [if_pos happ]
    obtain ⟨X, -, rfl⟩ := isAppUri_iff.mp happ
    have hdrop : (appsUri ++ X).drop appsUri.strlen = X := CStr.ext List.drop_left
    dsimp only
    split_ifs with hmethod hpost
    · exact fits_options _ (by simp)
    · exact ⟨rfl, fun _ => ⟨hpost, by rw [hdrop, AppName.kept_str]⟩⟩
    · exact ⟨rfl, fun hstart => absurd hstart (by decide)⟩
    · exact fits_refuse (by decide)
  rw [if_neg happ]
  by_cases hhide : uriEndsWith method uri hideUri = true
  · -- `/hide`
    rw [if_pos hhide]
    cases copyAppName uri (hideNameLength uri) with
    | error f => trivial
    | ok appName =>
      dsimp only
      split_ifs
      · exact fits_toOptions appName (by simp)
      · exact fits_toAct appName (.inr rfl)
      · exact fits_refuse (by decide)
  · -- `/dial_data`
    rw [if_neg hhide]
    generalize (inetNtop remoteAddr).eqN gLocalhost gLocalhost.strlen = isLocal
    cases (strstr dialDataUri.bytes uri.bytes).isSome with
    | false => exact fits_refuse (by decide)
    | true =>
      cases isLocal with
      | false => exact fits_refuse (by decide)
      | true =>
        by_cases hmethod : method = .lit "OPTIONS"
        · rw [if_pos rfl, if_pos rfl, if_pos hmethod]
          exact fits_options _ (by simp)
        · rw [if_pos rfl, if_pos rfl, if_neg hmethod]
          exact ⟨full_parseAppName _, fun hstart => absurd hstart (by simp)⟩

/-- The lengths for which a copy stays inside its URI and its array, where a name that fills
the array is inside it. -/
def CopyLengths (uri : CStr) : Prop :=
  (runUri.bytes <:+ uri.bytes → 10 ≤ uri.strlen ∧ uri.strlen ≤ 266) ∧
    (¬IsAppUri uri → hideUri.bytes <:+ uri.bytes → 15 ≤ uri.strlen ∧ uri.strlen ≤ 271)

theorem toOptions_ne_crash (appName : AppName) (methods : CStr) (f : Fault) :
    Route.toOptions appName methods ≠ .crash f := by
  rw [Route.toOptions]
  split <;> simp

theorem toAct_ne_crash (action : Action) (appName : AppName) (f : Fault) :
    Route.toAct action appName ≠ .crash f := by
  rw [Route.toAct]
  split <;> simp

/-- These lengths get the router past the copies. -/
theorem route_ne_crash (h : CopyLengths uri) (f : Fault) :
    route method uri remoteAddr ≠ .crash f := by
  obtain ⟨hrunLen, hhideLen⟩ := h
  by_cases hrun : runUri.bytes <:+ uri.bytes
  · rw [route_run_copied hrun (hrunLen hrun).1 (hrunLen hrun).2]
    split_ifs
    · exact toOptions_ne_crash _ _ f
    · exact toAct_ne_crash _ _ f
    · simp
  · by_cases happ : IsAppUri uri
    · obtain ⟨X, hX, rfl⟩ := happ
      have hne : X ≠ .lit "run" := fun hc => hrun (by rw [hc]; decide)
      rw [route_app hX hne]
      split_ifs <;> simp
    · by_cases hhide : hideUri.bytes <:+ uri.bytes
      · rw [route_hide_copied hrun happ hhide (hhideLen happ hhide).1 (hhideLen happ hhide).2]
        split_ifs
        · exact toOptions_ne_crash _ _ f
        · exact toAct_ne_crash _ _ f
        · simp
      · rw [route_dialData hrun happ hhide]
        split_ifs <;> simp

/-- A router that gets past the copies was given a URI of these lengths. -/
theorem copyLengths_of_route (hroute : ∀ f, route method uri remoteAddr ≠ .crash f) :
    CopyLengths uri := by
  refine ⟨fun hrun => ?_, fun happ hhide => ?_⟩
  · by_contra hlen
    refine hroute .outOfBounds ?_
    rw [route, if_pos (uriEndsWith_eq_true.mpr hrun), copyAppName_run, if_neg hlen]
  · by_contra hlen
    refine hroute .outOfBounds ?_
    rw [route, if_neg fun h => not_runUri_of_hideUri hhide (uriEndsWith_eq_true.mp h),
      if_neg fun h => happ (isAppUri_iff.mp h), if_pos (uriEndsWith_eq_true.mpr hhide),
      copyAppName_hide, if_neg hlen]

/-- **The router gets past the copies exactly for these lengths.** -/
theorem exists_route_eq_crash :
    (∃ f, route method uri remoteAddr = .crash f) ↔ ¬CopyLengths uri := by
  constructor
  · rintro ⟨f, hcrash⟩ hlengths
    exact route_ne_crash hlengths f hcrash
  · intro hlengths
    by_contra hno
    exact hlengths (copyLengths_of_route (not_exists.mp hno))

end Routes

/-! ### The name before the last component -/

/-- The backward scan stops at the slash before a part without slashes. -/
theorem scanBack_eq (front rest : List UInt8) {X : List UInt8} (hX : '/'.toUInt8 ∉ X) :
    scanBack (front ++ '/'.toUInt8 :: (X ++ rest)) (front.length + 1 + X.length) =
      front.length := by
  have hscan : ∀ k, k ≤ X.length →
      scanBack (front ++ '/'.toUInt8 :: (X ++ rest)) (front.length + 1 + k) = front.length := by
    -- the induction is on how far the scan still is from the slash
    intro k
    induction k with
    | zero =>
      intro _
      rw [Nat.add_zero, scanBack, List.getElem?_append_right le_rfl, Nat.sub_self]
      simp
    | succ k ih =>
      intro hk
      have hget : (front ++ '/'.toUInt8 :: (X ++ rest))[front.length + 1 + k]? = X[k]? := by
        rw [List.getElem?_append_right (by omega), Nat.add_assoc, Nat.add_sub_cancel_left,
          Nat.add_comm 1 k, List.getElem?_cons_succ, List.getElem?_append_left (by omega)]
      rw [← Nat.add_assoc, scanBack, hget, if_neg, ih (by omega)]
      intro hslash
      exact hX (List.mem_of_getElem? hslash)
  exact hscan X.length le_rfl

/-- **The name is the component before the last one.** -/
theorem parseAppName_eq {front X text : CStr} (hX : '/'.toUInt8 ∉ X.bytes)
    (htext : '/'.toUInt8 ∉ text.bytes) :
    parseAppName (some (front ++ .lit "/" ++ X ++ .lit "/" ++ text)) = .kept X := by
  have hbytes : (front ++ .lit "/" ++ X ++ .lit "/" ++ text).bytes =
      (front.bytes ++ '/'.toUInt8 :: X.bytes) ++ '/'.toUInt8 :: text.bytes := by
    have hslash : (CStr.lit "/").bytes = ['/'.toUInt8] := by decide
    simp only [CStr.bytes_append, hslash, List.append_assoc, List.cons_append, List.nil_append]
  have hlen : (front.bytes ++ '/'.toUInt8 :: X.bytes).length =
      front.bytes.length + 1 + X.bytes.length := by
    rw [List.length_append, List.length_cons]
    omega
  have hback := scanBack_eq front.bytes ('/'.toUInt8 :: text.bytes) hX
  rw [← List.cons_append, ← List.append_assoc, ← hbytes] at hback
  have hpos : front.bytes.length + 1 + X.bytes.length =
      (front.bytes.length + X.bytes.length) + 1 := by omega
  rw [parseAppName]
  simp only [hbytes, strrchr_append_cons _ _ htext, hlen]
  rw [hpos] at hback ⊢
  simp only [← hbytes, hback]
  refine congrArg (AppName.mk · true false) (CStr.ext ?_)
  have hcount : front.bytes.length + X.bytes.length + 1 - (front.bytes.length + 1) =
      X.bytes.length := by omega
  rw [CStr.bytes_take, CStr.bytes_drop, hbytes, List.append_assoc, List.cons_append, hcount,
    List.drop_append, List.drop_of_length_le (Nat.le_succ _), Nat.add_sub_cancel_left]
  simp

end DialServer
