import DialServer.Codecs
import DialServer.Launch
import DialServer.Routing

/-!
# The way back from an application

An application that is launched with additional data is told the URL where the server
keeps it, percent-encoded: `DialServer.additionalDataText`. Reading it back should give the
URL (`DialServer.dialDataUrl`), and a request to the path of that URL should reach the
application it was made for (`DialServer.LeadsBack`).

The name of the application is pasted into the encoded template as it is. So a name that
contains a character of the encoding is read as something else, one that contains a `?`
ends the path too early, and a long one is written past the end of the array;
`DialServer.leadsBack_iff` shows that nothing else can go wrong.
-/

namespace DialServer

open CLib

/-! ### The text and the URL -/

/-- What stands in the encoded text in front of the name. -/
def encodedFront (dialPort : UInt16) : CStr :=
  .lit "http%3A%2F%2Flocalhost%3A" ++ .ofNat dialPort.toNat ++ .lit "%2Fapps%2F"

/-- The value of `additionalDataUrl`. -/
def additionalDataValue (dialPort : UInt16) (X : CStr) : CStr :=
  encodedFront dialPort ++ X ++ .lit "%2Fdial_data%3F"

theorem additionalDataText_eq (dialPort : UInt16) (X : CStr) :
    additionalDataText dialPort X =
      .lit "additionalDataUrl=" ++ additionalDataValue dialPort X := by
  have hlit : CStr.lit "additionalDataUrl=http%3A%2F%2Flocalhost%3A" =
      .lit "additionalDataUrl=" ++ .lit "http%3A%2F%2Flocalhost%3A" := by decide
  rw [additionalDataText, additionalDataValue, encodedFront, hlit]
  simp only [CStr.append_assoc]

/-- What stands in the URL in front of the name. -/
def urlFront (dialPort : UInt16) : CStr :=
  .lit "http://localhost:" ++ .ofNat dialPort.toNat ++ .lit "/apps/"

/-- The URL of the additional data of an application. -/
def dialDataUrl (dialPort : UInt16) (X : CStr) : CStr :=
  urlFront dialPort ++ X ++ .lit "/dial_data?"

/-- A path ends where the query or the fragment starts. -/
def endsPath (c : UInt8) : Bool := c = '?'.toUInt8 ∨ c = '#'.toUInt8

/-- The host and the port end there, or where the path starts. -/
def endsAuthority (c : UInt8) : Bool := c = '/'.toUInt8 ∨ endsPath c

/-- The path of a URL of the server: what stands behind `http://`, the host and the port, up to
the query or the fragment. -/
def urlPath (url : CStr) : CStr :=
  .ofBuffer (((url.drop (CStr.lit "http://").strlen).bytes.dropWhile
    fun c => !endsAuthority c).takeWhile fun c => !endsPath c)

/-- **The additional data URL leads back to its application**: it fits in its array, its
value is decoded to the URL, and a local request to the path of that URL is taken to the
handler of the dial data, with the name of the application. -/
structure LeadsBack (app : DIALApp) (dialPort : UInt16) (X : CStr) : Prop where
  fits : additionalDataFor app dialPort X = .ok (additionalDataText dialPort X)
  decodes : ∀ (maxSize : ℕ) (dst : Block), (additionalDataValue dialPort X).strlen ≤ maxSize →
    maxSize < dst.size → ∃ dst', urldecode dst (additionalDataValue dialPort X) maxSize =
      .ok (dst', (dialDataUrl dialPort X).strlen) ∧ dst'.cstr = .ok (dialDataUrl dialPort X)
  routes : ∀ r : MgRequest, r.uri = urlPath (dialDataUrl dialPort X) →
    (inetNtop r.remoteAddr).eqN gLocalhost gLocalhost.strlen = true →
    r.requestMethod ≠ .lit "OPTIONS" →
    r.route = .act (.dialData (r.requestMethod = .lit "POST")) (.kept X)

/-- A name that the array has room for, and that contains no character with a meaning in
the encoded text or in the URL. -/
structure PlainName (dialPort : UInt16) (X : CStr) : Prop where
  short : X.strlen + (CStr.ofNat dialPort.toNat).strlen < 188
  no_plus : '+'.toUInt8 ∉ X.bytes
  no_mark : '%'.toUInt8 ∉ X.bytes
  no_query : '?'.toUInt8 ∉ X.bytes
  no_fragment : '#'.toUInt8 ∉ X.bytes

/-! ### Decoding -/

section Decoding

variable (dialPort : UInt16) (X : CStr)

/-- The front of the text is written for the front of the URL. -/
theorem encodes_front :
    Escape.Encodes percentCode (encodedFront dialPort).bytes (urlFront dialPort).bytes := by
  have hscheme : Escape.Encodes percentCode (CStr.lit "http%3A%2F%2Flocalhost%3A").bytes
      (CStr.lit "http://localhost:").bytes :=
    Escape.encodes_of_decode _ (by decide +kernel)
  have happs : Escape.Encodes percentCode (CStr.lit "%2Fapps%2F").bytes
      (CStr.lit "/apps/").bytes :=
    Escape.encodes_of_decode _ (by decide +kernel)
  have hdigit : ∀ c : UInt8, ¬('0'.toUInt8 ≤ c ∧ c ≤ '9'.toUInt8) →
      c ∉ (CStr.ofNat dialPort.toNat).bytes := fun c hc hmem => hc (digit_of_mem_ofNat hmem)
  exact (hscheme.append _ (Escape.encodes_self _ (hdigit _ (by decide))
    (hdigit _ (by decide)))).append _ happs

/-- So is what stands behind the name. -/
theorem encodes_back :
    Escape.Encodes percentCode (CStr.lit "%2Fdial_data%3F").bytes
      (CStr.lit "/dial_data?").bytes :=
  Escape.encodes_of_decode _ (by decide +kernel)

/-- What is read of the value is what is read of the name, with the front of the URL before
it. -/
theorem urlDecoded_additionalDataValue :
    urlDecoded (additionalDataValue dialPort X).bytes = (urlFront dialPort).bytes ++
      (Escape.decode percentCode (X.bytes ++ (CStr.lit "%2Fdial_data%3F").bytes)).1 := by
  have hbytes : (additionalDataValue dialPort X).bytes =
      (encodedFront dialPort).bytes ++ (X.bytes ++ (CStr.lit "%2Fdial_data%3F").bytes) :=
    List.append_assoc _ _ _
  rw [urlDecoded, hbytes, (encodes_front dialPort).decode_append]

variable {X}

/-- **With a percent sign in the name** something is missing. -/
theorem length_urlDecoded_lt (h : '%'.toUInt8 ∈ X.bytes) :
    (urlDecoded (additionalDataValue dialPort X).bytes).length <
      (dialDataUrl dialPort X).strlen := by
  have hdigits : ∀ x : UInt8, appendCharFromHex '%'.toUInt8 x = none ∧
      appendCharFromHex x '%'.toUInt8 = none := by
    refine forall_byte ?_
    decide +kernel
  have hshort := Escape.length_decode_append_le percentCode (fun x => (hdigits x).1)
    (fun x => (hdigits x).2) X.bytes (CStr.lit "2Fdial_data%3F").bytes
  have hback : percentCode.mark :: (CStr.lit "2Fdial_data%3F").bytes =
      (CStr.lit "%2Fdial_data%3F").bytes := by decide
  have hlen : (CStr.lit "/dial_data?").bytes.length = 11 := by decide
  rw [hback, encodes_back.decode_eq, if_pos (show percentCode.mark ∈ X.bytes from h),
    hlen] at hshort
  rw [urlDecoded_additionalDataValue, dialDataUrl, CStr.strlen_append, CStr.strlen_append,
    List.length_append, CStr.strlen, CStr.strlen, CStr.strlen, hlen]
  omega

/-- Without one the value is read to its end, with blanks in the name. -/
theorem urlDecoded_of_no_mark (h : '%'.toUInt8 ∉ X.bytes) :
    urlDecoded (additionalDataValue dialPort X).bytes = (urlFront dialPort).bytes ++
      ((X.bytes.map fun c => if c = '+'.toUInt8 then ' '.toUInt8 else c) ++
        (CStr.lit "/dial_data?").bytes) := by
  have hname : Escape.Encodes percentCode X.bytes _ := Escape.encodes_of_notMem percentCode h
  rw [urlDecoded_additionalDataValue, hname.decode_append, encodes_back.decode_eq]
  rfl

/-- What is left in a large object starts with nothing but what was read. -/
theorem isPrefix_urlDecoded {src t : CStr}
    (h : ∀ (maxSize : ℕ) (dst : Block), src.strlen ≤ maxSize → maxSize < dst.size →
      ∃ dst', urldecode dst src maxSize = .ok (dst', t.strlen) ∧ dst'.cstr = .ok t) :
    t.bytes <+: urlDecoded src.bytes := by
  have hroom : src.strlen < (Block.malloc (src.strlen + 1)).size := by
    rw [Block.size_malloc]
    exact Nat.lt_succ_self _
  obtain ⟨dst', hresult, hcstr⟩ := h _ _ le_rfl hroom
  obtain ⟨b', hspec, hstarts, -⟩ := urldecode_spec src hroom
  rw [hresult] at hspec
  obtain rfl : dst' = b' := congrArg Prod.fst (Except.ok.inj hspec)
  obtain rfl := Except.ok.inj (hcstr.symm.trans hstarts.cstr)
  exact (List.takeWhile_prefix _).trans (List.take_prefix _ _)

/-- **The value is read as the URL** just if the name has no character of the encoding. -/
theorem decodes_iff :
    (∀ (maxSize : ℕ) (dst : Block), (additionalDataValue dialPort X).strlen ≤ maxSize →
      maxSize < dst.size → ∃ dst', urldecode dst (additionalDataValue dialPort X) maxSize =
        .ok (dst', (dialDataUrl dialPort X).strlen) ∧ dst'.cstr = .ok (dialDataUrl dialPort X)) ↔
      '+'.toUInt8 ∉ X.bytes ∧ '%'.toUInt8 ∉ X.bytes := by
  have hbytes : (dialDataUrl dialPort X).bytes =
      (urlFront dialPort).bytes ++ (X.bytes ++ (CStr.lit "/dial_data?").bytes) :=
    List.append_assoc _ _ _
  constructor
  · intro h
    have hread := isPrefix_urlDecoded h
    have hmark : '%'.toUInt8 ∉ X.bytes := fun hmem =>
      Nat.not_le.mpr (length_urlDecoded_lt dialPort hmem) hread.length_le
    rw [urlDecoded_of_no_mark dialPort hmark, hbytes, List.prefix_append_right_inj] at hread
    have hname := List.append_inj_left (hread.eq_of_length (by simp)) (by simp)
    refine ⟨fun hmem => ?_, hmark⟩
    -- a blank is read where the plus sign stands
    have hplus : '+'.toUInt8 ∈ X.bytes.map fun c => if c = '+'.toUInt8 then ' '.toUInt8 else c :=
      hname ▸ hmem
    obtain ⟨c, -, hc⟩ := List.mem_map.mp hplus
    split_ifs at hc with heq
    · exact absurd hc (by decide)
    · exact heq hc
  · rintro ⟨hplus, hmark⟩ maxSize dst hmax hroom
    have hencodes : Escape.Encodes percentCode (additionalDataValue dialPort X).bytes
        (dialDataUrl dialPort X).bytes :=
      ((encodes_front dialPort).append _ (Escape.encodes_self _ hplus hmark)).append _ encodes_back
    have hlen : (dialDataUrl dialPort X).bytes.length ≤ maxSize :=
      (hencodes.decode_eq ▸ Escape.length_decode_le percentCode _).trans hmax
    obtain ⟨dst', hresult, hstarts, -⟩ := @urldecodeLoop_encodes _ _ hencodes dst [] maxSize
      (by simpa using hlen) (by simp; omega) (Block.starts_nil dst)
    refine ⟨dst', hresult, ?_⟩
    rw [List.nil_append] at hstarts
    rw [hstarts.cstr]
    exact congrArg Except.ok (CStr.ext (CStr.bytes_ofBuffer (dialDataUrl dialPort X).nul_free))

end Decoding

/-! ### The path -/

section Path

variable {X : CStr}

/-- The path of a URL with its host and port in front. -/
theorem urlPath_of_bytes {url : CStr} {host rest : List UInt8} {c : UInt8}
    (hurl : (url.drop (CStr.lit "http://").strlen).bytes = host ++ c :: rest)
    (hhost : ∀ d ∈ host, endsAuthority d = false) (hc : endsAuthority c = true) :
    urlPath url = .ofBuffer ((c :: rest).takeWhile fun d => !endsPath d) := by
  rw [urlPath, hurl, List.dropWhile_append_of_pos fun d hd => by rw [hhost d hd]; rfl,
    List.dropWhile_cons_of_neg (by simp [hc])]

/-- Digits belong to the port. -/
theorem endsAuthority_of_mem_ofNat {n : ℕ} {c : UInt8} (h : c ∈ (CStr.ofNat n).bytes) :
    endsAuthority c = false := by
  have hdigit := digit_of_mem_ofNat h
  by_contra hends
  rcases decide_eq_true_iff.mp (Bool.eq_true_of_not_eq_false hends) with rfl | hpath
  · exact absurd hdigit (by decide)
  · rcases decide_eq_true_iff.mp hpath with rfl | rfl
    · exact absurd hdigit (by decide)
    · exact absurd hdigit (by decide)

/-- The path of the URL, if the name does not cut it short. -/
theorem urlPath_dialDataUrl (dialPort : UInt16) (X : CStr) :
    urlPath (dialDataUrl dialPort X) =
      .ofBuffer ((appsUri ++ X ++ dialDataUri ++ .lit "?").bytes.takeWhile
        fun c => !endsPath c) := by
  have hslash : (CStr.lit "/apps/").bytes = '/'.toUInt8 :: (CStr.lit "apps/").bytes := by decide
  have hpath : (appsUri ++ X ++ dialDataUri ++ .lit "?").bytes = '/'.toUInt8 ::
      ((CStr.lit "apps/").bytes ++ X.bytes ++ dialDataUri.bytes ++ (CStr.lit "?").bytes) := by
    simp only [CStr.bytes_append, appsUri, hslash, List.cons_append]
  have hurl : ((dialDataUrl dialPort X).drop (CStr.lit "http://").strlen).bytes =
      ((CStr.lit "localhost:").bytes ++ (CStr.ofNat dialPort.toNat).bytes) ++
        (appsUri ++ X ++ dialDataUri ++ .lit "?").bytes := by
    have hscheme : (CStr.lit "http://localhost:").bytes =
        (CStr.lit "http://").bytes ++ (CStr.lit "localhost:").bytes := by decide
    have hback : (CStr.lit "/dial_data?").bytes = dialDataUri.bytes ++ (CStr.lit "?").bytes := by
      decide
    rw [CStr.bytes_drop, CStr.strlen]
    simp only [dialDataUrl, urlFront, CStr.bytes_append, hscheme, hback, List.append_assoc,
      List.drop_left]
    rfl
  have hhost : ∀ c ∈ (CStr.lit "localhost:").bytes ++ (CStr.ofNat dialPort.toNat).bytes,
      endsAuthority c = false := by
    intro c hc
    rcases List.mem_append.mp hc with hmem | hmem
    · have hall : ∀ c ∈ (CStr.lit "localhost:").bytes, (!endsAuthority c) = true :=
        List.all_eq_true.mp (by decide)
      exact (Bool.not_eq_true' _).mp (hall c hmem)
    · exact endsAuthority_of_mem_ofNat hmem
  rw [hpath] at hurl ⊢
  exact urlPath_of_bytes hurl hhost (by decide)

/-- A name without a question mark and a number sign stands in the path. -/
theorem urlPath_of_plain (dialPort : UInt16) (h : ∀ c ∈ X.bytes, endsPath c = false) :
    urlPath (dialDataUrl dialPort X) = appsUri ++ X ++ dialDataUri := by
  have hlits : (∀ c ∈ appsUri.bytes, (!endsPath c) = true) ∧
      ∀ c ∈ dialDataUri.bytes, (!endsPath c) = true :=
    ⟨List.all_eq_true.mp (by decide), List.all_eq_true.mp (by decide)⟩
  have hall : ∀ c ∈ (appsUri ++ X ++ dialDataUri).bytes, (!endsPath c) = true := by
    intro c hc
    rw [CStr.bytes_append, CStr.bytes_append, List.mem_append, List.mem_append] at hc
    rcases hc with (hc | hc) | hc
    · exact hlits.1 c hc
    · rw [h c hc]
      rfl
    · exact hlits.2 c hc
  have hend : (CStr.lit "?").bytes.takeWhile (fun c => !endsPath c) = [] := by decide
  rw [urlPath_dialDataUrl, CStr.bytes_append _ (.lit "?"), List.takeWhile_append_of_pos hall, hend,
    List.append_nil]
  exact CStr.ext (CStr.bytes_ofBuffer (appsUri ++ X ++ dialDataUri).nul_free)

/-- With one the path is that of another application. -/
theorem urlPath_of_not_plain (dialPort : UInt16) (hX : '/'.toUInt8 ∉ X.bytes)
    (h : ¬∀ c ∈ X.bytes, endsPath c = false) :
    ∃ Y : CStr, '/'.toUInt8 ∉ Y.bytes ∧ urlPath (dialDataUrl dialPort X) = appsUri ++ Y := by
  have hsub : ∀ c ∈ X.bytes.takeWhile (fun c => !endsPath c), c ∈ X.bytes :=
    fun c hc => List.takeWhile_subset _ hc
  refine ⟨⟨X.bytes.takeWhile fun c => !endsPath c, fun hc => X.nul_free (hsub 0 hc)⟩,
    fun hc => hX (hsub _ hc), ?_⟩
  have happs : ∀ c ∈ appsUri.bytes, (!endsPath c) = true := List.all_eq_true.mp (by decide)
  have hshort : (X.bytes.takeWhile fun c => !endsPath c).length ≠ X.bytes.length := by
    intro hlen
    refine h fun c hc => (Bool.not_eq_true' _).mp ?_
    exact List.takeWhile_eq_self_iff.mp ((List.takeWhile_prefix _).eq_of_length hlen) c hc
  rw [urlPath_dialDataUrl]
  refine CStr.ext ?_
  have hcut : (appsUri ++ X ++ dialDataUri ++ .lit "?").bytes.takeWhile (fun c => !endsPath c) =
      appsUri.bytes ++ X.bytes.takeWhile fun c => !endsPath c := by
    simp only [CStr.bytes_append, List.append_assoc]
    rw [List.takeWhile_append_of_pos happs, List.takeWhile_append, if_neg hshort]
  rw [hcut]
  exact CStr.bytes_ofBuffer fun hc => (List.mem_append.mp hc).elim appsUri.nul_free
    fun hc => X.nul_free (hsub 0 hc)

theorem plain_iff : (∀ c ∈ X.bytes, endsPath c = false) ↔
    '?'.toUInt8 ∉ X.bytes ∧ '#'.toUInt8 ∉ X.bytes := by
  constructor
  · exact fun h => ⟨fun hc => absurd (h _ hc) (by decide), fun hc => absurd (h _ hc) (by decide)⟩
  · rintro ⟨hquery, hfragment⟩ c hc
    by_contra hends
    rcases decide_eq_true_iff.mp (Bool.eq_true_of_not_eq_false hends) with rfl | rfl
    · exact hquery hc
    · exact hfragment hc

/-- No request to `/apps/Y` is for dial data. -/
theorem route_app_ne_dialData {Y : CStr} (hY : '/'.toUInt8 ∉ Y.bytes) (usePayload : Bool)
    (appName : AppName) :
    route (.lit "GET") (appsUri ++ Y) (127, 0, 0, 1) ≠ .act (.dialData usePayload) appName := by
  by_cases hrun : Y = .lit "run"
  · -- `/apps/run` is taken for something that runs
    have hends : runUri.bytes <:+ (appsUri ++ .lit "run").bytes := by decide
    obtain ⟨f, hcrash⟩ : ∃ f, route (.lit "GET") (appsUri ++ .lit "run") (127, 0, 0, 1) =
        .crash f := by
      refine exists_route_eq_crash.mpr fun hlengths => ?_
      exact absurd (hlengths.1 hends).1 (by decide)
    rw [hrun, hcrash]
    exact fun h => absurd h (by simp)
  · have hmethods : CStr.lit "GET" ≠ .lit "OPTIONS" ∧ CStr.lit "GET" ≠ .lit "POST" := by decide
    rw [route_app hY hrun, if_neg hmethods.1, if_neg hmethods.2, if_pos rfl]
    exact fun h => absurd h (by simp)

/-- **The path leads to the dial data of the application** just if the name does not cut it
short. -/
theorem routes_iff (dialPort : UInt16) (hX : IsComponent X) :
    (∀ r : MgRequest, r.uri = urlPath (dialDataUrl dialPort X) →
      (inetNtop r.remoteAddr).eqN gLocalhost gLocalhost.strlen = true →
      r.requestMethod ≠ .lit "OPTIONS" →
      r.route = .act (.dialData (r.requestMethod = .lit "POST")) (.kept X)) ↔
      ∀ c ∈ X.bytes, endsPath c = false := by
  constructor
  · intro h
    by_contra hcut
    obtain ⟨Y, hY, hpath⟩ := urlPath_of_not_plain dialPort hX.2 hcut
    have hroute := h (probeRequest (.lit "GET") (appsUri ++ Y)) hpath.symm
      (show (inetNtop (127, 0, 0, 1)).eqN gLocalhost gLocalhost.strlen = true by decide)
      (show CStr.lit "GET" ≠ .lit "OPTIONS" by decide)
    exact route_app_ne_dialData hY _ _ hroute
  · intro hplain r huri hlocal hmethod
    rw [MgRequest.route, huri, urlPath_of_plain dialPort hplain, route_appDialData hX hlocal,
      if_neg hmethod]

end Path

/-! ### The way back -/

/-- **The additional data URL leads back to its application** just if the name is a plain
one: for every application that asked for additional data, every port and every name that
can be one component of a path. -/
theorem leadsBack_iff (app : DIALApp) (dialPort : UInt16) (X : CStr)
    (huse : app.useAdditionalData ≠ 0) (hX : IsComponent X) :
    LeadsBack app dialPort X ↔ PlainName dialPort X := by
  have hfits : additionalDataFor app dialPort X = .ok (additionalDataText dialPort X) ↔
      X.strlen + (CStr.ofNat dialPort.toNat).strlen < 188 := by
    rw [additionalDataFor, if_pos huse, additionalDataParam_eq_ok, and_iff_left rfl,
      strlen_additionalDataText]
    omega
  constructor
  · intro h
    obtain ⟨hplus, hmark⟩ := (decodes_iff dialPort).mp h.decodes
    obtain ⟨hquery, hfragment⟩ := plain_iff.mp ((routes_iff dialPort hX).mp h.routes)
    exact ⟨hfits.mp h.fits, hplus, hmark, hquery, hfragment⟩
  · intro h
    exact ⟨hfits.mpr h.short, (decodes_iff dialPort).mpr ⟨h.no_plus, h.no_mark⟩,
      (routes_iff dialPort hX).mpr (plain_iff.mpr ⟨h.no_query, h.no_fragment⟩)⟩

/-- An application that asked for additional data. -/
def toldApp (X : CStr) : DIALApp := newApp ⟨X, ⟨0, 0, 0, 0⟩, 0, 1, none⟩ []

/-- The additional data URL of YouTube. -/
theorem leadsBack_iff_youTube :
    LeadsBack (toldApp (.lit "YouTube")) 56789 (.lit "YouTube") ↔
      PlainName 56789 (.lit "YouTube") :=
  leadsBack_iff _ _ _ (by decide) (by decide)

/-- The URL of an application called `C++` leads to one called `C` with two blanks. -/
theorem not_leadsBack_plus : ¬LeadsBack (toldApp (.lit "C++")) 56789 (.lit "C++") := fun h =>
  ((decodes_iff 56789).mp h.decodes).1 (by decide)

end DialServer
