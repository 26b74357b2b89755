import DialServer.Codecs
import DialServer.ParamLookup
import DialServer.Plugin
import DialServer.Reference

/-!
# The launchers of the reference server

What `handle_app_start` accepts and builds is handed to `start_cb`, and what comes of it
there depends on arrays that the server knows nothing about. The two launchers of the
reference server are `youtube_start` of `main.c` and `netflix_start` of `nf_callbacks.c`,
and both assemble their argument in an array of a fixed size.

* `youtube_start` formats a URL of 512 bytes from a payload of up to 4096
  (`DialServer.Reference.launchUrl_fits_iff`).
* The port's plugin builds the same URL from the same two texts, but tells an empty one
  by its address (`DialServer.Reference.youtubeUrl_agree_iff`).
* `netflix_start` makes room for the payload as it was sent, and appends it encoded
  (`DialServer.Reference.netflixComplete_iff`).
-/

namespace DialServer.Reference

open CLib

variable {σ : Type}

/-! ### What a launcher is called with -/

/-- **A launcher is called with a payload that was accepted and the additional data made
for the application.** -/
theorem handleAppStart_calls {H : Host σ} {w : World σ} {r : MgRequest} {appName : CStr}
    {originHeader : Option CStr} :
    ∀ call ∈ (handleAppStart H w r appName originHeader).calls,
      ∃ app payload additional, lookupApp w.apps appName = some app ∧
        payload.strlen ≤ dialMaxPayload ∧ Printable payload.bytes ∧
        additionalDataFor app w.port appName = .ok additional ∧
        call.kind = .start payload additional := by
  intro call hcall
  cases hslot : w.apps[findApp w.apps appName]? with
  | none => simp [handleAppStart, hslot, Outcome.error] at hcall
  | some app =>
    simp only [handleAppStart, hslot] at hcall
    split at hcall
    · simp [Outcome.error] at hcall
    · rename_i hlong
      split at hcall
      · simp [Outcome.error] at hcall
      · rename_i hbad
        have hgood : Printable (r.body.take (dialMaxPayload + 256 + 2)) :=
          isBadPayload_eq_false.mp (Bool.eq_false_iff.mpr hbad)
        have hbytes := CStr.bytes_ofBuffer hgood.zero_notMem
        split at hcall
        · simp [Outcome.crash] at hcall
        · rename_i param hparam
          refine ⟨app, .ofBuffer (r.body.take (dialMaxPayload + 256 + 2)), param, hslot, ?_,
            by rwa [hbytes], hparam, ?_⟩
          · rw [CStr.strlen, hbytes]
            exact Nat.le_of_not_lt hlong
          · split at hcall
            · rw [List.mem_singleton.mp hcall]
            · rw [List.mem_singleton.mp hcall]

/-! ### YouTube -/

/-- The text that `youtube_start` formats. -/
def youtubeText (payload additionalDataUrl : CStr) : CStr :=
  if payload.strlen ≠ 0 ∧ additionalDataUrl.strlen ≠ 0 then
    .lit "https://www.youtube.com/tv?" ++ payload ++ .lit "&" ++ additionalDataUrl
  else if payload.strlen ≠ 0 then .lit "https://www.youtube.com/tv?" ++ payload
  else .lit "https://www.youtube.com/tv"

/-- The array `url` of `youtube_start`. -/
def youtubeUrl (payload additionalDataUrl : CStr) : Except Fault CStr := do
  let url ← (Block.calloc 512).storeString 0 (youtubeText payload additionalDataUrl)
  url.cstr

theorem youtubeUrl_eq_ok {payload additionalDataUrl url : CStr} :
    youtubeUrl payload additionalDataUrl = .ok url ↔
      (youtubeText payload additionalDataUrl).strlen < 512 ∧
        url = youtubeText payload additionalDataUrl :=
  Block.storeString_calloc_eq_ok

/-- A launch of YouTube: what `handle_app_start` builds, and what `youtube_start` makes of
it. -/
def launchUrl (app : DIALApp) (dialPort : UInt16) (payload : CStr) : Except Fault CStr := do
  let additionalDataUrl ← additionalDataFor app dialPort (.lit "YouTube")
  youtubeUrl payload additionalDataUrl

/-- How long the text is. -/
theorem strlen_youtubeText (payload additionalDataUrl : CStr) :
    (youtubeText payload additionalDataUrl).strlen =
      if payload.strlen = 0 then 26
      else 27 + payload.strlen +
        if additionalDataUrl.strlen = 0 then 0 else 1 + additionalDataUrl.strlen := by
  have hlits : (CStr.lit "https://www.youtube.com/tv?").strlen = 27 ∧
      (CStr.lit "https://www.youtube.com/tv").strlen = 26 ∧ (CStr.lit "&").strlen = 1 := by
    decide
  rw [youtubeText]
  split_ifs <;> simp_all [Nat.add_assoc]

/-- What the array has room for behind `https://www.youtube.com/tv?`: the payload, and
the additional data with an `&` in front and the decimal digits of the port in it. -/
def LaunchFits (app : DIALApp) (dialPort : UInt16) (payload : CStr) : Prop :=
  payload.strlen + (if app.useAdditionalData ≠ 0 then 76 + (CStr.ofNat dialPort.toNat).strlen
    else 0) ≤ 484

/-- **The URL fits in its array** just if the payload leaves room for the additional data:
with a port of five digits it may have 403 bytes. -/
theorem launchUrl_fits_iff (app : DIALApp) (dialPort : UInt16) (payload : CStr) :
    (∃ url, launchUrl app dialPort payload = .ok url) ↔ LaunchFits app dialPort payload := by
  have hdigits : (CStr.ofNat dialPort.toNat).strlen ≤ 5 :=
    strlen_ofNat_le (by decide) (dialPort.toNat_lt.trans (by decide))
  have hname : (CStr.lit "YouTube").strlen = 7 := by decide
  have hadditional : additionalDataParam dialPort (.lit "YouTube") =
      .ok (additionalDataText dialPort (.lit "YouTube")) :=
    additionalDataParam_eq_ok.mpr ⟨by rw [strlen_additionalDataText, hname]; omega, rfl⟩
  rw [launchUrl, LaunchFits, additionalDataFor]
  by_cases huse : app.useAdditionalData ≠ 0
  · rw [if_pos huse, if_pos huse]
    simp only [hadditional, bind, Except.bind, youtubeUrl_eq_ok, exists_eq_right,
      strlen_youtubeText, strlen_additionalDataText, hname]
    rw [if_neg (show ¬68 + (CStr.ofNat dialPort.toNat).strlen + 7 = 0 by omega)]
    split_ifs <;> omega
  · rw [if_neg huse, if_neg huse]
    simp only [bind, Except.bind, youtubeUrl_eq_ok, exists_eq_right, strlen_youtubeText,
      CStr.strlen_nil, if_true]
    split_ifs <;> omega

/-- The application as `main.c` registers it. -/
def youTube : DIALApp := newApp ⟨.lit "YouTube", ⟨0, 0, 0, 0⟩, 0, 1, some (.lit ".youtube.com")⟩ []

/-- As long a payload as is accepted. -/
def longestPayload : CStr :=
  ⟨List.replicate dialMaxPayload 'a'.toUInt8, by
    rw [List.mem_replicate]
    decide⟩

/-- The longest payload is accepted, and its URL is written past the end of the array. -/
theorem launchUrl_longestPayload :
    longestPayload.bytes.length ≤ dialMaxPayload ∧ isBadPayload longestPayload.bytes = false ∧
      ¬∃ url, launchUrl youTube 56789 longestPayload = .ok url := by
  have hlen : longestPayload.strlen = dialMaxPayload := List.length_replicate
  refine ⟨hlen.le, isBadPayload_eq_false.mpr fun c hc => ?_, ?_⟩
  · rw [List.eq_of_mem_replicate hc]
    decide
  · rintro ⟨url, hurl⟩
    rw [launchUrl, additionalDataFor, if_pos (by decide)] at hurl
    cases hadditional : additionalDataParam 56789 (.lit "YouTube") with
    | error f => simp [hadditional, bind, Except.bind] at hurl
    | ok additional =>
      have hfits : (youtubeText longestPayload additional).strlen < 512 :=
        (youtubeUrl_eq_ok.mp (by simpa [hadditional, bind, Except.bind] using hurl)).1
      rw [strlen_youtubeText, hlen, if_neg (by decide)] at hfits
      exact absurd (lt_of_le_of_lt (Nat.le_add_right _ _) hfits) (by decide)

/-! ### The plugin of the port -/

/-- Two arguments of `youtube_start`, at any addresses. What stands at the address of an
empty literal is an empty string. -/
structure StartArgs where
  literals : ℕ → Ptr
  payload : CharPtr
  additionalDataUrl : CharPtr
  payload_nil : ∀ n, payload.addr = literals n → payload.str = .nil
  additionalDataUrl_nil : ∀ n, additionalDataUrl.addr = literals n → additionalDataUrl.str = .nil

/-- **The comparisons of addresses tell what the lengths tell**: neither text is empty; or
only the additional data is, and it is the literal it is compared with; or the payload
is, it is the literal of its second comparison, and one of the two before finds its
literal too. -/
def SameForm (a : StartArgs) : Prop :=
  (a.payload.str ≠ .nil ∧ a.additionalDataUrl.str ≠ .nil) ∨
    (a.payload.str ≠ .nil ∧ a.additionalDataUrl.addr = a.literals 1) ∨
    (a.payload.addr = a.literals 2 ∧
      (a.payload.addr = a.literals 0 ∨ a.additionalDataUrl.addr = a.literals 1))

/-- The text of the reference server, by what is empty. -/
theorem youtubeText_cases (payload additionalDataUrl : CStr) :
    (payload = .nil → youtubeText payload additionalDataUrl = .lit "https://www.youtube.com/tv") ∧
    (payload ≠ .nil → additionalDataUrl = .nil → youtubeText payload additionalDataUrl =
      .lit "https://www.youtube.com/tv?" ++ payload) ∧
    (payload ≠ .nil → additionalDataUrl ≠ .nil → youtubeText payload additionalDataUrl =
      .lit "https://www.youtube.com/tv?" ++ payload ++ .lit "&" ++ additionalDataUrl) := by
  simp only [youtubeText, Ne, CStr.strlen_eq_zero]
  refine ⟨fun h => ?_, fun h h' => ?_, fun h h' => ?_⟩
  · rw [if_neg fun hc => hc.1 h, if_neg fun hc => hc h]
  · rw [if_neg fun hc => hc.2 h', if_pos h]
  · rw [if_pos ⟨h, h'⟩]

/-- A longer text is another one. -/
theorem append_ne_of_strlen {s t u : CStr} (h : u.strlen < s.strlen) : s ++ t ≠ u := by
  intro heq
  have hlen := congrArg CStr.strlen heq
  rw [CStr.strlen_append] at hlen
  omega

/-- With a payload the additional data is joined unless it is found to be the literal. -/
theorem youtubeUrl_of_payload {a : StartArgs} (hpayload : a.payload.str ≠ .nil) :
    youtubeText a.payload.str a.additionalDataUrl.str =
        DialServer.youtubeUrl a.literals a.payload a.additionalDataUrl ↔
      a.additionalDataUrl.str ≠ .nil ∨ a.additionalDataUrl.addr = a.literals 1 := by
  have haddr : ∀ n, a.payload.addr ≠ a.literals n := fun n h => hpayload (a.payload_nil n h)
  obtain ⟨-, hempty, hjoined⟩ := youtubeText_cases a.payload.str a.additionalDataUrl.str
  by_cases hliteral : a.additionalDataUrl.addr = a.literals 1
  · have hnil := a.additionalDataUrl_nil 1 hliteral
    rw [hempty hpayload hnil, DialServer.youtubeUrl, if_neg fun hc => hc.2 hliteral,
      if_pos (haddr 2)]
    exact iff_of_true rfl (Or.inr hliteral)
  · rw [DialServer.youtubeUrl, if_pos ⟨haddr 0, hliteral⟩]
    by_cases hnil : a.additionalDataUrl.str = .nil
    · rw [hempty hpayload hnil, CStr.append_assoc _ (.lit "&")]
      refine iff_of_false (fun heq => ?_) (not_or.mpr ⟨not_not.mpr hnil, hliteral⟩)
      -- the `&` is one byte more
      have hlen := congrArg CStr.strlen heq
      rw [CStr.strlen_append _ (.lit "&" ++ _), CStr.strlen_append (.lit "&"),
        show (CStr.lit "&").strlen = 1 by decide] at hlen
      omega
    · rw [hjoined hpayload hnil]
      exact iff_of_true rfl (Or.inl hnil)

/-- Without one it has to be found empty by the comparison that decides. -/
theorem youtubeUrl_of_no_payload {a : StartArgs} (hpayload : a.payload.str = .nil) :
    youtubeText a.payload.str a.additionalDataUrl.str =
        DialServer.youtubeUrl a.literals a.payload a.additionalDataUrl ↔
      a.payload.addr = a.literals 2 ∧
        (a.payload.addr = a.literals 0 ∨ a.additionalDataUrl.addr = a.literals 1) := by
  have hlonger : (CStr.lit "https://www.youtube.com/tv").strlen <
      (CStr.lit "https://www.youtube.com/tv?").strlen := by decide
  rw [(youtubeText_cases _ _).1 hpayload, DialServer.youtubeUrl]
  split_ifs with hjoin hthird
  · rw [CStr.append_assoc, CStr.append_assoc]
    exact iff_of_false (append_ne_of_strlen hlonger).symm
      fun h => h.2.elim hjoin.1 hjoin.2
  · exact iff_of_false (append_ne_of_strlen hlonger).symm fun h => hthird h.1
  · refine iff_of_true rfl ⟨not_not.mp hthird, ?_⟩
    exact (not_and_or.mp hjoin).imp not_not.mp not_not.mp

/-- **Both servers build the same URL** just if the addresses tell what the lengths
tell. -/
theorem youtubeUrl_agree_iff (a : StartArgs)
    (hfits : (youtubeText a.payload.str a.additionalDataUrl.str).strlen < 512) :
    youtubeUrl a.payload.str a.additionalDataUrl.str =
        .ok (DialServer.youtubeUrl a.literals a.payload a.additionalDataUrl) ↔
      SameForm a := by
  rw [youtubeUrl_eq_ok, and_iff_right hfits, eq_comm, SameForm]
  by_cases hpayload : a.payload.str = .nil
  · rw [youtubeUrl_of_no_payload hpayload]
    simp only [hpayload, ne_eq, not_true_eq_false, false_and, false_or]
  · have haddr : a.payload.addr ≠ a.literals 2 := fun h => hpayload (a.payload_nil 2 h)
    rw [youtubeUrl_of_payload hpayload]
    simp only [hpayload, haddr, ne_eq, not_false_eq_true, true_and, false_and, or_false]

/-- The arguments of a launch: the two arrays of `handle_app_start`. -/
def frameArgs (frame : StartFrame) (payload additionalDataUrl : CStr) : StartArgs where
  literals := frame.literals
  payload := ⟨frame.body, payload⟩
  additionalDataUrl := ⟨frame.additionalDataParam, additionalDataUrl⟩
  payload_nil n h := absurd h (frame.body_ne n)
  additionalDataUrl_nil n h := absurd h (frame.additionalDataParam_ne n)

/-- **From the server**, the two agree just if neither text is empty. -/
theorem sameForm_frameArgs (frame : StartFrame) (payload additionalDataUrl : CStr) :
    SameForm (frameArgs frame payload additionalDataUrl) ↔
      payload ≠ .nil ∧ additionalDataUrl ≠ .nil := by
  have hbody := frame.body_ne
  have hparam := frame.additionalDataParam_ne
  simp [SameForm, frameArgs, hbody, hparam]

/-- A launch with a payload and additional data. -/
theorem youtubeUrl_agree_sample :
    youtubeUrl (.lit "v=1") (.lit "additionalDataUrl=x") =
        .ok (DialServer.youtubeUrl sampleFrame.literals ⟨sampleFrame.body, .lit "v=1"⟩
          ⟨sampleFrame.additionalDataParam, .lit "additionalDataUrl=x"⟩) ↔
      SameForm (frameArgs sampleFrame (.lit "v=1") (.lit "additionalDataUrl=x")) :=
  youtubeUrl_agree_iff (frameArgs sampleFrame (.lit "v=1") (.lit "additionalDataUrl=x"))
    (by decide)

/-- Without a payload the plugin asks for `https://www.youtube.com/tv?&…` where the
reference server asks for `https://www.youtube.com/tv`. -/
theorem not_youtubeUrl_agree_noPayload :
    youtubeUrl .nil (.lit "additionalDataUrl=x") = .ok (.lit "https://www.youtube.com/tv") ∧
      youtubeUrl .nil (.lit "additionalDataUrl=x") ≠
        .ok (DialServer.youtubeUrl sampleFrame.literals ⟨sampleFrame.body, .nil⟩
          ⟨sampleFrame.additionalDataParam, .lit "additionalDataUrl=x"⟩) := by
  have hreference : youtubeUrl .nil (.lit "additionalDataUrl=x") =
      .ok (.lit "https://www.youtube.com/tv") :=
    youtubeUrl_eq_ok.mpr ⟨by decide, rfl⟩
  refine ⟨hreference, ?_⟩
  rw [hreference]
  decide

/-! ### Netflix -/

/-- The maximum length of an additional data URL. -/
def dialMaxAdditionalUrl : ℕ := 1024

/-- The size of `sQueryParam`. -/
def queryParamSize : ℕ := dialMaxPayload + dialMaxAdditionalUrl + 40

/-- The part of `netflix_start` that appends the payload. -/
def appendPayload (payload : CStr) (sQueryParam : Block) : Except Fault Block :=
  if payload.strlen ≠ 0 then do
    let pUrlEncodedParams ← encodedString payload
    let sQueryParam ← sQueryParam.strcat (.lit "&dial=")
    sQueryParam.strcat pUrlEncodedParams
  else .ok sQueryParam

/-- The part that appends the additional data. -/
def appendAdditional (additionalDataUrl : CStr) (sQueryParam : Block) : Except Fault Block :=
  if additionalDataUrl.strlen ≠ 0 then do
    let sQueryParam ← sQueryParam.strcat (.lit "&")
    sQueryParam.strcat additionalDataUrl
  else .ok sQueryParam

/-- The query `netflix_start` assembles in the zeroed array. -/
def netflixQuery (payload additionalDataUrl : CStr) : Except Fault CStr := do
  let sQueryParam ← (Block.calloc queryParamSize).strcat (.lit "source_type=12")
  let sQueryParam ← appendPayload payload sQueryParam
  let sQueryParam ← appendAdditional additionalDataUrl sQueryParam
  sQueryParam.cstr

/-- The payload as it is appended. -/
def payloadPart (payload : CStr) : CStr :=
  if payload = .nil then .nil else .lit "&dial=" ++ .ofBuffer (urlEncoded payload.bytes)

/-- The additional data as it is appended. -/
def additionalPart (additionalDataUrl : CStr) : CStr :=
  if additionalDataUrl = .nil then .nil else .lit "&" ++ additionalDataUrl

/-- The query as it should be. -/
def netflixText (payload additionalDataUrl : CStr) : CStr :=
  .lit "source_type=12" ++ (payloadPart payload ++ additionalPart additionalDataUrl)

theorem appends_appendPayload (payload : CStr) :
    Block.Appends (appendPayload payload) (payloadPart payload) := by
  by_cases hnil : payload = .nil
  · have hstep : appendPayload payload = .ok := by
      funext b
      rw [appendPayload, if_neg (not_not.mpr (CStr.strlen_eq_zero.mpr hnil))]
    rw [hstep, payloadPart, if_pos hnil]
    exact Block.appends_ok
  · have hstep : appendPayload payload = fun b => b.strcat (.lit "&dial=") >>= fun b =>
        b.strcat (.ofBuffer (urlEncoded payload.bytes)) := by
      funext b
      rw [appendPayload, if_pos (fun h => hnil (CStr.strlen_eq_zero.mp h)), encodedString_eq]
      rfl
    rw [hstep, payloadPart, if_neg hnil]
    exact (Block.appends_strcat _).bind (Block.appends_strcat _)

theorem appends_appendAdditional (additionalDataUrl : CStr) :
    Block.Appends (appendAdditional additionalDataUrl) (additionalPart additionalDataUrl) := by
  by_cases hnil : additionalDataUrl = .nil
  · have hstep : appendAdditional additionalDataUrl = .ok := by
      funext b
      rw [appendAdditional, if_neg (not_not.mpr (CStr.strlen_eq_zero.mpr hnil))]
    rw [hstep, additionalPart, if_pos hnil]
    exact Block.appends_ok
  · have hstep : appendAdditional additionalDataUrl = fun b => b.strcat (.lit "&") >>= fun b =>
        b.strcat additionalDataUrl := by
      funext b
      rw [appendAdditional, if_pos (fun h => hnil (CStr.strlen_eq_zero.mp h))]
    rw [hstep, additionalPart, if_neg hnil]
    exact (Block.appends_strcat _).bind (Block.appends_strcat _)

/-- **The array holds the query as it should be**, if it is long enough. -/
theorem netflixQuery_eq_ok {payload additionalDataUrl query : CStr} :
    netflixQuery payload additionalDataUrl = .ok query ↔
      (netflixText payload additionalDataUrl).strlen < queryParamSize ∧
        query = netflixText payload additionalDataUrl := by
  have happends := (Block.appends_strcat (.lit "source_type=12")).bind
    ((appends_appendPayload payload).bind (appends_appendAdditional additionalDataUrl))
  have hquery := happends.cstr_calloc (t := query) (show 0 < queryParamSize by decide)
  rw [netflixText, ← hquery]
  simp only [netflixQuery, bind_assoc]

/-- How long the query is: the encoded payload takes three bytes for each of its characters
that is not written as it is. -/
def netflixLength (payload additionalDataUrl : CStr) : ℕ :=
  (if payload = .nil then 14
    else 20 + payload.strlen + 2 * payload.bytes.countP isHexEncoded) +
  if additionalDataUrl = .nil then 0 else 1 + additionalDataUrl.strlen

theorem strlen_netflixText (payload additionalDataUrl : CStr) :
    (netflixText payload additionalDataUrl).strlen = netflixLength payload additionalDataUrl := by
  have hlits : (CStr.lit "source_type=12").strlen = 14 ∧ (CStr.lit "&dial=").strlen = 6 ∧
      (CStr.lit "&").strlen = 1 := by decide
  have hencoded : (CStr.ofBuffer (urlEncoded payload.bytes)).strlen =
      payload.strlen + 2 * payload.bytes.countP isHexEncoded := by
    rw [CStr.strlen, CStr.bytes_ofBuffer (urlText_urlEncoded payload.bytes).zero_notMem,
      length_urlEncoded, CStr.strlen]
  rw [netflixText, netflixLength, payloadPart, additionalPart]
  split_ifs <;> simp only [CStr.strlen_append, CStr.strlen_nil, hlits, hencoded] <;> omega

/-- What the value of `dial` is followed by starts with a separator. -/
theorem additionalPart_eq (additionalDataUrl : CStr) :
    (additionalPart additionalDataUrl).bytes = [] ∨
      ∃ rest, (additionalPart additionalDataUrl).bytes = '&'.toUInt8 :: rest := by
  rw [additionalPart]
  split_ifs
  · exact Or.inl rfl
  · exact Or.inr ⟨additionalDataUrl.bytes, rfl⟩

/-- **Looking up `dial` finds the encoded payload**: nothing in front mentions the name, and
the encoded text does not contain a separator. -/
theorem parseParam_netflixText {payload : CStr} (hne : payload ≠ .nil) (additionalDataUrl : CStr) :
    parseParam (some (netflixText payload additionalDataUrl)) (.lit "dial") =
      some (.ofBuffer (urlEncoded payload.bytes)) := by
  have hencoded := urlText_urlEncoded payload.bytes
  have hamp : '&'.toUInt8 ∉ urlEncoded payload.bytes := hencoded.notMem (by decide)
  have hbytes : (netflixText payload additionalDataUrl).bytes =
      (CStr.lit "source_type=12").bytes ++ '&'.toUInt8 ::
        ((CStr.lit "dial").bytes ++ '='.toUInt8 ::
          (urlEncoded payload.bytes ++ (additionalPart additionalDataUrl).bytes)) := by
    have hdial : (CStr.lit "&dial=").bytes =
        '&'.toUInt8 :: ((CStr.lit "dial").bytes ++ ['='.toUInt8]) := by decide
    rw [netflixText, payloadPart, if_neg hne]
    simp only [CStr.bytes_append, hdial, CStr.bytes_ofBuffer hencoded.zero_notMem,
      List.append_assoc, List.cons_append, List.nil_append]
  have hvalue : (urlEncoded payload.bytes ++ (additionalPart additionalDataUrl).bytes).takeWhile
      (· ≠ '&'.toUInt8) = urlEncoded payload.bytes := by
    rw [List.takeWhile_append_of_pos fun c hc => by
      simpa using fun h : c = '&'.toUInt8 => hamp (h ▸ hc)]
    rcases additionalPart_eq additionalDataUrl with hrest | ⟨rest, hrest⟩
    · rw [hrest, List.takeWhile_nil, List.append_nil]
    · rw [hrest, List.takeWhile_cons_of_neg (by simp), List.append_nil]
  have hnot : strstr (CStr.lit "dial").bytes (CStr.lit "source_type=12").bytes = none := by decide
  rw [parseParam_eq, hbytes, strstr_append_cons (by decide) (by decide), hnot, Option.map_none,
    Option.none_or, strstr_of_prefix (List.prefix_append _ _), Option.map_some, valueAt,
    skipPast_append_cons (by decide), hvalue]

/-- **The query gives the payload back**: the value of `dial` decodes to it, in any object
that is large enough. -/
def GivesBack (query payload : CStr) : Prop :=
  ∃ value, parseParamCopy (some query) (.lit "dial") = .ok (some value) ∧
    ∀ (maxSize : ℕ) (dst : Block), payload.strlen ≤ maxSize → payload.strlen < dst.size →
      ∃ dst', urldecodeInt dst value maxSize = .ok (dst', (payload.strlen : ℤ)) ∧
        dst'.cstr = .ok payload

/-- **What is promised of the query**: it is assembled as it should be, inside its array,
and gives a payload back. -/
def NetflixComplete (payload additionalDataUrl : CStr) : Prop :=
  ∃ query, netflixQuery payload additionalDataUrl = .ok query ∧
    query = netflixText payload additionalDataUrl ∧
    (payload ≠ .nil → GivesBack query payload)

/-- What an array can hold, an `int` can measure. -/
theorem givesBack_netflixText {payload additionalDataUrl : CStr} (hne : payload ≠ .nil)
    (hfits : (netflixText payload additionalDataUrl).strlen < queryParamSize) :
    GivesBack (netflixText payload additionalDataUrl) payload := by
  have hsize : queryParamSize = 5160 := by decide
  have hlen : payload.strlen < 2 ^ 31 := by
    rw [strlen_netflixText, netflixLength, if_neg hne] at hfits
    omega
  refine ⟨.ofBuffer (urlEncoded payload.bytes), ?_, fun maxSize dst hmax hroom => ?_⟩
  · rw [parseParamCopy_eq (by omega), parseParam_netflixText hne]
  · obtain ⟨dst', hdecode, hstarts, -⟩ :=
      urldecode_encodedString (encodedString_eq payload) hmax hroom
    rw [intOfSize_eq.mpr hlen] at hdecode
    refine ⟨dst', hdecode, ?_⟩
    rw [hstarts.cstr]
    exact congrArg Except.ok (CStr.ext (CStr.bytes_ofBuffer payload.nul_free))

/-- **The Netflix query is complete** just if its array is long enough for the payload as it
is encoded. -/
theorem netflixComplete_iff (payload additionalDataUrl : CStr) :
    NetflixComplete payload additionalDataUrl ↔
      netflixLength payload additionalDataUrl < queryParamSize := by
  rw [← strlen_netflixText]
  constructor
  · rintro ⟨query, hquery, -, -⟩
    exact (netflixQuery_eq_ok.mp hquery).1
  · intro hfits
    exact ⟨_, netflixQuery_eq_ok.mpr ⟨hfits, rfl⟩, rfl,
      fun hne => givesBack_netflixText hne hfits⟩

/-- A payload of exclamation marks, as long as one may be. -/
def markPayload : CStr :=
  ⟨List.replicate dialMaxPayload '!'.toUInt8, by
    rw [List.mem_replicate]
    decide⟩

/-- It is accepted, and encoded it has three times its length. -/
theorem not_netflixComplete_markPayload :
    markPayload.bytes.length ≤ dialMaxPayload ∧ isBadPayload markPayload.bytes = false ∧
      ¬NetflixComplete markPayload .nil := by
  have hlen : markPayload.strlen = dialMaxPayload := List.length_replicate
  have hcount : markPayload.bytes.countP isHexEncoded = dialMaxPayload := by
    rw [List.countP_eq_length.mpr fun c hc => by
      rw [List.eq_of_mem_replicate hc]
      decide]
    exact hlen
  refine ⟨hlen.le, isBadPayload_eq_false.mpr fun c hc => ?_, ?_⟩
  · rw [List.eq_of_mem_replicate hc]
    decide
  · rintro ⟨query, hquery, -, -⟩
    have hfits := (netflixQuery_eq_ok.mp hquery).1
    have hne : markPayload ≠ .nil := fun h => by
      rw [h] at hlen
      exact absurd hlen (by decide)
    rw [strlen_netflixText, netflixLength, if_neg hne, if_pos rfl, hlen, hcount] at hfits
    exact absurd hfits (by decide)

end DialServer.Reference
