import DialServer.Launch
import DialServer.Lib.Http
import DialServer.Rendering

/-!
# What is sent

Six functions put an HTTP response together, each in a format string of its own, and
errors are sent at many places. `DialServer.AnswersOnce` is what a client needs: exactly
one response, and a complete one (`Http.Message`).

The four texts of the handlers are complete, as long as what they print from the request
stays on its line (`DialServer.message_createdText` and the others); the text of an
`OPTIONS` response is not, because the empty line is missing
(`DialServer.not_message_optionsText`). What remains is whether the request gets to its
answer at all, and `DialServer.answersOnce_iff` says when: with everything that the
branches need, nothing else is in the way.
-/

namespace DialServer

open CLib Http

variable {σ : Type}

/-! ### Texts on one line -/

/-- What a request brings into a response stays on one line. -/
structure PlainRequest (r : MgRequest) : Prop where
  /-- The URI. -/
  uri : OneLine r.uri.bytes
  /-- The values of the headers. -/
  headers : ∀ header ∈ r.httpHeaders, OneLine header.2.bytes

/-- A decimal number stays on one line. -/
theorem oneLine_ofNat (n : ℕ) : OneLine (CStr.ofNat n).bytes := by
  have hdigit : ∀ b ∈ (CStr.ofNat n).bytes, '0'.toUInt8 ≤ b := fun b hb => (digit_of_mem_ofNat hb).1
  exact ⟨fun h => absurd (hdigit 13 h) (by decide), fun h => absurd (hdigit 10 h) (by decide)⟩

theorem oneLine_inetNtop (addr : InAddr) : OneLine (inetNtop addr).bytes := by
  have hdot : OneLine (CStr.lit ".").bytes := by decide
  exact ((((((oneLine_ofNat _).append hdot).append (oneLine_ofNat _)).append hdot).append
    (oneLine_ofNat _)).append hdot).append (oneLine_ofNat _)

/-- The origin header is the value of some header. -/
theorem mem_of_scanHeaders {httpHeaders : List (CStr × CStr)} {origin : CStr}
    (h : (scanHeaders httpHeaders).origin = some origin) :
    ∃ header ∈ httpHeaders, header.2 = origin := by
  induction httpHeaders using List.reverseRecOn with
  | nil => exact absurd h (by simp [scanHeaders])
  | append_singleton headers header ih =>
    have hlift : (∃ other ∈ headers, other.2 = origin) →
        ∃ other ∈ headers ++ [header], other.2 = origin := by
      rintro ⟨other, hother, hvalue⟩
      exact ⟨other, List.mem_append_left _ hother, hvalue⟩
    rw [scanHeaders, List.foldl_append, ← scanHeaders] at h
    simp only [List.foldl_cons, List.foldl_nil, scanHeader] at h
    split_ifs at h
    · exact hlift (ih h)
    · exact ⟨header, by simp, Option.some.inj h⟩
    · exact hlift (ih h)

/-- The origin header of a plain request is printed on one line. -/
theorem PlainRequest.oneLine_origin {r : MgRequest} (h : PlainRequest r) :
    OneLine (formatString r.origin).bytes := by
  rcases horigin : r.origin with _ | origin
  · decide
  · obtain ⟨header, hheader, rfl⟩ := mem_of_scanHeaders horigin
    exact h.headers header hheader

/-! ### The texts -/

/-- A header line as the format strings write it. -/
def field (name value : CStr) : List UInt8 := (name ++ .lit ": " ++ value).bytes

theorem fieldLine_field {name value : CStr} (hname : IsToken name.bytes)
    (hvalue : OneLine value.bytes) : FieldLine (field name value) := by
  have hspace : OneLine [0x20] := by decide
  refine ⟨name.bytes, 0x20 :: value.bytes, ?_, hname, hspace.append hvalue⟩
  rw [field, CStr.bytes_append, CStr.bytes_append, List.append_assoc]
  rfl

section Texts

variable {origin : Option CStr}

/-- **A text with an origin header at its end is complete** if what comes before it is: a
status line and header lines. -/
theorem message_of_head {head tail : CStr} (start : List UInt8) (fields : List (List UInt8))
    (horigin : OneLine (formatString origin).bytes)
    (hhead : head.bytes = start ++ crlf ++ lines fields ++
      (CStr.lit "Access-Control-Allow-Origin: ").bytes)
    (htail : crlf ++ crlf <+: tail.bytes) (hstart : StatusLine start)
    (hfields : ∀ l ∈ fields, FieldLine l) :
    Message (head ++ formatString origin ++ tail).bytes := by
  obtain ⟨body, hbody⟩ := htail
  refine ⟨start, fields ++ [field (.lit "Access-Control-Allow-Origin") (formatString origin)],
    body, ?_, hstart, fun l hl => ?_⟩
  · have hname : (CStr.lit "Access-Control-Allow-Origin: ").bytes =
        (CStr.lit "Access-Control-Allow-Origin").bytes ++ (CStr.lit ": ").bytes := by decide
    rw [CStr.bytes_append, CStr.bytes_append, hhead, ← hbody, hname, lines_append, lines_cons,
      field, CStr.bytes_append, CStr.bytes_append]
    simp only [lines, List.flatMap_nil, List.append_nil, List.append_assoc]
  · rcases List.mem_append.mp hl with hmem | hlast
    · exact hfields l hmem
    · rw [List.mem_singleton.mp hlast]
      exact fieldLine_field (by decide +kernel) horigin

/-- Where a launched application is found. -/
def location (laddr : InAddr) (port : UInt16) (appName : CStr) : CStr :=
  .lit "http://" ++ inetNtop laddr ++ .lit ":" ++ .ofNat port.toNat ++ .lit "/apps/" ++ appName ++
    .lit "/run"

theorem oneLine_location (laddr : InAddr) (port : UInt16) {appName : CStr}
    (happName : OneLine appName.bytes) : OneLine (location laddr port appName).bytes := by
  have hscheme : OneLine (CStr.lit "http://").bytes := by decide
  have hcolon : OneLine (CStr.lit ":").bytes := by decide
  have happs : OneLine (CStr.lit "/apps/").bytes := by decide
  have hrun : OneLine (CStr.lit "/run").bytes := by decide
  exact (((((hscheme.append (oneLine_inetNtop laddr)).append hcolon).append
    (oneLine_ofNat port.toNat)).append happs).append happName).append hrun

/-- The response to a launch. -/
theorem message_createdText (laddr : InAddr) (port : UInt16) {appName : CStr}
    (happName : OneLine appName.bytes) (horigin : OneLine (formatString origin).bytes) :
    Message (createdText laddr port appName origin).bytes := by
  -- the literals of the format string, cut at their line ends
  have hstart : (CStr.lit
      "HTTP/1.1 201 Created\r\nContent-Type: text/plain\r\nLocation: http://").bytes =
        (CStr.lit "HTTP/1.1 201 Created").bytes ++ crlf ++
          lines [field (.lit "Content-Type") (.lit "text/plain")] ++
            field (.lit "Location") (.lit "http://") := by decide +kernel
  have hend : (CStr.lit "/run\r\nAccess-Control-Allow-Origin: ").bytes =
      (CStr.lit "/run").bytes ++ crlf ++ (CStr.lit "Access-Control-Allow-Origin: ").bytes := by
    decide +kernel
  have hstatus : StatusLine (CStr.lit "HTTP/1.1 201 Created").bytes :=
    ⟨[0x32, 0x30, 0x31], (CStr.lit "Created").bytes, by decide, rfl, by decide +kernel,
      by decide⟩
  have hhead : (CStr.lit "HTTP/1.1 201 Created\r\nContent-Type: text/plain\r\nLocation: http://" ++
      inetNtop laddr ++ .lit ":" ++ .ofNat port.toNat ++ .lit "/apps/" ++ appName ++
      .lit "/run\r\nAccess-Control-Allow-Origin: ").bytes =
        (CStr.lit "HTTP/1.1 201 Created").bytes ++ crlf ++
          lines [field (.lit "Content-Type") (.lit "text/plain"),
            field (.lit "Location") (location laddr port appName)] ++
              (CStr.lit "Access-Control-Allow-Origin: ").bytes := by
    simp only [CStr.bytes_append, hstart, hend, lines, List.flatMap_cons, List.flatMap_nil,
      field, location, List.append_assoc, List.append_nil]
  refine message_of_head _ _ horigin hhead (by decide) hstatus fun l hl => ?_
  rcases List.mem_pair.mp hl with rfl | rfl
  · exact fieldLine_field (by decide +kernel) (by decide)
  · exact fieldLine_field (by decide +kernel) (oneLine_location laddr port happName)

theorem statusLine_ok : StatusLine (CStr.lit "HTTP/1.1 200 OK").bytes :=
  ⟨[0x32, 0x30, 0x30], (CStr.lit "OK").bytes, by decide, rfl, by decide +kernel, by decide⟩

/-- The response that says it worked. -/
theorem message_okText (horigin : OneLine (formatString origin).bytes) :
    Message (okText origin).bytes := by
  refine message_of_head (CStr.lit "HTTP/1.1 200 OK").bytes
    [field (.lit "Content-Type") (.lit "text/plain")] horigin (by decide +kernel) (by decide)
    statusLine_ok fun l hl => ?_
  rw [List.mem_singleton.mp hl]
  exact fieldLine_field (by decide +kernel) (by decide)

/-- The response to new dial data. -/
theorem message_dialDataText (horigin : OneLine (formatString origin).bytes) :
    Message (dialDataText origin).bytes :=
  message_of_head (CStr.lit "HTTP/1.1 200 OK").bytes [] horigin (by decide +kernel) (by decide)
    statusLine_ok fun _ hl => absurd hl List.not_mem_nil

/-- The response to a status request: everything from the XML declaration on is its
body. -/
theorem message_statusText (name : CStr) (canStop : ℤ) (localState : DIALStatus)
    (dialData : CStr) (horigin : OneLine (formatString origin).bytes) :
    Message (statusText origin name canStop localState dialData).bytes := by
  have hempty : crlf ++ crlf <+:
      (CStr.lit "\r\n\r\n<?xml version=\"1.0\" encoding=\"UTF-8\"?>\r\n").bytes := by
    decide +kernel
  -- the first empty line ends the header, whatever the body holds
  simp only [statusText, CStr.append_assoc]
  rw [← CStr.append_assoc]
  refine message_of_head (CStr.lit "HTTP/1.1 200 OK").bytes
    [field (.lit "Content-Type") (.lit "text/xml")] horigin (by decide +kernel)
    (hempty.trans (List.prefix_append _ _)) statusLine_ok fun l hl => ?_
  rw [List.mem_singleton.mp hl]
  exact fieldLine_field (by decide +kernel) (by decide)

/-- **The response to `OPTIONS` is not complete**: its header lines are all there, but the
empty line is not. -/
theorem not_message_optionsText {methods : CStr} (hmethods : OneLine methods.bytes)
    (horigin : OneLine (formatString origin).bytes) :
    ¬Message (optionsText methods origin).bytes := by
  have hstart : (CStr.lit "HTTP/1.1 204 No Content\r\nAccess-Control-Allow-Methods: ").bytes =
      (CStr.lit "HTTP/1.1 204 No Content").bytes ++ crlf ++
        ((CStr.lit "Access-Control-Allow-Methods").bytes ++ (CStr.lit ": ").bytes) := by
    decide +kernel
  have hmiddle : (CStr.lit
      "\r\nAccess-Control-Max-Age: 86400\r\nAccess-Control-Allow-Origin: ").bytes =
        crlf ++ lines [field (.lit "Access-Control-Max-Age") (.lit "86400")] ++
          ((CStr.lit "Access-Control-Allow-Origin").bytes ++ (CStr.lit ": ").bytes) := by
    decide +kernel
  have hend : (CStr.lit "\r\nContent-Length: 0\r\n").bytes =
      crlf ++ lines [field (.lit "Content-Length") (.lit "0")] := by decide +kernel
  -- the text is the status line and four header lines, and nothing comes behind them
  have htext : (optionsText methods origin).bytes =
      (CStr.lit "HTTP/1.1 204 No Content").bytes ++ crlf ++
        lines [field (.lit "Access-Control-Allow-Methods") methods,
          field (.lit "Access-Control-Max-Age") (.lit "86400"),
          field (.lit "Access-Control-Allow-Origin") (formatString origin),
          field (.lit "Content-Length") (.lit "0")] := by
    simp only [optionsText, CStr.bytes_append, hstart, hmiddle, hend, lines, List.flatMap_cons,
      List.flatMap_nil, field, List.append_assoc, List.append_nil]
  rw [htext]
  refine not_message_of_unfinished (by decide) fun l hl => FieldLine.oneLine ?_
  simp only [List.mem_cons, List.not_mem_nil, or_false] at hl
  rcases hl with rfl | rfl | rfl | rfl
  · exact fieldLine_field (by decide +kernel) hmethods
  · exact fieldLine_field (by decide +kernel) (by decide)
  · exact fieldLine_field (by decide +kernel) horigin
  · exact fieldLine_field (by decide +kernel) (by decide)

end Texts

/-! ### The answers of the handlers -/

/-- A complete response; that of `send_http_error` is. -/
def Reply.Complete : Reply → Prop
  | .printf text => Message text.bytes
  | .httpError _ _ _ => True

/-- **Exactly one response is sent**, and a complete one. -/
def AnswersOnce (o : Outcome σ) : Prop := ∃ reply, o.replies = [reply] ∧ reply.Complete

theorem answersOnce_error (w : World σ) (calls : List Call) (status : ℕ) (reason : String) :
    AnswersOnce (.error w calls status reason) := ⟨_, rfl, trivial⟩

theorem not_answersOnce_crash (w : World σ) (calls : List Call) (halt : Halt) :
    ¬AnswersOnce (.crash w calls halt) := by
  rintro ⟨reply, hreplies, -⟩
  exact absurd hreplies (by simp [Outcome.crash])

/-- One text is sent. -/
theorem answersOnce_printf {o : Outcome σ} {text : CStr} (h : o.replies = [.printf text]) :
    AnswersOnce o ↔ Message text.bytes := by
  constructor
  · rintro ⟨reply, hreplies, hcomplete⟩
    obtain rfl : Reply.printf text = reply := by simpa using h.symm.trans hreplies
    exact hcomplete
  · exact fun hmessage => ⟨_, h, hmessage⟩

/-- The dial data can be rendered: its nodes hold strings, and the text they make leaves
room for a terminator. -/
def Renders (nodes : List DIALData) : Prop :=
  ∃ pairs : List (CStr × CStr), nodes.map DIALData.pair = pairs.map .ok ∧
    renderedLength pairs < dialDataSize

theorem renders_iff {nodes : List DIALData} :
    (∃ text, renderDialData nodes = .ok text) ↔ Renders nodes := by
  constructor
  · rintro ⟨text, htext⟩
    obtain ⟨pairs, hpairs⟩ : ∃ pairs : List (CStr × CStr),
        nodes.map DIALData.pair = pairs.map .ok := by
      rw [renderDialData] at htext
      rcases hloop : renderLoop nodes (Block.calloc dialDataSize) 0 with f | b
      · rw [hloop] at htext
        exact absurd htext (by simp [bind, Except.bind])
      · exact pairs_of_renderLoop hloop
    refine ⟨pairs, hpairs, ?_⟩
    by_contra hlong
    rw [renderDialData_of_pairs hpairs, length_renderedText, if_neg hlong] at htext
    exact absurd htext (by simp)
  · rintro ⟨pairs, hpairs, hroom⟩
    exact ⟨_, by rw [renderDialData_of_pairs hpairs, length_renderedText, if_pos hroom]⟩

/-- **What an action needs to get to its answer.** Starting an application that is told its
additional data needs room for it, once the payload is accepted; the status needs dial
data that can be rendered; and new dial data that passes the checks needs to be made of
pieces that convert, and a file that opens. -/
def Finishes (H : Host σ) (w : World σ) (r : MgRequest) (X : CStr) (app : DIALApp) :
    Action → Prop
  | .start => r.body.length ≤ dialMaxPayload → Printable r.body → app.useAdditionalData ≠ 0 →
    AdditionalDataFits w.port X
  | .status => Renders app.dialData
  | .stop => True
  | .hide => True
  | .dialData usePayload => isBadPayload (dialDataBody r usePayload) = false →
    QueryConverts (postedQuery r usePayload) ∧
      H.canOpen w.host (getAppPath w.dialDataDir X) = true

section Handlers

variable {H : Host σ} {w : World σ} {r : MgRequest} {X : CStr} {app : DIALApp}

theorem answersOnce_launch (hplain : PlainRequest r) (hX : OneLine X.bytes) (slot : ℕ)
    (body : Payload) (param : CStr) :
    AnswersOnce (launch H w r slot app X r.origin body param) := by
  have hreplies := launch_replies H w r slot app X r.origin body param
  split at hreplies
  · exact (answersOnce_printf hreplies).mpr (message_createdText _ _ hX hplain.oneLine_origin)
  · exact ⟨_, hreplies, trivial⟩

theorem answersOnce_handleAppStart (hplain : PlainRequest r) (hX : OneLine X.bytes)
    (happ : lookupApp w.apps X = some app) :
    AnswersOnce (handleAppStart H w r X r.origin) ↔ Finishes H w r X app .start := by
  rw [Finishes]
  by_cases hlong : dialMaxPayload < r.body.length
  · rw [handleAppStart_tooLarge happ hlong]
    exact iff_of_true (answersOnce_error _ _ _ _) fun hlen => absurd hlong (by omega)
  · have hlen : r.body.length ≤ dialMaxPayload := by omega
    by_cases hgood : Printable r.body
    · rw [handleAppStart_good happ hlen hgood, forall_prop_of_true hlen,
        forall_prop_of_true hgood, ← additionalDataFor_eq]
      rcases additionalDataFor app w.port X with f | param
      · exact iff_of_false (not_answersOnce_crash _ _ _) (by simp)
      · exact iff_of_true (answersOnce_launch hplain hX _ _ _) ⟨param, rfl⟩
    · rw [handleAppStart_bad happ hlen hgood]
      exact iff_of_true (answersOnce_error _ _ _ _) fun _ h => absurd h hgood

theorem answersOnce_handleAppStatus (hplain : PlainRequest r)
    (happ : lookupApp w.apps X = some app) :
    AnswersOnce (handleAppStatus H w r X r.origin) ↔ Finishes H w r X app .status := by
  have hslot : w.apps[findApp w.apps X]? = some app := happ
  rw [Finishes, ← renders_iff]
  rcases hrender : renderDialData app.dialData with f | dialData
  · simp only [handleAppStatus, hslot, hrender]
    exact iff_of_false (not_answersOnce_crash _ _ _) (by simp)
  · simp only [handleAppStatus, hslot, hrender]
    refine iff_of_true ?_ ⟨dialData, rfl⟩
    exact (answersOnce_printf rfl).mpr (message_statusText _ _ _ _ hplain.oneLine_origin)

theorem answersOnce_handleAppStop (hplain : PlainRequest r) :
    AnswersOnce (handleAppStop H w X r.origin) := by
  simp only [handleAppStop]
  split
  · exact answersOnce_error _ _ _ _
  · split
    · exact answersOnce_error _ _ _ _
    · exact (answersOnce_printf rfl).mpr (message_okText hplain.oneLine_origin)

theorem answersOnce_handleAppHide (hplain : PlainRequest r) :
    AnswersOnce (handleAppHide H w X r.origin) := by
  simp only [handleAppHide]
  split
  · exact answersOnce_error _ _ _ _
  · split
    · exact answersOnce_error _ _ _ _
    · split
      · exact answersOnce_error _ _ _ _
      · exact (answersOnce_printf rfl).mpr (message_okText hplain.oneLine_origin)

theorem answersOnce_handleDialData (hplain : PlainRequest r) (usePayload : Bool)
    (happ : lookupApp w.apps X = some app) :
    AnswersOnce (handleDialData H w r X r.origin usePayload) ↔
      Finishes H w r X app (.dialData usePayload) := by
  rw [Finishes]
  rcases hbad : isBadPayload (dialDataBody r usePayload) with _ | _
  · rw [forall_prop_of_true rfl]
    by_cases hcond : QueryConverts (postedQuery r usePayload) ∧
        H.canOpen w.host (getAppPath w.dialDataDir X) = true
    · obtain ⟨nodes, -, -, hdone⟩ :=
        handleDialData_done H r r.origin usePayload happ hbad hcond.1 hcond.2
      rw [hdone]
      refine iff_of_true ?_ hcond
      exact (answersOnce_printf rfl).mpr (message_dialDataText hplain.oneLine_origin)
    · obtain ⟨w', halt, hcrash⟩ :=
        handleDialData_crash H r usePayload happ hbad hcond
      rw [hcrash]
      exact iff_of_false (not_answersOnce_crash _ _ _) hcond
  · rw [handleDialData_bad H r r.origin usePayload happ hbad]
    exact iff_of_true (answersOnce_error _ _ _ _) fun h => absurd h (by simp)

end Handlers

/-! ### The answer to a request -/

/-- **What a request needs to be answered.** Its URI has a length with which the copy of the
name stays in the URI and in the array; it is not an `OPTIONS` request that is allowed; if it gets
to a registered application, past the check of its origin where there is one, the action
finishes; and a name that fills its array is not compared with one that goes on where the array
ends. -/
structure Answerable (H : Host σ) (w : World σ) (r : MgRequest) : Prop where
  /-- The name is cut out without harm. -/
  lengths : CopyLengths r.uri
  /-- The list of methods is refused. -/
  options : ∀ name methods, r.route = .options name methods → ¬Authorised w r name.str
  /-- So it is for a full name, and the scan that refuses it stays in the array. -/
  optionsFilled : ∀ name methods, r.route = .optionsFilled name methods → r.host.isSome →
    scansFor r.origin ∧ ¬OutrunsArray w.apps name
  /-- What looks a full name up stays in the array. -/
  actFilled : ∀ action name, r.route = .actFilled action name →
    (action.guarded → r.host.isSome) → ¬OutrunsArray w.apps name
  /-- The action finishes. -/
  finishes : ∀ action name app, r.route = .act action name →
    (action.guarded = true → Authorised w r name.str) →
      lookupApp w.apps name.str = some app → Finishes H w r name.str app action

section Request

variable {H : Host σ} {w : World σ} {r : MgRequest}

/-- **A handler answers once exactly when its action finishes**, if there is an application
to act on. -/
theorem answersOnce_handle (hplain : PlainRequest r) {action : Action} {name : AppName}
    (hroute : r.route = .act action name) :
    AnswersOnce (handle H w r action name.str) ↔
      ∀ app, lookupApp w.apps name.str = some app → Finishes H w r name.str app action := by
  rcases happ : lookupApp w.apps name.str with _ | app
  · rw [handle_of_lookup_none happ]
    exact iff_of_true (answersOnce_error _ _ _ _) fun app h => absurd h (by simp)
  · simp only [Option.some.injEq, forall_eq']
    cases action with
    | start =>
      -- the name is printed in the `Location`, and it is part of the URI
      obtain ⟨-, huri⟩ := (route_fits hroute).2 rfl
      have hname : OneLine name.str.bytes := by
        have hline := hplain.uri
        rw [huri, OneLine, CStr.bytes_append, List.mem_append, List.mem_append, not_or,
          not_or] at hline
        exact ⟨hline.1.2, hline.2.2⟩
      exact answersOnce_handleAppStart hplain hname happ
    | status => exact answersOnce_handleAppStatus hplain happ
    | stop => exact iff_of_true (answersOnce_handleAppStop hplain) trivial
    | hide => exact iff_of_true (answersOnce_handleAppHide hplain) trivial
    | dialData usePayload => exact answersOnce_handleDialData hplain usePayload happ

/-- What was sent does not depend on the end of the branch. -/
theorem answersOnce_freeAppName {name : AppName} {o : Outcome σ} :
    AnswersOnce (freeAppName name o) ↔ AnswersOnce o := by
  rw [AnswersOnce, AnswersOnce, freeAppName_replies]

/-- An `OPTIONS` request is answered only when it is refused. -/
theorem answersOnce_optionsResponse (hplain : PlainRequest r) {appName methods : CStr}
    (hmethods : OneLine methods.bytes) :
    AnswersOnce (optionsResponse w r.host r.origin appName methods) ↔
      ¬Authorised w r appName := by
  rw [optionsResponse, Authorised]
  split
  · rename_i hallowed
    refine iff_of_false (fun h => ?_) (not_not_intro hallowed)
    exact not_message_optionsText hmethods hplain.oneLine_origin ((answersOnce_printf rfl).mp h)
  · rename_i hrefused
    exact iff_of_true (answersOnce_error _ _ _ _) hrefused

/-- A full name is refused or not found, unless it is compared with a name that goes on where
the array ends. -/
theorem answersOnce_actFilled {action : Action} {name : CStr} :
    AnswersOnce (perform H w r (.actFilled action name)) ↔
      ((action.guarded → r.host.isSome) → ¬OutrunsArray w.apps name) := by
  rw [perform_actFilled]
  split_ifs with hcrash hrefused
  · exact iff_of_false (not_answersOnce_crash _ _ _) fun h => h hcrash.1 hcrash.2
  · exact iff_of_true (answersOnce_error _ _ _ _) fun hcompared hout => hcrash ⟨hcompared, hout⟩
  · exact iff_of_true (answersOnce_error _ _ _ _) fun hcompared hout => hcrash ⟨hcompared, hout⟩

theorem answersOnce_optionsFilled (hplain : PlainRequest r) {name methods : CStr}
    (hmethods : OneLine methods.bytes) :
    AnswersOnce (perform H w r (.optionsFilled name methods)) ↔
      (r.host.isSome → scansFor r.origin ∧ ¬OutrunsArray w.apps name) := by
  rw [perform_optionsFilled]
  split_ifs with hcrash hrefused
  · exact iff_of_false (not_answersOnce_crash _ _ _) fun h => (h hcrash.1.1).2 hcrash.2
  · exact iff_of_true (answersOnce_error _ _ _ _) fun hhost =>
      ⟨hrefused hhost, fun hout => hcrash ⟨⟨hhost, hrefused hhost⟩, hout⟩⟩
  · refine iff_of_false (fun h => ?_) fun h => hrefused fun hhost => (h hhost).1
    exact not_message_optionsText hmethods hplain.oneLine_origin ((answersOnce_printf rfl).mp h)

/-- What the routes that are not there ask for is there. -/
theorem answerable_of_route {ro : Route} (hroute : r.route = ro)
    (hlengths : CopyLengths r.uri)
    (hoptions : ∀ name methods, ro = .options name methods → ¬Authorised w r name.str)
    (hoptionsFilled : ∀ name methods, ro = .optionsFilled name methods → r.host.isSome →
      scansFor r.origin ∧ ¬OutrunsArray w.apps name)
    (hactFilled : ∀ action name, ro = .actFilled action name →
      (action.guarded → r.host.isSome) → ¬OutrunsArray w.apps name)
    (hfinishes : ∀ action name app, ro = .act action name →
      (action.guarded = true → Authorised w r name.str) →
        lookupApp w.apps name.str = some app → Finishes H w r name.str app action) :
    Answerable H w r := by
  subst hroute
  exact ⟨hlengths, hoptions, hoptionsFilled, hactFilled, hfinishes⟩

end Request

/-- **A request is answered exactly once and with a complete message exactly when nothing
is in the way**: for every state of the server and every request whose URI and headers
stay on their lines. -/
theorem answersOnce_iff (H : Host σ) (w : World σ) (r : MgRequest) (hplain : PlainRequest r) :
    AnswersOnce (requestHandler H w r) ↔ Answerable H w r := by
  rw [requestHandler_eq]
  cases hroute : r.route with
  | crash f =>
    rw [perform]
    -- the copy has left the URI or the array
    refine iff_of_false (not_answersOnce_crash _ _ _) fun h => ?_
    exact exists_route_eq_crash.mp ⟨f, hroute⟩ h.lengths
  | refuse status reason =>
    have hlengths : CopyLengths r.uri := copyLengths_of_route fun f hcrash =>
      absurd (hroute.symm.trans hcrash) (by simp)
    rw [perform]
    exact iff_of_true (answersOnce_error _ _ _ _)
      (answerable_of_route hroute hlengths (by simp) (by simp) (by simp) (by simp))
  | options name methods =>
    have hlengths : CopyLengths r.uri := copyLengths_of_route fun f hcrash =>
      absurd (hroute.symm.trans hcrash) (by simp)
    -- whatever the resource, the methods are a literal of the source
    have hmethods : OneLine methods.bytes := by
      have hall : ∀ methods ∈ [CStr.lit "DELETE, OPTIONS", .lit "GET, POST, OPTIONS",
          .lit "POST, OPTIONS"], OneLine methods.bytes := by decide
      exact hall methods (route_fits hroute)
    rw [perform, answersOnce_freeAppName, answersOnce_optionsResponse hplain hmethods]
    constructor
    · refine fun hrefused => answerable_of_route hroute hlengths (fun name' methods' h => ?_)
        (by simp) (by simp) (by simp)
      obtain ⟨rfl, -⟩ := Route.options.inj h
      exact hrefused
    · exact fun h => h.options name methods hroute
  | act action name =>
    have hlengths : CopyLengths r.uri := copyLengths_of_route fun f hcrash =>
      absurd (hroute.symm.trans hcrash) (by simp)
    rw [perform]
    -- a guarded action of a foreign origin is refused, and so answered
    by_cases hauth : action.guarded = true → Authorised w r name.str
    · rw [if_neg fun h => h.2 (hauth h.1), answersOnce_freeAppName,
        answersOnce_handle hplain hroute]
      constructor
      · refine fun hfinishes => answerable_of_route hroute hlengths (by simp) (by simp) (by simp)
          fun action' name' app h _ happ => ?_
        obtain ⟨rfl, rfl⟩ := Route.act.inj h
        exact hfinishes app happ
      · exact fun h app happ => h.finishes action name app hroute hauth happ
    · obtain ⟨hguarded, hno⟩ := Classical.not_imp.mp hauth
      rw [if_pos ⟨hguarded, hno⟩]
      refine iff_of_true (answersOnce_error _ _ _ _) (answerable_of_route hroute hlengths (by simp)
        (by simp) (by simp) fun action' name' app h hyes _ => ?_)
      obtain ⟨rfl, rfl⟩ := Route.act.inj h
      exact absurd hyes hauth
  | optionsFilled name methods =>
    have hlengths : CopyLengths r.uri := copyLengths_of_route fun f hcrash =>
      absurd (hroute.symm.trans hcrash) (by simp)
    have hmethods : OneLine methods.bytes := by
      have hall : ∀ methods ∈ [CStr.lit "DELETE, OPTIONS", .lit "POST, OPTIONS"],
          OneLine methods.bytes := by decide
      exact hall methods (route_fits hroute)
    rw [answersOnce_optionsFilled hplain hmethods]
    constructor
    · refine fun h => answerable_of_route hroute hlengths (by simp) (fun name' methods' heq => ?_)
        (by simp) (by simp)
      obtain ⟨rfl, -⟩ := Route.optionsFilled.inj heq
      exact h
    · exact fun h => h.optionsFilled name methods hroute
  | actFilled action name =>
    have hlengths : CopyLengths r.uri := copyLengths_of_route fun f hcrash =>
      absurd (hroute.symm.trans hcrash) (by simp)
    rw [answersOnce_actFilled]
    constructor
    · refine fun h => answerable_of_route hroute hlengths (by simp) (by simp)
        (fun action' name' heq => ?_) (by simp)
      obtain ⟨rfl, rfl⟩ := Route.actFilled.inj heq
      exact h
    · exact fun h => h.actFilled action name hroute

/-- A request of the probe is plain. -/
theorem plainRequest_probeRequest {method uri : CStr} (huri : OneLine uri.bytes) :
    PlainRequest (probeRequest method uri) := by
  refine ⟨huri, fun header hheader => ?_⟩
  rw [List.mem_singleton.mp hheader]
  decide

/-- Stopping YouTube is answered once. -/
theorem answersOnce_iff_stop : AnswersOnce (requestHandler probeHost
    (probeWorld (.lit "YouTube")) (probeRequest (.lit "DELETE") (.lit "/apps/YouTube/run"))) := by
  have hroute : (probeRequest (.lit "DELETE") (.lit "/apps/YouTube/run")).route =
      .act .stop (.kept (.lit "YouTube")) :=
    route_appRun (X := .lit "YouTube") (by decide) (by decide)
  refine (answersOnce_iff probeHost (probeWorld (.lit "YouTube")) _
    (plainRequest_probeRequest (by decide))).mpr (answerable_of_route hroute ?_ (by simp) (by simp)
      (by simp) fun _ _ _ h _ _ => ?_)
  · exact copyLengths_of_route fun f hcrash => absurd (hroute.symm.trans hcrash) (by simp)
  · obtain ⟨rfl, rfl⟩ := Route.act.inj h
    trivial

/-- **An allowed `OPTIONS` request gets no complete answer.** -/
theorem not_answersOnce_options :
    PlainRequest (probeRequest (.lit "OPTIONS") (.lit "/apps/YouTube")) ∧
      ¬AnswersOnce (requestHandler probeHost (probeWorld (.lit "YouTube"))
        (probeRequest (.lit "OPTIONS") (.lit "/apps/YouTube"))) := by
  have hroute : (probeRequest (.lit "OPTIONS") (.lit "/apps/YouTube")).route =
      .options (.kept (.lit "YouTube")) (.lit "GET, POST, OPTIONS") :=
    route_app (X := .lit "YouTube") (by decide) (by decide)
  have hplain : PlainRequest (probeRequest (.lit "OPTIONS") (.lit "/apps/YouTube")) :=
    plainRequest_probeRequest (by decide)
  have hallowed : Authorised (probeWorld (.lit "YouTube"))
      (probeRequest (.lit "OPTIONS") (.lit "/apps/YouTube")) (.lit "YouTube") := ⟨rfl, rfl⟩
  refine ⟨hplain, ?_⟩
  rw [requestHandler_eq, hroute, perform, answersOnce_freeAppName,
    answersOnce_optionsResponse hplain (by decide)]
  exact not_not_intro hallowed

end DialServer
