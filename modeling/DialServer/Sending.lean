import DialServer.Connection
import DialServer.Locking
import DialServer.Responses

/-!
# From a reply to the wire

What the handlers format is written into an array of `BUFSIZ` bytes first, and what does not
fit is cut off; then `push` sends the array, however few bytes the socket takes at a time.

An error is complete whatever happens: its head is short, and its `Content-Length` counts what
is left of its body (`DialServer.framed_wire`). A text is complete if its head fits, that is,
if the `Origin` header and the URI, which it repeats, are not too long. With that, the answer of
the server to a request, from the chunks that come to the bytes that leave, is one complete
response exactly when the request can be answered (`DialServer.answered_iff`).
-/

namespace DialServer

open CLib Chunks Http

variable {σ : Type}

/-! ### Writing -/

/-- The loop of `push`, of at most `fuel` calls of `send`, from the `k`-th one on; `accepts`
says how many bytes each of them takes, or that it fails. What is sent, and how many calls were
made. -/
def push (accepts : ℕ → Option ℕ) : ℕ → ℕ → List UInt8 → List UInt8 × ℕ
  | fuel + 1, k, c :: buf =>
    match accepts k with
    | none => ([], k + 1)
    | some n =>
      let sent := push accepts fuel (k + 1) ((c :: buf).drop n)
      ((c :: buf).take n ++ sent.1, sent.2)
  | _, k, _ => ([], k)

/-- `mg_connection::vsnprintf`: what is in the array. -/
def vsnprintf (buflen : ℕ) (text : CStr) : CStr := text.take (buflen - 1)

/-- The body of an error: the text `send_http_error` puts into its array. A first line that
fills the array loses its terminator to the newline. -/
def errorBody (bufsiz status : ℕ) (reason fmt : CStr) : Except Fault CStr :=
  -- errors 1xx, 204 and 304 must not send a body
  if 199 < status ∧ status ≠ 204 ∧ status ≠ 304 then
    let line := vsnprintf bufsiz (errorLine status reason)
    if line.strlen + 1 < bufsiz then
      .ok (line ++ .lit "\n" ++ vsnprintf (bufsiz - (line.strlen + 1)) fmt)
    else .error .unterminated
  else .ok .nil

/-- What is written for a reply, one array after the other. -/
def Reply.writes (bufsiz : ℕ) : Reply → Except Fault (List CStr)
  | .printf text => .ok [vsnprintf bufsiz text]
  | .httpError status reason fmt => do
    let body ← errorBody bufsiz status reason fmt
    return [vsnprintf bufsiz (errorHeader status reason body.strlen), vsnprintf bufsiz body]

/-- The arrays are pushed, one after the other. -/
def pushAll (accepts : ℕ → Option ℕ) : ℕ → List CStr → List UInt8
  | _, [] => []
  | k, s :: strings =>
    let sent := push accepts s.strlen k s.bytes
    sent.1 ++ pushAll accepts sent.2 strings

/-- Every call of `send` takes something. -/
def Accepting (accepts : ℕ → Option ℕ) : Prop := ∀ k, ∃ n, accepts k = some (n + 1)

/-- **All of it is sent**, in order and once, however little is taken at a time. -/
theorem push_eq {accepts : ℕ → Option ℕ} (h : Accepting accepts) {fuel : ℕ} {buf : List UInt8}
    (hfuel : buf.length ≤ fuel) (k : ℕ) : (push accepts fuel k buf).1 = buf := by
  induction fuel generalizing buf k with
  | zero =>
    rw [List.eq_nil_of_length_eq_zero (Nat.le_zero.mp hfuel)]
    rfl
  | succ fuel ih =>
    cases buf with
    | nil => rfl
    | cons c buf =>
      obtain ⟨n, hn⟩ := h k
      have hrest : ((c :: buf).drop (n + 1)).length ≤ fuel := by
        rw [List.length_drop]
        simp only [List.length_cons] at hfuel ⊢
        omega
      simp only [push, hn]
      rw [ih hrest, List.take_append_drop]

theorem pushAll_eq {accepts : ℕ → Option ℕ} (h : Accepting accepts) (k : ℕ)
    (strings : List CStr) : pushAll accepts k strings = strings.flatMap CStr.bytes := by
  induction strings generalizing k with
  | nil => rfl
  | cons s strings ih =>
    rw [pushAll, List.flatMap_cons, ih]
    exact congrArg (· ++ _) (push_eq h le_rfl k)

/-- What the client gets of a reply. -/
def Reply.wire (bufsiz : ℕ) (accepts : ℕ → Option ℕ) (reply : Reply) :
    Except Fault (List UInt8) :=
  (reply.writes bufsiz).map (pushAll accepts 0)

/-! ### Errors -/

/-- A complete message that says how long its body is. -/
def Framed (text : List UInt8) : Prop :=
  ∃ start fields body, text = messageHead start fields ++ body ∧ StatusLine start ∧
    (∀ l ∈ fields, FieldLine l) ∧
    field (.lit "Content-Length") (.ofNat body.length) ∈ fields

theorem Framed.message {text : List UInt8} (h : Framed text) : Message text := by
  obtain ⟨start, fields, body, rfl, hstart, hfields, -⟩ := h
  exact ⟨start, fields, body, by simp [messageHead], hstart, hfields⟩

/-- The reasons the server gives. -/
structure ShortReason (status : ℕ) (reason : CStr) : Prop where
  three : 100 ≤ status ∧ status < 1000
  line : OneLine reason.bytes
  short : reason.strlen ≤ 32

theorem strlen_status {status : ℕ} (h : 100 ≤ status ∧ status < 1000) :
    (CStr.ofNat status).strlen = 3 := by
  have hle : (CStr.ofNat status).strlen ≤ 3 := strlen_ofNat_le (by decide) h.2
  have hlen : (CStr.ofNat status).strlen = (Nat.toDigits 10 status).length := by
    rw [CStr.strlen, bytes_ofNat, List.length_map]
  have hge : ¬(Nat.toDigits 10 status).length ≤ 2 := by
    rw [Nat.length_toDigits_le_iff (by decide) (by decide)]
    omega
  omega

theorem statusLine_error {status : ℕ} {reason : CStr} (h : ShortReason status reason) :
    StatusLine (CStr.lit "HTTP/1.1 " ++ .ofNat status ++ .lit " " ++ reason).bytes := by
  refine ⟨(CStr.ofNat status).bytes, reason.bytes, ?_, strlen_status h.three,
    fun c hc => digit_of_mem_ofNat hc, h.line⟩
  simp only [CStr.bytes_append, List.append_assoc]
  rfl

/-- The header lines of an error. -/
def errorFields (len : ℕ) : List (List UInt8) :=
  [field (.lit "Content-Type") (.lit "text/plain"), field (.lit "Content-Length") (.ofNat len),
    field (.lit "Connection") (.lit "close")]

theorem bytes_errorHeader (status : ℕ) (reason : CStr) (len : ℕ) :
    (errorHeader status reason len).bytes =
      messageHead (CStr.lit "HTTP/1.1 " ++ .ofNat status ++ .lit " " ++ reason).bytes
        (errorFields len) := by
  have hmiddle : (CStr.lit "\r\nContent-Type: text/plain\r\nContent-Length: ").bytes =
      crlf ++ lines [field (.lit "Content-Type") (.lit "text/plain")] ++
        ((CStr.lit "Content-Length").bytes ++ (CStr.lit ": ").bytes) := by
    rw [field, CStr.bytes_lit]
    rfl
  have hend : (CStr.lit "\r\nConnection: close\r\n\r\n").bytes =
      crlf ++ lines [field (.lit "Connection") (.lit "close")] ++ crlf := by
    rw [field, CStr.bytes_lit]
    rfl
  simp only [errorHeader, CStr.bytes_append, hmiddle, hend, messageHead, errorFields, lines,
    List.flatMap_cons, List.flatMap_nil, field, List.append_assoc, List.append_nil]

theorem fieldLine_errorFields (len : ℕ) : ∀ l ∈ errorFields len, FieldLine l := by
  intro l hl
  simp only [errorFields, List.mem_cons, List.not_mem_nil, or_false] at hl
  rcases hl with rfl | rfl | rfl
  · exact fieldLine_field (by rw [CStr.bytes_lit]; decide) (by decide)
  · exact fieldLine_field (by rw [CStr.bytes_lit]; decide) (oneLine_ofNat len)
  · exact fieldLine_field (by rw [CStr.bytes_lit]; decide) (by decide)

theorem strlen_errorHeader_lt {status len : ℕ} {reason : CStr} (h : ShortReason status reason)
    (hlen : len < 10 ^ 10) : (errorHeader status reason len).strlen < 128 := by
  have hlits : (CStr.lit "HTTP/1.1 ").strlen = 9 ∧ (CStr.lit " ").strlen = 1 ∧
      (CStr.lit "\r\nContent-Type: text/plain\r\nContent-Length: ").strlen = 44 ∧
      (CStr.lit "\r\nConnection: close\r\n\r\n").strlen = 23 :=
    ⟨CStr.strlen_lit _, CStr.strlen_lit _, CStr.strlen_lit _, CStr.strlen_lit _⟩
  have hdigits : (CStr.ofNat len).strlen ≤ 10 := strlen_ofNat_le (by decide) hlen
  have hshort := h.short
  simp only [errorHeader, CStr.strlen_append, hlits, strlen_status h.three]
  omega

/-- A text that fits is put into the array whole. -/
theorem vsnprintf_of_lt {buflen : ℕ} {text : CStr} (h : text.strlen < buflen) :
    vsnprintf buflen text = text :=
  CStr.ext (List.take_of_length_le (Nat.le_sub_one_of_lt h))

theorem strlen_vsnprintf_le (buflen : ℕ) (text : CStr) :
    (vsnprintf buflen text).strlen ≤ buflen - 1 := by
  rw [vsnprintf, CStr.strlen_take]
  exact Nat.min_le_left _ _

/-- The body of an error fits into the array. -/
theorem exists_errorBody {bufsiz status : ℕ} {reason : CStr} (fmt : CStr)
    (h : ShortReason status reason) (hsiz : 128 ≤ bufsiz) :
    ∃ body, errorBody bufsiz status reason fmt = .ok body ∧ body.strlen < bufsiz := by
  have hline : (errorLine status reason).strlen < 64 := by
    have hlits : (CStr.lit "Error ").strlen = 6 ∧ (CStr.lit ": ").strlen = 2 := by decide
    have hshort := h.short
    simp only [errorLine, CStr.strlen_append, hlits, strlen_status h.three]
    omega
  rw [errorBody]
  split
  · rw [vsnprintf_of_lt (hline.trans (by omega))]
    dsimp only
    rw [if_pos (by omega)]
    refine ⟨_, rfl, ?_⟩
    have hfmt := strlen_vsnprintf_le (bufsiz - ((errorLine status reason).strlen + 1)) fmt
    have hnewline : (CStr.lit "\n").strlen = 1 := by decide
    simp only [CStr.strlen_append, hnewline]
    omega
  · exact ⟨.nil, rfl, by rw [CStr.strlen_nil]; omega⟩

/-- **An error is complete**, and its length is right, whatever its text is. -/
theorem framed_wire {bufsiz status : ℕ} {reason : CStr} (fmt : CStr)
    (h : ShortReason status reason) (hsiz : 128 ≤ bufsiz) (hmax : bufsiz < 2 ^ 31)
    {accepts : ℕ → Option ℕ} (haccepts : Accepting accepts) :
    ∃ wire, (Reply.httpError status reason fmt).wire bufsiz accepts = .ok wire ∧
      Framed wire := by
  obtain ⟨body, hbody, hlen⟩ := exists_errorBody fmt h hsiz
  have hdigits : body.strlen < 10 ^ 10 := by omega
  have hhead := strlen_errorHeader_lt h hdigits
  refine ⟨(errorHeader status reason body.strlen).bytes ++ body.bytes, ?_,
    _, _, body.bytes, by rw [bytes_errorHeader], statusLine_error h, fieldLine_errorFields _, ?_⟩
  · rw [Reply.wire, Reply.writes, hbody]
    simp only [bind, Except.bind, pure, Except.pure, Except.map]
    rw [pushAll_eq haccepts, vsnprintf_of_lt (hhead.trans_le hsiz), vsnprintf_of_lt hlen]
    simp
  · rw [errorFields, CStr.strlen]
    simp

/-! ### Texts -/

/-- A reply whose head is short enough: the text of a handler, if it is a message at all, has an
empty line in its first `n` bytes. -/
def Reply.Sized (n : ℕ) : Reply → Prop
  | .printf text => Message text.bytes → ∃ q, q <+: text.bytes ∧ EndsHead q ∧ q.length ≤ n
  | .httpError status reason _ => ShortReason status reason

/-- A message is cut behind its head, if there is an empty line in front of the cut. -/
theorem message_take {text q : List UInt8} (h : Message text) (hq : q <+: text)
    (hends : EndsHead q) {k : ℕ} (hk : q.length ≤ k) : Message (text.take k) := by
  obtain ⟨start, fields, body, rfl, hstart, hfields⟩ := h
  have hshape : start ++ crlf ++ (lines fields ++ (crlf ++ body)) =
      messageHead start fields ++ body := by simp [messageHead]
  rw [hshape] at hq ⊢
  have hhead := head_messageHead hstart.oneLine (fun l hl => (hfields l hl).oneLine) body
  exact (message_take_iff hstart hfields k).mpr ((hhead.first q hq hends).trans hk)

/-- A text that is a message when it is cut is one. -/
theorem message_of_take {text : List UInt8} {k : ℕ} (h : Message (text.take k)) :
    Message text := by
  obtain ⟨start, fields, body, heq, hstart, hfields⟩ := h
  refine ⟨start, fields, body ++ text.drop k, ?_, hstart, hfields⟩
  conv_lhs => rw [← List.take_append_drop k text, heq]
  simp

/-- **What the client gets of a reply is complete** exactly when the reply is. -/
theorem message_wire_iff {bufsiz n : ℕ} {reply : Reply} (h : reply.Sized n) (hn : n < bufsiz)
    (hsiz : 128 ≤ bufsiz) (hmax : bufsiz < 2 ^ 31) {accepts : ℕ → Option ℕ}
    (haccepts : Accepting accepts) :
    (∃ wire, reply.wire bufsiz accepts = .ok wire ∧ Message wire) ↔ reply.Complete := by
  cases reply with
  | printf text =>
    have hwire : (Reply.printf text).wire bufsiz accepts =
        .ok (text.bytes.take (bufsiz - 1)) := by
      refine congrArg Except.ok ?_
      rw [pushAll_eq haccepts]
      exact List.append_nil _
    rw [hwire, Reply.Complete]
    constructor
    · rintro ⟨wire, heq, hmessage⟩
      cases heq
      exact message_of_take hmessage
    · intro hmessage
      obtain ⟨q, hq, hends, hlen⟩ := h hmessage
      exact ⟨_, rfl, message_take hmessage hq hends (hlen.trans (Nat.le_sub_one_of_lt hn))⟩
  | httpError status reason fmt =>
    obtain ⟨wire, hwire, hframed⟩ := framed_wire fmt h hsiz hmax haccepts
    exact iff_of_true ⟨wire, hwire, hframed.message⟩ trivial

/-! ### The replies of the server -/

instance (status : ℕ) (reason : CStr) : Decidable (ShortReason status reason) :=
  decidable_of_iff ((100 ≤ status ∧ status < 1000) ∧ OneLine reason.bytes ∧ reason.strlen ≤ 32)
    ⟨fun h => ⟨h.1, h.2.1, h.2.2⟩, fun h => ⟨h.three, h.line, h.short⟩⟩

/-- Every reply is sized. -/
def Outcome.Sized (n : ℕ) (o : Outcome σ) : Prop := ∀ reply ∈ o.replies, reply.Sized n

theorem sized_crash {n : ℕ} (w : World σ) (calls : List Call) (halt : Halt) :
    (Outcome.crash w calls halt).Sized n := nofun

/-- A text that has an empty line soon, or is short itself. -/
theorem sized_printf {n : ℕ} {o : Outcome σ} {text : CStr} (h : o.replies = [.printf text])
    (hsized : (∃ q : CStr, q.bytes <+: text.bytes ∧ EndsHead q.bytes ∧ q.strlen ≤ n) ∨
      text.strlen ≤ n) : o.Sized n := by
  intro reply hreply
  rw [h, List.mem_singleton] at hreply
  subst hreply
  intro hmessage
  rcases hsized with ⟨q, hq, hends, hlen⟩ | hlen
  · exact ⟨q.bytes, hq, hends, hlen⟩
  · obtain ⟨start, fields, body, heq, hstart, hfields⟩ := hmessage
    have hshape : text.bytes = messageHead start fields ++ body := by
      rw [heq]
      simp [messageHead]
    have hhead := head_messageHead hstart.oneLine (fun l hl => (hfields l hl).oneLine) body
    rw [← hshape] at hhead
    exact ⟨_, hhead.prefix_of, hhead.ends, hhead.prefix_of.length_le.trans hlen⟩

theorem strlen_inetNtop_le (addr : InAddr) : (inetNtop addr).strlen ≤ 15 := by
  have hbyte : ∀ b : UInt8, (CStr.ofNat b.toNat).strlen ≤ 3 := fun b =>
    strlen_ofNat_le (by decide) (b.toNat_lt.trans (by decide))
  have hdot : (CStr.lit ".").strlen = 1 := by decide
  have h1 := hbyte addr.1
  have h2 := hbyte addr.2.1
  have h3 := hbyte addr.2.2.1
  have h4 := hbyte addr.2.2.2
  simp only [inetNtop, CStr.strlen_append, hdot]
  omega

/-- The empty line at the end of a head. -/
theorem endsHead_append (s : CStr) : EndsHead (s ++ .lit "\r\n\r\n").bytes :=
  .inr ((show [10, 13, 10] <:+ (CStr.lit "\r\n\r\n").bytes by decide).trans
    (List.suffix_append _ _))

/-- The errors of the handlers. -/
def handlerErrors : List (ℕ × String) :=
  [(400, "400 Bad Request"), (403, "Forbidden"), (404, "Not Found"),
    (413, "413 Request Entity Too Large"), (501, "Not Implemented"), (503, "Service Unavailable")]

theorem shortReason_of_mem {status : ℕ} {reason : String} (h : (status, reason) ∈ handlerErrors) :
    ShortReason status (.lit reason) := by
  have hall : ∀ p ∈ handlerErrors, ShortReason p.1 (.lit p.2) := by decide
  exact hall _ h

theorem sized_error {n : ℕ} (w : World σ) (calls : List Call) {status : ℕ} {reason : String}
    (h : (status, reason) ∈ handlerErrors) : (Outcome.error w calls status reason).Sized n :=
  fun _ hreply => List.mem_singleton.mp hreply ▸ shortReason_of_mem h

/-- How long the literals of the texts are. -/
theorem strlen_literals :
    (CStr.lit "HTTP/1.1 201 Created\r\nContent-Type: text/plain\r\nLocation: http://").strlen
        = 65 ∧
      (CStr.lit ":").strlen = 1 ∧ (CStr.lit "/apps/").strlen = 6 ∧
      (CStr.lit "/run\r\nAccess-Control-Allow-Origin: ").strlen = 35 ∧
      (CStr.lit "\r\n\r\n").strlen = 4 ∧
      (CStr.lit
        "HTTP/1.1 200 OK\r\nContent-Type: text/plain\r\nAccess-Control-Allow-Origin: ").strlen =
          72 ∧
      (CStr.lit "HTTP/1.1 200 OK\r\nAccess-Control-Allow-Origin: ").strlen = 46 ∧
      (CStr.lit "HTTP/1.1 200 OK\r\nContent-Type: text/xml\r\nAccess-Control-Allow-Origin: ").strlen
        = 70 ∧
      (CStr.lit "HTTP/1.1 204 No Content\r\nAccess-Control-Allow-Methods: ").strlen = 55 ∧
      (CStr.lit "\r\nAccess-Control-Max-Age: 86400\r\nAccess-Control-Allow-Origin: ").strlen = 62 ∧
      (CStr.lit "\r\nContent-Length: 0\r\n").strlen = 21 := by
  refine ⟨?_, ?_, ?_, ?_, ?_, ?_, ?_, ?_, ?_, ?_, ?_⟩ <;> exact CStr.strlen_lit _

/-- The longest head of a text: the literals, and what it repeats. -/
def headBound (origin : Option CStr) (name : CStr) : ℕ :=
  160 + (formatString origin).strlen + name.strlen

section Texts

variable {origin : Option CStr} {name : CStr} {o : Outcome σ}

theorem sized_createdText {laddr : InAddr} {port : UInt16}
    (h : o.replies = [.printf (createdText laddr port name origin)]) :
    o.Sized (headBound origin name) := by
  refine sized_printf h (.inr ?_)
  have haddr := strlen_inetNtop_le laddr
  have hport : (CStr.ofNat port.toNat).strlen ≤ 5 :=
    strlen_ofNat_le (by decide) (port.toNat_lt.trans (by decide))
  simp only [createdText, CStr.strlen_append, strlen_literals, headBound]
  omega

theorem sized_okText (h : o.replies = [.printf (okText origin)]) :
    o.Sized (headBound origin name) := by
  refine sized_printf h (.inr ?_)
  simp only [okText, CStr.strlen_append, strlen_literals, headBound]
  omega

theorem sized_dialDataText (h : o.replies = [.printf (dialDataText origin)]) :
    o.Sized (headBound origin name) := by
  refine sized_printf h (.inr ?_)
  simp only [dialDataText, CStr.strlen_append, strlen_literals, headBound]
  omega

theorem sized_statusText {appName : CStr} {canStop : ℤ} {localState : DIALStatus}
    {dialData : CStr}
    (h : o.replies = [.printf (statusText origin appName canStop localState dialData)]) :
    o.Sized (headBound origin name) := by
  have hlit : (CStr.lit "\r\n\r\n<?xml version=\"1.0\" encoding=\"UTF-8\"?>\r\n") =
      .lit "\r\n\r\n" ++ .lit "<?xml version=\"1.0\" encoding=\"UTF-8\"?>\r\n" := by
    rw [← CStr.lit_append]
    rfl
  refine sized_printf h (.inl ⟨.lit
    "HTTP/1.1 200 OK\r\nContent-Type: text/xml\r\nAccess-Control-Allow-Origin: " ++
      formatString origin ++ .lit "\r\n\r\n", ?_, endsHead_append _, ?_⟩)
  · simp only [statusText, hlit, CStr.bytes_append, List.append_assoc, List.prefix_append_right_inj]
    exact List.prefix_append _ _
  · simp only [CStr.strlen_append, strlen_literals, headBound]
    omega

end Texts

theorem Reply.Sized.mono {reply : Reply} {m n : ℕ} (h : reply.Sized m) (hmn : m ≤ n) :
    reply.Sized n := by
  cases reply with
  | printf text =>
    intro hmessage
    obtain ⟨q, hq, hends, hlen⟩ := h hmessage
    exact ⟨q, hq, hends, hlen.trans hmn⟩
  | httpError => exact h

section Handlers

variable {H : Host σ} {w : World σ} {r : MgRequest} {appName name : CStr}

theorem sized_handleAppStart : (handleAppStart H w r name r.origin).Sized
    (headBound r.origin name) := by
  simp only [handleAppStart]
  split
  · exact sized_error _ _ (by simp [handlerErrors])
  · split
    · exact sized_error _ _ (by simp [handlerErrors])
    · split
      · exact sized_error _ _ (by simp [handlerErrors])
      · split
        · exact sized_crash _ _ _
        · rename_i app _ hbody _ _ param _
          have hreplies := launch_replies H w r (findApp w.apps name) app name r.origin
            ⟨r.body.take (dialMaxPayload + 256 + 2), Nat.le_of_not_lt hbody⟩ param
          split at hreplies
          · exact sized_createdText hreplies
          · intro reply hreply
            rw [hreplies, List.mem_singleton] at hreply
            subst hreply
            have h503 : ShortReason 503 (.lit "Service Unavailable") :=
              shortReason_of_mem (by simp [handlerErrors])
            exact h503

theorem sized_handleAppStatus : (handleAppStatus H w r appName r.origin).Sized
    (headBound r.origin name) := by
  simp only [handleAppStatus]
  split
  · exact sized_error _ _ (by simp [handlerErrors])
  · split
    · exact sized_crash _ _ _
    · exact sized_statusText rfl

theorem sized_handleAppStop : (handleAppStop H w appName r.origin).Sized
    (headBound r.origin name) := by
  simp only [handleAppStop]
  split
  · exact sized_error _ _ (by simp [handlerErrors])
  · split
    · exact sized_error _ _ (by simp [handlerErrors])
    · exact sized_okText rfl

theorem sized_handleAppHide : (handleAppHide H w appName r.origin).Sized
    (headBound r.origin name) := by
  simp only [handleAppHide]
  split
  · exact sized_error _ _ (by simp [handlerErrors])
  · split
    · exact sized_error _ _ (by simp [handlerErrors])
    · split
      · exact sized_error _ _ (by simp [handlerErrors])
      · exact sized_okText rfl

theorem sized_handleDialData (usePayload : Bool) :
    (handleDialData H w r appName r.origin usePayload).Sized (headBound r.origin name) := by
  simp only [handleDialData]
  split
  · exact sized_error _ _ (by simp [handlerErrors])
  · split
    · exact sized_error _ _ (by simp [handlerErrors])
    · split
      · exact sized_error _ _ (by simp [handlerErrors])
      · split
        · exact sized_crash _ _ _
        · split
          · exact sized_crash _ _ _
          · exact sized_dialDataText rfl

/-- The name a reply to a start repeats is part of the URI. -/
theorem sized_handle {action : Action} {appName : AppName} (h : r.route = .act action appName) :
    (handle H w r action appName.str).Sized (headBound r.origin r.uri) := by
  cases action with
  | start =>
    obtain ⟨-, huri⟩ := (route_fits h).2 rfl
    refine fun reply hreply => (sized_handleAppStart reply hreply).mono ?_
    rw [headBound, headBound, huri, CStr.strlen_append]
    omega
  | status => exact sized_handleAppStatus
  | stop => exact sized_handleAppStop
  | hide => exact sized_handleAppHide
  | dialData usePayload => exact sized_handleDialData usePayload

theorem sized_optionsResponse {appName methods : CStr} (hmethods : methods.strlen ≤ 18) :
    (optionsResponse w r.host r.origin appName methods).Sized (headBound r.origin name) := by
  rw [optionsResponse]
  split
  · refine sized_printf rfl (.inr ?_)
    simp only [optionsText, CStr.strlen_append, strlen_literals, headBound]
    omega
  · exact sized_error _ _ (by simp [handlerErrors])

end Handlers

theorem mem_handlerErrors_of_refuse {method uri : CStr} {remoteAddr : InAddr} {status : ℕ}
    {reason : String} (h : route method uri remoteAddr = .refuse status reason) :
    (status, reason) ∈ handlerErrors := by
  have hall : ∀ error ∈ routerErrors, error ∈ handlerErrors := by decide
  exact hall _ (route_fits h)

/-- **Every reply to a request is sized.** -/
theorem sized_requestHandler (H : Host σ) (w : World σ) (r : MgRequest) :
    (requestHandler H w r).Sized (headBound r.origin r.uri) := by
  rw [requestHandler_eq]
  cases hroute : r.route with
  | crash f => exact sized_crash _ _ _
  | refuse status reason => exact sized_error _ _ (mem_handlerErrors_of_refuse hroute)
  | options appName methods =>
    have hall : ∀ methods ∈ [CStr.lit "DELETE, OPTIONS", .lit "GET, POST, OPTIONS",
        .lit "POST, OPTIONS"], methods.strlen ≤ 18 := by decide
    rw [perform, Outcome.Sized, freeAppName_replies]
    exact sized_optionsResponse (hall methods (route_fits hroute))
  | act action appName =>
    rw [perform]
    split
    · exact sized_error _ _ (by simp [handlerErrors])
    · rw [Outcome.Sized, freeAppName_replies]
      exact sized_handle hroute
  | optionsFilled name methods =>
    have hall : ∀ methods ∈ [CStr.lit "DELETE, OPTIONS", .lit "POST, OPTIONS"],
        methods.strlen ≤ 18 := by decide
    rw [perform, comparing]
    split
    · exact sized_crash _ _ _
    · exact sized_optionsResponse (hall methods (route_fits hroute))
  | actFilled action name =>
    rw [perform_actFilled]
    split_ifs
    · exact sized_crash _ _ _
    · exact sized_error _ _ (by simp [handlerErrors])
    · exact sized_error _ _ (by simp [handlerErrors])

/-! ### Over a connection -/

/-- **Every error that is sent over a connection is a complete message**, and its
`Content-Length` is right, whatever has come and however it came. -/
theorem errors_framed (H : Host σ) (w : World σ) (laddr raddr : InAddr) (sock : Socket)
    {status : ℕ} {reason fmt : CStr}
    (h : .httpError status reason fmt ∈ (processNewConnection H w laddr raddr sock).replies)
    {bufsiz : ℕ} (hsiz : 128 ≤ bufsiz) (hmax : bufsiz < 2 ^ 31) {accepts : ℕ → Option ℕ}
    (haccepts : Accepting accepts) :
    ∃ wire, (Reply.httpError status reason fmt).wire bufsiz accepts = .ok wire ∧
      Framed wire := by
  refine framed_wire fmt ?_ hsiz hmax haccepts
  have hshort : ShortReason 413 (.lit "Request Too Large") ∧
      ShortReason 400 (.lit "Bad Request") ∧
      ShortReason 505 (.lit "HTTP version not supported") := by decide
  rw [processNewConnection] at h
  split at h
  · cases List.mem_singleton.mp h
    exact hshort.1
  · exact absurd h List.not_mem_nil
  · cases List.mem_singleton.mp h
    exact hshort.2.1
  · cases List.mem_singleton.mp h
    exact hshort.2.2
  · dsimp only at h
    split at h
    · exact absurd h List.not_mem_nil
    · exact sized_requestHandler H w _ _ h

/-- What cannot be parsed is answered, byte by byte. -/
theorem errors_framed_garbage : ∃ wire,
    (Reply.httpError 400 (.lit "Bad Request") (.lit "Cannot parse HTTP request: [G\n]")).wire 512
      (fun _ => some 1) = .ok wire ∧ Framed wire :=
  errors_framed probeHost (probeWorld .nil) (127, 0, 0, 1) (127, 0, 0, 1) [[71, 10], [10]]
    (by decide +kernel) (by decide) (by decide) fun _ => ⟨0, rfl⟩

/-- The client gets one complete response. -/
def Answered (bufsiz : ℕ) (accepts : ℕ → Option ℕ) (o : Outcome σ) : Prop :=
  ∃ reply wire, o.replies = [reply] ∧ reply.wire bufsiz accepts = .ok wire ∧ Message wire

/-- **From wire to wire**: a request that comes in any chunks, with its body behind it, is
answered by one complete response, however few bytes the socket takes at a time, exactly when
the handler answers it, if what the response repeats of the request is not too long for the
array it is formatted in. -/
theorem answered_iff (H : Host σ) (w : World σ) (laddr raddr : InAddr) {r : RequestInfo}
    (h : r.Sendable) {body rest : List UInt8} (hmin : -1 ≤ contentLength r.httpHeaders)
    (hbody : (contentLength r.httpHeaders).toNat = body.length)
    (hlen : r.head.length ≤ maxRequestSize) (hclean : Clean r.head)
    {sock : Socket} (hs : Solid sock) (hstream : sock.flatten = r.head ++ (body ++ rest))
    {bufsiz : ℕ} (hsiz : headBound (r.toRequest laddr raddr body).origin (requestUri r.uri).1 <
      bufsiz) (hmax : bufsiz < 2 ^ 31) {accepts : ℕ → Option ℕ} (haccepts : Accepting accepts) :
    Answered bufsiz accepts (processNewConnection H w laddr raddr sock) ↔
      AnswersOnce (requestHandler H w (r.toRequest laddr raddr body)) := by
  obtain ⟨conn, hreceive, hcontent, hasserted⟩ := h.same_receive hs hstream hlen hclean
  rw [processNewConnection_of_receive hreceive (hasserted.mpr hmin), hcontent, hbody,
    List.take_left]
  have hsized := sized_requestHandler H w (r.toRequest laddr raddr body)
  have hfits : 128 ≤ bufsiz := by
    rw [headBound] at hsiz
    omega
  constructor
  · rintro ⟨reply, wire, hreplies, hwire⟩
    have hreply := hsized reply (by rw [hreplies]; exact List.mem_singleton_self reply)
    exact ⟨reply, hreplies, (message_wire_iff hreply hsiz hfits hmax haccepts).mp ⟨wire, hwire⟩⟩
  · rintro ⟨reply, hreplies, hcomplete⟩
    have hreply := hsized reply (by rw [hreplies]; exact List.mem_singleton_self reply)
    obtain ⟨wire, hwire⟩ := (message_wire_iff hreply hsiz hfits hmax haccepts).mpr hcomplete
    exact ⟨reply, wire, hreplies, hwire⟩

/-- A request for YouTube and the bytes of its body come in three chunks. -/
theorem answered_iff_probe :
    Answered 512 (fun _ => some 1)
        (processNewConnection probeHost (probeWorld (.lit "YouTube")) (127, 0, 0, 1) (127, 0, 0, 1)
          [probeInfo.head.take 9, probeInfo.head.drop 9 ++ [104], [105, 33]]) ↔
      AnswersOnce (requestHandler probeHost (probeWorld (.lit "YouTube"))
        (probeInfo.toRequest (127, 0, 0, 1) (127, 0, 0, 1) probeBody)) := by
  have hstream : [probeInfo.head.take 9, probeInfo.head.drop 9 ++ [104], [105, 33]].flatten =
      probeInfo.head ++ (probeBody ++ [33]) := by decide +kernel
  exact answered_iff probeHost (probeWorld (.lit "YouTube")) _ _ sendable_probeInfo
    (by rw [contentLength_probeInfo]; decide) (by rw [contentLength_probeInfo]; rfl)
    (by decide +kernel) (by decide +kernel) (by decide +kernel) hstream
    (by decide +kernel) (by decide) fun _ => ⟨0, rfl⟩

end DialServer
