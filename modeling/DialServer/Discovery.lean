import DialServer.AdditionalData
import DialServer.Configuration
import DialServer.Description
import DialServer.Lib.Datagrams
import DialServer.Responses

/-!
# How the server is found

A control point sends a datagram to a multicast address, and `handle_mcast` answers it: the
reply, put together once, names the URL of the description, whose head names the URL of the
applications. `DialServer.handleMcast` is that function, with the buffer it receives into, and
`DialServer.handleMcast_eq` says what it sends: one reply for each datagram that names the
service before its first NUL, whatever was in the buffer before.

`DialServer.Discovers` is what a control point needs to get from there to an application, and
`DialServer.discovers_iff` says for which addresses and names it does.

The reply names the service too, and the address a datagram comes from is taken on trust. So
one datagram that asks a responder in the name of another keeps both of them busy for ever
(`DialServer.exchange_over_iff`).
-/

namespace DialServer

open CLib Datagrams Http

/-! ### The reply -/

/-- What a control point looks for. -/
def ssdpTarget : CStr := .lit "urn:dial-multiscreen-org:service:dial:1"

/-- The lines of `ssdp_reply` that are the same in every reply. -/
def ssdpConstant : CStr :=
  .lit "CACHE-CONTROL: max-age=1800\r\n" ++ .lit "EXT:\r\n" ++ .lit "BOOTID.UPNP.ORG: 1\r\n" ++
    .lit "SERVER: Linux/2.6 UPnP/1.1 quick_ssdp/1.1\r\n" ++
    .lit "ST: urn:dial-multiscreen-org:service:dial:1\r\n"

/-- `ssdp_reply`. -/
def ssdpReply : CStr :=
  .lit "HTTP/1.1 200 OK\r\n" ++ .lit "LOCATION: http://%s:%d/dd.xml\r\n" ++ ssdpConstant ++
    .lit "USN: uuid:%s::" ++ .lit "urn:dial-multiscreen-org:service:dial:1\r\n" ++ .lit "\r\n"

/-- The template `ssdp_reply`, filled in. -/
def ssdpText (ipAddr : CStr) (myPort : ℕ) (uuid : CStr) : CStr :=
  .lit "HTTP/1.1 200 OK\r\n" ++ .lit "LOCATION: http://" ++ ipAddr ++ .lit ":" ++ .ofNat myPort ++
    .lit "/dd.xml\r\n" ++ ssdpConstant ++
    .lit "USN: uuid:" ++ uuid ++ .lit "::" ++
    .lit "urn:dial-multiscreen-org:service:dial:1\r\n" ++ .lit "\r\n"

/-- `sizeof(send_buf)`: room for the template and for what is filled in. -/
def sendBufSize : ℕ := [ssdpReply.strlen + 1, inetAddrstrlen, 256, 256].sum

theorem strlen_ssdpConstant : ssdpConstant.strlen = 143 := by
  have hlits : (CStr.lit "CACHE-CONTROL: max-age=1800\r\n").strlen = 29 ∧
      (CStr.lit "EXT:\r\n").strlen = 6 ∧ (CStr.lit "BOOTID.UPNP.ORG: 1\r\n").strlen = 20 ∧
      (CStr.lit "SERVER: Linux/2.6 UPnP/1.1 quick_ssdp/1.1\r\n").strlen = 43 ∧
      (CStr.lit "ST: urn:dial-multiscreen-org:service:dial:1\r\n").strlen = 45 := by
    refine ⟨?_, ?_, ?_, ?_, ?_⟩ <;> exact CStr.strlen_lit _
  simp only [ssdpConstant, CStr.strlen_append, hlits]

theorem sendBufSize_eq : sendBufSize = 783 := by
  have hlits : (CStr.lit "HTTP/1.1 200 OK\r\n").strlen = 17 ∧
      (CStr.lit "LOCATION: http://%s:%d/dd.xml\r\n").strlen = 31 ∧
      (CStr.lit "USN: uuid:%s::").strlen = 14 ∧
      (CStr.lit "urn:dial-multiscreen-org:service:dial:1\r\n").strlen = 41 ∧
      (CStr.lit "\r\n").strlen = 2 := by
    refine ⟨?_, ?_, ?_, ?_, ?_⟩ <;> exact CStr.strlen_lit _
  have hreply : ssdpReply.strlen = 248 := by
    simp only [ssdpReply, CStr.strlen_append, hlits, strlen_ssdpConstant]
  rw [sendBufSize, hreply]
  rfl

/-- The reply fits into its buffer. -/
theorem strlen_ssdpText_lt {ipAddr uuid : CStr} {myPort : ℕ}
    (hip : ipAddr.strlen < inetAddrstrlen) (hport : myPort < 65536) (huuid : uuid.strlen < 256) :
    (ssdpText ipAddr myPort uuid).strlen < sendBufSize := by
  have hlits : (CStr.lit "HTTP/1.1 200 OK\r\n").strlen = 17 ∧
      (CStr.lit "LOCATION: http://").strlen = 17 ∧ (CStr.lit ":").strlen = 1 ∧
      (CStr.lit "/dd.xml\r\n").strlen = 9 ∧ (CStr.lit "USN: uuid:").strlen = 10 ∧
      (CStr.lit "::").strlen = 2 ∧
      (CStr.lit "urn:dial-multiscreen-org:service:dial:1\r\n").strlen = 41 ∧
      (CStr.lit "\r\n").strlen = 2 := by
    refine ⟨?_, ?_, ?_, ?_, ?_, ?_, ?_, ?_⟩ <;> exact CStr.strlen_lit _
  have hdigits : (CStr.ofNat myPort).strlen ≤ 5 :=
    strlen_ofNat_le (by decide) (hport.trans (by decide))
  rw [inetAddrstrlen] at hip
  simp only [ssdpText, CStr.strlen_append, hlits, strlen_ssdpConstant, sendBufSize_eq]
  omega

/-! ### The loop -/

/-- `sizeof(gBuf) - 1`. -/
def recvSize : ℕ := 4095

/-- What `recvfrom` puts into the buffer: no more than it is told there is room for. -/
structure Filling where
  bytes : List UInt8
  fits : bytes.length ≤ recvSize

/-- What `recvfrom` gives. -/
inductive Recv (A : Type)
  /-- It returns -1, and may have filled the buffer all the same. -/
  | failed (left : Filling)
  | datagram (source : A) (data : Filling)

/-- What the loop of `handle_mcast` works on. -/
structure Mcast where
  gBuf : Block
  sendBuf : Block
  sendSize : ℕ

/-- `handle_mcast` in front of its loop. -/
def Ssdp.prepareMcast (s : Ssdp) (ipAddr : Block) (myPort : ℕ) (gBuf : Block) :
    Except Fault Mcast := do
  let ip ← ipAddr.cstr
  let uuid ← s.uuid.cstr
  let sendBuf ← (Block.calloc sendBufSize).snprintf sendBufSize (ssdpText ip myPort uuid)
  pure ⟨gBuf, sendBuf, (ssdpText ip myPort uuid).strlen⟩

/-- The body of the loop, and what it hands to `sendto`. -/
def mcastRound {A : Type} (m : Mcast) : Recv A → Except Fault (Mcast × Option (A × List UInt8))
  | .failed left => do
    let gBuf ← m.gBuf.storeAll 0 left.bytes
    pure ({ m with gBuf }, none)
  | .datagram source data => do
    let gBuf ← m.gBuf.storeAll 0 data.bytes
    let gBuf ← gBuf.store data.bytes.length 0
    let text ← gBuf.cstr
    if strstr ssdpTarget.bytes text.bytes = none then pure ({ m with gBuf }, none)
    else do
      let sent ← m.sendBuf.readAll m.sendSize
      pure ({ m with gBuf }, some (source, sent))

/-- The loop, on what is received one after the other. -/
def mcastLoop {A : Type} (m : Mcast) : List (Recv A) → Except Fault (List (A × List UInt8))
  | [] => pure []
  | r :: rs => do
    let (m, sent) ← mcastRound m r
    let rest ← mcastLoop m rs
    pure (sent.toList ++ rest)

/-- `handle_mcast`: what it sends, and to whom. -/
def Ssdp.handleMcast {A : Type} (s : Ssdp) (ipAddr : Block) (myPort : ℕ) (gBuf : Block)
    (rs : List (Recv A)) : Except Fault (List (A × List UInt8)) := do
  let m ← s.prepareMcast ipAddr myPort gBuf
  mcastLoop m rs

/-! ### What is answered -/

/-- A datagram names the service, before its first NUL. -/
def Asks (payload : List UInt8) : Prop := ssdpTarget.bytes <:+: (CStr.ofBuffer payload).bytes

instance (payload : List UInt8) : Decidable (Asks payload) :=
  inferInstanceAs (Decidable (_ <:+: _))

/-- Who answers: an address and a port under which there is a description, and a UUID, as
long as they may be. -/
structure Responder where
  ipAddr : CStr
  myPort : ℕ
  uuid : CStr
  ipAddr_short : ipAddr.strlen < inetAddrstrlen
  myPort_lt : myPort < 65536
  uuid_short : uuid.strlen < 256

namespace Responder

/-- What it answers. -/
def text (h : Responder) : CStr := ssdpText h.ipAddr h.myPort h.uuid

theorem strlen_text_lt (h : Responder) : h.text.strlen < sendBufSize :=
  strlen_ssdpText_lt h.ipAddr_short h.myPort_lt h.uuid_short

/-- What it answers is no more than a responder has room for. -/
def reply (h : Responder) : Filling where
  bytes := h.text.bytes
  fits := (h.strlen_text_lt.trans (by rw [sendBufSize_eq]; decide)).le

/-- What it answers to a datagram. -/
def answer (h : Responder) (payload : Filling) : Option Filling :=
  if Asks payload.bytes then some h.reply else none

/-- What it sends on account of what it receives. -/
def sends {A : Type} (h : Responder) : Recv A → Option (A × List UInt8)
  | .failed _ => none
  | .datagram source data => (h.answer data).map fun reply => (source, reply.bytes)

end Responder

section Loop

variable {A : Type} {h : Responder} {m : Mcast}

theorem Responder.sends_of_asks {data : Filling} (hasks : Asks data.bytes) (source : A) :
    h.sends (.datagram source data) = some (source, h.text.bytes) := by
  rw [sends, answer, if_pos hasks, Option.map_some]
  rfl

theorem Responder.sends_of_not_asks {data : Filling} (hasks : ¬Asks data.bytes) (source : A) :
    h.sends (.datagram source data) = none := by
  rw [sends, answer, if_neg hasks, Option.map_none]

/-- **One round**: what was in the buffer before does not matter. -/
theorem mcastRound_eq (hbuf : m.gBuf.size = recvSize + 1)
    (hsend : m.sendBuf.readAll m.sendSize = .ok h.text.bytes) (r : Recv A) :
    ∃ gBuf, gBuf.size = recvSize + 1 ∧ mcastRound m r = .ok ({ m with gBuf }, h.sends r) := by
  cases r with
  | failed left =>
    obtain ⟨b, hstore, -, hsize⟩ := Block.exists_storeAll (b := m.gBuf) (l := left.bytes)
      (by rw [hbuf]; exact Nat.le_succ_of_le left.fits)
    refine ⟨b, hsize.trans hbuf, ?_⟩
    simp only [mcastRound, hstore, bind, Except.bind, pure, Except.pure, Responder.sends]
  | datagram source data =>
    have hlen : data.bytes.length < m.gBuf.size := by
      rw [hbuf]
      exact Nat.lt_succ_of_le data.fits
    obtain ⟨b, hstore, hstarts, hsize⟩ := Block.exists_storeAll hlen.le
    obtain ⟨b', hzero, hstarts', hsize'⟩ := hstarts.store (by rwa [hsize]) 0
    refine ⟨b', hsize'.trans (hsize.trans hbuf), ?_⟩
    have hiff : strstr ssdpTarget.bytes (CStr.ofBuffer data.bytes).bytes = none ↔
        ¬Asks data.bytes := strstr_eq_none
    simp only [mcastRound, hstore, hzero, hstarts'.cstr, bind, Except.bind, pure, Except.pure, hiff]
    by_cases hasks : Asks data.bytes
    · rw [if_neg (not_not.mpr hasks), hsend, Responder.sends_of_asks hasks]
    · rw [if_pos hasks, Responder.sends_of_not_asks hasks]

/-- **The whole loop.** -/
theorem mcastLoop_eq (hbuf : m.gBuf.size = recvSize + 1)
    (hsend : m.sendBuf.readAll m.sendSize = .ok h.text.bytes) (rs : List (Recv A)) :
    mcastLoop m rs = .ok (rs.filterMap h.sends) := by
  induction rs generalizing m with
  | nil => rfl
  | cons r rs ih =>
    obtain ⟨gBuf, hsize, hround⟩ := mcastRound_eq hbuf hsend r
    have hrest := ih (m := { m with gBuf }) hsize hsend
    simp only [mcastLoop, hround, hrest, bind, Except.bind, pure, Except.pure]
    cases hsent : h.sends r with
    | none => rw [List.filterMap_cons_none hsent]; rfl
    | some sent => rw [List.filterMap_cons_some hsent]; rfl

/-- What stands in front of the loop leaves the reply in its buffer. -/
theorem prepareMcast_eq {s : Ssdp} {ipAddr : Block} (hip : ipAddr.cstr = .ok h.ipAddr)
    (huuid : s.uuid.cstr = .ok h.uuid) (gBuf : Block) :
    ∃ m, s.prepareMcast ipAddr h.myPort gBuf = .ok m ∧ m.gBuf = gBuf ∧
      m.sendBuf.readAll m.sendSize = .ok h.text.bytes := by
  obtain ⟨b, hprint, hstarts⟩ := Block.exists_snprintf_of_lt h.strlen_text_lt
    (le_of_eq (Block.size_calloc sendBufSize).symm)
  -- stated for every size, because that of the buffer is a long computation
  have hprepare : ∀ n, (Block.calloc n).snprintf n h.text = .ok b →
      (do
        let ip ← ipAddr.cstr
        let uuid ← s.uuid.cstr
        let sendBuf ← (Block.calloc n).snprintf n (ssdpText ip h.myPort uuid)
        pure (⟨gBuf, sendBuf, (ssdpText ip h.myPort uuid).strlen⟩ : Mcast) :
          Except Fault Mcast) = .ok ⟨gBuf, b, h.text.strlen⟩ := by
    intro n hn
    rw [Responder.text] at hn ⊢
    simp only [hip, huuid, hn, bind, Except.bind, pure, Except.pure]
  exact ⟨⟨gBuf, b, h.text.strlen⟩, hprepare _ hprint, rfl, hstarts.readAll⟩

end Loop

/-- **What `handle_mcast` sends**: a reply for each datagram that names the service, to where
that came from, and nothing else; whatever the buffer held, whatever `recvfrom` fails at, and
whatever names the device was given. -/
theorem handleMcast_eq {A : Type} (port : ℕ) (friendlyName modelName uuid : CStr)
    {h : Responder} (huuid : h.uuid = uuid.take 255) {ipAddr gBuf : Block}
    (hip : ipAddr.cstr = .ok h.ipAddr) (hbuf : gBuf.size = recvSize + 1) (rs : List (Recv A)) :
    ∃ s, Ssdp.start.runSsdp port (some friendlyName) (some modelName) (some uuid) = .ok s ∧
      s.handleMcast ipAddr h.myPort gBuf rs = .ok (rs.filterMap h.sends) := by
  obtain ⟨s, hs, -, -, hu⟩ := Ssdp.runSsdp_eq port friendlyName modelName uuid
  rw [← huuid] at hu
  obtain ⟨m, hprepare, rfl, hsend⟩ := prepareMcast_eq hip hu gBuf
  refine ⟨s, hs, ?_⟩
  simp only [Ssdp.handleMcast, hprepare, mcastLoop_eq hbuf hsend, bind, Except.bind]

/-- The array `ip_addr` with an address in it. -/
def probeAddress : Block := ⟨(CStr.lit "10.0.0.1").bytes.map some ++ List.replicate 14 (some 0)⟩

/-- A failure that leaves a question in the buffer, an empty datagram, and a question. -/
def probeReceived : List (Recv ℕ) :=
  [.failed ⟨ssdpTarget.bytes, by decide⟩, .datagram 1 ⟨[], by decide⟩,
    .datagram 2 ⟨ssdpTarget.bytes, by decide⟩]

/-- Who answers them. -/
def probeResponder : Responder :=
  ⟨.lit "10.0.0.1", 56790, .lit "u", by decide, by decide, by decide⟩

/-- Only the last of them is answered. -/
theorem handleMcast_eq_stale : ∃ s, Ssdp.start.runSsdp 56789 (some (.lit "TV")) (some (.lit "M"))
      (some (.lit "u")) = .ok s ∧
    s.handleMcast probeAddress 56790 (.calloc (recvSize + 1)) probeReceived =
      .ok [(2, (ssdpText (.lit "10.0.0.1") 56790 (.lit "u")).bytes)] := by
  have hip : probeAddress.cstr = .ok (.lit "10.0.0.1") :=
    Block.cstr_eq_ok.mpr ⟨List.replicate 13 (some 0), rfl⟩
  have huuid : probeResponder.uuid = (CStr.lit "u").take 255 := by decide
  obtain ⟨s, hs, hsent⟩ := handleMcast_eq 56789 (.lit "TV") (.lit "M") (.lit "u")
    huuid hip (Block.size_calloc (recvSize + 1)) probeReceived
  refine ⟨s, hs, hsent.trans (congrArg Except.ok ?_)⟩
  rw [probeReceived, List.filterMap_cons_none rfl,
    List.filterMap_cons_none (Responder.sends_of_not_asks (by decide) 1),
    List.filterMap_cons_some (Responder.sends_of_asks (by decide) 2), List.filterMap_nil]
  rfl

/-! ### From the reply to an application -/

/-- A URL of the device. -/
def serverUrl (ip : CStr) (port : ℕ) (path : CStr) : CStr :=
  .lit "http://" ++ ip ++ .lit ":" ++ .ofNat port ++ path

/-- The URL of the description, which the reply gives. -/
def locationUrl (ip : CStr) (myPort : ℕ) : CStr := serverUrl ip myPort (.lit "/dd.xml")

/-- The URL of the applications, which the head of the description gives. -/
def appsUrl (ip : CStr) (dialPort : ℕ) : CStr := serverUrl ip dialPort appsUri

/-- The header lines of the reply. -/
def ssdpFields (ip : CStr) (myPort : ℕ) (uuid : CStr) : List (List UInt8) :=
  [field (.lit "LOCATION") (locationUrl ip myPort),
    field (.lit "CACHE-CONTROL") (.lit "max-age=1800"),
    (CStr.lit "EXT:").bytes, field (.lit "BOOTID.UPNP.ORG") (.lit "1"),
    field (.lit "SERVER") (.lit "Linux/2.6 UPnP/1.1 quick_ssdp/1.1"),
    field (.lit "ST") ssdpTarget,
    field (.lit "USN") (.lit "uuid:" ++ uuid ++ .lit "::" ++ ssdpTarget)]

/-- The header lines in front of the description. -/
def ddFields (ip : CStr) (dialPort : ℕ) : List (List UInt8) :=
  [field (.lit "Content-Type") (.lit "text/xml"),
    field (.lit "Application-URL") (appsUrl ip dialPort)]

/-- A text is read as a head with the given header lines. -/
def ReadAs (text : List UInt8) (fields : List (List UInt8)) : Prop :=
  ∃ start, text = messageHead start fields ∧ StatusLine start ∧ ∀ l ∈ fields, FieldLine l

/-- **A control point gets to the applications**: the reply is read as its header lines, at
the URL that it gives there is a description, whose head is read likewise, and behind the URL
that this one gives an application is found under its name, if this can be the last component of
the path of a URL and is not `run`. -/
structure Discovers (s : Ssdp) (ip : CStr) (myPort : ℕ) (uuid : CStr) : Prop where
  replied : ReadAs (ssdpText ip myPort uuid).bytes (ssdpFields ip myPort uuid)
  described : ∀ r : MgRequest, r.uri = urlPath (locationUrl ip myPort) →
    r.requestMethod = .lit "GET" →
      ∃ head body : CStr, s.requestHandler ip r = .ok [.printf head, .printf body] ∧
        ReadAs head.bytes (ddFields ip s.dialPort)
  found : ∀ (X : CStr) (r : MgRequest), IsComponent X → X ≠ .lit "run" →
    (∀ c ∈ X.bytes, endsPath c = false) → r.uri = urlPath (appsUrl ip s.dialPort ++ X) →
      (r.requestMethod = .lit "GET" → r.route = .act .status (.kept X)) ∧
      (r.requestMethod = .lit "POST" → r.route = .act .start (.kept X))

/-- The target and the end of its line. -/
theorem bytes_targetLine : (CStr.lit "urn:dial-multiscreen-org:service:dial:1\r\n").bytes =
    ssdpTarget.bytes ++ crlf := by
  rw [CStr.bytes_lit]
  rfl

/-- The constant lines, as header lines. -/
theorem bytes_ssdpConstant : ssdpConstant.bytes =
    lines [field (.lit "CACHE-CONTROL") (.lit "max-age=1800"), (CStr.lit "EXT:").bytes,
      field (.lit "BOOTID.UPNP.ORG") (.lit "1"),
      field (.lit "SERVER") (.lit "Linux/2.6 UPnP/1.1 quick_ssdp/1.1"),
      field (.lit "ST") ssdpTarget] := by
  have hlits : (CStr.lit "CACHE-CONTROL: max-age=1800\r\n").bytes =
        field (.lit "CACHE-CONTROL") (.lit "max-age=1800") ++ crlf ∧
      (CStr.lit "EXT:\r\n").bytes = (CStr.lit "EXT:").bytes ++ crlf ∧
      (CStr.lit "BOOTID.UPNP.ORG: 1\r\n").bytes =
        field (.lit "BOOTID.UPNP.ORG") (.lit "1") ++ crlf ∧
      (CStr.lit "SERVER: Linux/2.6 UPnP/1.1 quick_ssdp/1.1\r\n").bytes =
        field (.lit "SERVER") (.lit "Linux/2.6 UPnP/1.1 quick_ssdp/1.1") ++ crlf ∧
      (CStr.lit "ST: urn:dial-multiscreen-org:service:dial:1\r\n").bytes =
        field (.lit "ST") ssdpTarget ++ crlf := by
    refine ⟨?_, ?_, ?_, ?_, ?_⟩ <;> rw [CStr.bytes_lit] <;> rfl
  simp only [ssdpConstant, CStr.bytes_append, hlits, lines, List.flatMap_cons, List.flatMap_nil,
    List.append_assoc, List.append_nil]

/-- **The reply as a head.** -/
theorem bytes_ssdpText (ip : CStr) (myPort : ℕ) (uuid : CStr) :
    (ssdpText ip myPort uuid).bytes =
      messageHead (CStr.lit "HTTP/1.1 200 OK").bytes (ssdpFields ip myPort uuid) := by
  have hlits : (CStr.lit "HTTP/1.1 200 OK\r\n").bytes =
        (CStr.lit "HTTP/1.1 200 OK").bytes ++ crlf ∧
      (CStr.lit "LOCATION: http://").bytes =
        (CStr.lit "LOCATION").bytes ++ (CStr.lit ": ").bytes ++ (CStr.lit "http://").bytes ∧
      (CStr.lit "/dd.xml\r\n").bytes = (CStr.lit "/dd.xml").bytes ++ crlf ∧
      (CStr.lit "USN: uuid:").bytes =
        (CStr.lit "USN").bytes ++ (CStr.lit ": ").bytes ++ (CStr.lit "uuid:").bytes ∧
      (CStr.lit "\r\n").bytes = crlf := by
    refine ⟨?_, ?_, ?_, ?_, ?_⟩ <;> rw [CStr.bytes_lit] <;> rfl
  simp only [ssdpText, CStr.bytes_append, hlits, bytes_ssdpConstant, bytes_targetLine, messageHead,
    ssdpFields, locationUrl, serverUrl, field, lines, List.flatMap_cons, List.flatMap_nil,
    List.append_assoc, List.append_nil]

/-- **The head of the description as a head.** -/
theorem bytes_ddHead (s : Ssdp) (ip : CStr) :
    (s.ddHead ip).bytes =
      messageHead (CStr.lit "HTTP/1.1 200 OK").bytes (ddFields ip s.dialPort) := by
  have hfront : (CStr.lit
      "HTTP/1.1 200 OK\r\nContent-Type: text/xml\r\nApplication-URL: http://").bytes =
        (CStr.lit "HTTP/1.1 200 OK").bytes ++ crlf ++
          lines [field (.lit "Content-Type") (.lit "text/xml")] ++
          ((CStr.lit "Application-URL").bytes ++ (CStr.lit ": ").bytes ++
            (CStr.lit "http://").bytes) := by
    rw [CStr.bytes_lit]
    rfl
  have hend : (CStr.lit "/apps/\r\n\r\n").bytes = appsUri.bytes ++ crlf ++ crlf := by
    rw [CStr.bytes_lit]
    rfl
  simp only [Ssdp.ddHead, CStr.bytes_append, hfront, hend, messageHead, ddFields, appsUrl,
    serverUrl, field, lines, List.flatMap_cons, List.flatMap_nil, List.append_assoc,
    List.append_nil]

/-! ### When a control point gets there -/

theorem oneLine_serverUrl_iff {ip path : CStr} {port : ℕ} (hpath : OneLine path.bytes) :
    OneLine (serverUrl ip port path).bytes ↔ OneLine ip.bytes := by
  have hlits : OneLine (CStr.lit "http://").bytes ∧ OneLine (CStr.lit ":").bytes := by decide
  simp only [serverUrl, CStr.bytes_append, oneLine_append_iff, hlits, hpath, oneLine_ofNat,
    true_and, and_true]

/-- What the value of a header line keeps on its line. -/
theorem fieldLine_field_iff {name value : CStr} (hname : IsToken name.bytes) :
    FieldLine (field name value) ↔ OneLine value.bytes := by
  refine ⟨fun h => ?_, fieldLine_field hname⟩
  have hline := h.oneLine.1
  rw [field, CStr.bytes_append, oneLine_append_iff] at hline
  exact hline.2

/-- **The reply is read as it is meant** if and only if neither the address nor the UUID
breaks a line. -/
theorem readAs_ssdpText_iff {ip uuid : CStr} {myPort : ℕ} :
    ReadAs (ssdpText ip myPort uuid).bytes (ssdpFields ip myPort uuid) ↔
      OneLine ip.bytes ∧ OneLine uuid.bytes := by
  have hnames : ∀ name ∈ ["LOCATION", "CACHE-CONTROL", "BOOTID.UPNP.ORG", "SERVER", "ST", "USN"],
      IsToken (CStr.lit name).bytes := by decide
  simp only [List.forall_mem_cons] at hnames
  obtain ⟨hlocation, hcache, hbootid, hserver, hst, husn, -⟩ := hnames
  have hvalues : OneLine (CStr.lit "max-age=1800").bytes ∧ OneLine (CStr.lit "1").bytes ∧
      OneLine (CStr.lit "Linux/2.6 UPnP/1.1 quick_ssdp/1.1").bytes ∧
      OneLine ssdpTarget.bytes := by decide
  have hext : FieldLine (CStr.lit "EXT:").bytes :=
    ⟨(CStr.lit "EXT").bytes, [], by decide, by decide, by decide⟩
  have hpath : OneLine (CStr.lit "/dd.xml").bytes := by decide
  have husnValue : OneLine (CStr.lit "uuid:" ++ uuid ++ .lit "::" ++ ssdpTarget).bytes ↔
      OneLine uuid.bytes := by
    have hlits : OneLine (CStr.lit "uuid:").bytes ∧ OneLine (CStr.lit "::").bytes := by decide
    simp only [CStr.bytes_append, oneLine_append_iff, hlits, hvalues, true_and, and_true]
  have hfields : (∀ l ∈ ssdpFields ip myPort uuid, FieldLine l) ↔
      OneLine ip.bytes ∧ OneLine uuid.bytes := by
    simp only [ssdpFields, List.forall_mem_cons, List.not_mem_nil, false_imp_iff, implies_true,
      fieldLine_field_iff, hlocation, hcache, hbootid, hserver, hst, husn, hvalues, hext, husnValue,
      locationUrl, oneLine_serverUrl_iff hpath, true_and, and_true]
  rw [← hfields]
  constructor
  · rintro ⟨-, -, -, h⟩
    exact h
  · exact fun h => ⟨_, bytes_ssdpText ip myPort uuid, statusLine_ok, h⟩

theorem readAs_ddHead (s : Ssdp) {ip : CStr} (hip : OneLine ip.bytes) :
    ReadAs (s.ddHead ip).bytes (ddFields ip s.dialPort) := by
  refine ⟨_, bytes_ddHead s ip, statusLine_ok, fun l hl => ?_⟩
  rcases List.mem_pair.mp hl with rfl | rfl
  · exact fieldLine_field (by decide) (by decide)
  · exact fieldLine_field (by decide) ((oneLine_serverUrl_iff (by decide)).mpr hip)

/-! ### The paths -/

section Path

variable {ip path : CStr} {port : ℕ}

/-- What stands behind the scheme. -/
theorem drop_serverUrl (ip : CStr) (port : ℕ) (path : CStr) :
    ((serverUrl ip port path).drop (CStr.lit "http://").strlen).bytes =
      ip.bytes ++ ((CStr.lit ":").bytes ++ (CStr.ofNat port).bytes ++ path.bytes) := by
  simp only [serverUrl, CStr.bytes_drop, CStr.bytes_append, CStr.strlen, List.append_assoc,
    List.drop_left]

/-- **The path of a URL is the path**, unless something in the address ends it. -/
theorem urlPath_serverUrl (hip : ∀ c ∈ ip.bytes, endsAuthority c = false)
    (hslash : path.bytes.head? = some '/'.toUInt8) (hpath : ∀ c ∈ path.bytes, endsPath c = false) :
    urlPath (serverUrl ip port path) = path := by
  have hhost : ∀ c ∈ ip.bytes ++ ((CStr.lit ":").bytes ++ (CStr.ofNat port).bytes),
      endsAuthority c = false := by
    intro c hc
    rcases List.mem_append.mp hc with hmem | hmem
    · exact hip c hmem
    · rcases List.mem_append.mp hmem with hcolon | hdigit
      · have hall : ∀ c ∈ (CStr.lit ":").bytes, (!endsAuthority c) = true :=
          List.all_eq_true.mp (by decide)
        exact (Bool.not_eq_true' _).mp (hall c hcolon)
      · exact endsAuthority_of_mem_ofNat hdigit
  obtain ⟨rest, hrest⟩ : ∃ rest, path.bytes = '/'.toUInt8 :: rest :=
    List.head?_eq_some_iff.mp hslash
  have hurl := drop_serverUrl ip port path
  rw [← List.append_assoc, hrest] at hurl
  have hall : ∀ c ∈ path.bytes, (!endsPath c) = true := fun c hc => by
    rw [hpath c hc]
    rfl
  rw [urlPath_of_bytes hurl hhost (by decide), ← hrest, List.takeWhile_eq_self_iff.mpr hall]
  exact CStr.ext (CStr.bytes_ofBuffer path.nul_free)

/-- **With such a character in the address** every URL has the same path, or a colon in it. -/
theorem urlPath_of_endsAuthority (hip : ¬∀ c ∈ ip.bytes, endsAuthority c = false) :
    (∃ p, ∀ port path, urlPath (serverUrl ip port path) = p) ∨
      ∀ port path, ':'.toUInt8 ∈ (urlPath (serverUrl ip port path)).bytes := by
  obtain ⟨front, c, rest, heq, hfront, hc⟩ : ∃ front c rest, ip.bytes = front ++ c :: rest ∧
      (∀ d ∈ front, endsAuthority d = false) ∧ endsAuthority c = true := by
    push Not at hip
    obtain ⟨c, hmem, hc⟩ := hip
    obtain ⟨d, hfind⟩ := Option.isSome_iff_exists.mp
      (List.find?_isSome.mpr ⟨c, hmem, Bool.eq_true_of_not_eq_false hc⟩)
    obtain ⟨hd, front, rest, heq, hfront⟩ := List.find?_eq_some_iff_append.mp hfind
    exact ⟨front, d, rest, heq, fun e he => (Bool.not_eq_true' _).mp (hfront e he), hd⟩
  have hcut : ∀ port path, urlPath (serverUrl ip port path) =
      .ofBuffer (((c :: rest) ++ ((CStr.lit ":").bytes ++ (CStr.ofNat port).bytes ++
        path.bytes)).takeWhile fun d => !endsPath d) := by
    intro port path
    have hurl := drop_serverUrl ip port path
    rw [heq, List.append_assoc, List.cons_append] at hurl
    exact urlPath_of_bytes hurl hfront hc
  by_cases hall : ∀ d ∈ c :: rest, (!endsPath d) = true
  · refine .inr fun port path => ?_
    have hnul := ((serverUrl ip port path).drop (CStr.lit "http://").strlen).nul_free
    rw [drop_serverUrl, heq, List.append_assoc, List.mem_append, not_or] at hnul
    have hcolon : (CStr.lit ":").bytes = [':'.toUInt8] := by decide
    rw [hcut, CStr.bytes_ofBuffer fun h0 => hnul.2 ((List.takeWhile_subset _) h0),
      List.takeWhile_append_of_pos hall, hcolon]
    refine List.mem_append_right _ ?_
    rw [List.append_assoc, List.singleton_append, List.takeWhile_cons_of_pos (by decide)]
    exact List.mem_cons_self
  · -- the path ends in the address
    refine .inl ⟨.ofBuffer ((c :: rest).takeWhile fun d => !endsPath d), fun port path => ?_⟩
    have hshort : ((c :: rest).takeWhile fun d => !endsPath d).length ≠ (c :: rest).length :=
      fun hlen => hall
        (List.takeWhile_eq_self_iff.mp ((List.takeWhile_prefix _).eq_of_length hlen))
    rw [hcut, List.takeWhile_append, if_neg hshort]

end Path

/-- Whoever is sent a text has asked for the description, and the model name has an end. -/
theorem Ssdp.of_requestHandler_printf {s : Ssdp} {ip head body : CStr} {r : MgRequest}
    (h : s.requestHandler ip r = .ok [.printf head, .printf body]) :
    r.uri = .lit "/dd.xml" ∧ ∃ modelName, s.modelName.cstr = .ok modelName := by
  rw [Ssdp.requestHandler] at h
  split_ifs at h with hasked
  · refine ⟨hasked.1, ?_⟩
    cases hm : s.modelName.cstr with
    | ok modelName => exact ⟨modelName, rfl⟩
    | error f =>
      cases hf : s.friendlyName.cstr <;> simp [hf, hm, bind, Except.bind] at h
  · simp [pure, Except.pure] at h

theorem appsUrl_append (ip X : CStr) (dialPort : ℕ) :
    appsUrl ip dialPort ++ X = serverUrl ip dialPort (appsUri ++ X) := by
  refine CStr.ext ?_
  simp only [appsUrl, serverUrl, CStr.bytes_append, List.append_assoc]

section Exchange

variable {A : Type}

/-- What the hosts of a net send back for a datagram: at some of the addresses there is a
responder. -/
def ssdpAnswer (hosts : A → Option Responder) (dst : A) (payload : Filling) : Option Filling :=
  (hosts dst).bind fun h => h.answer payload

/-- A datagram asks a responder in the name of a responder. -/
structure Reflected (hosts : A → Option Responder) (p : Packet A Filling) : Prop where
  asked : (hosts p.dst).isSome
  named : (hosts p.src).isSome
  asks : Asks p.payload.bytes

variable {hosts : A → Option Responder} {p : Packet A Filling} {net : List (Packet A Filling)}

/-- The reply names the service as a question does. -/
theorem Responder.asks_reply (h : Responder) : Asks h.reply.bytes := by
  change ssdpTarget.bytes <:+: (CStr.ofBuffer h.text.bytes).bytes
  rw [CStr.bytes_ofBuffer h.text.nul_free, Responder.text, ssdpText, CStr.bytes_append,
    CStr.bytes_append, bytes_targetLine, List.append_assoc, List.append_assoc]
  exact List.infix_append' _ _ _

/-- What is sent back asks in the name of who was asked. -/
theorem reply_eq_some {q : Packet A Filling} : p.reply (ssdpAnswer hosts) = some q ↔
    ∃ h, hosts p.dst = some h ∧ Asks p.payload.bytes ∧ q = ⟨p.dst, p.src, h.reply⟩ := by
  rw [Packet.reply, ssdpAnswer, Option.map_eq_some_iff]
  constructor
  · rintro ⟨payload, hanswer, rfl⟩
    obtain ⟨h, hh, hanswer⟩ := Option.bind_eq_some_iff.mp hanswer
    rw [Responder.answer] at hanswer
    split_ifs at hanswer with hasks
    cases Option.some.inj hanswer
    exact ⟨h, hh, hasks, rfl⟩
  · rintro ⟨h, hh, hasks, rfl⟩
    refine ⟨h.reply, Option.bind_eq_some_iff.mpr ⟨h, hh, ?_⟩, rfl⟩
    rw [Responder.answer, if_pos hasks]

/-- Responders that ask one another never stop. -/
theorem Reflected.endless (hp : Reflected hosts p) : Endless (ssdpAnswer hosts) p := by
  refine endless_of_forall (Reflected hosts) (fun p hp => ?_) hp
  obtain ⟨h, hh⟩ := Option.isSome_iff_exists.mp hp.asked
  exact ⟨_, reply_eq_some.mpr ⟨h, hh, hp.asks, rfl⟩, hp.named, hp.asked, h.asks_reply⟩

/-- A question that nobody asks in the name of a responder is answered once. -/
theorem ends_of_not_reflected (hp : ¬Reflected hosts p) :
    Ends (ssdpAnswer hosts) ((p.reply (ssdpAnswer hosts)).toList.length + 1) p := by
  cases hreply : p.reply (ssdpAnswer hosts) with
  | none => exact .last hreply
  | some q =>
    obtain ⟨h, hh, hasks, rfl⟩ := reply_eq_some.mp hreply
    refine .more hreply (.last (Option.eq_none_iff_forall_ne_some.mpr fun q hq => hp ?_))
    obtain ⟨h', hh', -, -⟩ := reply_eq_some.mp hq
    exact ⟨Option.isSome_of_mem hh, Option.isSome_of_mem hh', hasks⟩

/-- The datagrams in flight and the replies to them are all that there is to deliver. -/
theorem settles_of_not_reflected (hnet : ∀ p ∈ net, ¬Reflected hosts p) :
    Settles (ssdpAnswer hosts)
      (net.length + (net.filterMap (Packet.reply (ssdpAnswer hosts))).length) net := by
  induction net with
  | nil => exact .nil
  | cons p net ih =>
    obtain ⟨hp, hnet⟩ := List.forall_mem_cons.mp hnet
    have hcount : (p :: net).length +
        ((p :: net).filterMap (Packet.reply (ssdpAnswer hosts))).length =
        ((p.reply (ssdpAnswer hosts)).toList.length + 1) +
          (net.length + (net.filterMap (Packet.reply (ssdpAnswer hosts))).length) := by
      rw [List.filterMap_cons, List.length_cons]
      cases p.reply (ssdpAnswer hosts) with
      | none =>
        simp only [Option.toList_none, List.length_nil]
        omega
      | some q =>
        simp only [Option.toList_some, List.length_cons, List.length_nil]
        omega
    rw [hcount]
    exact .cons (ends_of_not_reflected hp) (ih hnet)

/-- **All is quiet after the datagrams in flight and one reply to each question, in whatever
order they are delivered, if and only if** none of them asks a responder in the name of a
responder. After one that does, it never is. -/
theorem exchange_over_iff (hosts : A → Option Responder) (net : List (Packet A Filling)) :
    ((∀ is net', run (ssdpAnswer hosts) net is = some net' →
        (net' = [] ↔ is.length =
          net.length + (net.filterMap (Packet.reply (ssdpAnswer hosts))).length)) ↔
      ∀ p ∈ net, ¬Reflected hosts p) ∧
    ((∃ p ∈ net, Reflected hosts p) →
      ∀ is net', run (ssdpAnswer hosts) net is = some net' → net' ≠ []) := by
  have hbusy : (∃ p ∈ net, Reflected hosts p) →
      ∀ is net', run (ssdpAnswer hosts) net is = some net' → net' ≠ [] := by
    rintro ⟨p, hp, hreflected⟩ is net' hrun
    obtain ⟨q, hq, -⟩ := endless_run hp hreflected.endless hrun
    exact List.ne_nil_of_mem hq
  refine ⟨⟨fun hall p hp hreflected => ?_, fun hnone is net' hrun => ?_⟩, hbusy⟩
  · obtain ⟨is, net', hlen, hrun⟩ := exists_run_of_endless hp hreflected.endless
      (net.length + (net.filterMap (Packet.reply (ssdpAnswer hosts))).length)
    exact hbusy ⟨p, hp, hreflected⟩ is net' hrun ((hall is net' hrun).mpr hlen)
  · exact ((settles_of_not_reflected hnone).run hrun).2.2

end Exchange

end DialServer
