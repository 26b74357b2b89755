import DialServer.Handlers
import DialServer.Lib.Xml

/-!
# The description of the device

`run_ssdp` keeps the friendly name, the model name and the UUID of the device in three
arrays of 256 bytes, and its web server pastes what they hold into the template of
`/dd.xml`: `DialServer.Ssdp.requestHandler`. A control point should read there the names
that were passed: `DialServer.Ssdp.Describes` asks that every array holds the front of its
name as a string, and that the served text is an XML document which is read as
`DialServer.description` of the three of them.

The block that copies the model name terminates the array of the UUID, so a model name
that fills its array leaves it without an end (`DialServer.Ssdp.copyModelName`). Nothing
is escaped, so the names have to be plain texts; `DialServer.describes_iff` shows that
this is all that can go wrong.
-/

namespace DialServer

open CLib Xml

/-! ### The names -/

/-- The static data of `quick_ssdp` that the description is made of. -/
structure Ssdp where
  dialPort : ℕ
  friendlyName : Block
  modelName : Block
  uuid : Block
  deriving DecidableEq

namespace Ssdp

/-- The state before `run_ssdp`. -/
def start : Ssdp := ⟨0, .calloc 256, .calloc 256, .calloc 256⟩

/-- Copy a name into its array, or a text that stands in for it. -/
def copyName (array : Block) (name : Option CStr) (standIn : CStr) : Except Fault Block :=
  match name with
  | some name => do
    let array ← array.strncpy name 256
    array.store 255 0
  | none => array.storeString 0 standIn

/-- The block for the model name, which terminates the array `uuid`. -/
def copyModelName (s : Ssdp) (pModelName : Option CStr) : Except Fault Ssdp :=
  match pModelName with
  | some name => do
    let modelName ← s.modelName.strncpy name 256
    let uuid ← s.uuid.store 255 0
    pure { s with modelName, uuid }
  | none => do
    let modelName ← s.modelName.storeString 0 (.lit "deadbeef-dead-beef-dead-beefdeadbeef")
    pure { s with modelName }

/-- `run_ssdp` up to the start of its web server. -/
def runSsdp (s : Ssdp) (port : ℕ) (pFriendlyName pModelName pUuid : Option CStr) :
    Except Fault Ssdp := do
  let friendlyName ← copyName s.friendlyName pFriendlyName (.lit "DIAL server sample")
  let s ← copyModelName { s with friendlyName } pModelName
  let uuid ← copyName s.uuid pUuid (.lit "deadbeef-dead-beef-dead-beefdeadbeef")
  pure { s with uuid, dialPort := port }

/-- The template `ddxml`, filled in. -/
def ddxml (friendlyName modelName uuid : CStr) : CStr :=
  .lit ("<?xml version=\"1.0\"?>" ++
    "<root" ++
    " xmlns=\"urn:schemas-upnp-org:device-1-0\"" ++
    " xmlns:r=\"urn:restful-tv-org:schemas:upnp-dd\">" ++
    " <specVersion>" ++
    " <major>1</major>" ++
    " <minor>0</minor>" ++
    " </specVersion>" ++
    " <device>" ++
    " <deviceType>urn:schemas-upnp-org:device:tvdevice:1</deviceType>" ++
    " <friendlyName>") ++ friendlyName ++ .lit ("</friendlyName>" ++
    " <manufacturer> </manufacturer>" ++
    " <modelName>") ++ modelName ++ .lit ("</modelName>" ++
    " <UDN>uuid:") ++ uuid ++ .lit ("</UDN>" ++
    " </device>" ++
    "</root>")

/-- What stands before the description. -/
def ddHead (s : Ssdp) (ipAddr : CStr) : CStr :=
  .lit "HTTP/1.1 200 OK\r\nContent-Type: text/xml\r\nApplication-URL: http://" ++ ipAddr ++
    .lit ":" ++ .ofNat s.dialPort ++ .lit "/apps/\r\n\r\n"

/-- `request_handler` of the description's web server, on a new request. -/
def requestHandler (s : Ssdp) (ipAddr : CStr) (r : MgRequest) : Except Fault (List Reply) :=
  if r.uri = .lit "/dd.xml" ∧ r.requestMethod = .lit "GET" then do
    let friendlyName ← s.friendlyName.cstr
    let modelName ← s.modelName.cstr
    let uuid ← s.uuid.cstr
    pure [.printf (s.ddHead ipAddr), .printf (ddxml friendlyName modelName uuid)]
  else pure [.httpError 404 (.lit "Not Found") (.lit "Not Found")]

end Ssdp

/-! ### What a control point should read -/

/-- The description of a device with the given names. -/
def description (friendlyName modelName uuid : List Char) : List Event :=
  .startTag "root".toList
      [("xmlns".toList, "urn:schemas-upnp-org:device-1-0".toList),
        ("xmlns:r".toList, "urn:restful-tv-org:schemas:upnp-dd".toList)] ::
    text " ".toList ++ element "specVersion".toList
      (text " ".toList ++ element "major".toList (text "1".toList) ++
        text " ".toList ++ element "minor".toList (text "0".toList) ++ text " ".toList) ++
    text " ".toList ++ element "device".toList
      (text " ".toList ++ element "deviceType".toList
          (text "urn:schemas-upnp-org:device:tvdevice:1".toList) ++
        text " ".toList ++ element "friendlyName".toList (text friendlyName) ++
        text " ".toList ++ element "manufacturer".toList (text " ".toList) ++
        text " ".toList ++ element "modelName".toList (text modelName) ++
        text " ".toList ++ element "UDN".toList (text ("uuid:".toList ++ uuid)) ++
        text " ".toList) ++
    [.endTag "root".toList]

/-- **The device is described by the given names**: each array holds the first 255 bytes of
its name as a string, and whoever asks for `/dd.xml` is sent an XML document that is read
as the description with what the arrays hold. -/
structure Ssdp.Describes (s : Ssdp) (friendlyName modelName uuid : CStr) : Prop where
  friendlyName_eq : s.friendlyName.cstr = .ok (friendlyName.take 255)
  modelName_eq : s.modelName.cstr = .ok (modelName.take 255)
  uuid_eq : s.uuid.cstr = .ok (uuid.take 255)
  served : ∃ (body : CStr) (document f m u : List Char),
    (∀ (ipAddr : CStr) (r : MgRequest), r.uri = .lit "/dd.xml" → r.requestMethod = .lit "GET" →
      s.requestHandler ipAddr r = .ok [.printf (s.ddHead ipAddr), .printf body]) ∧
    utf8 document = body.bytes ∧ Document document (description f m u) ∧
    utf8 f = (friendlyName.take 255).bytes ∧ utf8 m = (modelName.take 255).bytes ∧
    utf8 u = (uuid.take 255).bytes

/-- A name whose first 255 bytes are a text that XML has no other meaning for. -/
def PlainFront (name : CStr) : Prop :=
  ∃ t, utf8 t = (name.take 255).bytes ∧ IsPlainText t

/-- Names the description is faithful for. -/
structure PlainNames (friendlyName modelName uuid : CStr) : Prop where
  /-- Only the array of the model name is left without an end. -/
  modelName_short : modelName.strlen < 256
  friendlyName_plain : PlainFront friendlyName
  modelName_plain : PlainFront modelName
  uuid_plain : PlainFront uuid

/-! ### The description as a document -/

/-- The events in front of the friendly name. -/
def eventsFront : List Event :=
  .startTag "root".toList
      [("xmlns".toList, "urn:schemas-upnp-org:device-1-0".toList),
        ("xmlns:r".toList, "urn:restful-tv-org:schemas:upnp-dd".toList)] ::
    text " ".toList ++ element "specVersion".toList
      (text " ".toList ++ element "major".toList (text "1".toList) ++
        text " ".toList ++ element "minor".toList (text "0".toList) ++ text " ".toList) ++
    text " ".toList ++ .startTag "device".toList [] ::
      text " ".toList ++ element "deviceType".toList
          (text "urn:schemas-upnp-org:device:tvdevice:1".toList) ++
        text " ".toList ++ [.startTag "friendlyName".toList []]

/-- The events between the friendly name and the model name. -/
def eventsMiddle : List Event :=
  .endTag "friendlyName".toList :: text " ".toList ++
    element "manufacturer".toList (text " ".toList) ++
    text " ".toList ++ [.startTag "modelName".toList []]

/-- The events between the model name and the UUID. -/
def eventsBack : List Event :=
  .endTag "modelName".toList :: text " ".toList ++ .startTag "UDN".toList [] ::
    text "uuid:".toList

/-- The events behind the UUID. -/
def eventsRear : List Event :=
  .endTag "UDN".toList :: text " ".toList ++ [.endTag "device".toList, .endTag "root".toList]

section Description

variable (f m u : List Char)

theorem description_eq : description f m u =
    eventsFront ++ text f ++ eventsMiddle ++ text m ++ eventsBack ++ text u ++ eventsRear := by
  simp only [description, element, eventsFront, eventsMiddle, eventsBack, eventsRear, text_append,
    List.append_assoc, List.cons_append, List.nil_append]

/-- **The template is the description written without escaping.** -/
theorem bytes_ddxml {friendlyName modelName uuid : CStr} (hf : utf8 f = friendlyName.bytes)
    (hm : utf8 m = modelName.bytes) (hu : utf8 u = uuid.bytes) :
    (Ssdp.ddxml friendlyName modelName uuid).bytes =
      utf8 (xmlDeclaration ++ plainText (description f m u)) := by
  rw [description_eq]
  simp only [plainText_append, plainText_text, utf8_append, hf, hm, hu, Ssdp.ddxml,
    CStr.bytes_append, List.append_assoc]
  rw [← List.append_assoc (utf8 xmlDeclaration)]
  refine congrArg₂ (· ++ ·) ?_ (congrArg (_ ++ ·) (congrArg₂ (· ++ ·) ?_ (congrArg (_ ++ ·)
    (congrArg₂ (· ++ ·) ?_ (congrArg (_ ++ ·) ?_)))))
  -- the pieces of the template one by one: appending strings is slow to evaluate
  all_goals simp only [CStr.lit_append, CStr.bytes_append, -String.reduceAppend]
  all_goals decide +kernel

theorem isElement_description : IsElement (description f m u) := by
  simp [description, element, IsElement, Closes]

theorem tidy_description : ∀ e ∈ description f m u, e.Tidy := by
  have hnames : ∀ n ∈ ["root", "specVersion", "major", "minor", "device", "deviceType",
      "friendlyName", "manufacturer", "modelName", "UDN"].map String.toList, IsName n := by
    decide +kernel
  have hnone : TidyAttributes [] := by decide
  have hroot : TidyAttributes
      [("xmlns".toList, "urn:schemas-upnp-org:device-1-0".toList),
        ("xmlns:r".toList, "urn:restful-tv-org:schemas:upnp-dd".toList)] := by decide +kernel
  simp only [List.map_cons, List.map_nil, List.forall_mem_cons] at hnames
  simp only [description, element, text, List.forall_mem_append, List.forall_mem_cons,
    List.forall_mem_map, Event.Tidy, hnames, hnone, hroot, and_self, implies_true]
  simp

/-- The description is plain when the names are. -/
theorem isPlain_description :
    IsPlain (description f m u) ↔ IsPlainText f ∧ IsPlainText m ∧ IsPlainText u := by
  have hblank : IsPlainText " ".toList := by decide
  have hone : IsPlainText "1".toList := by decide
  have hzero : IsPlainText "0".toList := by decide
  have htype : IsPlainText "urn:schemas-upnp-org:device:tvdevice:1".toList := by decide +kernel
  have huuid : IsPlainText ("uuid:".toList ++ u) ↔ IsPlainText u := by
    have hcons : ∀ t, IsPlainText ('u' :: 'u' :: 'i' :: 'd' :: ':' :: t) ↔ IsPlainText t := by
      intro t
      iterate 5 rw [isPlainText_cons (by decide) (by decide)]
    exact hcons u
  simp only [description, element, List.append_assoc, List.cons_append, List.nil_append]
  simp only [isPlain_append_cons, isPlain_cons, isPlain_nil, ne_eq, reduceCtorEq,
    not_false_eq_true, implies_true, hblank, hone, hzero, htype, huuid, true_and, and_true]

/-- **The description is served faithfully exactly when the names are plain.** -/
theorem document_description_iff :
    Document (xmlDeclaration ++ plainText (description f m u)) (description f m u) ↔
      IsPlainText f ∧ IsPlainText m ∧ IsPlainText u :=
  (document_plainText_iff (isElement_description f m u) (tidy_description f m u)).trans
    (isPlain_description f m u)

end Description

/-! ### The arrays -/

namespace Ssdp

/-- The copy of a name leaves its front. -/
theorem copyName_some {array : Block} (hsize : array.size = 256) (name standIn : CStr) :
    ∃ array', copyName array (some name) standIn = .ok array' ∧ array'.size = 256 ∧
      array'.cstr = .ok (name.take 255) :=
  Block.exists_strncpy_store hsize name

/-- The copy of a model name that is too long leaves no string. -/
theorem copyModelName_some {s : Ssdp} (hmodel : s.modelName.size = 256)
    (huuid : s.uuid.size = 256) (name : CStr) :
    ∃ s', s.copyModelName (some name) = .ok s' ∧ s'.friendlyName = s.friendlyName ∧
      s'.uuid.size = 256 ∧
      s'.modelName.cstr = if name.strlen < 256 then .ok name else .error .unterminated := by
  obtain ⟨b, hcopy, -, hcstr⟩ := Block.exists_strncpy_size s.modelName name
  rw [hmodel] at hcopy hcstr
  have hstore : s.uuid.store 255 0 = .ok ⟨s.uuid.cells.set 255 (some 0)⟩ :=
    if_pos (by rw [huuid]; decide)
  refine ⟨{ s with modelName := b, uuid := ⟨s.uuid.cells.set 255 (some 0)⟩ }, ?_, rfl,
    List.length_set.trans huuid, hcstr⟩
  simp only [copyModelName, hcopy, hstore, bind, Except.bind, pure, Except.pure]

/-- **What `run_ssdp` leaves**: the fronts of the names, but no string in the array of a
model name that fills it. -/
theorem runSsdp_eq (port : ℕ) (friendlyName modelName uuid : CStr) :
    ∃ s, start.runSsdp port (some friendlyName) (some modelName) (some uuid) = .ok s ∧
      s.friendlyName.cstr = .ok (friendlyName.take 255) ∧
      s.modelName.cstr =
        (if modelName.strlen < 256 then .ok modelName else .error .unterminated) ∧
      s.uuid.cstr = .ok (uuid.take 255) := by
  obtain ⟨f, hf, -, hfcstr⟩ := copyName_some (Block.size_calloc 256) friendlyName
    (.lit "DIAL server sample")
  obtain ⟨s, hs, hsf, hsize, hmcstr⟩ := copyModelName_some (s := { start with friendlyName := f })
    (Block.size_calloc 256) (Block.size_calloc 256) modelName
  obtain ⟨u, hu, -, hucstr⟩ := copyName_some hsize uuid
    (.lit "deadbeef-dead-beef-dead-beefdeadbeef")
  refine ⟨{ s with uuid := u, dialPort := port }, ?_, ?_, hmcstr, hucstr⟩
  · change (copyName (.calloc 256) _ _ >>= _) = _
    simp only [hf, hs, hu, bind, Except.bind, pure, Except.pure]
  · rw [hsf]
    exact hfcstr

/-- What is served once the arrays hold strings. -/
theorem requestHandler_eq {s : Ssdp} {friendlyName modelName uuid : CStr}
    (hf : s.friendlyName.cstr = .ok friendlyName) (hm : s.modelName.cstr = .ok modelName)
    (hu : s.uuid.cstr = .ok uuid) (ipAddr : CStr) {r : MgRequest} (huri : r.uri = .lit "/dd.xml")
    (hmethod : r.requestMethod = .lit "GET") :
    s.requestHandler ipAddr r =
      .ok [.printf (s.ddHead ipAddr), .printf (ddxml friendlyName modelName uuid)] := by
  rw [requestHandler, if_pos ⟨huri, hmethod⟩]
  simp only [hf, hm, hu, bind, Except.bind, pure, Except.pure]

end Ssdp

/-! ### When the device is described -/

/-- A request for the description. -/
def descriptionRequest : MgRequest where
  requestMethod := .lit "GET"
  uri := .lit "/dd.xml"
  queryString := none
  httpHeaders := []
  localAddr := (192, 168, 1, 20)
  remoteAddr := (192, 168, 1, 30)
  body := []

/-- **The device is described by its names if and only if they are plain** and the model
name leaves room for its terminator. -/
theorem describes_iff (port : ℕ) (friendlyName modelName uuid : CStr) :
    (∃ s, Ssdp.start.runSsdp port (some friendlyName) (some modelName) (some uuid) = .ok s ∧
      s.Describes friendlyName modelName uuid) ↔ PlainNames friendlyName modelName uuid := by
  obtain ⟨s, hs, hf, hm, hu⟩ := Ssdp.runSsdp_eq port friendlyName modelName uuid
  constructor
  · rintro ⟨s', hs', -, hm', -, body, document, f, m, u, hserved, hbody, hdocument, hft, hmt, hut⟩
    obtain rfl := Except.ok.inj (hs.symm.trans hs')
    have hshort : modelName.strlen < 256 := by
      by_contra hlong
      rw [hm', if_neg hlong] at hm
      exact absurd hm (by simp)
    have hbodyEq := (hserved .nil descriptionRequest rfl rfl).symm.trans
      (Ssdp.requestHandler_eq hf hm' hu .nil rfl rfl)
    simp only [Except.ok.injEq, List.cons.injEq, Reply.printf.injEq, and_true, true_and]
      at hbodyEq
    rw [hbodyEq, bytes_ddxml f m u hft hmt hut] at hbody
    rw [utf8_injective hbody, document_description_iff] at hdocument
    exact ⟨hshort, ⟨f, hft, hdocument.1⟩, ⟨m, hmt, hdocument.2.1⟩, ⟨u, hut, hdocument.2.2⟩⟩
  · rintro ⟨hshort, ⟨f, hft, hfp⟩, ⟨m, hmt, hmp⟩, ⟨u, hut, hup⟩⟩
    have htake : modelName.take 255 = modelName :=
      CStr.ext (List.take_of_length_le (Nat.le_of_lt_succ hshort))
    rw [if_pos hshort, ← htake] at hm
    exact ⟨s, hs, hf, hm, hu, _, _, f, m, u,
      fun ipAddr r huri hmethod => Ssdp.requestHandler_eq hf hm hu ipAddr huri hmethod,
      (bytes_ddxml f m u hft hmt hut).symm, (document_description_iff f m u).mpr ⟨hfp, hmp, hup⟩,
      hft, hmt, hut⟩

/-- A model name of 256 letters. -/
def filledModelName : CStr := .ofBuffer (List.replicate 256 'M'.toUInt8)

/-- A model name that fills its array is not described. -/
theorem not_describes_filledModelName :
    ¬∃ s, Ssdp.start.runSsdp 56789 (some (.lit "Living room")) (some filledModelName)
        (some (.lit "deadbeef-dead-beef-dead-beefdeadbeef")) = .ok s ∧
      s.Describes (.lit "Living room") filledModelName
        (.lit "deadbeef-dead-beef-dead-beefdeadbeef") := by
  rintro ⟨s', hs', -, hm', -⟩
  obtain ⟨s, hs, -, hm, -⟩ := Ssdp.runSsdp_eq 56789 (.lit "Living room") filledModelName
    (.lit "deadbeef-dead-beef-dead-beefdeadbeef")
  have hlong : ¬filledModelName.strlen < 256 := by decide +kernel
  rw [if_neg hlong, Except.ok.inj (hs.symm.trans hs'), hm'] at hm
  exact absurd hm (by simp)

end DialServer
