import Mathlib.Algebra.Order.BigOperators.Group.List
import Mathlib.Algebra.Order.Ring.Nat
import DialServer.Encoding
import DialServer.Persistence

/-!
# The dial data in a status reply

`handle_app_status` renders the dial data of an application into an array of
`DIAL_DATA_SIZE` bytes: of every pair the key and the value are decoded and escaped,
each into a buffer of twice its length and one byte, and put between tags. What comes
out is one text (`DialServer.renderDialData_of_pairs`) – when it has room for its
terminator; the array is filled with a capacity that is its whole size, so a text that
just fills it, or would overfill it, is terminated behind the end
(`DialServer.rendererInBounds_iff`).

An escaped field that is longer than its buffer is cut, which can happen anywhere in an
entity; so the text is faithful only if no field grows to more than twice its length
(`DialServer.rendersFaithfully_iff`).
-/

namespace DialServer

open CLib

variable {σ : Type}

/-! ### One field -/

/-- A field as it is rendered: decoded up to its first malformed `%` or NUL, escaped, and
cut at twice its length. -/
def renderedField (s : CStr) : CStr :=
  .ofBuffer ((xmlEscaped (CStr.ofBuffer (urlDecoded s.bytes)).bytes).take (2 * s.strlen))

/-- **A field is rendered inside its buffer.** -/
theorem urlDecodeXmlEncode_spec (s : CStr) :
    ∃ b, urlDecodeXmlEncode (Block.malloc (2 * s.strlen + 1)) s s.strlen = .ok b ∧
      b.cstr = .ok (renderedField s) := by
  have hroom : ∀ n, n < (Block.malloc (n + 1)).size := fun n => by
    rw [Block.malloc, Block.size, List.length_replicate]
    exact Nat.lt_succ_self n
  have hshort : (urlDecoded s.bytes).take s.strlen = urlDecoded s.bytes :=
    List.take_of_length_le (Escape.length_decode_le percentCode s.bytes)
  obtain ⟨decoded, hdecode, hstarts, -⟩ := urldecode_spec s (hroom s.strlen)
  rw [List.length_nil, Nat.sub_zero, List.nil_append, hshort] at hstarts
  obtain ⟨encoded, hencode, hstarts', -⟩ :=
    xmlencode_spec (CStr.ofBuffer (urlDecoded s.bytes)) (hroom (2 * s.strlen))
  refine ⟨encoded, ?_, hstarts'.cstr⟩
  simp only [urlDecodeXmlEncode, hdecode, bind, Except.bind, hstarts.cstr, hencode]

/-- A field, decoded and escaped. -/
def escapedField (s : CStr) : List UInt8 := xmlEscaped (urlDecoded s.bytes)

/-- A field is an encoding of some text without NULs. -/
def WellEncoded (s : CStr) : Prop := ∃ t, Escape.Encodes percentCode s.bytes t ∧ (0 : UInt8) ∉ t

/-- A text without `+` and `%` is encoded as itself. -/
theorem encodes_self {l : List UInt8} (h : ∀ c ∈ l, c ≠ '+'.toUInt8 ∧ c ≠ '%'.toUInt8) :
    Escape.Encodes percentCode l l := by
  induction l with
  | nil => exact .nil
  | cons c l ih =>
    obtain ⟨hplus, hmark⟩ := h c List.mem_cons_self
    exact .plain hplus hmark (ih fun d hd => h d (List.mem_cons_of_mem _ hd))

theorem wellEncoded_of_plain {s : CStr}
    (h : ∀ c ∈ s.bytes, c ≠ '+'.toUInt8 ∧ c ≠ '%'.toUInt8) : WellEncoded s :=
  ⟨s.bytes, encodes_self h, s.nul_free⟩

/-- A text without special characters is escaped as itself. -/
theorem xmlEscaped_of_plain {s : List UInt8} (h : ∀ c ∈ s, xmlEntity c = none) :
    xmlEscaped s = s := by
  induction s with
  | nil => rfl
  | cons c s ih =>
    have hc := h c List.mem_cons_self
    have hrest := ih fun d hd => h d (List.mem_cons_of_mem _ hd)
    rw [xmlEscaped] at hrest ⊢
    rw [Escape.substitute_cons, hrest, Escape.glyph, hc]
    rfl

/-- **A well encoded field is rendered as it should be, cut at twice its length.** -/
theorem bytes_renderedField {s : CStr} (h : WellEncoded s) :
    (renderedField s).bytes = (escapedField s).take (2 * s.strlen) := by
  obtain ⟨t, hencodes, hnul⟩ := h
  have hdecoded : urlDecoded s.bytes = t := by rw [urlDecoded, hencodes.decode_eq]
  rw [renderedField, escapedField, hdecoded, CStr.bytes_ofBuffer hnul]
  exact CStr.bytes_ofBuffer fun hzero => zero_notMem_xmlEscaped hnul (List.mem_of_mem_take hzero)

/-! ### The loop -/

/-- What is written for a pair, string by string. -/
def pairPieces (p : CStr × CStr) : List CStr :=
  [.lit "    <", renderedField p.1, .lit ">", renderedField p.2, .lit "</", renderedField p.1,
    .lit ">"]

/-- The element made of a key and a value. -/
def element (key value : List UInt8) : List UInt8 :=
  (CStr.lit "    <").bytes ++ key ++ (CStr.lit ">").bytes ++ value ++ (CStr.lit "</").bytes ++
    key ++ (CStr.lit ">").bytes

theorem length_element (key value : List UInt8) :
    (element key value).length = 9 + 2 * key.length + value.length := by
  have htags : (CStr.lit "    <").bytes.length = 5 ∧ (CStr.lit ">").bytes.length = 1 ∧
      (CStr.lit "</").bytes.length = 2 := by decide
  simp only [element, List.length_append, htags]
  omega

/-- The elements for a list of pairs whose fields are written in some way. -/
def elements (field : CStr → List UInt8) (pairs : List (CStr × CStr)) : List UInt8 :=
  pairs.flatMap fun p => element (field p.1) (field p.2)

/-- How long they are: nine bytes for the tags of every pair, twice the key and once the
value. -/
def elementsLength (field : CStr → List UInt8) : List (CStr × CStr) → ℕ
  | [] => 0
  | p :: pairs => 9 + 2 * (field p.1).length + (field p.2).length + elementsLength field pairs

theorem length_elements (field : CStr → List UInt8) (pairs : List (CStr × CStr)) :
    (elements field pairs).length = elementsLength field pairs := by
  induction pairs with
  | nil => rfl
  | cons p pairs ih =>
    rw [elements, List.flatMap_cons, List.length_append, length_element, ← elements, ih,
      elementsLength]

/-- The text for a list of pairs. -/
def renderedText (pairs : List (CStr × CStr)) : List UInt8 :=
  elements (fun s => (renderedField s).bytes) pairs

theorem flatMap_pairPieces (pairs : List (CStr × CStr)) :
    (pairs.flatMap pairPieces).flatMap CStr.bytes = renderedText pairs := by
  rw [List.flatMap_assoc, renderedText, elements]
  refine List.flatMap_congr fun p _ => ?_
  simp only [pairPieces, element, List.flatMap_cons, List.flatMap_nil, List.append_nil,
    List.append_assoc]

/-- The text has no NUL in it. -/
theorem bytes_renderedText (pairs : List (CStr × CStr)) :
    (CStr.ofBuffer (renderedText pairs)).bytes = renderedText pairs := by
  rw [← flatMap_pairPieces]
  refine CStr.bytes_ofBuffer fun hzero => ?_
  obtain ⟨s, -, hs⟩ := List.mem_flatMap.mp hzero
  exact s.nul_free hs

theorem appendAll_singleton (N : ℕ) (s : CStr) (b : Block) (p : ℕ) :
    appendAll N [s] b p = smartstrcat b p s (N - p) := by
  simp only [appendAll, bind, Except.bind]
  rcases smartstrcat b p s (N - p) with f | ⟨b', p'⟩
  · rfl
  · rfl

theorem appendAll_cons_cons (N : ℕ) (s s' : CStr) (strings : List CStr) (b : Block) (p : ℕ) :
    appendAll N (s :: s' :: strings) b p =
      smartstrcat b p s (N - p) >>= fun q => appendAll N (s' :: strings) q.1 q.2 := rfl

theorem appendAll_append (N : ℕ) (strings strings' : List CStr) (b : Block) (p : ℕ) :
    appendAll N (strings ++ strings') b p =
      appendAll N strings b p >>= fun q => appendAll N strings' q.1 q.2 := by
  induction strings generalizing b p with
  | nil => rfl
  | cons s strings ih =>
    rw [List.cons_append, appendAll, appendAll]
    rcases smartstrcat b p s (N - p) with f | ⟨b', p'⟩
    · rfl
    · exact ih b' p'

/-- The body of the loop is seven concatenations. -/
theorem renderNode_of_pair {node : DIALData} {p : CStr × CStr} (h : node.pair = .ok p) (b : Block)
    (i : ℕ) : renderNode b i node = appendAll dialDataSize (pairPieces p) b i := by
  obtain ⟨hkey, hvalue⟩ := DIALData.pair_eq_ok.mp h
  obtain ⟨key, hkeyenc, hkeystr⟩ := urlDecodeXmlEncode_spec p.1
  obtain ⟨value, hvalueenc, hvaluestr⟩ := urlDecodeXmlEncode_spec p.2
  simp only [renderNode, pairPieces, appendAll_cons_cons, appendAll_singleton, hkey, hvalue,
    hkeyenc, hvalueenc, hkeystr, hvaluestr, bind, Except.bind]

theorem renderLoop_of_pairs {nodes : List DIALData} {pairs : List (CStr × CStr)}
    (h : nodes.map DIALData.pair = pairs.map .ok) (b : Block) (i : ℕ) :
    renderLoop nodes b i =
      (appendAll dialDataSize (pairs.flatMap pairPieces) b i).map Prod.fst := by
  induction nodes generalizing pairs b i with
  | nil =>
    rw [List.map_nil, eq_comm, List.map_eq_nil_iff] at h
    rw [h]
    rfl
  | cons node nodes ih =>
    rw [List.map_cons, eq_comm, List.map_eq_cons_iff] at h
    obtain ⟨p, pairs, rfl, hp, hrest⟩ := h
    rw [renderLoop, renderNode_of_pair hp.symm, List.flatMap_cons, appendAll_append]
    rcases appendAll dialDataSize (pairPieces p) b i with f | ⟨b', i'⟩
    · rfl
    · exact ih hrest.symm b' i'

/-- **A list of pairs is rendered** if its text leaves room for the terminator; otherwise
the rendering leaves the array. -/
theorem renderDialData_of_pairs {nodes : List DIALData} {pairs : List (CStr × CStr)}
    (h : nodes.map DIALData.pair = pairs.map .ok) :
    renderDialData nodes =
      if (renderedText pairs).length < dialDataSize then .ok (.ofBuffer (renderedText pairs))
      else .error .outOfBounds := by
  have hpos : 0 < dialDataSize := by decide
  have hempty : ([] : List UInt8).length ≤ dialDataSize := Nat.zero_le _
  obtain ⟨b, hb, hsize, hstarts⟩ : ∃ b, Block.calloc dialDataSize = b ∧ b.size = dialDataSize ∧
      b.Starts ([] ++ [0]) := ⟨_, rfl, List.length_replicate, Block.calloc_starts hpos⟩
  -- the seven appends of every pair are one long concatenation
  have hspec := appendAll_spec (pairs.flatMap pairPieces) hempty hstarts
  rw [List.nil_append, hsize, List.length_nil] at hspec
  rw [flatMap_pairPieces] at hspec
  rw [renderDialData, hb, renderLoop_of_pairs h]
  split
  · rename_i hroom
    -- nothing is cut
    have hcut := List.take_of_length_le hroom.le
    rw [Nat.min_eq_left hroom.le, if_pos hroom, hcut] at hspec
    obtain ⟨b', happend, hstarts', -⟩ := hspec
    rw [happend]
    exact hstarts'.cstr
  · rename_i hroom
    rw [if_neg (by omega)] at hspec
    rw [hspec]
    rfl

theorem pair_of_renderNode {node : DIALData} {b : Block} {i : ℕ} {q : Block × ℕ}
    (h : renderNode b i node = .ok q) : ∃ p, node.pair = .ok p := by
  simp only [renderNode, bind, Except.bind] at h
  rcases hcat : smartstrcat b i (.lit "    <") (dialDataSize - i) with f | ⟨b₁, i₁⟩
  · simp [hcat] at h
  · rcases hkey : node.key.cstr with f | key
    · simp [hcat, hkey] at h
    · obtain ⟨encoded, hencode, -⟩ := urlDecodeXmlEncode_spec key
      rcases hvalue : node.value.cstr with f | value
      · simp [hcat, hkey, hencode, hvalue] at h
      · exact ⟨(key, value), DIALData.pair_eq_ok.mpr ⟨hkey, hvalue⟩⟩

/-- Only a list of pairs is rendered. -/
theorem pairs_of_renderLoop {nodes : List DIALData} {b b' : Block} {i : ℕ}
    (h : renderLoop nodes b i = .ok b') :
    ∃ pairs : List (CStr × CStr), nodes.map DIALData.pair = pairs.map .ok := by
  induction nodes generalizing b i with
  | nil => exact ⟨[], rfl⟩
  | cons node nodes ih =>
    rw [renderLoop] at h
    rcases hnode : renderNode b i node with f | ⟨b₁, i₁⟩
    · rw [hnode] at h
      exact absurd h (by simp [bind, Except.bind])
    · rw [hnode] at h
      obtain ⟨p, hp⟩ := pair_of_renderNode hnode
      obtain ⟨pairs, hpairs⟩ := ih h
      exact ⟨p :: pairs, by rw [List.map_cons, List.map_cons, hp, hpairs]⟩

/-! ### Inside the buffers -/

/-- How long the text for a list of pairs is. -/
def renderedLength (pairs : List (CStr × CStr)) : ℕ :=
  elementsLength (fun s => (renderedField s).bytes) pairs

theorem length_renderedText (pairs : List (CStr × CStr)) :
    (renderedText pairs).length = renderedLength pairs := by
  rw [renderedText, length_elements, renderedLength]

/-- **The renderer stays inside its buffers**: nothing is written outside the array
`dial_data`, which has `DIAL_DATA_SIZE` bytes, nor outside the buffers for the encoded
fields, which have twice the length of the field and one byte. -/
structure RendererInBounds (nodes : List DIALData) : Prop where
  dialData : renderDialData nodes ≠ .error .outOfBounds
  fields : ∀ node ∈ nodes, ∀ s, node.key.cstr = .ok s ∨ node.value.cstr = .ok s →
    urlDecodeXmlEncode (Block.malloc (2 * s.strlen + 1)) s s.strlen ≠ .error .outOfBounds

theorem rendererInBounds_of_pairs {nodes : List DIALData} {pairs : List (CStr × CStr)}
    (h : nodes.map DIALData.pair = pairs.map .ok) :
    RendererInBounds nodes ↔ renderedLength pairs < dialDataSize := by
  have hrender := renderDialData_of_pairs h
  rw [length_renderedText] at hrender
  constructor
  · intro hbounds
    by_contra hlong
    rw [if_neg hlong] at hrender
    exact hbounds.dialData hrender
  · intro hroom
    rw [if_pos hroom] at hrender
    refine ⟨by rw [hrender]; simp, fun node _ s _ => ?_⟩
    obtain ⟨b, hb, -⟩ := urlDecodeXmlEncode_spec s
    rw [hb]
    simp

section Accepted

variable {H : Host σ} {w : World σ} {r : MgRequest} {X : CStr} {usePayload : Bool}

/-- After an update that was answered 200 the application holds the pairs of the
body. -/
theorem pairs_of_answers
    (hok : (handleDialData H w r X r.origin usePayload).answers = [200]) :
    ∃ app, lookupApp (handleDialData H w r X r.origin usePayload).world.apps X = some app ∧
      app.dialData.map DIALData.pair = (queryPairs (postedQuery r usePayload)).map .ok := by
  obtain ⟨app, happ, hgood, hconv, hopen⟩ := handleDialData_of_answers H r r.origin usePayload hok
  obtain ⟨nodes, -, hpairs, hdone⟩ := handleDialData_done H r r.origin usePayload happ hgood hconv
    hopen
  rw [hdone]
  exact ⟨_, lookupApp_updated happ .., hpairs⟩

end Accepted

/-- **After an accepted update the renderer stays inside its buffers exactly when the
text has fewer than `DIAL_DATA_SIZE` bytes.** A text of that many bytes or more is
terminated behind the end of the array; the buffers for the fields are never left. -/
theorem rendererInBounds_iff (H : Host σ) (w : World σ) (r : MgRequest) (X : CStr)
    (usePayload : Bool) (hok : (handleDialData H w r X r.origin usePayload).answers = [200]) :
    (∃ app, lookupApp (handleDialData H w r X r.origin usePayload).world.apps X = some app ∧
        RendererInBounds app.dialData) ↔
      renderedLength (queryPairs (postedQuery r usePayload)) < dialDataSize := by
  obtain ⟨app, happ, hpairs⟩ := pairs_of_answers hok
  rw [happ, ← rendererInBounds_of_pairs hpairs]
  constructor
  · rintro ⟨app', heq, hbounds⟩
    rwa [Option.some.inj heq]
  · exact fun hbounds => ⟨app, rfl, hbounds⟩

/-- The body `v=1`. -/
theorem rendererInBounds_iff_onePair :
    ∃ app, lookupApp (handleDialData probeHost (probeWorld (.lit "YouTube"))
        (dialDataRequest (.lit "YouTube") onePair) (.lit "YouTube") none true).world.apps
          (.lit "YouTube") = some app ∧ RendererInBounds app.dialData :=
  (rendererInBounds_iff probeHost (probeWorld (.lit "YouTube"))
    (dialDataRequest (.lit "YouTube") onePair) (.lit "YouTube") true (by decide +kernel)).mpr
      (by decide +kernel)

/-- A key of 4093 bytes. -/
def longKey : CStr := .ofBuffer (List.replicate 4093 'k'.toUInt8)

/-- The body that sets it to `v`. -/
def longKeyPair : List UInt8 := longKey.bytes ++ '='.toUInt8 :: (CStr.lit "v").bytes

theorem bytes_longKey : longKey.bytes = List.replicate 4093 'k'.toUInt8 := by
  refine CStr.bytes_ofBuffer fun hzero => ?_
  exact absurd (List.eq_of_mem_replicate hzero) (by decide)

theorem mem_longKey {c : UInt8} (hc : c ∈ longKey.bytes) : c = 'k'.toUInt8 := by
  rw [bytes_longKey] at hc
  exact List.eq_of_mem_replicate hc

/-- Nothing in it has to be decoded or escaped. -/
theorem strlen_renderedField_longKey : (renderedField longKey).strlen = 4093 := by
  have hplain : ∀ c ∈ longKey.bytes, c ≠ '+'.toUInt8 ∧ c ≠ '%'.toUInt8 := by
    intro c hc
    rw [mem_longKey hc]
    decide
  have hnone : ∀ c ∈ longKey.bytes, xmlEntity c = none := by
    intro c hc
    rw [mem_longKey hc]
    decide
  have hdecoded : urlDecoded longKey.bytes = longKey.bytes := by
    rw [urlDecoded, (encodes_self hplain).decode_eq]
  have hlen : longKey.bytes.length = 4093 := by rw [bytes_longKey, List.length_replicate]
  rw [CStr.strlen, bytes_renderedField (wellEncoded_of_plain hplain), escapedField, hdecoded,
    xmlEscaped_of_plain hnone, List.length_take, CStr.strlen, hlen]
  exact Nat.min_eq_right (by omega)

theorem length_longKeyPair : longKeyPair.length = 4095 := by
  rw [longKeyPair, List.length_append, bytes_longKey, List.length_replicate]
  rfl

theorem mem_longKeyPair {c : UInt8} (hc : c ∈ longKeyPair) :
    c = 'k'.toUInt8 ∨ c = '='.toUInt8 ∨ c = 'v'.toUInt8 := by
  rcases List.mem_append.mp hc with hkey | hrest
  · exact Or.inl (mem_longKey hkey)
  · have hv : (CStr.lit "v").bytes = ['v'.toUInt8] := by decide
    rw [hv] at hrest
    simpa using Or.inr hrest

theorem printable_longKeyPair : Printable longKeyPair := by
  intro c hc
  rcases mem_longKeyPair hc with rfl | rfl | rfl
  · decide
  · decide
  · decide

theorem dialDataBody_longKeyPair :
    dialDataBody (dialDataRequest (.lit "YouTube") longKeyPair) true = longKeyPair := by
  have hfits : longKeyPair.length ≤ dialDataMaxPayload := by
    rw [length_longKeyPair]
    decide
  rw [dialDataBody, if_pos rfl]
  exact List.take_of_length_le hfits

/-- The body is one piece, and it converts to its pair. -/
theorem query_longKeyPair :
    QueryConverts (.ofBuffer longKeyPair) ∧
      queryPairs (.ofBuffer longKeyPair) = [(longKey, .lit "v")] := by
  have hbytes : (CStr.ofBuffer longKeyPair).bytes = longKeyPair :=
    CStr.bytes_ofBuffer printable_longKeyPair.zero_notMem
  have habsent : ∀ c, c ≠ 'k'.toUInt8 ∧ c ≠ '='.toUInt8 ∧ c ≠ 'v'.toUInt8 → c ∉ longKeyPair := by
    rintro c ⟨hk, heq, hv⟩ hc
    rcases mem_longKeyPair hc with h | h | h
    · exact hk h
    · exact heq h
    · exact hv h
  have hpieces : querySegments (.ofBuffer longKeyPair) = [longKeyPair] := by
    rw [querySegments_of_notMem, hbytes]
    · rw [CStr.strlen, hbytes, length_longKeyPair]
      decide
    · rw [hbytes]
      exact fun hmark => habsent _ (by decide) (List.mem_of_mem_head? hmark)
    · rw [hbytes]
      exact habsent _ (by decide)
  have hkey : '='.toUInt8 ∉ longKey.bytes := fun hc => absurd (mem_longKey hc) (by decide)
  have hne : longKey.bytes ≠ [] := List.ne_nil_of_length_pos (by
    rw [bytes_longKey, List.length_replicate]
    decide)
  have hword : IsWord (CStr.lit "v").bytes := by decide +kernel
  constructor
  · intro segment hsegment
    rw [hpieces, List.mem_singleton] at hsegment
    rw [hsegment]
    exact segmentConverts_append hkey hne hword
  · have hself : ∀ s : CStr, CStr.ofBuffer s.bytes = s := fun s =>
      CStr.ext (CStr.bytes_ofBuffer s.nul_free)
    rw [queryPairs, hpieces, List.reverse_singleton, List.map_singleton, longKeyPair, segmentPair,
      segmentKey_append hkey, segmentValue_append hkey hword, hself, hself]

/-- Its element has 8196 bytes. -/
theorem not_rendererInBounds_longKeyPair :
    longKeyPair.length ≤ dialDataMaxPayload ∧
      (handleDialData probeHost (probeWorld (.lit "YouTube"))
        (dialDataRequest (.lit "YouTube") longKeyPair) (.lit "YouTube") none true).answers = [200] ∧
      ¬∃ app, lookupApp (handleDialData probeHost (probeWorld (.lit "YouTube"))
          (dialDataRequest (.lit "YouTube") longKeyPair) (.lit "YouTube") none true).world.apps
            (.lit "YouTube") = some app ∧ RendererInBounds app.dialData := by
  obtain ⟨hconv, hpair⟩ := query_longKeyPair
  have hquery : postedQuery (dialDataRequest (.lit "YouTube") longKeyPair) true =
      .ofBuffer longKeyPair := by rw [postedQuery, dialDataBody_longKeyPair]
  have hgood : isBadPayload (dialDataBody (dialDataRequest (.lit "YouTube") longKeyPair) true) =
      false := by
    rw [dialDataBody_longKeyPair, isBadPayload_eq_false]
    exact printable_longKeyPair
  have happ : lookupApp (probeWorld (.lit "YouTube")).apps (.lit "YouTube") =
      some (newApp ⟨.lit "YouTube", ⟨0, 0, 0, 0⟩, 0, 0, none⟩ []) := by decide
  obtain ⟨nodes, -, hheld, hdone⟩ := handleDialData_done probeHost _ none true happ hgood
    (by rwa [hquery]) rfl
  refine ⟨by rw [length_longKeyPair]; decide, by rw [hdone]; simp [Outcome.answers], ?_⟩
  rintro ⟨app, hfound, hbounds⟩
  rw [hdone, lookupApp_updated happ, Option.some.injEq] at hfound
  rw [← hfound, rendererInBounds_of_pairs hheld, hquery, hpair] at hbounds
  -- the key is in the element twice
  have hlong : dialDataSize ≤ renderedLength [(longKey, .lit "v")] := by
    rw [renderedLength, elementsLength, ← CStr.strlen, strlen_renderedField_longKey]
    exact le_trans (by decide) (Nat.le_add_right _ _)
  omega

/-! ### Faithful -/

/-- **The text is faithful**: it is made of the elements of all pairs, in the order of
the list. -/
def RendersFaithfully (nodes : List DIALData) : Prop :=
  ∃ text, renderDialData nodes = .ok text ∧
    text.bytes = elements escapedField (nodes.map DIALData.texts)

/-- A field does not grow to more than twice its length. -/
def FieldFits (s : CStr) : Prop := (escapedField s).length ≤ 2 * s.strlen

instance (s : CStr) : Decidable (FieldFits s) := inferInstanceAs (Decidable (_ ≤ _))

/-- How long the faithful text is. -/
def faithfulLength (pairs : List (CStr × CStr)) : ℕ := elementsLength escapedField pairs

theorem bytes_renderedField_of_fits {s : CStr} (h : WellEncoded s) (hfits : FieldFits s) :
    (renderedField s).bytes = escapedField s := by
  rw [bytes_renderedField h, List.take_of_length_le hfits]

section Faithful

variable {pairs : List (CStr × CStr)}

/-- Where every field fits, the text is faithful. -/
theorem renderedText_of_fits (hwell : ∀ p ∈ pairs, WellEncoded p.1 ∧ WellEncoded p.2)
    (hfits : ∀ p ∈ pairs, FieldFits p.1 ∧ FieldFits p.2) :
    renderedText pairs = elements escapedField pairs := by
  refine List.flatMap_congr fun p hp => ?_
  obtain ⟨hkey, hvalue⟩ := hwell p hp
  obtain ⟨hkeyfits, hvaluefits⟩ := hfits p hp
  dsimp only
  rw [bytes_renderedField_of_fits hkey hkeyfits, bytes_renderedField_of_fits hvalue hvaluefits]

theorem length_renderedField {s : CStr} (h : WellEncoded s) :
    (renderedField s).bytes.length = min (2 * s.strlen) (escapedField s).length := by
  rw [bytes_renderedField h, List.length_take]

theorem elementsLength_eq_sum (field : CStr → List UInt8) (pairs : List (CStr × CStr)) :
    elementsLength field pairs =
      (pairs.map fun p => 9 + 2 * (field p.1).length + (field p.2).length).sum := by
  induction pairs with
  | nil => rfl
  | cons p pairs ih => rw [elementsLength, ih, List.map_cons, List.sum_cons]

/-- Where some field does not fit, the text is too short. -/
theorem renderedLength_lt (hwell : ∀ p ∈ pairs, WellEncoded p.1 ∧ WellEncoded p.2)
    {p : CStr × CStr} (hp : p ∈ pairs) (hlong : ¬(FieldFits p.1 ∧ FieldFits p.2)) :
    renderedLength pairs < faithfulLength pairs := by
  rw [renderedLength, faithfulLength, elementsLength_eq_sum, elementsLength_eq_sum]
  refine List.sum_lt_sum _ _ (fun q hq => ?_) ⟨p, hp, ?_⟩
  · obtain ⟨hkey, hvalue⟩ := hwell q hq
    rw [length_renderedField hkey, length_renderedField hvalue]
    omega
  · obtain ⟨hkey, hvalue⟩ := hwell p hp
    rw [FieldFits, FieldFits] at hlong
    rw [length_renderedField hkey, length_renderedField hvalue]
    omega

theorem rendersFaithfully_of_pairs {nodes : List DIALData}
    (hwell : ∀ p ∈ pairs, WellEncoded p.1 ∧ WellEncoded p.2)
    (h : nodes.map DIALData.pair = pairs.map .ok) :
    RendersFaithfully nodes ↔
      (∀ p ∈ pairs, FieldFits p.1 ∧ FieldFits p.2) ∧ faithfulLength pairs < dialDataSize := by
  have hrender := renderDialData_of_pairs h
  rw [RendersFaithfully, texts_of_pairs h]
  constructor
  · rintro ⟨text, htext, hbytes⟩
    rw [htext] at hrender
    split at hrender
    · rename_i hroom
      obtain rfl := Except.ok.inj hrender
      rw [bytes_renderedText] at hbytes
      -- a field that was cut makes the text too short to be faithful
      have hlen : renderedLength pairs = faithfulLength pairs := by
        rw [renderedLength, ← length_elements, ← renderedText, hbytes, length_elements,
          faithfulLength]
      rw [renderedText, length_elements, ← renderedLength, hlen] at hroom
      refine ⟨fun p hp => ?_, hroom⟩
      by_contra hlong
      exact absurd hlen (renderedLength_lt hwell hp hlong).ne
    · exact absurd hrender (by simp)
  · rintro ⟨hfits, hroom⟩
    have hbytes := renderedText_of_fits hwell hfits
    rw [faithfulLength, ← length_elements, ← hbytes] at hroom
    rw [if_pos hroom] at hrender
    exact ⟨_, hrender, (bytes_renderedText pairs).trans hbytes⟩

end Faithful

/-- **After an accepted update the status text is faithful exactly when no field grows to
more than twice its length and the text has fewer than `DIAL_DATA_SIZE` bytes.** -/
theorem rendersFaithfully_iff (H : Host σ) (w : World σ) (r : MgRequest) (X : CStr)
    (usePayload : Bool) (hok : (handleDialData H w r X r.origin usePayload).answers = [200])
    (hwell : ∀ p ∈ queryPairs (postedQuery r usePayload), WellEncoded p.1 ∧ WellEncoded p.2) :
    (∃ app, lookupApp (handleDialData H w r X r.origin usePayload).world.apps X = some app ∧
        RendersFaithfully app.dialData) ↔
      (∀ p ∈ queryPairs (postedQuery r usePayload), FieldFits p.1 ∧ FieldFits p.2) ∧
        faithfulLength (queryPairs (postedQuery r usePayload)) < dialDataSize := by
  obtain ⟨app, happ, hpairs⟩ := pairs_of_answers hok
  rw [happ, ← rendersFaithfully_of_pairs hwell hpairs]
  constructor
  · rintro ⟨app', heq, hfaithful⟩
    rwa [Option.some.inj heq]
  · exact fun hfaithful => ⟨app, rfl, hfaithful⟩

/-- The body `v=1`. -/
theorem rendersFaithfully_iff_onePair :
    ∃ app, lookupApp (handleDialData probeHost (probeWorld (.lit "YouTube"))
        (dialDataRequest (.lit "YouTube") onePair) (.lit "YouTube") none true).world.apps
          (.lit "YouTube") = some app ∧ RendersFaithfully app.dialData := by
  have hpairs : queryPairs (postedQuery (dialDataRequest (.lit "YouTube") onePair) true) =
      [(.lit "v", .lit "1")] := by decide +kernel
  refine (rendersFaithfully_iff probeHost (probeWorld (.lit "YouTube"))
    (dialDataRequest (.lit "YouTube") onePair) (.lit "YouTube") true (by decide +kernel) ?_).mpr ?_
  · rw [hpairs]
    intro p hp
    obtain rfl := List.mem_singleton.mp hp
    exact ⟨wellEncoded_of_plain (by decide +kernel), wellEncoded_of_plain (by decide +kernel)⟩
  · rw [hpairs]
    decide +kernel

/-- A pair whose value is a quotation mark. -/
def quotePair : List UInt8 := (CStr.lit "a=\"").bytes

/-- Its entity has six bytes and room for two. -/
theorem not_rendersFaithfully_quotePair :
    (handleDialData probeHost (probeWorld (.lit "YouTube"))
        (dialDataRequest (.lit "YouTube") quotePair) (.lit "YouTube") none true).answers = [200] ∧
      (∀ p ∈ queryPairs (.ofBuffer quotePair), WellEncoded p.1 ∧ WellEncoded p.2) ∧
      ¬∃ app, lookupApp (handleDialData probeHost (probeWorld (.lit "YouTube"))
          (dialDataRequest (.lit "YouTube") quotePair) (.lit "YouTube") none true).world.apps
            (.lit "YouTube") = some app ∧ RendersFaithfully app.dialData := by
  have hok : (handleDialData probeHost (probeWorld (.lit "YouTube"))
      (dialDataRequest (.lit "YouTube") quotePair) (.lit "YouTube")
        (dialDataRequest (.lit "YouTube") quotePair).origin true).answers = [200] := by
    decide +kernel
  have hquery : postedQuery (dialDataRequest (.lit "YouTube") quotePair) true =
      .ofBuffer quotePair := by decide +kernel
  have hpairs : queryPairs (.ofBuffer quotePair) = [(.lit "a", .lit "\"")] := by decide +kernel
  have hwell : ∀ p ∈ queryPairs (.ofBuffer quotePair), WellEncoded p.1 ∧ WellEncoded p.2 := by
    rw [hpairs]
    intro p hp
    obtain rfl := List.mem_singleton.mp hp
    exact ⟨wellEncoded_of_plain (by decide +kernel), wellEncoded_of_plain (by decide +kernel)⟩
  refine ⟨hok, hwell, ?_⟩
  rintro ⟨app, happ, hfaithful⟩
  obtain ⟨app', happ', hheld⟩ := pairs_of_answers hok
  rw [hquery] at hheld
  obtain rfl : app' = app := Option.some.inj (happ'.symm.trans happ)
  have hfits := ((rendersFaithfully_of_pairs hwell hheld).mp hfaithful).1
  rw [hpairs] at hfits
  have hvalue : FieldFits (.lit "\"") := (hfits _ List.mem_cons_self).2
  exact absurd hvalue (by decide)

end DialServer
