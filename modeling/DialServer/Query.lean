import DialServer.Handlers

/-!
# What a query parses to

`parse_params` cuts a query at every `&` and converts each piece with
`sscanf(…, "%[^=]=%s", …)` into two buffers of the length of the piece. A piece
*converts* (`DialServer.SegmentConverts`) if both conversions are made; then the
buffers hold the pair of the piece, and otherwise one of them holds no string, or
the copy has left its buffer.

So the list a query parses to is one of pairs of strings exactly when every piece
converts, and then it is the list of their pairs, last piece first
(`DialServer.parseParams_of_converts`, `DialServer.converts_of_parseParams`).
-/

namespace DialServer

open CLib

/-! ### Pairs -/

/-- The pair of strings a node holds, when both of its fields are strings. -/
def DIALData.pair (node : DIALData) : Except Fault (CStr × CStr) :=
  match node.key.cstr with
  | .error f => .error f
  | .ok key => match node.value.cstr with
    | .error f => .error f
    | .ok value => .ok (key, value)

theorem DIALData.pair_eq_ok {node : DIALData} {p : CStr × CStr} :
    node.pair = .ok p ↔ node.key.cstr = .ok p.1 ∧ node.value.cstr = .ok p.2 := by
  obtain ⟨k, v⟩ := p
  rw [pair]
  rcases node.key.cstr with f | key
  · simp
  · rcases node.value.cstr with f | value
    · simp
    · simp

/-! ### One segment -/

/-- The part of a segment in front of its first `=`. -/
def segmentKey (segment : List UInt8) : List UInt8 := segment.takeWhile (· ≠ '='.toUInt8)

/-- The first word after the first `=`. -/
def segmentValue (segment : List UInt8) : List UInt8 :=
  (scanWord (skipSpace (segment.drop ((segmentKey segment).length + 1)))).1

/-- **Both conversions of a segment are made**: the key is there, the `=` is there
and a word comes after it. -/
structure SegmentConverts (segment : List UInt8) : Prop where
  key : segmentKey segment ≠ []
  sep : '='.toUInt8 ∈ segment
  value : segmentValue segment ≠ []

instance (segment : List UInt8) : Decidable (SegmentConverts segment) :=
  decidable_of_iff (segmentKey segment ≠ [] ∧ '='.toUInt8 ∈ segment ∧ segmentValue segment ≠ [])
    ⟨fun h => ⟨h.1, h.2.1, h.2.2⟩, fun h => ⟨h.key, h.sep, h.value⟩⟩

/-- The pair a segment converts to. -/
def segmentPair (segment : List UInt8) : CStr × CStr :=
  (.ofBuffer (segmentKey segment), .ofBuffer (segmentValue segment))

theorem segmentKey_sublist (segment : List UInt8) : (segmentKey segment).Sublist segment :=
  List.takeWhile_sublist _

theorem segmentValue_sublist (segment : List UInt8) :
    (segmentValue segment).Sublist (segment.drop ((segmentKey segment).length + 1)) := by
  rw [segmentValue, scanWord, List.span_eq_takeWhile_dropWhile, skipSpace]
  exact (List.takeWhile_sublist _).trans (List.dropWhile_sublist _)

/-- A segment is its key, the separator and the rest. -/
theorem segment_eq {segment : List UInt8} (h : '='.toUInt8 ∈ segment) :
    segment = segmentKey segment ++
      '='.toUInt8 :: segment.drop ((segmentKey segment).length + 1) := by
  induction segment with
  | nil => exact absurd h List.not_mem_nil
  | cons c segment ih =>
    by_cases hc : c = '='.toUInt8
    · simp [segmentKey, hc]
    · have hmem : '='.toUInt8 ∈ segment := by
        rcases List.mem_cons.mp h with heq | hmem
        · exact absurd heq.symm hc
        · exact hmem
      have hkey : segmentKey (c :: segment) = c :: segmentKey segment := by
        simp [segmentKey, hc]
      rw [hkey, List.cons_append, List.length_cons, List.drop_succ_cons]
      exact congrArg (c :: ·) (ih hmem)

section Pair

variable {k v : List UInt8}

theorem segmentKey_append (hk : '='.toUInt8 ∉ k) : segmentKey (k ++ '='.toUInt8 :: v) = k := by
  rw [segmentKey, List.takeWhile_append_of_pos, List.takeWhile_cons_of_neg, List.append_nil]
  · simp
  · intro c hc
    have hne : c ≠ '='.toUInt8 := fun heq => hk (heq ▸ hc)
    simpa using hne

theorem segmentValue_append (hk : '='.toUInt8 ∉ k) (hv : IsWord v) :
    segmentValue (k ++ '='.toUInt8 :: v) = v := by
  have hrest : (k ++ '='.toUInt8 :: v).drop (k.length + 1) = v := by
    rw [← List.drop_drop, List.drop_left, List.drop_one, List.tail_cons]
  have hskip : skipSpace v = v := by
    have happend := hv.skipSpace_append []
    rwa [List.append_nil] at happend
  rw [segmentValue, segmentKey_append hk, hrest, hskip, hv.scanWord_eq]

/-- **A key, the separator and a word convert.** -/
theorem segmentConverts_append (hk : '='.toUInt8 ∉ k) (hne : k ≠ []) (hv : IsWord v) :
    SegmentConverts (k ++ '='.toUInt8 :: v) :=
  ⟨by rwa [segmentKey_append hk], by simp, by rw [segmentValue_append hk hv]; exact hv.1⟩

end Pair

/-- Key and value fit in buffers of the length of the segment. -/
theorem SegmentConverts.length_lt {segment : List UInt8} (h : SegmentConverts segment) :
    (segmentKey segment).length < segment.length ∧
      (segmentValue segment).length < segment.length := by
  have hlen := congrArg List.length (segment_eq h.sep)
  have hvalue := (segmentValue_sublist segment).length_le
  have hkey : 0 < (segmentKey segment).length := List.length_pos_iff.mpr h.key
  rw [List.length_append, List.length_cons] at hlen
  omega

/-- **A segment that converts gives a node that holds its pair.** -/
theorem scanKeyValue_of_converts {segment : List UInt8} (h : SegmentConverts segment)
    (hnul : (0 : UInt8) ∉ segment) :
    ∃ node, scanKeyValue segment (Block.malloc segment.length) (Block.malloc segment.length) =
      .ok node ∧ node.pair = .ok (segmentPair segment) := by
  have hsize : (Block.malloc segment.length).size = segment.length := List.length_replicate
  have hkeybytes : (CStr.ofBuffer (segmentKey segment)).bytes = segmentKey segment :=
    CStr.bytes_ofBuffer fun hc => hnul ((segmentKey_sublist segment).subset hc)
  have hvaluebytes : (CStr.ofBuffer (segmentValue segment)).bytes = segmentValue segment :=
    CStr.bytes_ofBuffer fun hc => hnul (List.mem_of_mem_drop
      ((segmentValue_sublist segment).subset hc))
  -- the separator is in the segment, so both parts leave room for a NUL
  have hkeyroom : (CStr.ofBuffer (segmentKey segment)).strlen <
      (Block.malloc segment.length).size := by
    rw [CStr.strlen, hkeybytes, hsize]
    exact h.length_lt.1
  have hvalueroom : (CStr.ofBuffer (segmentValue segment)).strlen <
      (Block.malloc segment.length).size := by
    rw [CStr.strlen, hvaluebytes, hsize]
    exact h.length_lt.2
  obtain ⟨key, hkey, hkeystr⟩ := Block.cstr_storeString hkeyroom
  obtain ⟨value, hvalue, hvaluestr⟩ := Block.cstr_storeString hvalueroom
  rw [Block.storeString, hkeybytes] at hkey
  rw [Block.storeString, hvaluebytes] at hvalue
  refine ⟨⟨key, value⟩, ?_, DIALData.pair_eq_ok.mpr ⟨hkeystr, hvaluestr⟩⟩
  -- behind the key stands the separator, so the conversion goes on
  have hdrop : segment.drop (segmentKey segment).length =
      '='.toUInt8 :: segment.drop ((segmentKey segment).length + 1) := by
    have hcut := congrArg (List.drop (segmentKey segment).length) (segment_eq h.sep)
    rwa [List.drop_left] at hcut
  have hkey' : segment.takeWhile (· ≠ '='.toUInt8) ≠ [] := h.key
  have hvalue' : (scanWord (skipSpace (segment.drop ((segmentKey segment).length + 1)))).1 ≠ [] :=
    h.value
  rw [segmentKey] at hkey hdrop hvalue'
  rw [segmentValue, segmentKey] at hvalue
  rw [scanKeyValue]
  simp only [hkey', hkey, hdrop, hvalue', hvalue, if_false, bind, Except.bind, pure, Except.pure]

/-- **A segment that does not convert gives no pair.** -/
theorem scanKeyValue_of_not_converts {segment : List UInt8} (h : ¬SegmentConverts segment) :
    (∃ f, scanKeyValue segment (Block.malloc segment.length) (Block.malloc segment.length) =
      .error f) ∨
    ∃ node, scanKeyValue segment (Block.malloc segment.length) (Block.malloc segment.length) =
      .ok node ∧ ∀ p, node.pair ≠ .ok p := by
  -- the value is the last to be stored, so on every early exit it is unset
  have hunset : ∀ key : Block, ∀ p,
      (DIALData.mk key (Block.malloc segment.length)).pair ≠ .ok p := by
    intro key p hp
    obtain ⟨f, hf⟩ := Block.cstr_malloc segment.length
    have hvalue := (DIALData.pair_eq_ok.mp hp).2
    rw [hf] at hvalue
    exact absurd hvalue (by simp)
  rw [scanKeyValue]
  dsimp only
  split
  · exact Or.inr ⟨_, rfl, hunset _⟩
  · rename_i hkey
    rcases hstore : (Block.malloc segment.length).storeAll 0
      (segment.takeWhile (· ≠ '='.toUInt8) ++ [0]) with f | key
    · exact Or.inl ⟨f, rfl⟩
    · refine Or.inr ?_
      simp only [bind, Except.bind, pure, Except.pure]
      split
      · exact ⟨_, rfl, hunset _⟩
      · rename_i c rest hdrop
        -- the separator is there, since the key stops before the end
        have hsep : '='.toUInt8 ∈ segment := by
          by_contra hno
          have hall : segment.takeWhile (· ≠ '='.toUInt8) = segment :=
            List.takeWhile_eq_self_iff.mpr fun x hx => by
              simpa using fun hxc : x = '='.toUInt8 => hno (hxc ▸ hx)
          rw [hall, List.drop_length] at hdrop
          exact absurd hdrop (by simp)
        have hrest : rest = segment.drop ((segmentKey segment).length + 1) := by
          rw [← List.drop_drop, segmentKey, hdrop, List.drop_one, List.tail_cons]
        split
        · exact ⟨_, rfl, hunset _⟩
        · rename_i hvalue
          rw [hrest] at hvalue
          exact absurd ⟨hkey, hsep, hvalue⟩ h

/-! ### The loop -/

/-- The nodes of the loop are those of the pieces, last piece first. -/
theorem parseSegments_eq_ok {segments : List (List UInt8)} {result nodes : List DIALData} :
    parseSegments segments result = .ok nodes ↔
      ∃ made, nodes = made.reverse ++ result ∧
        List.Forall₂ (fun segment node => scanKeyValue segment (Block.malloc segment.length)
          (Block.malloc segment.length) = .ok node) segments made := by
  induction segments generalizing result with
  | nil =>
    rw [parseSegments]
    constructor
    · intro h
      exact ⟨[], (Except.ok.inj h).symm, .nil⟩
    · rintro ⟨made, rfl, hmade⟩
      rw [List.forall₂_nil_left_iff.mp hmade, List.reverse_nil, List.nil_append]
  | cons segment segments ih =>
    rw [parseSegments]
    rcases hscan : scanKeyValue segment (Block.malloc segment.length)
      (Block.malloc segment.length) with f | node
    · constructor
      · intro h
        exact absurd h (by simp [bind, Except.bind])
      · rintro ⟨made, -, hmade⟩
        obtain ⟨node, rest, hnode, -, -⟩ := List.forall₂_cons_left_iff.mp hmade
        rw [hscan] at hnode
        exact absurd hnode (by simp)
    · refine Iff.trans ih ⟨?_, ?_⟩
      · rintro ⟨made, rfl, hmade⟩
        exact ⟨node :: made, by simp, .cons hscan hmade⟩
      · rintro ⟨made, rfl, hmade⟩
        obtain ⟨node', rest, hnode, hrest, rfl⟩ := List.forall₂_cons_left_iff.mp hmade
        obtain rfl := Except.ok.inj (hscan.symm.trans hnode)
        exact ⟨rest, by simp, hrest⟩

theorem parseSegments_of_converts {segments : List (List UInt8)}
    (h : ∀ segment ∈ segments, SegmentConverts segment)
    (hnul : ∀ segment ∈ segments, (0 : UInt8) ∉ segment) (result : List DIALData) :
    ∃ nodes, parseSegments segments result = .ok (nodes ++ result) ∧
      nodes.map DIALData.pair = (segments.reverse.map segmentPair).map .ok := by
  have hmade : ∀ segment ∈ segments, ∃ node, scanKeyValue segment (Block.malloc segment.length)
      (Block.malloc segment.length) = .ok node ∧ node.pair = .ok (segmentPair segment) :=
    fun segment hmem => scanKeyValue_of_converts (h segment hmem) (hnul segment hmem)
  have : Nonempty DIALData := ⟨⟨.malloc 0, .malloc 0⟩⟩
  choose! made hscan hpair using hmade
  refine ⟨(segments.map made).reverse, parseSegments_eq_ok.mpr ⟨segments.map made, rfl, ?_⟩, ?_⟩
  · rw [List.forall₂_map_right_iff, List.forall₂_same]
    exact hscan
  · rw [List.map_reverse, List.map_map, List.map_reverse, List.map_reverse, List.map_map]
    exact congrArg List.reverse (List.map_congr_left hpair)

theorem converts_of_parseSegments {segments : List (List UInt8)} {result nodes : List DIALData}
    (h : parseSegments segments result = .ok nodes)
    (hpairs : ∀ node ∈ nodes, ∃ p, node.pair = .ok p)
    {segment : List UInt8} (hmem : segment ∈ segments) : SegmentConverts segment := by
  obtain ⟨made, rfl, hmade⟩ := parseSegments_eq_ok.mp h
  obtain ⟨i, hi, rfl⟩ := List.mem_iff_getElem.mp hmem
  have himade : i < made.length := hmade.length_eq ▸ hi
  have hscan := hmade.get hi himade
  -- the node made for the piece is in the list, so it holds a pair
  have hnode : made[i] ∈ made.reverse ++ result :=
    List.mem_append_left _ (List.mem_reverse.mpr (List.getElem_mem himade))
  obtain ⟨p, hp⟩ := hpairs made[i] hnode
  by_contra hconv
  rcases scanKeyValue_of_not_converts hconv with ⟨f, hf⟩ | ⟨node, hnode, hno⟩
  · exact absurd (hscan.symm.trans hf) (by simp)
  · obtain rfl : made[i] = node := Except.ok.inj (hscan.symm.trans hnode)
    exact hno p hp

/-! ### The query -/

/-- The pieces of a query that are converted: none of a query of at most two
bytes, and otherwise what `strtok` finds behind a leading question mark. -/
def querySegments (query : CStr) : List (List UInt8) :=
  if query.strlen ≤ 2 then []
  else strtok '&'.toUInt8
    (if query.bytes.head? = some '?'.toUInt8 then query.drop 1 else query).bytes

/-- Every piece of the query converts. -/
def QueryConverts (query : CStr) : Prop := ∀ segment ∈ querySegments query, SegmentConverts segment

instance (query : CStr) : Decidable (QueryConverts query) :=
  inferInstanceAs (Decidable (∀ segment ∈ querySegments query, SegmentConverts segment))

/-- The pairs of a query, last piece first. -/
def queryPairs (query : CStr) : List (CStr × CStr) := (querySegments query).reverse.map segmentPair

theorem parseParams_eq (query : CStr) :
    parseParams (some query) = parseSegments (querySegments query) [] := by
  rw [parseParams, querySegments]
  dsimp only
  split
  · rfl
  · rfl

theorem zero_notMem_of_mem_querySegments {query : CStr} {segment : List UInt8}
    (h : segment ∈ querySegments query) : (0 : UInt8) ∉ segment := by
  rw [querySegments] at h
  split at h
  · exact absurd h List.not_mem_nil
  · exact fun hzero => CStr.nul_free _ (mem_of_mem_strtok h hzero)

/-- A query without a separator is one piece. -/
theorem querySegments_of_notMem {query : CStr} (hlen : 2 < query.strlen)
    (hmark : query.bytes.head? ≠ some '?'.toUInt8) (hsep : '&'.toUInt8 ∉ query.bytes) :
    querySegments query = [query.bytes] := by
  have hne : query.bytes ≠ [] := List.ne_nil_of_length_pos (by rw [← CStr.strlen]; omega)
  rw [querySegments, if_neg (by omega), if_neg hmark, strtok, List.splitOn_eq_singleton hsep]
  simp [hne]

/-- The strings of a pair are not empty. -/
theorem QueryConverts.ne_nil {query : CStr} (h : QueryConverts query) {p : CStr × CStr}
    (hp : p ∈ queryPairs query) : p.1 ≠ .nil ∧ p.2 ≠ .nil := by
  obtain ⟨segment, hmem, rfl⟩ := List.mem_map.mp hp
  rw [List.mem_reverse] at hmem
  have hnul := zero_notMem_of_mem_querySegments hmem
  have hconv := h segment hmem
  refine ⟨fun hnil => hconv.key ?_, fun hnil => hconv.value ?_⟩
  · rw [← CStr.bytes_ofBuffer fun hc => hnul ((segmentKey_sublist segment).subset hc)]
    exact congrArg CStr.bytes hnil
  · rw [← CStr.bytes_ofBuffer fun hc => hnul (List.mem_of_mem_drop
      ((segmentValue_sublist segment).subset hc))]
    exact congrArg CStr.bytes hnil

/-- **A query all of whose pieces convert parses to its pairs.** -/
theorem parseParams_of_converts {query : CStr} (h : QueryConverts query) :
    ∃ nodes, parseParams (some query) = .ok nodes ∧
      nodes.map DIALData.pair = (queryPairs query).map .ok := by
  obtain ⟨nodes, hnodes, hpairs⟩ :=
    parseSegments_of_converts h (fun _ => zero_notMem_of_mem_querySegments) []
  rw [List.append_nil] at hnodes
  exact ⟨nodes, by rw [parseParams_eq, hnodes], hpairs⟩

/-- **Only such a query parses to pairs.** -/
theorem converts_of_parseParams {query : CStr} {nodes : List DIALData}
    (h : parseParams (some query) = .ok nodes) (hpairs : ∀ node ∈ nodes, ∃ p, node.pair = .ok p) :
    QueryConverts query := by
  rw [parseParams_eq] at h
  exact fun segment hmem => converts_of_parseSegments h hpairs hmem

end DialServer
