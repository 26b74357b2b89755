import DialServer.Query

/-!
# Parsing a query, and writing one

Two questions about `parse_params`. *Is every node it makes well defined* – were both
fields assigned, and are they strings that fit in the objects made for them? That is so
just if every piece of the query names a pair (`DialServer.NamesPair`), which says the
same as `DialServer.SegmentConverts` without the conversions
(`DialServer.parseParams_wellDefined`).

*Does it undo writing a query?* A list of pairs can be written in many ways, with
separators repeated anywhere and a question mark in front or not
(`DialServer.Written`). Each of them parses to the pairs, in the opposite order
(`DialServer.parseParams_written`).
-/

namespace DialServer

open CLib

/-! ### Pieces that name a pair -/

/-- A piece names a pair: something stands in front of the first `=`, and something
that is not white space behind it. -/
def NamesPair (segment : List UInt8) : Prop :=
  ∃ k v, segment = k ++ '='.toUInt8 :: v ∧ k ≠ [] ∧ '='.toUInt8 ∉ k ∧
    ∃ c ∈ v, isspace c = false

/-- There is a word to read just if there is something that is not white space. -/
theorem scanWord_skipSpace_ne_nil {s : List UInt8} :
    (scanWord (skipSpace s)).1 ≠ [] ↔ ∃ c ∈ s, isspace c = false := by
  induction s with
  | nil => simp [scanWord, skipSpace]
  | cons c s ih =>
    cases hc : isspace c with
    | true =>
      rw [skipSpace_cons hc, ih]
      simp [hc]
    | false =>
      have hskip : skipSpace (c :: s) = c :: s := List.dropWhile_cons_of_neg (by simp [hc])
      rw [hskip, scanWord, List.span_eq_takeWhile_dropWhile,
        List.takeWhile_cons_of_pos (by simp [hc])]
      simp [hc]

/-- **Both conversions are made** of the pieces that name a pair, and of no others. -/
theorem segmentConverts_iff {segment : List UInt8} :
    SegmentConverts segment ↔ NamesPair segment := by
  constructor
  · intro h
    refine ⟨_, _, segment_eq h.sep, h.key, fun hmem => ?_, scanWord_skipSpace_ne_nil.mp h.value⟩
    simpa using List.mem_takeWhile_imp hmem
  · rintro ⟨k, v, rfl, hne, hk, hv⟩
    have hkey : segmentKey (k ++ '='.toUInt8 :: v) = k := segmentKey_append hk
    have hrest : (k ++ '='.toUInt8 :: v).drop (k.length + 1) = v := by
      rw [← List.drop_drop, List.drop_left, List.drop_one, List.tail_cons]
    refine ⟨by rwa [hkey], by simp, ?_⟩
    rw [segmentValue, hkey, hrest]
    exact scanWord_skipSpace_ne_nil.mpr hv

/-! ### Well-defined nodes -/

/-- **A well-defined node** of a piece: its objects are as long as the piece, and hold
with their terminators what the two conversions read. -/
structure WellDefined (node : DIALData) (segment : List UInt8) : Prop where
  keySize : node.key.size = segment.length
  valueSize : node.value.size = segment.length
  key : node.key.cstr = .ok (.ofBuffer (segmentKey segment))
  value : node.value.cstr = .ok (.ofBuffer (segmentValue segment))

/-- The objects of a node are as long as its piece, whatever was assigned. -/
theorem size_of_scanKeyValue {segment : List UInt8} {n : ℕ} {node : DIALData}
    (h : scanKeyValue segment (Block.malloc n) (Block.malloc n) = .ok node) :
    node.key.size = n ∧ node.value.size = n := by
  have hmalloc : (Block.malloc n).size = n := List.length_replicate
  rw [scanKeyValue] at h
  dsimp only at h
  split at h
  · rw [← Except.ok.inj h]
    exact ⟨hmalloc, hmalloc⟩
  · rcases hkey : (Block.malloc n).storeAll 0 (segment.takeWhile (· ≠ '='.toUInt8) ++ [0]) with
      f | key
    · rw [hkey] at h
      exact absurd h (by simp [bind, Except.bind])
    · have hsize := (Block.size_storeAll hkey).trans hmalloc
      simp only [hkey, bind, Except.bind, pure, Except.pure] at h
      split at h
      · rw [← Except.ok.inj h]
        exact ⟨hsize, hmalloc⟩
      · split at h
        · rw [← Except.ok.inj h]
          exact ⟨hsize, hmalloc⟩
        · split at h
          · exact absurd h (by simp)
          · rename_i value hvalue
            rw [← Except.ok.inj h]
            exact ⟨hsize, (Block.size_storeAll hvalue).trans hmalloc⟩

/-- **One piece gives a well-defined node** just if it names a pair. -/
theorem scanKeyValue_wellDefined {segment : List UInt8} (hnul : (0 : UInt8) ∉ segment) :
    (∃ node, scanKeyValue segment (Block.malloc segment.length) (Block.malloc segment.length) =
      .ok node ∧ WellDefined node segment) ↔ NamesPair segment := by
  rw [← segmentConverts_iff]
  constructor
  · rintro ⟨node, hnode, hwell⟩
    by_contra hconv
    rcases scanKeyValue_of_not_converts hconv with ⟨f, hf⟩ | ⟨made, hmade, hno⟩
    · rw [hf] at hnode
      exact absurd hnode (by simp)
    · obtain rfl := Except.ok.inj (hnode.symm.trans hmade)
      exact hno (segmentPair segment) (DIALData.pair_eq_ok.mpr ⟨hwell.key, hwell.value⟩)
  · intro hconv
    obtain ⟨node, hnode, hpair⟩ := scanKeyValue_of_converts hconv hnul
    obtain ⟨hkey, hvalue⟩ := DIALData.pair_eq_ok.mp hpair
    obtain ⟨hkeySize, hvalueSize⟩ := size_of_scanKeyValue hnode
    exact ⟨node, hnode, ⟨hkeySize, hvalueSize, hkey, hvalue⟩⟩

/-- **Every node is well defined** just if every piece of the query names a pair. -/
theorem parseParams_wellDefined (query : CStr) :
    (∃ nodes, parseParams (some query) = .ok nodes ∧
      List.Forall₂ WellDefined nodes (querySegments query).reverse) ↔
    ∀ segment ∈ querySegments query, NamesPair segment := by
  rw [parseParams_eq]
  constructor
  · rintro ⟨nodes, hnodes, hwell⟩ segment hmem
    obtain ⟨made, rfl, hmade⟩ := parseSegments_eq_ok.mp hnodes
    rw [List.append_nil, List.forall₂_reverse_iff] at hwell
    obtain ⟨i, hi, rfl⟩ := List.mem_iff_getElem.mp hmem
    have himade : i < made.length := hmade.length_eq ▸ hi
    exact (scanKeyValue_wellDefined (zero_notMem_of_mem_querySegments hmem)).mp
      ⟨_, hmade.get hi himade, hwell.get himade hi⟩
  · intro h
    have hmade : ∀ segment ∈ querySegments query, ∃ node, scanKeyValue segment
        (Block.malloc segment.length) (Block.malloc segment.length) = .ok node ∧
        WellDefined node segment := fun segment hmem =>
      (scanKeyValue_wellDefined (zero_notMem_of_mem_querySegments hmem)).mpr (h segment hmem)
    have : Nonempty DIALData := ⟨⟨.malloc 0, .malloc 0⟩⟩
    choose! made hscan hwell using hmade
    refine ⟨_, parseSegments_eq_ok.mpr ⟨(querySegments query).map made, rfl, ?_⟩, ?_⟩
    · rw [List.forall₂_map_right_iff, List.forall₂_same]
      exact hscan
    · rw [List.append_nil, List.forall₂_reverse_iff, List.forall₂_map_left_iff, List.forall₂_same]
      exact hwell

/-- A query without an `=` parses to a node whose fields are not both assigned. -/
theorem parseParams_no_separator : Printable (CStr.lit "abc").bytes ∧
    ¬∃ nodes, parseParams (some (.lit "abc")) = .ok nodes ∧
      List.Forall₂ WellDefined nodes (querySegments (.lit "abc")).reverse := by
  have hsegments : querySegments (.lit "abc") = [(CStr.lit "abc").bytes] :=
    querySegments_of_notMem (by decide) (by decide) (by decide)
  refine ⟨by decide +kernel, ?_⟩
  rintro ⟨nodes, hnodes, hwell⟩
  rw [parseParams_eq, hsegments] at hnodes
  rw [hsegments, List.reverse_singleton] at hwell
  -- the copy of the key fills its object, and its terminator is written behind the end
  have hscan : parseSegments [(CStr.lit "abc").bytes] [] = .error .outOfBounds := by decide
  rw [hscan] at hnodes
  exact absurd hnodes (by simp)

/-! ### Writing a query -/

/-- A pair that can be written in a query: its strings are not empty, the separators
are in neither of them, except that a `=` may be in the value, and the value is a word. -/
structure Writable (p : CStr × CStr) : Prop where
  key_ne : p.1 ≠ .nil
  key_eq : '='.toUInt8 ∉ p.1.bytes
  key_sep : '&'.toUInt8 ∉ p.1.bytes
  value : IsWord p.2.bytes
  value_sep : '&'.toUInt8 ∉ p.2.bytes

/-- The piece written for a pair. -/
def pairSegment (p : CStr × CStr) : List UInt8 := p.1.bytes ++ '='.toUInt8 :: p.2.bytes

/-- **The pairs are written as the query**: their pieces joined by separators, behind a
question mark, or without one if there is none in front of them. -/
inductive Written (pairs : List (CStr × CStr)) : List UInt8 → Prop
  | mark {s} : Joined '&'.toUInt8 (pairs.map pairSegment) s → Written pairs ('?'.toUInt8 :: s)
  | plain {s} : Joined '&'.toUInt8 (pairs.map pairSegment) s → s.head? ≠ some '?'.toUInt8 →
    Written pairs s

/-- The piece of a pair is not empty and has no separator. -/
theorem Writable.pairSegment {p : CStr × CStr} (h : Writable p) :
    pairSegment p ≠ [] ∧ '&'.toUInt8 ∉ pairSegment p := by
  rw [DialServer.pairSegment]
  refine ⟨by simp, ?_⟩
  rw [List.mem_append, List.mem_cons, not_or, not_or]
  exact ⟨h.key_sep, by decide, h.value_sep⟩

/-- The piece of a pair has three bytes or more. -/
theorem Writable.two_lt {p : CStr × CStr} (h : Writable p) :
    2 < (DialServer.pairSegment p).length := by
  have hkey : 0 < p.1.bytes.length :=
    List.length_pos_iff.mpr fun hnil => h.key_ne (CStr.ext hnil)
  have hvalue : 0 < p.2.bytes.length := List.length_pos_iff.mpr h.value.1
  rw [DialServer.pairSegment, List.length_append, List.length_cons]
  omega

/-- **The piece of a pair converts to the pair.** -/
theorem Writable.segmentPair {p : CStr × CStr} (h : Writable p) :
    SegmentConverts (DialServer.pairSegment p) ∧
      DialServer.segmentPair (DialServer.pairSegment p) = p := by
  refine ⟨segmentConverts_append h.key_eq (fun hnil => h.key_ne (CStr.ext hnil)) h.value, ?_⟩
  rw [DialServer.segmentPair, DialServer.pairSegment, segmentKey_append h.key_eq,
    segmentValue_append h.key_eq h.value]
  exact Prod.ext (CStr.ext (CStr.bytes_ofBuffer p.1.nul_free))
    (CStr.ext (CStr.bytes_ofBuffer p.2.nul_free))

/-- The pieces of a query are those written. -/
theorem querySegments_written {pairs : List (CStr × CStr)} {query : CStr} (hne : pairs ≠ [])
    (hpairs : ∀ p ∈ pairs, Writable p) (h : Written pairs query.bytes) :
    querySegments query = pairs.map pairSegment := by
  have hpieces : ∀ w ∈ pairs.map pairSegment, w ≠ [] ∧ '&'.toUInt8 ∉ w := by
    intro w hw
    obtain ⟨p, hp, rfl⟩ := List.mem_map.mp hw
    exact (hpairs p hp).pairSegment
  -- one pair is enough to make the query longer than two bytes
  obtain ⟨p, hp⟩ := List.exists_mem_of_ne_nil _ hne
  have hlong : ∀ s, Joined '&'.toUInt8 (pairs.map pairSegment) s → 2 < s.length := fun s hs =>
    (hpairs p hp).two_lt.trans_le (hs.length_le (List.mem_map_of_mem hp))
  generalize hq : query.bytes = q at h
  cases h with
  | @mark s hs =>
    have hlen : ¬query.strlen ≤ 2 := by
      have hlong' := hlong s hs
      rw [CStr.strlen, hq, List.length_cons]
      omega
    have hmark : query.bytes.head? = some '?'.toUInt8 := by rw [hq, List.head?_cons]
    rw [querySegments, if_neg hlen, if_pos hmark, CStr.bytes_drop, hq, List.drop_one,
      List.tail_cons]
    exact hs.strtok_eq hpieces
  | plain hs hhead =>
    have hlen : ¬query.strlen ≤ 2 := by
      rw [CStr.strlen, hq]
      exact Nat.not_le.mpr (hlong q hs)
    rw [querySegments, if_neg hlen, hq, if_neg hhead]
    rw [hq]
    exact hs.strtok_eq hpieces

/-- **Parsing undoes writing**: whatever the separators, the pairs come back in the
opposite order. -/
theorem parseParams_written {pairs : List (CStr × CStr)} {query : CStr} (hne : pairs ≠ [])
    (hpairs : ∀ p ∈ pairs, Writable p) (h : Written pairs query.bytes) :
    ∃ nodes, parseParams (some query) = .ok nodes ∧
      nodes.map DIALData.pair = pairs.reverse.map .ok := by
  have hsegments := querySegments_written hne hpairs h
  have hconv : QueryConverts query := by
    intro segment hmem
    rw [hsegments] at hmem
    obtain ⟨p, hp, rfl⟩ := List.mem_map.mp hmem
    exact (hpairs p hp).segmentPair.1
  obtain ⟨nodes, hnodes, hmap⟩ := parseParams_of_converts hconv
  refine ⟨nodes, hnodes, ?_⟩
  have hback : (pairs.map pairSegment).map segmentPair = pairs := by
    rw [List.map_map]
    exact (List.map_congr_left fun p hp => (hpairs p hp).segmentPair.2).trans (List.map_id _)
  rw [hmap, queryPairs, hsegments, List.map_reverse, hback]

/-- Two pairs, with separators to spare and a `=` in the value of the first. -/
theorem parseParams_written_pair : ∃ nodes,
    parseParams (some (.lit "?&a=b=c&&d=e&")) = .ok nodes ∧
      nodes.map DIALData.pair =
        [(CStr.lit "a", CStr.lit "b=c"), (.lit "d", .lit "e")].reverse.map .ok := by
  have hfirst : Writable (.lit "a", .lit "b=c") :=
    ⟨by decide, by decide, by decide, by decide +kernel, by decide⟩
  have hsecond : Writable (.lit "d", .lit "e") :=
    ⟨by decide, by decide, by decide, by decide +kernel, by decide⟩
  refine parseParams_written (by simp) ?_
    (.mark (.sep (.piece (pairSegment (.lit "a", .lit "b=c")) (.sep
      (.piece (pairSegment (.lit "d", .lit "e")) .nil)))))
  rintro p hp
  rcases List.mem_pair.mp hp with rfl | rfl
  · exact hfirst
  · exact hsecond

end DialServer
