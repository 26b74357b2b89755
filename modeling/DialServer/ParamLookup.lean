import DialServer.UrlLib

/-!
# Looking up one parameter

`parse_param` is asked for the value of a parameter of a query, which is a list of
segments `name=value` (`DialServer.queryString`); what it should answer is the value of
the first segment of that name (`DialServer.firstNamed`). It does not look at the segments,
though. It searches the whole query for the text of the name, goes on to the next `=`, and
copies what stands before the next `&`.

So the first segment that mentions the name decides (`DialServer.answering`): its own
value is the answer if the mention is in its name, and the value of the segment behind
it if the mention is in its value. `DialServer.findsParam_iff` says when this is the value
that was asked for.
-/

namespace DialServer

open CLib

/-! ### Queries -/

/-- A segment of a query: a name and a value that the separators do not occur in. -/
structure Segment where
  name : CStr
  value : CStr
  name_clean : '&'.toUInt8 ∉ name.bytes ∧ '='.toUInt8 ∉ name.bytes
  value_clean : '&'.toUInt8 ∉ value.bytes ∧ '='.toUInt8 ∉ value.bytes
  deriving DecidableEq

/-- The text of a segment. -/
def Segment.text (s : Segment) : CStr := s.name ++ .lit "=" ++ s.value

/-- The query a list of segments is written as. -/
def queryString : List Segment → CStr
  | [] => .nil
  | [s] => s.text
  | s :: t :: segments => s.text ++ .lit "&" ++ queryString (t :: segments)

/-- The value of the first segment with the given name. -/
def firstNamed (paramName : CStr) (segments : List Segment) : Option CStr :=
  (segments.find? (·.name = paramName)).map (·.value)

/-- What `parse_param` copies a value to: its size goes through an `int`. -/
def copyResult (value : CStr) : Except Fault CStr :=
  match sizeToInt value.strlen with
  | none => .error .outOfBounds -- a negative size is a huge one for `strncpy`
  | some resultSize =>
    if resultSize + 1 < 2 ^ 31 then .ok (value.take resultSize) else .error .overflow

/-- `parse_param`, with the copy it returns. -/
def parseParamCopy (queryString : Option CStr) (paramName : CStr) :
    Except Fault (Option CStr) :=
  match parseParam queryString paramName with
  | none => .ok none
  | some value => (copyResult value).map some

/-! ### What the scans find -/

theorem skipPast_append_cons {c : UInt8} {s : List UInt8} (h : c ∉ s) (t : List UInt8) :
    skipPast c (s ++ c :: t) = t := by
  induction s with
  | nil => simp [skipPast]
  | cons b s ih =>
    obtain ⟨hb, hs⟩ := not_or.mp (fun hc => h (List.mem_cons.mpr hc))
    rw [List.cons_append, skipPast, if_neg (Ne.symm hb), ih hs]

theorem skipPast_of_notMem {c : UInt8} {s : List UInt8} (h : c ∉ s) : skipPast c s = [] := by
  induction s with
  | nil => rfl
  | cons b s ih =>
    obtain ⟨hb, hs⟩ := not_or.mp (fun hc => h (List.mem_cons.mpr hc))
    rw [skipPast, if_neg (Ne.symm hb), ih hs]

/-- What is copied when the name is found at `start`. -/
def valueAt (start : List UInt8) : CStr :=
  .ofBuffer ((skipPast '='.toUInt8 start).takeWhile (· ≠ '&'.toUInt8))

theorem parseParam_eq (query paramName : CStr) :
    parseParam (some query) paramName = (strstr paramName.bytes query.bytes).map valueAt := by
  cases h : strstr paramName.bytes query.bytes with
  | none => simp only [parseParam, h, Option.map_none]
  | some start => simp only [parseParam, h, Option.map_some, valueAt]

/-- What stands behind a value: nothing, or the rest of the query. -/
def rest : List Segment → List UInt8
  | [] => []
  | t :: segments => '&'.toUInt8 :: (queryString (t :: segments)).bytes

theorem bytes_queryString_cons (s : Segment) (segments : List Segment) :
    (queryString (s :: segments)).bytes =
      s.name.bytes ++ '='.toUInt8 :: (s.value.bytes ++ rest segments) := by
  have hsep : (CStr.lit "=").bytes = ['='.toUInt8] ∧ (CStr.lit "&").bytes = ['&'.toUInt8] := by
    decide
  cases segments with
  | nil => simp [queryString, Segment.text, rest, hsep.1]
  | cons t segments => simp [queryString, Segment.text, rest, hsep]

/-- Behind the `=` of a segment stands its value. -/
theorem valueAt_segment {front : List UInt8} (hfront : '='.toUInt8 ∉ front) (s : Segment)
    (segments : List Segment) :
    valueAt (front ++ '='.toUInt8 :: (s.value.bytes ++ rest segments)) = s.value := by
  have hvalue : (s.value.bytes ++ rest segments).takeWhile (· ≠ '&'.toUInt8) = s.value.bytes := by
    rw [List.takeWhile_append_of_pos fun c hc => by
      simpa using fun h : c = '&'.toUInt8 => s.value_clean.1 (h ▸ hc)]
    cases segments with
    | nil => simp [rest]
    | cons t segments => simp [rest]
  rw [valueAt, skipPast_append_cons hfront, hvalue]
  exact CStr.ext (CStr.bytes_ofBuffer s.value.nul_free)

/-! ### The segment that answers -/

/-- The value the search comes to, from the first segment that mentions the name. -/
def answering (paramName : CStr) : List Segment → Option CStr
  | [] => none
  | s :: segments =>
    if paramName.bytes <:+: s.name.bytes then some s.value
    -- the next `=` is that of the segment behind
    else if paramName.bytes <:+: s.value.bytes then
      some ((segments.head?.map (·.value)).getD .nil)
    else answering paramName segments

section Answering

variable {paramName : CStr} {s : Segment} {segments : List Segment}

/-- Where a name that is mentioned in a value leads. -/
theorem valueAt_rest {found : List UInt8} (hfound : '='.toUInt8 ∉ found) :
    valueAt (found ++ rest segments) = (segments.head?.map (·.value)).getD .nil := by
  cases segments with
  | nil =>
    rw [rest, List.append_nil, valueAt, skipPast_of_notMem hfound]
    rfl
  | cons t segments =>
    have hfront : '='.toUInt8 ∉ found ++ '&'.toUInt8 :: t.name.bytes := by
      simp only [List.mem_append, List.mem_cons, not_or]
      exact ⟨hfound, by decide, t.name_clean.2⟩
    have heq : found ++ rest (t :: segments) =
        (found ++ '&'.toUInt8 :: t.name.bytes) ++
          '='.toUInt8 :: (t.value.bytes ++ rest segments) := by
      rw [rest, bytes_queryString_cons, List.append_assoc, List.cons_append]
    rw [heq, valueAt_segment hfront]
    rfl

/-- What is found of a name stands where the text it was found in does. -/
theorem notMem_of_strstr {needle l found : List UInt8} (h : strstr needle l = some found)
    {c : UInt8} (hc : c ∉ l) : c ∉ found :=
  fun hmem => hc ((suffix_of_strstr h).mem hmem)

/-- A search that has passed the name of a segment. -/
theorem valueAt_strstr_value (hne : paramName.bytes ≠ []) (hamp : '&'.toUInt8 ∉ paramName.bytes) :
    (strstr paramName.bytes (s.value.bytes ++ rest segments)).map valueAt =
      if paramName.bytes <:+: s.value.bytes then
        some ((segments.head?.map (·.value)).getD .nil)
      else (strstr paramName.bytes (queryString segments).bytes).map valueAt := by
  have hsearch : strstr paramName.bytes (s.value.bytes ++ rest segments) =
      ((strstr paramName.bytes s.value.bytes).map (· ++ rest segments)).or
        (strstr paramName.bytes (queryString segments).bytes) := by
    cases segments with
    | nil =>
      have hnil : strstr paramName.bytes (queryString []).bytes = none := if_neg hne
      rw [rest, List.append_nil, hnil, Option.or_none]
      simp only [List.append_nil, Option.map_id']
    | cons t segments => exact strstr_append_cons hne hamp
  rw [hsearch]
  cases hvalue : strstr paramName.bytes s.value.bytes with
  | none => rw [if_neg (strstr_eq_none.mp hvalue), Option.map_none, Option.none_or]
  | some found =>
    have hmention : paramName.bytes <:+: s.value.bytes := by
      rw [← strstr_isSome, hvalue, Option.isSome_some]
    rw [if_pos hmention]
    exact congrArg some (valueAt_rest (notMem_of_strstr hvalue s.value_clean.2))

/-- **What `parse_param` returns is the value the search comes to.** -/
theorem parseParam_queryString (hne : paramName ≠ .nil)
    (hclean : '&'.toUInt8 ∉ paramName.bytes ∧ '='.toUInt8 ∉ paramName.bytes)
    (segments : List Segment) :
    parseParam (some (queryString segments)) paramName = answering paramName segments := by
  have hbytes : paramName.bytes ≠ [] := fun h => hne (CStr.ext h)
  rw [parseParam_eq]
  induction segments with
  | nil =>
    have hnone : strstr paramName.bytes (queryString []).bytes = none := if_neg hbytes
    rw [hnone]
    rfl
  | cons s segments ih =>
    rw [bytes_queryString_cons, strstr_append_cons hbytes hclean.2, answering]
    cases hname : strstr paramName.bytes s.name.bytes with
    | some found =>
      -- in the name of the segment
      have hmention : paramName.bytes <:+: s.name.bytes := by
        rw [← strstr_isSome, hname, Option.isSome_some]
      rw [if_pos hmention]
      exact congrArg some (valueAt_segment (notMem_of_strstr hname s.name_clean.2) s segments)
    | none =>
      rw [if_neg (strstr_eq_none.mp hname), Option.map_none, Option.none_or,
        valueAt_strstr_value hbytes hclean.1, ih]

/-! ### When it is the one that was asked for -/

/-- A segment mentions a name: in its name, or in its value. -/
def Mentions (paramName : CStr) (s : Segment) : Prop :=
  paramName.bytes <:+: s.name.bytes ∨ paramName.bytes <:+: s.value.bytes

instance (paramName : CStr) : DecidablePred (Mentions paramName) := fun s =>
  inferInstanceAs
    (Decidable (paramName.bytes <:+: s.name.bytes ∨ paramName.bytes <:+: s.value.bytes))

/-- The copy of a value is the given text: as many bytes of it as an `int` counts, and
that number is less than the largest `int`. The text is the value itself unless the
value has gigabytes (`DialServer.copiesTo_of_lt`). -/
def CopiesTo (value text : CStr) : Prop :=
  value.strlen % 2 ^ 32 + 1 < 2 ^ 31 ∧ text = value.take (value.strlen % 2 ^ 32)

theorem copyResult_eq_ok {value text : CStr} :
    copyResult value = .ok text ↔ CopiesTo value text := by
  rw [copyResult, CopiesTo, sizeToInt]
  by_cases hmod : value.strlen % 2 ^ 32 < 2 ^ 31
  · rw [if_pos hmod]
    dsimp only
    split_ifs with hsum
    · rw [Except.ok.injEq, and_iff_right hsum]
      exact eq_comm
    · exact iff_of_false (by simp) fun h => hsum h.1
  · rw [if_neg hmod]
    exact iff_of_false (by simp) fun h => hmod (by omega)

theorem copiesTo_of_lt {value text : CStr} (h : value.strlen + 1 < 2 ^ 31) :
    CopiesTo value text ↔ text = value := by
  have hmod : value.strlen % 2 ^ 32 = value.strlen := Nat.mod_eq_of_lt (by omega)
  have htake : value.take value.strlen = value := CStr.ext List.take_length
  rw [CopiesTo, hmod, htake, and_iff_right h]

/-- The segments from the first one on that mentions the name. -/
def mentioning (paramName : CStr) (segments : List Segment) : List Segment :=
  segments.dropWhile fun s => ¬Mentions paramName s

/-- **The search is not mistaken**: if a segment mentions the name at all, then one has
that name; and the value of the first that has it is what is copied from the first
segment that mentions it – its own value if it does so in its name, and that of the
segment behind it otherwise. -/
def Unmistaken (paramName : CStr) (segments : List Segment) : Prop :=
  ∀ s after, mentioning paramName segments = s :: after →
    ∃ text, firstNamed paramName segments = some text ∧
      (paramName.bytes <:+: s.name.bytes → CopiesTo s.value text) ∧
      (¬paramName.bytes <:+: s.name.bytes →
        ∃ t segments', after = t :: segments' ∧ CopiesTo t.value text)

/-- Segments that do not mention the name are passed over. -/
theorem answering_mentioning (segments : List Segment) :
    answering paramName (mentioning paramName segments) = answering paramName segments := by
  induction segments with
  | nil => rfl
  | cons s segments ih =>
    rw [mentioning]
    by_cases hs : Mentions paramName s
    · rw [List.dropWhile_cons_of_neg (by simpa)]
    · rw [List.dropWhile_cons_of_pos (by simpa), ← mentioning, ih, answering,
        if_neg (fun h => hs (Or.inl h)), if_neg (fun h => hs (Or.inr h))]

/-- None of them has the name. -/
theorem firstNamed_mentioning (segments : List Segment) :
    firstNamed paramName (mentioning paramName segments) = firstNamed paramName segments := by
  induction segments with
  | nil => rfl
  | cons s segments ih =>
    rw [mentioning]
    by_cases hs : Mentions paramName s
    · rw [List.dropWhile_cons_of_neg (by simpa)]
    · have hname : s.name ≠ paramName := fun h => hs (Or.inl (h ▸ List.infix_refl _))
      rw [List.dropWhile_cons_of_pos (by simpa), ← mentioning, ih, firstNamed, firstNamed,
        List.find?_cons_of_neg (by simpa)]

theorem mentions_of_mentioning {after : List Segment}
    (h : mentioning paramName segments = s :: after) : Mentions paramName s := by
  have hhead := List.head?_dropWhile_not (fun t => decide ¬Mentions paramName t) segments
  rw [← mentioning, h] at hhead
  simpa using hhead

theorem map_copyResult_eq_ok {value : CStr} {answer : Option CStr} :
    (copyResult value).map some = .ok answer ↔
      ∃ text, answer = some text ∧ CopiesTo value text := by
  cases hcopy : copyResult value with
  | error f =>
    refine iff_of_false (by simp [Except.map]) ?_
    rintro ⟨text, -, hcopies⟩
    rw [← copyResult_eq_ok, hcopy] at hcopies
    exact absurd hcopies (by simp)
  | ok copied =>
    have hcopied : ∀ text, CopiesTo value text ↔ copied = text := fun text => by
      rw [← copyResult_eq_ok, hcopy, Except.ok.injEq]
    simp only [hcopied, Except.map, Except.ok.injEq, exists_eq_right']
    exact eq_comm

/-- The condition, with the segment it is about. -/
theorem unmistaken_of_mentioning {after : List Segment}
    (h : mentioning paramName segments = s :: after) :
    Unmistaken paramName segments ↔
      ∃ text, firstNamed paramName segments = some text ∧
        (paramName.bytes <:+: s.name.bytes → CopiesTo s.value text) ∧
        (¬paramName.bytes <:+: s.name.bytes →
          ∃ t segments', after = t :: segments' ∧ CopiesTo t.value text) := by
  refine ⟨fun hun => hun s after h, fun hun s' after' heq => ?_⟩
  obtain ⟨rfl, rfl⟩ := List.cons.inj (h.symm.trans heq)
  exact hun

end Answering

/-- **`parse_param` answers with the value of the first segment of that name** just if
its search is not mistaken. -/
theorem findsParam_iff (paramName : CStr) (segments : List Segment) (hne : paramName ≠ .nil)
    (hclean : '&'.toUInt8 ∉ paramName.bytes ∧ '='.toUInt8 ∉ paramName.bytes) :
    parseParamCopy (some (queryString segments)) paramName =
        .ok (firstNamed paramName segments) ↔
      Unmistaken paramName segments := by
  rw [parseParamCopy, parseParam_queryString hne hclean, ← answering_mentioning]
  cases hfirst : mentioning paramName segments with
  | nil =>
    -- nothing is found, and there is nothing to find
    rw [← firstNamed_mentioning, hfirst]
    exact iff_of_true rfl fun s after heq => absurd (hfirst.symm.trans heq) (by simp)
  | cons s after =>
    rw [unmistaken_of_mentioning hfirst, answering]
    split_ifs with hname hvalue
    · -- in the name: the value of the segment itself
      dsimp only
      rw [map_copyResult_eq_ok]
      refine exists_congr fun text => and_congr_right fun _ => ⟨fun hcopies => ?_, fun h => ?_⟩
      · exact ⟨fun _ => hcopies, fun hnot => absurd hname hnot⟩
      · exact h.1 hname
    · -- in the value: that of the segment behind
      cases after with
      | nil =>
        have hnone : firstNamed paramName segments = none := by
          rw [← firstNamed_mentioning, hfirst, firstNamed, List.find?_cons_of_neg]
          · rfl
          · simpa using fun h : s.name = paramName => hname (h ▸ List.infix_refl _)
        rw [hnone]
        exact iff_of_false (by simp [copyResult, sizeToInt, CStr.strlen, CStr.nil, Except.map])
          (by simp)
      | cons t segments' =>
        dsimp only [List.head?_cons, Option.map_some, Option.getD_some]
        rw [map_copyResult_eq_ok]
        refine exists_congr fun text => and_congr_right fun _ => ⟨fun hcopies => ?_, fun h => ?_⟩
        · exact ⟨fun hc => absurd hc hname, fun _ => ⟨t, segments', rfl, hcopies⟩⟩
        · obtain ⟨t', segments'', heq, hcopies⟩ := h.2 hname
          rwa [(List.cons.inj heq).1]
    · exact absurd (mentions_of_mentioning hfirst) (not_or.mpr ⟨hname, hvalue⟩)

/-- What is skipped is the front. -/
theorem length_skipPast_le (c : UInt8) (s : List UInt8) : (skipPast c s).length ≤ s.length := by
  induction s with
  | nil => exact le_rfl
  | cons b s ih =>
    rw [skipPast, List.length_cons]
    split <;> omega

/-- A value is not longer than its query. -/
theorem strlen_parseParam_le {query paramName value : CStr}
    (h : parseParam (some query) paramName = some value) : value.strlen ≤ query.strlen := by
  rw [parseParam_eq, Option.map_eq_some_iff] at h
  obtain ⟨start, hstart, rfl⟩ := h
  calc (valueAt start).strlen
      ≤ ((skipPast '='.toUInt8 start).takeWhile (· ≠ '&'.toUInt8)).length :=
        (List.takeWhile_sublist _).length_le
    _ ≤ (skipPast '='.toUInt8 start).length := (List.takeWhile_sublist _).length_le
    _ ≤ start.length := length_skipPast_le _ _
    _ ≤ query.strlen := (suffix_of_strstr hstart).length_le

/-- **The size is no matter** for the queries the server reads, which an `int` can
measure. -/
theorem parseParamCopy_eq {query paramName : CStr} (h : query.strlen + 1 < 2 ^ 31) :
    parseParamCopy (some query) paramName = .ok (parseParam (some query) paramName) := by
  rw [parseParamCopy]
  cases hvalue : parseParam (some query) paramName with
  | none => rfl
  | some value =>
    have hlen : value.strlen + 1 < 2 ^ 31 := by
      have hle := strlen_parseParam_le hvalue
      omega
    have hcopy : copyResult value = .ok value :=
      copyResult_eq_ok.mpr ((copiesTo_of_lt hlen).mpr rfl)
    simp only [hcopy, Except.map]

/-- The version of a client, behind another parameter. -/
def versionQuery (first : CStr)
    (h : '&'.toUInt8 ∉ first.bytes ∧ '='.toUInt8 ∉ first.bytes) : List Segment :=
  [⟨first, .lit "1.0", h, by decide⟩, ⟨.lit "clientDialVer", .lit "2.1", by decide, by decide⟩]

/-- The version of a client behind a parameter that does not mention it. -/
theorem findsParam_clientDialVer :
    parseParamCopy (some (queryString (versionQuery (.lit "friendlyName") (by decide))))
        (.lit "clientDialVer") =
        .ok (firstNamed (.lit "clientDialVer") (versionQuery (.lit "friendlyName") (by decide))) ↔
      Unmistaken (.lit "clientDialVer") (versionQuery (.lit "friendlyName") (by decide)) :=
  findsParam_iff _ _ (by decide) (by decide)

/-- In `oldclientDialVer=1.0&clientDialVer=2.1` the client has version 1.0. -/
theorem not_findsParam_suffix :
    parseParamCopy (some (queryString (versionQuery (.lit "oldclientDialVer") (by decide))))
        (.lit "clientDialVer") ≠
      .ok (firstNamed (.lit "clientDialVer")
        (versionQuery (.lit "oldclientDialVer") (by decide))) := by
  decide

end DialServer
