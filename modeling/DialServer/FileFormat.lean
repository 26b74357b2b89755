import DialServer.Query

/-!
# The file format of dial data

`store_dial_data` writes a line `key value` for each pair, and
`retrieve_dial_data` reads words, at most 255 bytes each, two at a time. The two
agree on the strings that are one word the reader can hold
(`DialServer.Storable`): what is stored of them comes back
(`DialServer.retrieveLoop_lines`), in the opposite order, and nothing else ever
comes back (`DialServer.storable_of_retrieveLoop`).

A field that was read back fills its object to the brim, so there is no terminator
in it; what it holds are the bytes of the object, `CLib.Block.text`.
-/

namespace DialServer

open CLib

/-! ### Writing -/

/-- The line of a pair. -/
def pairLine (p : CStr × CStr) : CStr := p.1 ++ .lit " " ++ p.2 ++ .lit "\n"

theorem dataLine_of_pair {node : DIALData} {p : CStr × CStr} (h : node.pair = .ok p) :
    dataLine node = .ok (pairLine p) := by
  obtain ⟨hkey, hvalue⟩ := DIALData.pair_eq_ok.mp h
  simp only [dataLine, hkey, hvalue, bind, Except.bind, pure, Except.pure, pairLine]

theorem pair_of_dataLine {node : DIALData} {line : CStr} (h : dataLine node = .ok line) :
    ∃ p, node.pair = .ok p := by
  rw [dataLine] at h
  rcases hkey : node.key.cstr with f | key
  · rw [hkey] at h
    exact absurd h (by simp [bind, Except.bind])
  · rcases hvalue : node.value.cstr with f | value
    · rw [hkey, hvalue] at h
      exact absurd h (by simp [bind, Except.bind])
    · exact ⟨(key, value), DIALData.pair_eq_ok.mpr ⟨hkey, hvalue⟩⟩

/-- The contents of the file for a list of pairs. -/
def fileLines (pairs : List (CStr × CStr)) : List UInt8 := pairs.flatMap fun p => (pairLine p).bytes

/-- **A list of pairs is written line by line.** -/
theorem dataLines_of_pairs {nodes : List DIALData} {pairs : List (CStr × CStr)}
    (h : nodes.map DIALData.pair = pairs.map .ok) : dataLines nodes = .ok (fileLines pairs) := by
  induction nodes generalizing pairs with
  | nil =>
    rw [List.map_nil, eq_comm, List.map_eq_nil_iff] at h
    rw [h]
    rfl
  | cons node nodes ih =>
    rw [List.map_cons, eq_comm, List.map_eq_cons_iff] at h
    obtain ⟨p, pairs, rfl, hp, hrest⟩ := h
    simp only [dataLines, dataLine_of_pair hp.symm, ih hrest.symm, bind, Except.bind, pure,
      Except.pure, fileLines, List.flatMap_cons]

/-- **Only a list of pairs is written.** -/
theorem pairs_of_dataLines {nodes : List DIALData} {content : List UInt8}
    (h : dataLines nodes = .ok content) : ∀ node ∈ nodes, ∃ p, node.pair = .ok p := by
  induction nodes generalizing content with
  | nil => exact fun node hnode => absurd hnode List.not_mem_nil
  | cons node nodes ih =>
    rw [dataLines] at h
    rcases hline : dataLine node with f | line
    · rw [hline] at h
      exact absurd h (by simp [bind, Except.bind])
    · rcases hlines : dataLines nodes with f | lines
      · rw [hline, hlines] at h
        exact absurd h (by simp [bind, Except.bind])
      · intro other hother
        rcases List.mem_cons.mp hother with rfl | hrest
        · exact pair_of_dataLine hline
        · exact ih hlines other hrest

/-! ### Reading -/

/-- What a node holds, terminated or not. -/
def DIALData.texts (node : DIALData) : CStr × CStr := (node.key.text, node.value.text)

/-- The texts of a pair of strings are the strings. -/
theorem DIALData.texts_of_pair {node : DIALData} {p : CStr × CStr} (h : node.pair = .ok p) :
    node.texts = p := by
  obtain ⟨hkey, hvalue⟩ := DIALData.pair_eq_ok.mp h
  rw [texts, Block.text_of_cstr hkey, Block.text_of_cstr hvalue]

theorem texts_of_pairs {nodes : List DIALData} {pairs : List (CStr × CStr)}
    (h : nodes.map DIALData.pair = pairs.map .ok) : nodes.map DIALData.texts = pairs := by
  induction nodes generalizing pairs with
  | nil =>
    rw [List.map_nil, eq_comm, List.map_eq_nil_iff] at h
    rw [h, List.map_nil]
  | cons node nodes ih =>
    rw [List.map_cons, eq_comm, List.map_eq_cons_iff] at h
    obtain ⟨p, pairs, rfl, hp, hrest⟩ := h
    rw [List.map_cons, ih hrest.symm, DIALData.texts_of_pair hp.symm]

/-- The node made for a pair that was read. -/
def loadedNode (p : CStr × CStr) : DIALData := ⟨⟨p.1.bytes.map some⟩, ⟨p.2.bytes.map some⟩⟩

@[simp] theorem texts_loadedNode (p : CStr × CStr) : (loadedNode p).texts = p := by
  rw [DIALData.texts, loadedNode, Block.text_map, Block.text_map]

theorem newNode_eq (key value : CStr) : newNode key value = .ok (loadedNode (key, value)) := by
  simp only [newNode, Block.strncpy_calloc_strlen, bind, Except.bind, pure, Except.pure, loadedNode]

/-- **A string that one conversion reads whole**, unless it is empty: it has no
white space and at most 255 bytes. -/
def Storable (s : CStr) : Prop := (∀ c ∈ s.bytes, isspace c = false) ∧ s.strlen ≤ 255

instance (s : CStr) : Decidable (Storable s) :=
  inferInstanceAs (Decidable ((∀ c ∈ s.bytes, isspace c = false) ∧ s.strlen ≤ 255))

theorem Storable.isWord {s : CStr} (h : Storable s) (hne : s ≠ .nil) : IsWord s.bytes :=
  ⟨fun hnil => hne (CStr.ext hnil), h.1⟩

section Loop

variable {rest : List UInt8} {value : Option CStr} {result : List DIALData}

/-- The loop ends when there is no word left. -/
theorem retrieveLoop_nil (h : skipSpace rest = []) :
    retrieveLoop rest value result = .ok result := by
  rw [retrieveLoop]
  split
  · rfl
  · rename_i c s hs
    rw [h] at hs
    exact absurd hs (by simp)

/-- A word without a partner takes the value of the last iteration. -/
theorem retrieveLoop_one {c : UInt8} {s : List UInt8} (h : skipSpace rest = c :: s)
    (h' : skipSpace (scanWordN 255 (c :: s)).2 = []) :
    retrieveLoop rest value result = match value with
      | none => .error .indeterminate
      | some old => .ok (loadedNode (.ofBuffer (scanWordN 255 (c :: s)).1, old) :: result) := by
  rw [retrieveLoop]
  split
  · rename_i hs
    rw [h] at hs
    exact absurd hs (by simp)
  · rename_i c₁ s₁ hs
    obtain ⟨rfl, rfl⟩ := List.cons.inj (hs.symm.trans h)
    split
    · rcases value with _ | old
      · rfl
      · simp only [newNode_eq, bind, Except.bind]
    · rename_i c₂ s₂ hs'
      rw [h'] at hs'
      exact absurd hs' (by simp)

/-- Two words make a pair. -/
theorem retrieveLoop_two {c c' : UInt8} {s s' : List UInt8} (h : skipSpace rest = c :: s)
    (h' : skipSpace (scanWordN 255 (c :: s)).2 = c' :: s') :
    retrieveLoop rest value result =
      retrieveLoop (skipSpace (scanWordN 255 (c' :: s')).2)
        (some (.ofBuffer (scanWordN 255 (c' :: s')).1))
        (loadedNode (.ofBuffer (scanWordN 255 (c :: s)).1,
          .ofBuffer (scanWordN 255 (c' :: s')).1) :: result) := by
  rw [retrieveLoop]
  split
  · rename_i hs
    rw [h] at hs
    exact absurd hs (by simp)
  · rename_i c₁ s₁ hs
    obtain ⟨rfl, rfl⟩ := List.cons.inj (hs.symm.trans h)
    split
    · rename_i hs'
      rw [h'] at hs'
      exact absurd hs' (by simp)
    · rename_i c₂ s₂ hs'
      obtain ⟨rfl, rfl⟩ := List.cons.inj (hs'.symm.trans h')
      simp only [newNode_eq]

/-- White space in front of the next word does not matter. -/
theorem retrieveLoop_skipSpace (rest : List UInt8) (value : Option CStr) (result : List DIALData) :
    retrieveLoop (skipSpace rest) value result = retrieveLoop rest value result := by
  have hidem := skipSpace_skipSpace rest
  rcases hs : skipSpace rest with _ | ⟨c, s⟩
  · rw [retrieveLoop_nil hs, retrieveLoop_nil rfl]
  · rw [hs] at hidem
    rcases hs' : skipSpace (scanWordN 255 (c :: s)).2 with _ | ⟨c', s'⟩
    · rw [retrieveLoop_one hs hs', retrieveLoop_one hidem hs']
    · rw [retrieveLoop_two hs hs', retrieveLoop_two hidem hs']

/-- **The line of a pair is read back**, whatever comes behind it. -/
theorem retrieveLoop_pairLine {p : CStr × CStr} (hkey : Storable p.1) (hvalue : Storable p.2)
    (hkeyne : p.1 ≠ .nil) (hvaluene : p.2 ≠ .nil) (rest : List UInt8) (value : Option CStr)
    (result : List DIALData) :
    retrieveLoop ((pairLine p).bytes ++ rest) value result =
      retrieveLoop rest (some p.2) (loadedNode p :: result) := by
  have hspace : isspace 32 = true := by decide
  have hline : isspace 10 = true := by decide
  have htext : (pairLine p).bytes ++ rest = p.1.bytes ++ 32 :: (p.2.bytes ++ 10 :: rest) := by
    have hblank : (CStr.lit " ").bytes = [32] := by decide
    have hnewline : (CStr.lit "\n").bytes = [10] := by decide
    simp only [pairLine, CStr.bytes_append, hblank, hnewline, List.append_assoc,
      List.cons_append, List.nil_append]
  obtain ⟨c, s, hcs⟩ := List.exists_cons_of_ne_nil
    (show p.1.bytes ++ 32 :: (p.2.bytes ++ 10 :: rest) ≠ [] by simp)
  obtain ⟨c', s', hcs'⟩ := List.exists_cons_of_ne_nil
    (show p.2.bytes ++ 10 :: rest ≠ [] by simp)
  -- the first conversion takes the key, and stops at the blank
  have h : skipSpace (p.1.bytes ++ 32 :: (p.2.bytes ++ 10 :: rest)) = c :: s :=
    ((hkey.isWord hkeyne).skipSpace_append _).trans hcs
  have hscan : scanWordN 255 (c :: s) = (p.1.bytes, 32 :: (p.2.bytes ++ 10 :: rest)) := by
    rw [← hcs]
    exact scanWordN_append (hkey.isWord hkeyne) hkey.2 hspace _
  -- the second one takes the value, and stops at the end of the line
  have h' : skipSpace (scanWordN 255 (c :: s)).2 = c' :: s' := by
    rw [hscan, skipSpace_cons hspace]
    exact ((hvalue.isWord hvaluene).skipSpace_append _).trans hcs'
  have hscan' : scanWordN 255 (c' :: s') = (p.2.bytes, 10 :: rest) := by
    rw [← hcs']
    exact scanWordN_append (hvalue.isWord hvaluene) hvalue.2 hline _
  have hbuffer : ∀ t : CStr, CStr.ofBuffer t.bytes = t := fun t =>
    CStr.ext (CStr.bytes_ofBuffer t.nul_free)
  rw [htext, retrieveLoop_two h h', hscan, hscan', hbuffer, hbuffer, skipSpace_cons hline,
    retrieveLoop_skipSpace]

/-- **What was stored comes back**, last pair first. -/
theorem retrieveLoop_lines {pairs : List (CStr × CStr)}
    (h : ∀ p ∈ pairs, Storable p.1 ∧ Storable p.2) (hne : ∀ p ∈ pairs, p.1 ≠ .nil ∧ p.2 ≠ .nil)
    (value : Option CStr) (result : List DIALData) :
    retrieveLoop (fileLines pairs) value result =
      .ok ((pairs.map loadedNode).reverse ++ result) := by
  induction pairs generalizing value result with
  | nil => exact retrieveLoop_nil rfl
  | cons p pairs ih =>
    obtain ⟨hkey, hvalue⟩ := h p List.mem_cons_self
    obtain ⟨hkeyne, hvaluene⟩ := hne p List.mem_cons_self
    have hrest := ih (fun q hq => h q (List.mem_cons_of_mem _ hq))
      (fun q hq => hne q (List.mem_cons_of_mem _ hq))
    rw [fileLines, List.flatMap_cons, retrieveLoop_pairLine hkey hvalue hkeyne hvaluene]
    exact (hrest _ _).trans (by simp)

/-- What a conversion leaves in its array. -/
theorem storable_scanWordN (s : List UInt8) : Storable (.ofBuffer (scanWordN 255 s).1) := by
  obtain ⟨hspace, hlen⟩ := scanWordN_spec 255 s
  have hsub : ((scanWordN 255 s).1.takeWhile (· ≠ 0)).Sublist (scanWordN 255 s).1 :=
    List.takeWhile_sublist _
  exact ⟨fun c hc => hspace c (hsub.subset hc), hsub.length_le.trans hlen⟩

/-- **Only storable strings come back**, from whatever file. -/
theorem storable_of_retrieveLoop {nodes : List DIALData}
    (hvalue : ∀ v, value = some v → Storable v)
    (hresult : ∀ node ∈ result, Storable node.texts.1 ∧ Storable node.texts.2)
    (h : retrieveLoop rest value result = .ok nodes) :
    ∀ node ∈ nodes, Storable node.texts.1 ∧ Storable node.texts.2 := by
  induction hlen : rest.length using Nat.strongRecOn generalizing rest value result with
  | _ n ih =>
    -- no word left, one word, or two: every round takes two words off
    rcases hs : skipSpace rest with _ | ⟨c, s⟩
    · rw [retrieveLoop_nil hs] at h
      rwa [← Except.ok.inj h]
    · rcases hs' : skipSpace (scanWordN 255 (c :: s)).2 with _ | ⟨c', s'⟩
      · rw [retrieveLoop_one hs hs'] at h
        -- the value is that of the round before
        rcases value with _ | old
        · exact absurd h (by simp)
        · rw [← Except.ok.inj h]
          intro node hnode
          rcases List.mem_cons.mp hnode with rfl | hold
          · rw [texts_loadedNode]
            exact ⟨storable_scanWordN _, hvalue old rfl⟩
          · exact hresult node hold
      · rw [retrieveLoop_two hs hs'] at h
        refine ih _ ?_ ?_ ?_ h rfl
        · -- both words were taken off
          have h1 := length_scanWordN_lt 255 (by decide) hs (by simp)
          have h2 := length_scanWordN_lt 255 (by decide) hs' (by simp)
          have h3 : (skipSpace (scanWordN 255 (c' :: s')).2).length ≤ _ :=
            List.length_dropWhile_le _ _
          have h4 : (skipSpace rest).length ≤ _ := List.length_dropWhile_le _ _
          have h5 : (skipSpace (scanWordN 255 (c :: s)).2).length ≤ _ :=
            List.length_dropWhile_le _ _
          rw [hs] at h4
          rw [hs'] at h5
          omega
        · rintro v ⟨⟩
          exact storable_scanWordN _
        · intro node hnode
          rcases List.mem_cons.mp hnode with rfl | hold
          · rw [texts_loadedNode]
            exact ⟨storable_scanWordN _, storable_scanWordN _⟩
          · exact hresult node hold

end Loop

end DialServer
