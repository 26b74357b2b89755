import DialServer.Encoding
import DialServer.FileFormat
import DialServer.Lib.Words
import Mathlib.Algebra.Group.Even
import Mathlib.Algebra.Group.Nat.Even

/-!
# What comes back from a file

`retrieve_dial_data` reads the tokens of a file two at a time
(`DialServer.retrieveLoop_eq`). Which lists does it bring back, which files does it
read as pairs of tokens, and which of the strings it makes can be used?

* Of a list that was stored, all comes back, in the opposite order, just if every string
  is one token (`DialServer.reload_iff`).
* Of any file, exactly the pairs of tokens come back just if there is an even number of
  them (`DialServer.retrieveDialData_tokens`): a token without a partner is paired with the
  value of the iteration before, or with an array nobody has written.
* None of the strings has a terminator, so a list that came back can be neither rendered
  nor written again unless it is empty (`DialServer.retrieveDialData_strings`).
-/

namespace DialServer

open CLib

/-! ### What was stored -/

/-- **Exactly what was stored comes back**, last pair first, just if every string of it is
one that a conversion reads whole – provided that none of them is empty or white space
only. -/
theorem reload_iff {canOpen : CStr → Bool} {dir : CharArray 256} {files : Files} {appName : CStr}
    {nodes : List DIALData} {pairs : List (CStr × CStr)}
    (h : nodes.map DIALData.pair = pairs.map .ok)
    (hword : ∀ p ∈ pairs, (∃ c ∈ p.1.bytes, isspace c = false) ∧
      ∃ c ∈ p.2.bytes, isspace c = false)
    (hopen : canOpen (getAppPath dir appName) = true) :
    (∃ files' loaded, storeDialData canOpen dir files appName nodes = .ok files' ∧
      retrieveDialData dir files' appName = .ok loaded ∧
      loaded.map DIALData.texts = pairs.reverse) ↔
    ∀ p ∈ pairs, Storable p.1 ∧ Storable p.2 := by
  have hstore : storeDialData canOpen dir files appName nodes = .ok fun path =>
      if path = getAppPath dir appName then some (fileLines pairs) else files path := by
    rw [storeDialData]
    simp only [hopen, if_true, dataLines_of_pairs h]
  have hretrieve : retrieveDialData dir (fun path => if path = getAppPath dir appName then
      some (fileLines pairs) else files path) appName =
        retrieveLoop (fileLines pairs) none [] := by
    rw [retrieveDialData, if_pos rfl]
  constructor
  · rintro ⟨files', loaded, hfiles, hloaded, htexts⟩ p hp
    obtain rfl := Except.ok.inj (hstore.symm.trans hfiles)
    rw [hretrieve] at hloaded
    -- only storable strings can come back
    have hall := storable_of_retrieveLoop (by simp) (by simp) hloaded
    have hmem : p ∈ loaded.map DIALData.texts := by
      rw [htexts]
      exact List.mem_reverse.mpr hp
    obtain ⟨node, hnode, rfl⟩ := List.mem_map.mp hmem
    exact hall node hnode
  · intro hall
    have hne : ∀ p ∈ pairs, p.1 ≠ .nil ∧ p.2 ≠ .nil := by
      intro p hp
      obtain ⟨⟨c, hc, -⟩, ⟨d, hd, -⟩⟩ := hword p hp
      exact ⟨fun hnil => List.not_mem_nil (hnil ▸ hc), fun hnil => List.not_mem_nil (hnil ▸ hd)⟩
    refine ⟨_, (pairs.map loadedNode).reverse, hstore, ?_, ?_⟩
    · rw [hretrieve, retrieveLoop_lines hall hne, List.append_nil]
    · rw [List.map_reverse, List.map_map]
      refine congrArg List.reverse ((List.map_congr_left fun p _ => ?_).trans (List.map_id _))
      exact texts_loadedNode p

/-- Two pairs of words are stored and come back, the last one first. -/
theorem reload_pairs : ∃ files' loaded,
    storeDialData (fun _ => true) defaultDialDataDir (fun _ => none) (.lit "x")
      [⟨⟨[some 107, some 0]⟩, ⟨[some 118, some 0]⟩⟩, ⟨⟨[some 108, some 0]⟩, ⟨[some 119, some 0]⟩⟩] =
        .ok files' ∧
      retrieveDialData defaultDialDataDir files' (.lit "x") = .ok loaded ∧
      loaded.map DIALData.texts =
        [(CStr.lit "k", CStr.lit "v"), (CStr.lit "l", CStr.lit "w")].reverse :=
  (reload_iff rfl (by decide) rfl).mpr (by decide +kernel)

/-! ### Tokens -/

/-- The tokens of a file: its words, cut after every 255 bytes. -/
def tokens (content : List UInt8) : List (List UInt8) := pieces 255 content

/-- The complete pairs of tokens of a file. -/
def tokenPairs (content : List UInt8) : List (CStr × CStr) :=
  (consecutive (tokens content)).map fun p => (.ofBuffer p.1, .ofBuffer p.2)

/-- The loop over the tokens that are left: the string the array `value` holds is still
there when a token has no partner. -/
def loadTokens : List (List UInt8) → Option CStr → List DIALData → Except Fault (List DIALData)
  | [], _, result => .ok result
  | [_], none, _ => .error .indeterminate
  | [key], some old, result => .ok (loadedNode (.ofBuffer key, old) :: result)
  | key :: value :: rest, _, result =>
    loadTokens rest (some (.ofBuffer value)) (loadedNode (.ofBuffer key, .ofBuffer value) :: result)

/-- **The loop reads the tokens.** -/
theorem retrieveLoop_eq (rest : List UInt8) (value : Option CStr) (result : List DIALData) :
    retrieveLoop rest value result = loadTokens (tokens rest) value result := by
  induction hlen : rest.length using Nat.strongRecOn generalizing rest value result with
  | _ n ih =>
    rcases hs : skipSpace rest with _ | ⟨c, s⟩
    · rw [retrieveLoop_nil hs, tokens, pieces_eq_nil hs]
      rfl
    · have hkey : pieces 255 rest = _ := pieces_of_skipSpace (by decide) hs (by simp)
      rcases hs' : skipSpace (scanWordN 255 (c :: s)).2 with _ | ⟨c', s'⟩
      · rw [retrieveLoop_one hs hs', tokens, hkey, pieces_eq_nil hs']
        rcases value with _ | old
        · rfl
        · rfl
      · have hvalue : pieces 255 (scanWordN 255 (c :: s)).2 = _ :=
          pieces_of_skipSpace (by decide) hs' (by simp)
        rw [retrieveLoop_two hs hs', retrieveLoop_skipSpace, tokens, hkey, hvalue]
        refine ih _ ?_ _ _ _ rfl
        -- both words were taken off
        have h1 := length_scanWordN_lt 255 (by decide) hs (by simp)
        have h2 := length_scanWordN_lt 255 (by decide) hs' (by simp)
        have h3 : (skipSpace rest).length ≤ _ := List.length_dropWhile_le _ _
        have h4 : (skipSpace (scanWordN 255 (c :: s)).2).length ≤ _ :=
          List.length_dropWhile_le _ _
        rw [hs] at h3
        rw [hs'] at h4
        omega

/-- Reading the file of an application. -/
theorem retrieveDialData_eq {dir : CharArray 256} {files : Files} {appName : CStr}
    {content : List UInt8} (h : files (getAppPath dir appName) = some content) :
    retrieveDialData dir files appName = loadTokens (tokens content) none [] := by
  rw [retrieveDialData, h]
  exact retrieveLoop_eq content none []

/-! ### What the tokens are loaded as -/

/-- A list of tokens without one left over is loaded as its pairs. -/
theorem loadTokens_of_even {ts : List (List UInt8)} (h : Even ts.length) (value : Option CStr)
    (result : List DIALData) :
    loadTokens ts value result = .ok ((((consecutive ts).map fun p =>
      (CStr.ofBuffer p.1, CStr.ofBuffer p.2)).map loadedNode).reverse ++ result) := by
  induction ts, value, result using loadTokens.induct with
  | case1 value result => rfl
  | case2 key result => exact absurd h (by simp)
  | case3 key old result => exact absurd h (by simp)
  | case4 key value rest old result ih =>
    have hrest : Even rest.length := by
      rw [List.length_cons, List.length_cons, Nat.even_add_one, Nat.even_add_one, not_not] at h
      exact h
    rw [loadTokens, ih hrest, consecutive]
    simp

/-- Whatever the tokens, each node that is made holds two strings without their
terminators, and there is one for every two tokens and one for the last. -/
theorem loadTokens_eq_ok {ts : List (List UInt8)} {value : Option CStr}
    {result nodes : List DIALData} (h : loadTokens ts value result = .ok nodes) :
    ∃ pairs : List (CStr × CStr), nodes = pairs.map loadedNode ++ result ∧
      pairs.length = (ts.length + 1) / 2 := by
  induction ts, value, result using loadTokens.induct with
  | case1 value result =>
    obtain rfl := Except.ok.inj h
    exact ⟨[], rfl, rfl⟩
  | case2 key result => exact absurd h (by simp [loadTokens])
  | case3 key old result =>
    obtain rfl := Except.ok.inj h
    exact ⟨[(.ofBuffer key, old)], rfl, by simp⟩
  | case4 key value rest old result ih =>
    rw [loadTokens] at h
    obtain ⟨pairs, rfl, hlen⟩ := ih h
    refine ⟨pairs ++ [(.ofBuffer key, .ofBuffer value)], by simp, ?_⟩
    rw [List.length_append, hlen, List.length_singleton, List.length_cons, List.length_cons]
    omega

/-- **Exactly the pairs of tokens come back** just if no token is left over. -/
theorem retrieveDialData_tokens {dir : CharArray 256} {files : Files} {appName : CStr}
    {content : List UInt8} (h : files (getAppPath dir appName) = some content) :
    (∃ nodes, retrieveDialData dir files appName = .ok nodes ∧
      nodes.map DIALData.texts = (tokenPairs content).reverse) ↔
    Even (tokens content).length := by
  rw [retrieveDialData_eq h]
  constructor
  · rintro ⟨nodes, hnodes, htexts⟩
    obtain ⟨pairs, rfl, hlen⟩ := loadTokens_eq_ok hnodes
    -- there is a node too many if a token is left over
    have hcount := congrArg List.length htexts
    simp only [List.append_nil, List.length_map, List.length_reverse, tokenPairs,
      length_consecutive, hlen] at hcount
    rw [Nat.even_iff]
    omega
  · intro heven
    refine ⟨_, loadTokens_of_even heven none [], ?_⟩
    rw [List.append_nil, List.map_reverse, List.map_map, tokenPairs]
    refine congrArg List.reverse ((List.map_congr_left fun p _ => ?_).trans (List.map_id _))
    exact texts_loadedNode p

/-- Four tokens come back as two pairs. -/
theorem retrieveDialData_tokens_four : (∃ nodes,
    retrieveDialData defaultDialDataDir (fun _ => some (CStr.lit "a b\nc d\n").bytes) (.lit "x") =
      .ok nodes ∧
      nodes.map DIALData.texts = (tokenPairs (CStr.lit "a b\nc d\n").bytes).reverse) ↔
    Even (tokens (CStr.lit "a b\nc d\n").bytes).length :=
  retrieveDialData_tokens rfl

/-- Of three tokens, the last comes back with the value of the pair before. -/
theorem retrieveDialData_tokens_three : (0 : UInt8) ∉ (CStr.lit "a b\nc\n").bytes ∧
    ¬∃ nodes,
      retrieveDialData defaultDialDataDir (fun _ => some (CStr.lit "a b\nc\n").bytes) (.lit "x") =
        .ok nodes ∧
      nodes.map DIALData.texts = (tokenPairs (CStr.lit "a b\nc\n").bytes).reverse := by
  refine ⟨by decide, ?_⟩
  rintro ⟨nodes, hnodes, htexts⟩
  have htokens : tokens (CStr.lit "a b\nc\n").bytes =
      [(CStr.lit "a").bytes, (CStr.lit "b").bytes, (CStr.lit "c").bytes] := by decide
  rw [retrieveDialData_eq rfl, htokens] at hnodes
  obtain rfl := Except.ok.inj hnodes
  rw [tokenPairs, htokens] at htexts
  exact absurd htexts (by decide)

/-! ### Strings without their terminators -/

/-- A node of which both fields hold a token, with its terminator. -/
def HoldsTokens (content : List UInt8) (node : DIALData) : Prop :=
  ∃ key ∈ tokens content, ∃ value ∈ tokens content,
    node.pair = .ok (.ofBuffer key, .ofBuffer value)

/-- There is no token just if there is nothing but white space. -/
theorem tokens_eq_nil {content : List UInt8} :
    tokens content = [] ↔ ∀ c ∈ content, isspace c = true := by
  rw [← List.dropWhile_eq_nil_iff, ← skipSpace]
  constructor
  · intro h
    by_contra hne
    rw [tokens, pieces_of_skipSpace (by decide) rfl hne] at h
    exact absurd h (by simp)
  · exact pieces_eq_nil

/-- The fields of a node that was loaded are filled to the brim. -/
theorem cstr_key_loadedNode (p : CStr × CStr) :
    (loadedNode p).key.cstr = .error .unterminated :=
  Block.readString_map p.1

theorem pair_loadedNode (p : CStr × CStr) : (loadedNode p).pair = .error .unterminated := by
  rw [DIALData.pair, cstr_key_loadedNode]

/-- Writing a list that begins with such a node reads on behind its key. -/
theorem dataLines_loadedNode (p : CStr × CStr) (nodes : List DIALData) :
    dataLines (loadedNode p :: nodes) = .error .unterminated := by
  simp only [dataLines, dataLine, cstr_key_loadedNode, bind, Except.bind]

/-- So does rendering it. -/
theorem renderDialData_loadedNode (p : CStr × CStr) (nodes : List DIALData) :
    renderDialData (loadedNode p :: nodes) = .error .unterminated := by
  have hempty : ([] : List UInt8).length ≤ dialDataSize := Nat.zero_le _
  obtain ⟨b, hb, hsize⟩ : ∃ b, Block.calloc dialDataSize = b ∧ b.size = dialDataSize :=
    ⟨_, rfl, List.length_replicate⟩
  -- what stands in front of the key has room
  have hroom : min ([] ++ (CStr.lit "    <").bytes).length dialDataSize < b.size := by
    rw [hsize]
    decide
  have hstep := smartstrcat_spec (.lit "    <") hempty (Block.starts_nil b)
  rw [if_pos hroom, List.length_nil] at hstep
  obtain ⟨b', hcat, -, -⟩ := hstep
  rw [renderDialData, hb, renderLoop, renderNode]
  simp only [hcat, cstr_key_loadedNode, bind, Except.bind]

/-- **The strings that come back have their terminators** just if nothing comes back; and
otherwise the list can be neither written nor rendered. -/
theorem retrieveDialData_strings {dir : CharArray 256} {files : Files} {appName : CStr}
    {content : List UInt8} (h : files (getAppPath dir appName) = some content) :
    ((∃ nodes, retrieveDialData dir files appName = .ok nodes ∧
        ∀ node ∈ nodes, HoldsTokens content node) ↔ ∀ c ∈ content, isspace c = true) ∧
      ((∃ c ∈ content, isspace c = false) →
        ∀ nodes, retrieveDialData dir files appName = .ok nodes →
          dataLines nodes = .error .unterminated ∧
            renderDialData nodes = .error .unterminated) := by
  rw [retrieveDialData_eq h, ← tokens_eq_nil]
  -- a token is enough for a node
  have hnode : ∀ nodes, loadTokens (tokens content) none [] = .ok nodes → tokens content ≠ [] →
      ∃ p rest, nodes = loadedNode p :: rest := by
    intro nodes hnodes hne
    obtain ⟨pairs, rfl, hlen⟩ := loadTokens_eq_ok hnodes
    have hpos : 0 < (tokens content).length := List.length_pos_iff.mpr hne
    obtain ⟨p, pairs, rfl⟩ := List.exists_cons_of_length_pos (l := pairs) (by omega)
    exact ⟨p, pairs.map loadedNode, by rw [List.append_nil, List.map_cons]⟩
  refine ⟨⟨?_, fun hnil => ?_⟩, ?_⟩
  · rintro ⟨nodes, hnodes, hall⟩
    by_contra hne
    obtain ⟨p, rest, rfl⟩ := hnode nodes hnodes hne
    obtain ⟨key, -, value, -, hpair⟩ := hall _ List.mem_cons_self
    rw [pair_loadedNode] at hpair
    exact absurd hpair (by simp)
  · rw [hnil]
    exact ⟨[], rfl, fun node hmem => absurd hmem List.not_mem_nil⟩
  · rintro ⟨c, hc, hspace⟩ nodes hnodes
    have hne : tokens content ≠ [] := fun hnil => by
      rw [tokens_eq_nil.mp hnil c hc] at hspace
      exact absurd hspace (by simp)
    obtain ⟨p, rest, rfl⟩ := hnode nodes hnodes hne
    exact ⟨dataLines_loadedNode p rest, renderDialData_loadedNode p rest⟩

/-- Of a file of white space, nothing comes back. -/
theorem retrieveDialData_strings_blank :
    ∃ nodes, retrieveDialData defaultDialDataDir (fun _ => some (CStr.lit " \n").bytes) (.lit "x") =
        .ok nodes ∧
      ∀ node ∈ nodes, HoldsTokens (CStr.lit " \n").bytes node :=
  (retrieveDialData_strings rfl).1.mpr (by decide +kernel)

/-- Of the file of one pair, a node without terminators comes back. -/
theorem retrieveDialData_strings_pair :
    ¬∃ nodes, retrieveDialData defaultDialDataDir (fun _ => some (CStr.lit "a b\n").bytes)
        (.lit "x") = .ok nodes ∧
      ∀ node ∈ nodes, HoldsTokens (CStr.lit "a b\n").bytes node := by
  rintro ⟨nodes, hnodes, hall⟩
  have htokens : tokens (CStr.lit "a b\n").bytes =
      [(CStr.lit "a").bytes, (CStr.lit "b").bytes] := by
    decide
  rw [retrieveDialData_eq rfl, htokens] at hnodes
  obtain rfl := Except.ok.inj hnodes
  obtain ⟨key, -, value, -, hpair⟩ := hall _ List.mem_cons_self
  rw [pair_loadedNode] at hpair
  exact absurd hpair (by simp)

end DialServer
