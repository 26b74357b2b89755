import DialServer.Server

/-!
# Origins and allow lists

An application may be registered with a space-separated list of suffixes, and a
request that names an origin is allowed when the origin ends in one of them. The
matcher of `dial_server.cpp` cuts the entries out one at a time into a scratch
buffer that it makes larger when an entry needs it, and counts in an `int`;
`DialServer.endsWithInList` follows it with both, and
`DialServer.endsWithInList_eq` says what it decides for every list that an `int`
can measure. The list of a registered application has at most 255 bytes, so for
the server that is always (`DialServer.originMatches_iff`).

`DialServer.isAllowedOrigin` is the decision itself, a scan that goes on past an
entry of the name whose list does not match.
-/

namespace DialServer

open CLib

/-! ### The matcher -/

/-- Whether `str` ends with `suffix`. -/
def endsWith (str suffix : CStr) : Bool :=
  if str.strlen < suffix.strlen then false
  else (str.drop (str.strlen - suffix.strlen)).eqN suffix suffix.strlen

theorem endsWith_iff {str suffix : CStr} :
    endsWith str suffix = true ↔ suffix.bytes <:+ str.bytes := by
  rw [endsWith]
  split
  · rename_i h
    refine ⟨fun hc => absurd hc (by simp), fun hs => ?_⟩
    exact absurd hs.length_le (Nat.not_le.mpr h)
  · rename_i h
    have hle : suffix.bytes.length ≤ str.bytes.length := Nat.not_lt.mp h
    rw [CStr.eqN_strlen, ← drop_eq_iff_suffix hle, CStr.bytes_drop, List.prefix_iff_eq_take,
      List.take_of_length_le]
    · exact eq_comm
    · rw [List.length_drop, CStr.strlen, CStr.strlen]
      omega

/-- The scratch buffer, made larger if an entry of that length needs it. The new
size is computed as a sum of `int`s. -/
def growSubstring (substring : Block) (copyLength : ℕ) : Except Fault Block :=
  if substring.size ≤ copyLength then
    if copyLength + 1 < 2 ^ 31 then .ok (Block.malloc (copyLength + 1)) else .error .overflow
  else .ok substring

/-- Cut an entry out into the scratch buffer: the buffer, made larger if the
entry needs it, and the string in it. -/
def copyEntry (substring : Block) (entry : CStr) : Except Fault (Block × CStr) := do
  -- protect against buffer overflow
  let substring ← growSubstring substring entry.strlen
  let substring ← substring.storeString 0 entry
  let entry ← substring.cstr
  return (substring, entry)

/-- The scratch buffer becomes longer than the entry, and stays a size that an
`int` can hold. -/
theorem growSubstring_eq {substring : Block} {copyLength : ℕ} (hsize : substring.size < 2 ^ 31)
    (h : copyLength + 1 < 2 ^ 31) :
    ∃ substring' : Block, growSubstring substring copyLength = .ok substring' ∧
      copyLength < substring'.size ∧ substring'.size < 2 ^ 31 := by
  rw [growSubstring]
  split_ifs
  · exact ⟨_, rfl, by rw [Block.size_malloc]; omega, by rwa [Block.size_malloc]⟩
  · exact ⟨_, rfl, by omega, hsize⟩

/-- **The scratch buffer is always longer than the entry** copied into it. -/
theorem copyEntry_eq {substring : Block} {entry : CStr} (hsize : substring.size < 2 ^ 31)
    (h : entry.strlen + 1 < 2 ^ 31) :
    ∃ substring' : Block, copyEntry substring entry = .ok (substring', entry) ∧
      entry.strlen < substring'.size ∧ substring'.size < 2 ^ 31 := by
  obtain ⟨scratch, hgrow, hroom, hscratch⟩ := growSubstring_eq hsize h
  obtain ⟨substring', hstore, hcstr⟩ := Block.cstr_storeString hroom
  have hkept : substring'.size = scratch.size := Block.size_storeAll hstore
  refine ⟨substring', ?_, by omega, by omega⟩
  simp only [copyEntry, hgrow, hstore, hcstr, bind, Except.bind, pure, Except.pure]

/-- The loop of `ends_with_in_list`, over what is left of the list and the
scratch buffer. The distance to the next space is kept in an `int`. -/
def endsWithInListLoop (str scanPointer : CStr) (substring : Block) : Except Fault Bool :=
  match _h : strchr scanPointer.bytes ' '.toUInt8 with
  | none => .ok (endsWith str scanPointer)
  | some n =>
    match sizeToInt n with
    | none => .error .outOfBounds -- `memcpy` takes a negative length for a huge size
    | some copyLength =>
      match copyEntry substring (scanPointer.take copyLength) with
      | .error f => .error f
      | .ok (substring, entry) =>
        if endsWith str entry then .ok true
        else endsWithInListLoop str (scanPointer.drop (copyLength + 1)) substring
termination_by scanPointer.strlen
decreasing_by
  have hn : n < scanPointer.bytes.length := (eq_of_strchr _h).1
  rw [CStr.strlen_drop, CStr.strlen]
  omega

/-- Whether `str` ends with an entry of a list separated by single spaces. -/
def endsWithInList (str list : CStr) : Except Fault Bool :=
  endsWithInListLoop str list (Block.malloc 257)

/-- An entry of a list: one of the pieces it has when cut at every space. -/
def EndsWithEntry (str list : CStr) : Prop :=
  ∃ entry ∈ list.bytes.splitOn ' '.toUInt8, entry <:+ str.bytes

instance (str list : CStr) : Decidable (EndsWithEntry str list) :=
  inferInstanceAs (Decidable (∃ entry ∈ list.bytes.splitOn ' '.toUInt8, entry <:+ str.bytes))

theorem endsWithInListLoop_eq (str : CStr) {scanPointer : CStr} {substring : Block}
    (hsize : substring.size < 2 ^ 31) (h : scanPointer.strlen < 2 ^ 31) :
    endsWithInListLoop str scanPointer substring =
      .ok (decide (EndsWithEntry str scanPointer)) := by
  induction hlen : scanPointer.strlen using Nat.strong_induction_on
    generalizing scanPointer substring with
  | _ m ih =>
    rw [endsWithInListLoop]
    split
    · -- the last entry, which no space follows
      rename_i hnone
      congr 1
      rw [Bool.eq_iff_iff, endsWith_iff, decide_eq_true_iff, EndsWithEntry,
        List.splitOn_eq_singleton (strchr_eq_none.mp hnone)]
      simp
    · -- an entry, and the list behind its space
      rename_i n hn
      obtain ⟨hlt, -, -⟩ := eq_of_strchr hn
      rw [CStr.strlen] at h hlen
      simp only [sizeToInt_of_lt (show n < 2 ^ 31 by omega)]
      have hfits : (scanPointer.take n).strlen + 1 < 2 ^ 31 := by
        rw [CStr.strlen_take, CStr.strlen]
        omega
      obtain ⟨substring', hcopy, -, hsize'⟩ := copyEntry_eq hsize hfits
      simp only [hcopy]
      have hentry : EndsWithEntry str scanPointer ↔
          (scanPointer.take n).bytes <:+ str.bytes ∨
            EndsWithEntry str (scanPointer.drop (n + 1)) := by
        rw [EndsWithEntry, splitOn_of_strchr hn]
        simp [EndsWithEntry]
      split
      · rename_i he
        rw [endsWith_iff] at he
        rw [decide_eq_true (hentry.mpr (Or.inl he))]
      · rename_i he
        have hdrop : (scanPointer.drop (n + 1)).strlen < m := by
          rw [CStr.strlen_drop, CStr.strlen]
          omega
        rw [ih _ hdrop hsize' (by omega) rfl]
        congr 1
        rw [decide_eq_decide, hentry, or_iff_right (fun hc => he (endsWith_iff.mpr hc))]

/-- **The matcher decides suffix membership**, for every list whose length an
`int` can hold. -/
theorem endsWithInList_eq (str : CStr) {list : CStr} (h : list.strlen < 2 ^ 31) :
    endsWithInList str list = .ok (decide (EndsWithEntry str list)) :=
  endsWithInListLoop_eq str (by rw [Block.size_malloc]; decide) h

/-- Whether the matcher returns 1 for the list of an application. -/
def originMatches (origin : CStr) (cors : CharArray 256) : Bool :=
  endsWithInList origin cors.str = .ok true

theorem originMatches_iff {origin : CStr} {cors : CharArray 256} :
    originMatches origin cors = true ↔ EndsWithEntry origin cors.str := by
  have hshort : cors.str.strlen < 2 ^ 31 := cors.fits.trans (by decide)
  rw [originMatches, decide_eq_true_iff, endsWithInList_eq origin hshort, Except.ok.injEq,
    decide_eq_true_iff]

/-! ### The decision -/

/-- The protocols whose origins are checked. -/
def checkProtos : List CStr := [.lit "http:", .lit "https:", .lit "file:"]

/-- Whether an origin is to be checked: it starts with one of the protocols, up
to the colon. -/
def shouldCheckForOrigin (origin : CStr) : Bool :=
  checkProtos.any fun proto => origin.eqN proto (proto.strlen - 1)

/-- An origin of a protocol that is checked. -/
def HasCheckedProto (origin : CStr) : Prop :=
  (CStr.lit "http").bytes <+: origin.bytes ∨ (CStr.lit "https").bytes <+: origin.bytes ∨
    (CStr.lit "file").bytes <+: origin.bytes

instance (origin : CStr) : Decidable (HasCheckedProto origin) :=
  inferInstanceAs (Decidable (_ ∨ _ ∨ _))

theorem shouldCheckForOrigin_iff {origin : CStr} :
    shouldCheckForOrigin origin = true ↔ HasCheckedProto origin := by
  have hproto : ∀ proto short : CStr, proto.bytes.take (proto.strlen - 1) = short.bytes →
      (proto.strlen - 1 = short.strlen) →
      (origin.eqN proto (proto.strlen - 1) = true ↔ short.bytes <+: origin.bytes) := by
    intro proto short hbytes hlen
    rw [← CStr.eqN_strlen, CStr.eqN, CStr.eqN, hlen, ← hlen, hbytes, hlen, CStr.strlen,
      List.take_length]
  simp only [shouldCheckForOrigin, checkProtos, List.any_cons, List.any_nil, Bool.or_false,
    Bool.or_eq_true]
  rw [hproto (.lit "http:") (.lit "http") (by decide) (by decide),
    hproto (.lit "https:") (.lit "https") (by decide) (by decide),
    hproto (.lit "file:") (.lit "file") (by decide) (by decide), HasCheckedProto]

theorem HasCheckedProto.strlen_ne_zero {origin : CStr} (h : HasCheckedProto origin) :
    origin.strlen ≠ 0 := by
  have hpos : ∀ proto : CStr, 0 < proto.strlen → proto.bytes <+: origin.bytes →
      origin.strlen ≠ 0 := fun proto hproto hpre =>
    (Nat.lt_of_lt_of_le hproto hpre.length_le).ne'
  rcases h with h | h | h
  · exact hpos _ (by decide) h
  · exact hpos _ (by decide) h
  · exact hpos _ (by decide) h

/-- The scan of `is_allowed_origin`. -/
def originScan (origin appName : CStr) : List DIALApp → Bool
  | [] => false
  | app :: apps =>
    if app.name = appName ∧
        (app.corsAllowedOrigin.str = .nil ∨ originMatches origin app.corsAllowedOrigin) then true
    else originScan origin appName apps

/-- Whether `is_allowed_origin` gets to its scan. -/
def scansFor (origin : Option CStr) : Bool :=
  match origin with
  | none => false
  | some origin => !(origin.strlen = 0 ∨ shouldCheckForOrigin origin = false)

/-- Whether requests of an origin may act on an application. -/
def isAllowedOrigin (apps : List DIALApp) (origin : Option CStr) (appName : CStr) : Bool :=
  match origin with
  | none => true
  | some origin =>
    if origin.strlen = 0 ∨ shouldCheckForOrigin origin = false then true
    else originScan origin appName apps

/-- What the list of an application says about an origin. -/
def CorsAllows (app : DIALApp) (origin : CStr) : Prop :=
  app.corsAllowedOrigin.str = .nil ∨ EndsWithEntry origin app.corsAllowedOrigin.str

theorem originScan_iff {origin appName : CStr} {apps : List DIALApp} :
    originScan origin appName apps = true ↔
      ∃ app ∈ apps, app.name = appName ∧ CorsAllows app origin := by
  induction apps with
  | nil => simp [originScan]
  | cons app apps ih =>
    rw [originScan]
    split
    · rename_i h
      rw [originMatches_iff] at h
      simp only [List.mem_cons, exists_eq_or_imp, true_iff]
      exact Or.inl h
    · rename_i h
      rw [originMatches_iff] at h
      rw [ih]
      simp only [List.mem_cons, exists_eq_or_imp]
      exact (or_iff_right h).symm

/-- A name that is not registered is allowed no origin that is checked. -/
theorem originScan_of_lookup_none {origin appName : CStr} {apps : List DIALApp}
    (h : lookupApp apps appName = none) : originScan origin appName apps = false := by
  rw [lookupApp_eq, KeyedList.lookup_eq_none] at h
  rw [Bool.eq_false_iff, Ne, originScan_iff]
  rintro ⟨app, happ, rfl, -⟩
  exact h (List.mem_map_of_mem happ)

/-- **With unique names the scan asks the entry that the traversal finds.** -/
theorem originScan_of_lookup {origin appName : CStr} {apps : List DIALApp} {app : DIALApp}
    (hd : NamesDistinct apps) (h : lookupApp apps appName = some app) :
    originScan origin appName apps = true ↔ CorsAllows app origin := by
  rw [originScan_iff]
  constructor
  · rintro ⟨app', happ', rfl, hallows⟩
    have hsame := KeyedList.lookup_of_mem hd happ'
    rw [← lookupApp_eq, h] at hsame
    exact Option.some.inj hsame ▸ hallows
  · intro hallows
    rw [lookupApp_eq] at h
    exact ⟨app, KeyedList.mem_of_lookup h, KeyedList.key_of_lookup h, hallows⟩

/-- Where there is no scan every origin is allowed. -/
theorem isAllowedOrigin_of_not_scansFor {origin : Option CStr} (h : scansFor origin = false)
    (apps : List DIALApp) (appName : CStr) : isAllowedOrigin apps origin appName = true := by
  cases origin with
  | none => rfl
  | some origin =>
    rw [scansFor, Bool.not_eq_false', decide_eq_true_iff] at h
    exact if_pos h

/-- A name that is not registered is allowed an origin only where there is no scan. -/
theorem isAllowedOrigin_of_lookup_none {apps : List DIALApp} {origin : Option CStr}
    {appName : CStr} (h : lookupApp apps appName = none) :
    isAllowedOrigin apps origin appName = !scansFor origin := by
  cases hscan : scansFor origin with
  | false => exact isAllowedOrigin_of_not_scansFor hscan apps appName
  | true =>
    cases origin with
    | none => exact absurd hscan (by decide)
    | some origin =>
      rw [scansFor, Bool.not_eq_true', decide_eq_false_iff_not] at hscan
      rw [isAllowedOrigin, if_neg hscan, originScan_of_lookup_none h]
      rfl

/-- The decision for an origin that has to be checked is that of the scan. -/
theorem isAllowedOrigin_of_checked {apps : List DIALApp} {origin appName : CStr}
    (h : HasCheckedProto origin) :
    isAllowedOrigin apps (some origin) appName = originScan origin appName apps := by
  rw [isAllowedOrigin, if_neg]
  rw [shouldCheckForOrigin_iff.mpr h]
  simpa using h.strlen_ne_zero

end DialServer
