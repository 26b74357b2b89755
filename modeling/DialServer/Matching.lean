import DialServer.Origin

/-!
# The matcher on lists of any length

`DialServer.endsWithInList_eq` says that the matcher is exact on the lists an `int`
can measure. Here the list is as long as a C string can be, and the question is
what the matcher relies on then. `DialServer.comparisons` records what it compares,
entry by entry, and `DialServer.MatchesExactly` says that its answer is right, that
every entry it compares is a whole piece of the list, and that what it copies fits.

The distance to the next space goes through an `int`, and so does the size of a
larger scratch buffer. An entry that is too long for either is met only if no
entry in front of it matches, and only if a space follows it, for the last one
is compared where it stands; `DialServer.matchesExactly_iff` shows that nothing else can go
wrong.
-/

namespace DialServer

open CLib

/-! ### What is compared -/

/-- One call of `ends_with`: the entry, and the scratch buffer it was copied to. The
last entry of a list is compared in place. -/
structure Comparison where
  /-- The entry. -/
  entry : CStr
  /-- The scratch buffer, if the entry was copied. -/
  substring : Option Block

/-- The calls of `ends_with` the loop makes, in their order. -/
def comparisonsLoop (str scanPointer : CStr) (substring : Block) : List Comparison :=
  match _h : strchr scanPointer.bytes ' '.toUInt8 with
  | none => [⟨scanPointer, none⟩]
  | some n =>
    match sizeToInt n with
    | none => []
    | some copyLength =>
      match copyEntry substring (scanPointer.take copyLength) with
      | .error _ => []
      | .ok (substring, entry) =>
        ⟨entry, some substring⟩ ::
          if endsWith str entry then []
          else comparisonsLoop str (scanPointer.drop (copyLength + 1)) substring
termination_by scanPointer.strlen
decreasing_by
  have hn : n < scanPointer.bytes.length := (eq_of_strchr _h).1
  rw [CStr.strlen_drop, CStr.strlen]
  omega

/-- The calls of `ends_with` that `ends_with_in_list` makes. -/
def comparisons (str list : CStr) : List Comparison :=
  comparisonsLoop str list (Block.malloc 257)

section Passes

variable {str scanPointer : CStr} {substring : Block}

theorem endsWithInListLoop_of_none (h : strchr scanPointer.bytes ' '.toUInt8 = none) :
    endsWithInListLoop str scanPointer substring = .ok (endsWith str scanPointer) := by
  rw [endsWithInListLoop]
  split
  · rfl
  · rename_i n hn
    exact absurd (h.symm.trans hn) (by simp)

theorem comparisonsLoop_of_none (h : strchr scanPointer.bytes ' '.toUInt8 = none) :
    comparisonsLoop str scanPointer substring = [⟨scanPointer, none⟩] := by
  rw [comparisonsLoop]
  split
  · rfl
  · rename_i n hn
    exact absurd (h.symm.trans hn) (by simp)

/-- What one pass of the loop does, from the entry it cuts out. -/
theorem endsWithInListLoop_of_some {n : ℕ} (h : strchr scanPointer.bytes ' '.toUInt8 = some n) :
    endsWithInListLoop str scanPointer substring =
      match sizeToInt n with
      | none => .error .outOfBounds
      | some copyLength =>
        match copyEntry substring (scanPointer.take copyLength) with
        | .error f => .error f
        | .ok (substring, entry) =>
          if endsWith str entry then .ok true
          else endsWithInListLoop str (scanPointer.drop (copyLength + 1)) substring := by
  rw [endsWithInListLoop]
  split
  · rename_i hn
    exact absurd (h.symm.trans hn) (by simp)
  · rename_i n' hn
    obtain rfl := Option.some.inj (h.symm.trans hn)
    rfl

theorem comparisonsLoop_of_some {n : ℕ} (h : strchr scanPointer.bytes ' '.toUInt8 = some n) :
    comparisonsLoop str scanPointer substring =
      match sizeToInt n with
      | none => []
      | some copyLength =>
        match copyEntry substring (scanPointer.take copyLength) with
        | .error _ => []
        | .ok (substring, entry) =>
          ⟨entry, some substring⟩ ::
            if endsWith str entry then []
            else comparisonsLoop str (scanPointer.drop (copyLength + 1)) substring := by
  rw [comparisonsLoop]
  split
  · rename_i hn
    exact absurd (h.symm.trans hn) (by simp)
  · rename_i n' hn
    obtain rfl := Option.some.inj (h.symm.trans hn)
    rfl

/-- The next pass starts behind the space, wherever the counter stands. -/
theorem strlen_drop_lt {n copyLength : ℕ}
    (h : strchr scanPointer.bytes ' '.toUInt8 = some n) :
    (scanPointer.drop (copyLength + 1)).strlen < scanPointer.strlen := by
  have hn : n < scanPointer.bytes.length := (eq_of_strchr h).1
  rw [CStr.strlen_drop, CStr.strlen]
  omega

/-- **The answer is that of the comparisons**: whether one of them succeeds. -/
theorem endsWithInListLoop_comparisons {matched : Bool}
    (h : endsWithInListLoop str scanPointer substring = .ok matched) :
    matched = (comparisonsLoop str scanPointer substring).any fun c => endsWith str c.entry := by
  induction hlen : scanPointer.strlen using Nat.strong_induction_on
    generalizing scanPointer substring with
  | _ m ih =>
    cases hn : strchr scanPointer.bytes ' '.toUInt8 with
    | none =>
      rw [endsWithInListLoop_of_none hn] at h
      simpa [comparisonsLoop_of_none hn] using (Except.ok.inj h).symm
    | some n =>
      rw [endsWithInListLoop_of_some hn] at h
      rw [comparisonsLoop_of_some hn]
      cases hint : sizeToInt n with
      | none => simp [hint] at h
      | some copyLength =>
        cases hcopy : copyEntry substring (scanPointer.take copyLength) with
        | error f => simp [hint, hcopy] at h
        | ok copied =>
          simp only [hint, hcopy] at h ⊢
          by_cases he : endsWith str copied.2 = true
          · simpa [he] using h.symm
          · rw [if_neg he] at h
            simpa [he] using ih _ (hlen ▸ strlen_drop_lt hn) h rfl

/-! ### One pass -/

/-- **A pass over an entry that an `int` can measure** compares it whole. -/
theorem pass_of_fits (str : CStr) {n : ℕ} (hn : strchr scanPointer.bytes ' '.toUInt8 = some n)
    (hsize : substring.size < 2 ^ 31) (hfits : n + 1 < 2 ^ 31) :
    ∃ substring' : Block, n < substring'.size ∧ substring'.size < 2 ^ 31 ∧
      endsWithInListLoop str scanPointer substring =
        (if endsWith str (scanPointer.take n) then .ok true
          else endsWithInListLoop str (scanPointer.drop (n + 1)) substring') ∧
      comparisonsLoop str scanPointer substring =
        ⟨scanPointer.take n, some substring'⟩ ::
          if endsWith str (scanPointer.take n) then []
          else comparisonsLoop str (scanPointer.drop (n + 1)) substring' := by
  have hentry : (scanPointer.take n).strlen = n := by
    have hlt := (eq_of_strchr hn).1
    rw [CStr.strlen_take, CStr.strlen]
    omega
  have hint : sizeToInt n = some n := sizeToInt_of_lt (by omega)
  have hfits' : (scanPointer.take n).strlen + 1 < 2 ^ 31 := by rwa [hentry]
  obtain ⟨substring', hcopy, hroom, hsize'⟩ := copyEntry_eq hsize hfits'
  rw [hentry] at hroom
  refine ⟨substring', hroom, hsize', ?_, ?_⟩
  · rw [endsWithInListLoop_of_some hn]
    simp only [hint, hcopy]
  · rw [comparisonsLoop_of_some hn]
    simp only [hint, hcopy]

/-- What is compared is what was copied. -/
theorem copyEntry_entry {entry : CStr} {copied : Block × CStr}
    (h : copyEntry substring entry = .ok copied) : copied.2 = entry := by
  rw [copyEntry] at h
  cases hgrow : growSubstring substring entry.strlen with
  | error f => simp [hgrow, bind, Except.bind] at h
  | ok scratch =>
    cases hstore : scratch.storeString 0 entry with
    | error f => simp [hgrow, hstore, bind, Except.bind] at h
    | ok scratch' =>
      have hcstr : scratch'.cstr = .ok entry := Block.cstr_of_storeString hstore
      simp only [hgrow, hstore, hcstr, bind, Except.bind, pure, Except.pure] at h
      rw [← Except.ok.inj h]

/-- **A pass over a longer entry** ends the program, or compares only a part of it. -/
theorem pass_of_not_fits {n : ℕ} (hn : strchr scanPointer.bytes ' '.toUInt8 = some n)
    (hsize : substring.size < 2 ^ 31) (hlong : 2 ^ 31 ≤ n + 1) :
    (∃ f, endsWithInListLoop str scanPointer substring = .error f) ∨
      ∃ c ∈ (comparisonsLoop str scanPointer substring).head?, c.entry.strlen < n := by
  have hlt : n < scanPointer.strlen := (eq_of_strchr hn).1
  cases hint : sizeToInt n with
  | none =>
    refine Or.inl ⟨.outOfBounds, ?_⟩
    rw [endsWithInListLoop_of_some hn]
    simp only [hint]
  | some copyLength =>
    obtain ⟨rfl, hcount⟩ : n % 2 ^ 32 = copyLength ∧ copyLength < 2 ^ 31 := by
      rw [sizeToInt] at hint
      split_ifs at hint with hmod
      exact ⟨Option.some.inj hint, Option.some.inj hint ▸ hmod⟩
    cases hcopy : copyEntry substring (scanPointer.take (n % 2 ^ 32)) with
    | error f =>
      refine Or.inl ⟨f, ?_⟩
      rw [endsWithInListLoop_of_some hn]
      simp only [hint, hcopy]
    | ok copied =>
      have hentry := copyEntry_entry hcopy
      have hlen : copied.2.strlen = n % 2 ^ 32 := by
        rw [hentry, CStr.strlen_take]
        omega
      refine Or.inr ⟨⟨copied.2, some copied.1⟩, ?_, ?_⟩
      · rw [comparisonsLoop_of_some hn]
        simp only [hint, hcopy]
        rfl
      · rw [hlen]
        -- at the largest `int` the buffer cannot be made larger
        have hgrow : n ≠ 2 ^ 31 - 1 := by
          rintro rfl
          rw [copyEntry, growSubstring, CStr.strlen_take, if_pos (by omega), if_neg (by omega)]
            at hcopy
          exact absurd hcopy (by simp [bind, Except.bind])
        omega

end Passes

/-! ### Which lists are matched exactly -/

/-- **The answer of the matcher is right**, from a place in the list on: it says whether
the string ends with one of the entries, every entry it compares is a whole piece of
the list, and the scratch buffer is longer than what is copied into it. -/
structure MatchesFrom (str scanPointer : CStr) (substring : Block) : Prop where
  decides : endsWithInListLoop str scanPointer substring =
    .ok (decide (EndsWithEntry str scanPointer))
  whole : (comparisonsLoop str scanPointer substring).map (fun c => c.entry.bytes) <+:
    scanPointer.bytes.splitOn ' '.toUInt8
  roomy : ∀ c ∈ comparisonsLoop str scanPointer substring, ∀ b ∈ c.substring,
    c.entry.strlen < b.size

/-- The matcher is exact on a list. -/
structure MatchesExactly (str list : CStr) : Prop where
  decides : endsWithInList str list = .ok (decide (EndsWithEntry str list))
  whole : (comparisons str list).map (fun c => c.entry.bytes) <+: list.bytes.splitOn ' '.toUInt8
  roomy : ∀ c ∈ comparisons str list, ∀ b ∈ c.substring, c.entry.strlen < b.size

/-- Every entry that a space follows, and that no matching entry precedes, is shorter
than the largest `int`. -/
def EntriesFit (str : List UInt8) (entries : List (List UInt8)) : Prop :=
  ∀ before entry after, entries = before ++ entry :: after → after ≠ [] →
    (∀ e ∈ before, ¬e <:+ str) → entry.length + 1 < 2 ^ 31

theorem entriesFit_singleton (str entry : List UInt8) : EntriesFit str [entry] := by
  intro before e after heq hafter
  rcases before with _ | ⟨b, before⟩
  · exact absurd (List.cons.inj heq).2.symm hafter
  · exact absurd (List.cons.inj heq).2.symm (by simp)

theorem entriesFit_cons {str entry : List UInt8} {entries : List (List UInt8)}
    (hne : entries ≠ []) :
    EntriesFit str (entry :: entries) ↔
      entry.length + 1 < 2 ^ 31 ∧ (entry <:+ str ∨ EntriesFit str entries) := by
  constructor
  · intro h
    refine ⟨h [] entry entries rfl hne (by simp), or_iff_not_imp_left.mpr fun he => ?_⟩
    intro before e after heq hafter hbefore
    refine h (entry :: before) e after (by rw [heq, List.cons_append]) hafter fun e' he' => ?_
    rcases List.mem_cons.mp he' with rfl | hmem
    · exact he
    · exact hbefore e' hmem
  · rintro ⟨hlen, hrest⟩ before e after heq hafter hbefore
    rcases before with _ | ⟨b, before⟩
    · rwa [← (List.cons.inj heq).1]
    · obtain ⟨rfl, heq'⟩ := List.cons.inj heq
      rcases hrest with he | hrest
      · exact absurd he (hbefore entry List.mem_cons_self)
      · exact hrest before e after heq' hafter fun e' he' =>
          hbefore e' (List.mem_cons_of_mem _ he')

/-- An entry of a list is its first piece, or one of the list behind the space. -/
theorem endsWithEntry_of_strchr {str scanPointer : CStr} {n : ℕ}
    (hn : strchr scanPointer.bytes ' '.toUInt8 = some n) :
    EndsWithEntry str scanPointer ↔
      (scanPointer.take n).bytes <:+ str.bytes ∨
        EndsWithEntry str (scanPointer.drop (n + 1)) := by
  rw [EndsWithEntry, splitOn_of_strchr hn]
  simp [EndsWithEntry]

/-- A pass that finds a match ends the search. -/
theorem matchesFrom_of_endsWith {str scanPointer : CStr} {substring substring' : Block} {n : ℕ}
    (hn : strchr scanPointer.bytes ' '.toUInt8 = some n) (hroom : n < substring'.size)
    (he : endsWith str (scanPointer.take n) = true)
    (hloop : endsWithInListLoop str scanPointer substring = .ok true)
    (hcompared : comparisonsLoop str scanPointer substring =
      [⟨scanPointer.take n, some substring'⟩]) :
    MatchesFrom str scanPointer substring := by
  refine ⟨?_, ?_, ?_⟩
  · rw [hloop, decide_eq_true]
    exact (endsWithEntry_of_strchr hn).mpr (Or.inl (endsWith_iff.mp he))
  · rw [hcompared, splitOn_of_strchr hn]
    exact List.cons_prefix_cons.mpr ⟨rfl, List.nil_prefix⟩
  · rw [hcompared]
    rintro c hc b hb
    obtain rfl := List.mem_singleton.mp hc
    obtain rfl := Option.some.inj hb
    exact (CStr.strlen_take n scanPointer ▸ min_le_left _ _).trans_lt hroom

/-- A pass that does not leaves the rest of the list to the others. -/
theorem matchesFrom_of_not_endsWith {str scanPointer : CStr} {substring substring' : Block}
    {n : ℕ} (hn : strchr scanPointer.bytes ' '.toUInt8 = some n) (hroom : n < substring'.size)
    (he : ¬endsWith str (scanPointer.take n) = true)
    (hloop : endsWithInListLoop str scanPointer substring =
      endsWithInListLoop str (scanPointer.drop (n + 1)) substring')
    (hcompared : comparisonsLoop str scanPointer substring =
      ⟨scanPointer.take n, some substring'⟩ ::
        comparisonsLoop str (scanPointer.drop (n + 1)) substring') :
    MatchesFrom str scanPointer substring ↔
      MatchesFrom str (scanPointer.drop (n + 1)) substring' := by
  have hentry : EndsWithEntry str scanPointer ↔ EndsWithEntry str (scanPointer.drop (n + 1)) := by
    rw [endsWithEntry_of_strchr hn, or_iff_right (fun h => he (endsWith_iff.mpr h))]
  have hshort : (scanPointer.take n).strlen < substring'.size :=
    (CStr.strlen_take n scanPointer ▸ min_le_left _ _).trans_lt hroom
  constructor
  · intro h
    refine ⟨?_, ?_, ?_⟩
    · rw [← hloop, h.decides, decide_eq_decide.mpr hentry]
    · have hwhole := h.whole
      rw [hcompared, splitOn_of_strchr hn, List.map_cons, List.cons_prefix_cons] at hwhole
      exact hwhole.2
    · exact fun c hc => h.roomy c (by rw [hcompared]; exact List.mem_cons_of_mem _ hc)
  · intro h
    refine ⟨?_, ?_, ?_⟩
    · rw [hloop, h.decides, decide_eq_decide.mpr hentry]
    · rw [hcompared, splitOn_of_strchr hn, List.map_cons, List.cons_prefix_cons]
      exact ⟨rfl, h.whole⟩
    · rw [hcompared]
      rintro c hc b hb
      rcases List.mem_cons.mp hc with rfl | hmem
      · obtain rfl := Option.some.inj hb
        exact hshort
      · exact h.roomy c hmem b hb

/-- **A list is matched exactly if its entries fit**, and only then. -/
theorem matchesFrom_iff {str scanPointer : CStr} {substring : Block}
    (hsize : substring.size < 2 ^ 31) :
    MatchesFrom str scanPointer substring ↔
      EntriesFit str.bytes (scanPointer.bytes.splitOn ' '.toUInt8) := by
  induction hlen : scanPointer.strlen using Nat.strong_induction_on
    generalizing scanPointer substring with
  | _ m ih =>
    cases hn : strchr scanPointer.bytes ' '.toUInt8 with
    | none =>
      -- the last entry is compared where it stands
      have hpieces := List.splitOn_eq_singleton (strchr_eq_none.mp hn)
      rw [hpieces]
      refine iff_of_true ⟨?_, ?_, ?_⟩ (entriesFit_singleton _ _)
      · rw [endsWithInListLoop_of_none hn]
        congr 1
        rw [Bool.eq_iff_iff, endsWith_iff, decide_eq_true_iff, EndsWithEntry, hpieces]
        simp
      · rw [comparisonsLoop_of_none hn, hpieces]
        exact List.prefix_refl _
      · rw [comparisonsLoop_of_none hn]
        simp
    | some n =>
      have hpieces := splitOn_of_strchr hn
      have hentry : (scanPointer.bytes.take n).length = n := by
        have hlt := (eq_of_strchr hn).1
        rw [List.length_take]
        omega
      rw [hpieces, entriesFit_cons (List.splitOn_ne_nil _ _), hentry]
      rcases Nat.lt_or_ge (n + 1) (2 ^ 31) with hfits | hlong
      · obtain ⟨substring', hroom, hsize', hloop, hcompared⟩ :=
          pass_of_fits str hn hsize hfits
        by_cases he : endsWith str (scanPointer.take n) = true
        · rw [if_pos he] at hloop hcompared
          exact iff_of_true (matchesFrom_of_endsWith hn hroom he hloop hcompared)
            ⟨hfits, Or.inl (endsWith_iff.mp he)⟩
        · rw [if_neg he] at hloop hcompared
          rw [matchesFrom_of_not_endsWith hn hroom he hloop hcompared,
            ih _ (hlen ▸ strlen_drop_lt hn) hsize' rfl, and_iff_right hfits]
          exact (or_iff_right fun h => he (endsWith_iff.mpr h)).symm
      · refine iff_of_false (fun h => ?_) (by omega)
        rcases pass_of_not_fits hn hsize hlong with ⟨f, hf⟩ | ⟨c, hc, hshort⟩
        · exact absurd (hf.symm.trans h.decides) (by simp)
        · -- what is compared is not the piece
          obtain ⟨cs, hcs⟩ := List.head?_eq_some_iff.mp hc
          have hwhole := h.whole
          rw [hcs, hpieces, List.map_cons, List.cons_prefix_cons] at hwhole
          rw [CStr.strlen, hwhole.1, hentry] at hshort
          exact absurd hshort (lt_irrefl n)

/-- **The matcher is exact just if no entry it meets is too long for an `int`**: none that
a space follows and that no matching entry precedes. -/
theorem matchesExactly_iff (str list : CStr) :
    MatchesExactly str list ↔ EntriesFit str.bytes (list.bytes.splitOn ' '.toUInt8) := by
  have hsize : (Block.malloc 257).size < 2 ^ 31 := by
    rw [Block.size_malloc]
    decide
  rw [← matchesFrom_iff hsize]
  exact ⟨fun h => ⟨h.decides, h.whole, h.roomy⟩, fun h => ⟨h.decides, h.whole, h.roomy⟩⟩

/-- A list whose first entry has as many bytes as an `int` has positive values. -/
def longEntryList : CStr :=
  ⟨List.replicate (2 ^ 31) 'a'.toUInt8 ++ (CStr.lit " b").bytes, by
    rw [List.mem_append, List.mem_replicate]
    rintro (⟨-, hc⟩ | hc)
    · exact absurd hc (by decide)
    · exact absurd hc (by decide)⟩

/-- The length of the first entry becomes negative, although the second one
matches. -/
theorem not_matchesExactly_longEntryList : ¬MatchesExactly (.lit "b") longEntryList := by
  intro h
  have hstrchr : strchr longEntryList.bytes ' '.toUInt8 = some (2 ^ 31) := by
    have hfirst : ' '.toUInt8 ∉ List.replicate (2 ^ 31) 'a'.toUInt8 := fun hc =>
      absurd (List.eq_of_mem_replicate hc) (by decide)
    rw [← List.length_replicate (n := 2 ^ 31) (a := 'a'.toUInt8)]
    exact strchr_append_cons hfirst (CStr.lit "b").bytes
  have hloop : endsWithInList (.lit "b") longEntryList = .error .outOfBounds := by
    rw [endsWithInList, endsWithInListLoop_of_some hstrchr]
    rfl
  exact absurd (hloop.symm.trans h.decides) (by simp)

end DialServer
