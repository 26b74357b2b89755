import Mathlib.Algebra.Group.Nat.Defs
import Mathlib.Data.List.DropRight
import Mathlib.Data.List.Infix
import Mathlib.Data.List.TakeWhile

/-!
# C strings

A C string is the sequence of bytes before its terminating NUL, so the one thing
a value of the type has to promise is that none of those bytes is a NUL:
`CLib.CStr` carries that promise as a field, and every operation below keeps it.
With the promise in place `strcmp` is equality, `strlen` is the length, and the
searches of `string.h` are searches in a list.

A pointer into a string is the part of the string it points at – a suffix – when
the code only moves it forwards, and an index when the code also moves it
backwards. `CLib.sizeSub` is the subtraction of `size_t`, which wraps around.
-/

namespace CLib

/-- A C string: the bytes before the terminating NUL, none of them a NUL. -/
@[ext] structure CStr where
  /-- The bytes before the terminator. -/
  bytes : List UInt8
  /-- The terminator is not among them. -/
  nul_free : (0 : UInt8) ∉ bytes
  deriving DecidableEq

namespace CStr

/-- The string a literal of the source denotes. -/
def lit (s : String) : CStr where
  bytes := (s.toList.map fun c => UInt8.ofNat c.toNat).filter (· ≠ 0)
  nul_free := by simp

/-- The string an array of bytes holds: what stands before its first NUL. -/
def ofBuffer (l : List UInt8) : CStr where
  bytes := l.takeWhile (· ≠ 0)
  nul_free h := by simpa using List.mem_takeWhile_imp h

/-- The decimal text of a number, as `%d` prints it. -/
def ofNat (n : ℕ) : CStr := lit (toString n)

/-- The number of bytes before the terminator. -/
def strlen (s : CStr) : ℕ := s.bytes.length

instance : Append CStr where
  append s t := ⟨s.bytes ++ t.bytes, by
    simp only [List.mem_append, not_or]
    exact ⟨s.nul_free, t.nul_free⟩⟩

/-- The string `n` bytes further on. -/
def drop (n : ℕ) (s : CStr) : CStr :=
  ⟨s.bytes.drop n, fun h => s.nul_free (List.mem_of_mem_drop h)⟩

/-- The first `n` bytes of a string. -/
def take (n : ℕ) (s : CStr) : CStr :=
  ⟨s.bytes.take n, fun h => s.nul_free (List.mem_of_mem_take h)⟩

/-- `strncmp` returning 0: the strings agree on their first `n` bytes. -/
def eqN (s t : CStr) (n : ℕ) : Bool := s.bytes.take n = t.bytes.take n

@[simp] theorem bytes_append (s t : CStr) : (s ++ t).bytes = s.bytes ++ t.bytes := rfl

@[simp] theorem bytes_drop (n : ℕ) (s : CStr) : (s.drop n).bytes = s.bytes.drop n := rfl

@[simp] theorem bytes_take (n : ℕ) (s : CStr) : (s.take n).bytes = s.bytes.take n := rfl

@[simp] theorem strlen_append (s t : CStr) : (s ++ t).strlen = s.strlen + t.strlen := by
  simp [strlen]

@[simp] theorem strlen_take (n : ℕ) (s : CStr) : (s.take n).strlen = min n s.strlen :=
  List.length_take

@[simp] theorem strlen_drop (n : ℕ) (s : CStr) : (s.drop n).strlen = s.strlen - n :=
  List.length_drop

/-- A buffer without a NUL is a string as it is. -/
theorem bytes_ofBuffer {l : List UInt8} (h : (0 : UInt8) ∉ l) : (ofBuffer l).bytes = l := by
  refine List.takeWhile_eq_self_iff.mpr fun c hc => ?_
  simpa using fun hzero : c = 0 => h (hzero ▸ hc)

/-- A string ends at the first NUL, whatever stands behind it. -/
theorem strlen_ofBuffer_le (l m : List UInt8) :
    (ofBuffer (l ++ ([0] ++ m))).strlen ≤ l.length := by
  change ((l ++ ([0] ++ m)).takeWhile (· ≠ 0)).length ≤ l.length
  induction l with
  | nil => simp
  | cons c l ih =>
    rw [List.cons_append, List.takeWhile_cons]
    split
    · exact Nat.succ_le_succ ih
    · exact Nat.zero_le _

/-- Comparing as many bytes as the second string has asks for a prefix. -/
theorem eqN_strlen {s t : CStr} : s.eqN t t.strlen = true ↔ t.bytes <+: s.bytes := by
  rw [eqN, decide_eq_true_iff, strlen, List.take_length, List.prefix_iff_eq_take]
  exact eq_comm

theorem append_assoc (s t u : CStr) : s ++ t ++ u = s ++ (t ++ u) :=
  CStr.ext (List.append_assoc _ _ _)

theorem lit_append (s t : String) : lit (s ++ t) = lit s ++ lit t := by
  refine CStr.ext ?_
  simp only [lit, bytes_append, String.toList_append, List.map_append, List.filter_append]

/-- A literal is read off its characters, -/
theorem bytes_lit (l : List Char) : (lit (String.ofList l)).bytes =
    (l.map fun c => UInt8.ofNat c.toNat).filter (· ≠ 0) := by
  simp only [lit, String.toList_ofList]

/-- and its length. -/
theorem strlen_lit (l : List Char) : (lit (String.ofList l)).strlen =
    ((l.map fun c => UInt8.ofNat c.toNat).filter (· ≠ 0)).length := by
  rw [strlen, bytes_lit]

@[simp] theorem append_right_inj {s t t' : CStr} : s ++ t = s ++ t' ↔ t = t' := by
  simp [CStr.ext_iff]

@[simp] theorem append_left_inj {s s' t : CStr} : s ++ t = s' ++ t ↔ s = s' := by
  simp [CStr.ext_iff]

end CStr

/-! ### The searches of `string.h` -/

section Searches

variable {α : Type*} [DecidableEq α]

/-- `strchr`: the place of the first `c`, if there is one. -/
def strchr (s : List α) (c : α) : Option ℕ := s.idxOf? c

/-- `strrchr`: the place of the last `c`, if there is one. -/
def strrchr : List α → α → Option ℕ
  | [], _ => none
  | b :: s, c => match strrchr s c with
    | some i => some (i + 1)
    | none => if b = c then some 0 else none

/-- `strstr`: the string from the first occurrence of `needle` on, if there is
one. -/
def strstr (needle : List α) : List α → Option (List α)
  | [] => if needle = [] then some [] else none
  | b :: s => if needle <+: b :: s then some (b :: s) else strstr needle s

/-- `strtok` called until it gives up: the runs of bytes between separators,
empty runs skipped. -/
def strtok (sep : α) (s : List α) : List (List α) := (s.splitOn sep).filter (· ≠ [])

/-- What stands in front of the first occurrence of `needle`, and what stands behind it. -/
def cutFirst (needle : List α) : List α → Option (List α × List α)
  | [] => none
  | b :: s =>
    if needle <+: b :: s then some ([], (b :: s).drop needle.length)
    else (cutFirst needle s).map fun cut => (b :: cut.1, cut.2)

theorem strchr_eq_none {s : List α} {c : α} : strchr s c = none ↔ c ∉ s :=
  List.idxOf?_eq_none_iff

/-- A successful search cuts the string at the first `c`. -/
theorem eq_of_strchr {s : List α} {c : α} {n : ℕ} (h : strchr s c = some n) :
    n < s.length ∧ c ∉ s.take n ∧ s = s.take n ++ c :: s.drop (n + 1) := by
  obtain ⟨hn, hc, hbefore⟩ := List.idxOf?_eq_some_iff.mp h
  refine ⟨hn, fun hmem => ?_, ?_⟩
  · obtain ⟨j, hj, hjc⟩ := List.mem_iff_getElem.mp hmem
    have hjn : j < n := by
      rw [List.length_take] at hj
      omega
    exact hbefore j hjn (by rwa [List.getElem_take] at hjc)
  · rw [← hc, List.cons_getElem_drop_succ, List.take_append_drop]

/-- The first `c` stands behind a part that holds none. -/
theorem strchr_append_cons {s : List α} {c : α} (h : c ∉ s) (t : List α) :
    strchr (s ++ c :: t) c = some s.length := by
  refine List.idxOf?_eq_some_iff.mpr ⟨by simp, by simp, fun j hj hc => ?_⟩
  rw [List.getElem_append_left hj] at hc
  exact h (hc ▸ List.getElem_mem hj)

/-- Splitting at a character takes off what stands before its first
occurrence. -/
theorem splitOn_of_strchr {s : List α} {c : α} {n : ℕ} (h : strchr s c = some n) :
    s.splitOn c = s.take n :: (s.drop (n + 1)).splitOn c := by
  obtain ⟨-, hmem, hs⟩ := eq_of_strchr h
  have hsplit := List.splitOn_append_cons_self_of_not_mem hmem (s.drop (n + 1))
  rwa [← hs] at hsplit

/-- The pieces of a string are made of its bytes. -/
theorem mem_of_mem_splitOn {sep : α} {s piece : List α} (h : piece ∈ s.splitOn sep) {c : α}
    (hc : c ∈ piece) : c ∈ s := by
  induction s generalizing piece with
  | nil =>
    rw [List.splitOn_nil, List.mem_singleton] at h
    rwa [h] at hc
  | cons b s ih =>
    rw [List.splitOn_cons_eq_if_modifyHead] at h
    split at h
    · rcases List.mem_cons.mp h with rfl | hmem
      · exact absurd hc List.not_mem_nil
      · exact List.mem_cons_of_mem _ (ih hmem hc)
    · obtain ⟨first, rest, hsplit⟩ := List.exists_cons_of_ne_nil (List.splitOn_ne_nil sep s)
      rw [hsplit, List.modifyHead_cons] at h
      rcases List.mem_cons.mp h with rfl | hmem
      · rcases List.mem_cons.mp hc with rfl | hfirst
        · exact List.mem_cons_self
        · exact List.mem_cons_of_mem _ (ih (by rw [hsplit]; exact List.mem_cons_self) hfirst)
      · exact List.mem_cons_of_mem _ (ih (by rw [hsplit]; exact List.mem_cons_of_mem _ hmem) hc)

theorem mem_of_mem_strtok {sep : α} {s piece : List α} (h : piece ∈ strtok sep s) {c : α}
    (hc : c ∈ piece) : c ∈ s :=
  mem_of_mem_splitOn (List.mem_filter.mp h).1 hc

/-- A separator in front is skipped. -/
theorem strtok_sep_cons (sep : α) (s : List α) : strtok sep (sep :: s) = strtok sep s := by
  have hsplit := List.splitOn_append_cons_self_of_not_mem (List.not_mem_nil (a := sep)) s
  rw [List.nil_append] at hsplit
  rw [strtok, hsplit, List.filter_cons_of_neg (by simp), ← strtok]

/-- What stands in front of the first separator is the first piece. -/
theorem strtok_append_cons {sep : α} {w : List α} (hne : w ≠ []) (hw : sep ∉ w) (s : List α) :
    strtok sep (w ++ sep :: s) = w :: strtok sep s := by
  rw [strtok, List.splitOn_append_cons_self_of_not_mem hw, List.filter_cons_of_pos (by simpa),
    ← strtok]

/-- A string without a separator is one piece. -/
theorem strtok_of_notMem {sep : α} {w : List α} (hne : w ≠ []) (hw : sep ∉ w) :
    strtok sep w = [w] := by
  rw [strtok, List.splitOn_eq_singleton hw, List.filter_cons_of_pos (by simpa), List.filter_nil]

/-- **Pieces joined by separators**: at least one between two of them, and any number in
front of the first and behind the last. -/
inductive Joined (sep : α) : List (List α) → List α → Prop
  | nil : Joined sep [] []
  | sep {pieces s} : Joined sep pieces s → Joined sep pieces (sep :: s)
  | piece {pieces s} (w : List α) : Joined sep pieces s →
    Joined sep (w :: pieces) (w ++ sep :: s)
  | last (w : List α) : Joined sep [w] w

/-- **Splitting undoes joining.** -/
theorem Joined.strtok_eq {sep : α} {pieces : List (List α)} {s : List α}
    (h : Joined sep pieces s) (hpieces : ∀ w ∈ pieces, w ≠ [] ∧ sep ∉ w) :
    strtok sep s = pieces := by
  induction h with
  | nil => rfl
  | sep _ ih => rw [strtok_sep_cons, ih hpieces]
  | piece w _ ih =>
    obtain ⟨hne, hw⟩ := hpieces w List.mem_cons_self
    rw [strtok_append_cons hne hw, ih fun v hv => hpieces v (List.mem_cons_of_mem _ hv)]
  | last w =>
    obtain ⟨hne, hw⟩ := hpieces w List.mem_cons_self
    exact strtok_of_notMem hne hw

omit [DecidableEq α] in
/-- No piece is longer than what it is joined to. -/
theorem Joined.length_le {sep : α} {pieces : List (List α)} {s : List α}
    (h : Joined sep pieces s) {w : List α} (hw : w ∈ pieces) : w.length ≤ s.length := by
  induction h with
  | nil => exact absurd hw List.not_mem_nil
  | sep _ ih => exact (ih hw).trans (Nat.le_succ _)
  | piece v _ ih =>
    rw [List.length_append, List.length_cons]
    rcases List.mem_cons.mp hw with rfl | hmem
    · omega
    · have := ih hmem
      omega
  | last v => rw [List.mem_singleton.mp hw]

theorem strrchr_eq_none {s : List α} {c : α} : strrchr s c = none ↔ c ∉ s := by
  induction s with
  | nil => simp [strrchr]
  | cons b s ih =>
    rw [strrchr]
    cases hs : strrchr s c with
    | some i =>
      have hc : c ∈ s := by
        by_contra hc
        rw [ih.mpr hc] at hs
        exact absurd hs (by simp)
      simp [hc]
    | none =>
      have hc : c ∉ s := ih.mp hs
      by_cases hb : b = c
      · simp [hb]
      · simp [hb, hc, Ne.symm hb]

/-- The last `c` of a string stands before a part that holds no `c`. -/
theorem strrchr_append_cons (s t : List α) {c : α} (h : c ∉ t) :
    strrchr (s ++ c :: t) c = some s.length := by
  induction s with
  | nil => simp [strrchr, strrchr_eq_none.mpr h]
  | cons b s ih => simp [strrchr, ih]

/-- Where the last `c` of a string stands is determined by the string. -/
theorem append_cons_inj {s s' t t' : List α} {c : α} (ht : c ∉ t) (ht' : c ∉ t')
    (h : s ++ c :: t = s' ++ c :: t') : s = s' ∧ t = t' := by
  have hpos := congrArg (strrchr · c) h
  simp only [strrchr_append_cons _ _ ht, strrchr_append_cons _ _ ht', Option.some.injEq] at hpos
  obtain ⟨hs, hct⟩ := List.append_inj h hpos
  exact ⟨hs, (List.cons.inj hct).2⟩

theorem strstr_isSome {needle s : List α} : (strstr needle s).isSome ↔ needle <:+: s := by
  induction s with
  | nil =>
    rw [strstr, List.infix_nil]
    split <;> simp_all
  | cons b s ih =>
    rw [strstr, List.infix_cons_iff]
    split
    · simp_all
    · rw [ih]
      simp_all

omit [DecidableEq α] in
/-- A text without a `c` that starts a string ends before its first `c`. -/
theorem prefix_append_cons_iff {needle s t : List α} {c : α} (h : c ∉ needle) :
    needle <+: s ++ c :: t ↔ needle <+: s := by
  refine ⟨fun hpre => ?_, fun hpre => hpre.trans (List.prefix_append _ _)⟩
  rcases List.prefix_or_prefix_of_prefix hpre (List.prefix_append s _) with hs | ⟨rest, rfl⟩
  · exact hs
  · rw [List.prefix_append_right_inj] at hpre
    rcases rest with _ | ⟨b, rest⟩
    · rw [List.append_nil]
    · exact absurd (by simp [(List.cons_prefix_cons.mp hpre).1]) h

/-- **What is searched for does not reach across a separator**: it is found in front of
the separator, or else behind it. -/
theorem strstr_append_cons {needle s t : List α} {c : α} (hne : needle ≠ [])
    (hc : c ∉ needle) :
    strstr needle (s ++ c :: t) =
      ((strstr needle s).map (· ++ c :: t)).or (strstr needle t) := by
  induction s with
  | nil =>
    have hpre : ¬needle <+: [] ++ c :: t := fun h =>
      hne (List.prefix_nil.mp ((prefix_append_cons_iff hc).mp h))
    rw [List.nil_append] at hpre
    simp only [List.nil_append, strstr, if_neg hpre, if_neg hne, Option.map_none, Option.none_or]
  | cons b s ih =>
    have hiff : needle <+: b :: (s ++ c :: t) ↔ needle <+: b :: s :=
      prefix_append_cons_iff (s := b :: s) hc
    by_cases hpre : needle <+: b :: s
    · simp only [List.cons_append, strstr, if_pos (hiff.mpr hpre), if_pos hpre, Option.map_some,
        Option.some_or]
    · simp only [List.cons_append, strstr, if_neg (fun h => hpre (hiff.mp h)), if_neg hpre, ih]

/-- What starts a string is found at once. -/
theorem strstr_of_prefix {needle s : List α} (h : needle <+: s) : strstr needle s = some s := by
  cases s with
  | nil => exact if_pos (List.prefix_nil.mp h)
  | cons b s => exact if_pos h

theorem strstr_eq_none {needle s : List α} : strstr needle s = none ↔ ¬needle <:+: s := by
  rw [← strstr_isSome, Option.not_isSome_iff_eq_none]

/-- **What is cut at a needle** is what the search for it finds. -/
theorem cutFirst_eq_some {needle s k v : List α} (h : cutFirst needle s = some (k, v)) :
    s = k ++ needle ++ v ∧ strstr needle s = some (needle ++ v) := by
  induction s generalizing k with
  | nil => exact absurd h (by simp [cutFirst])
  | cons b s ih =>
    rw [cutFirst] at h
    split at h
    · rename_i hprefix
      obtain ⟨rfl, rfl⟩ := Prod.mk.inj (Option.some.inj h)
      have hcut := List.prefix_append_drop hprefix
      exact ⟨hcut, by rw [← hcut, strstr_of_prefix hprefix]⟩
    · rename_i hprefix
      obtain ⟨cut, hcut, heq⟩ := Option.map_eq_some_iff.mp h
      obtain ⟨rfl, rfl⟩ := Prod.mk.inj heq
      obtain ⟨hs, hstrstr⟩ := ih hcut
      exact ⟨congrArg (b :: ·) hs, by rw [strstr, if_neg hprefix, hstrstr]⟩

theorem cutFirst_eq_none {needle s : List α} (hne : needle ≠ []) :
    cutFirst needle s = none ↔ strstr needle s = none := by
  induction s with
  | nil => simp [cutFirst, strstr, hne]
  | cons b s ih =>
    rw [cutFirst, strstr]
    split
    · simp
    · rw [Option.map_eq_none_iff, ih]

/-- What is found is the end of the string. -/
theorem suffix_of_strstr {needle s found : List α} (h : strstr needle s = some found) :
    found <:+ s := by
  induction s with
  | nil =>
    rw [strstr] at h
    split at h
    · rw [← Option.some.inj h]
    · exact absurd h (by simp)
  | cons b s ih =>
    rw [strstr] at h
    split at h
    · rw [← Option.some.inj h]
    · exact (ih h).trans (List.suffix_cons b s)

end Searches

/-! ### Ends of strings -/

section Ends

variable {α : Type*}

/-- Being a suffix, as `strncmp` at the right place finds it. -/
theorem drop_eq_iff_suffix {s t : List α} (h : s.length ≤ t.length) :
    t.drop (t.length - s.length) = s ↔ s <:+ t := by
  constructor
  · intro he
    rw [← he]
    exact List.drop_suffix _ _
  · rintro ⟨x, rfl⟩
    simp

end Ends

/-! ### Sizes -/

/-- The difference of two values of `size_t`, which wraps around below zero. -/
def sizeSub (a b : ℕ) : ℕ := if b ≤ a then a - b else 2 ^ 64 + a - b

/-- A difference that is not below zero. -/
theorem sizeSub_of_le {a b : ℕ} (h : b ≤ a) : sizeSub a b = a - b := if_pos h

/-- Two differences in a row are one. -/
theorem sizeSub_sizeSub {n a b : ℕ} (h : a + b ≤ 2 ^ 64) :
    sizeSub (sizeSub n a) b = sizeSub n (a + b) := by
  simp only [sizeSub]
  split_ifs <;> omega

/-- A size converted to an `int` of 32 bits, unless that makes it negative. -/
def sizeToInt (n : ℕ) : Option ℕ :=
  if n % 2 ^ 32 < 2 ^ 31 then some (n % 2 ^ 32) else none

theorem sizeToInt_of_lt {n : ℕ} (h : n < 2 ^ 31) : sizeToInt n = some n := by
  have hmod : n % 2 ^ 32 = n := Nat.mod_eq_of_lt (h.trans (by decide))
  rw [sizeToInt, hmod, if_pos h]

/-- A size returned as an `int` of 32 bits. -/
def intOfSize (n : ℕ) : ℤ :=
  if n % 2 ^ 32 < 2 ^ 31 then (n % 2 ^ 32 : ℕ) else (n % 2 ^ 32 : ℕ) - (2 ^ 32 : ℕ)

/-- The size comes through just if an `int` can hold it. -/
theorem intOfSize_eq {n : ℕ} : intOfSize n = n ↔ n < 2 ^ 31 := by
  rw [intOfSize]
  split_ifs <;> omega

/-! ### Characters -/

/-- What holds of the 256 bytes one by one holds of every byte. -/
theorem forall_byte {P : UInt8 → Prop} (h : ∀ n : Fin 256, P (UInt8.ofNat n)) (c : UInt8) :
    P c := by
  have hc := h ⟨c.toNat, c.toNat_lt⟩
  rwa [UInt8.ofNat_toNat] at hc

/-- The decimal text of a number is made of digits. -/
theorem digit_of_mem_ofNat {n : ℕ} {c : UInt8} (h : c ∈ (CStr.ofNat n).bytes) :
    '0'.toUInt8 ≤ c ∧ c ≤ '9'.toUInt8 := by
  obtain ⟨hmem, -⟩ := List.mem_filter.mp h
  obtain ⟨d, hd, rfl⟩ := List.mem_map.mp hmem
  rw [Nat.toString_eq_ofList_toDigits, String.toList_ofList] at hd
  obtain ⟨hmin, hmax⟩ : 0x30 ≤ d.toNat ∧ d.toNat ≤ 0x39 :=
    Char.isDigit_iff_toNat.mp (Nat.isDigit_of_mem_toDigits (by decide) (by decide) hd)
  have hbyte : (UInt8.ofNat d.toNat).toNat = d.toNat :=
    UInt8.toNat_ofNat_of_lt' (by rw [UInt8.size]; omega)
  rw [UInt8.le_iff_toNat_le, UInt8.le_iff_toNat_le, hbyte]
  exact ⟨hmin, hmax⟩

/-- A number below `10 ^ k` has at most `k` digits. -/
theorem strlen_ofNat_le {n k : ℕ} (hk : 0 < k) (h : n < 10 ^ k) : (CStr.ofNat n).strlen ≤ k := by
  have hdigits : (Nat.toDigits 10 n).length ≤ k :=
    (Nat.length_toDigits_le_iff (by decide) hk).mpr h
  refine (List.length_filter_le _ _).trans ?_
  rwa [List.length_map, Nat.toString_eq_ofList_toDigits, String.toList_ofList]

/-- `isspace` in the C locale. -/
def isspace (c : UInt8) : Bool := c = 32 || (9 ≤ c && c ≤ 13)

/-- `isalnum` in the C locale. -/
def isalnum (c : UInt8) : Bool :=
  ('0'.toUInt8 ≤ c && c ≤ '9'.toUInt8) || ('A'.toUInt8 ≤ c && c ≤ 'Z'.toUInt8) ||
    ('a'.toUInt8 ≤ c && c ≤ 'z'.toUInt8)

/-- `tolower` in the C locale. -/
def tolower (c : UInt8) : UInt8 :=
  if 'A'.toUInt8 ≤ c ∧ c ≤ 'Z'.toUInt8 then c + ('a'.toUInt8 - 'A'.toUInt8) else c

/-- Only a NUL becomes a NUL. -/
theorem tolower_eq_zero {c : UInt8} : tolower c = 0 ↔ c = 0 :=
  forall_byte (P := fun c => tolower c = 0 ↔ c = 0) (by decide +kernel) c

/-! ### Scanning words -/

/-- Skip white space, as a blank of a scanning format and every `%s` do. -/
def skipSpace (s : List UInt8) : List UInt8 := s.dropWhile isspace

/-- The word `%s` reads at the front of `s`, and the rest. -/
def scanWord (s : List UInt8) : List UInt8 × List UInt8 := s.span fun c => !isspace c

/-- The word `%255s` reads at the front of `s` with the given width, and the
rest. -/
def scanWordN (width : ℕ) (s : List UInt8) : List UInt8 × List UInt8 :=
  let word := (scanWord s).1.take width
  (word, s.drop word.length)

/-- A word: some bytes, none of them white space. -/
def IsWord (w : List UInt8) : Prop := w ≠ [] ∧ ∀ c ∈ w, isspace c = false

instance (w : List UInt8) : Decidable (IsWord w) :=
  inferInstanceAs (Decidable (w ≠ [] ∧ ∀ c ∈ w, isspace c = false))

theorem skipSpace_skipSpace (s : List UInt8) : skipSpace (skipSpace s) = skipSpace s :=
  List.dropWhile_idempotent ..

/-- White space in front is skipped. -/
theorem skipSpace_cons {c : UInt8} (h : isspace c = true) (s : List UInt8) :
    skipSpace (c :: s) = skipSpace s :=
  List.dropWhile_cons_of_pos h

/-- There is nothing to skip in front of a word. -/
theorem IsWord.skipSpace_append {w : List UInt8} (h : IsWord w) (t : List UInt8) :
    skipSpace (w ++ t) = w ++ t := by
  obtain ⟨c, w, rfl⟩ := List.exists_cons_of_ne_nil h.1
  have hc : isspace c = false := h.2 c List.mem_cons_self
  rw [List.cons_append, skipSpace, List.dropWhile_cons_of_neg (by simp [hc])]

/-- A word is read up to the white space behind it. -/
theorem scanWord_append {w : List UInt8} (h : IsWord w) {c : UInt8} (hc : isspace c = true)
    (t : List UInt8) : (scanWord (w ++ c :: t)).1 = w := by
  rw [scanWord, List.span_eq_takeWhile_dropWhile,
    List.takeWhile_append_of_pos fun x hx => by simp [h.2 x hx],
    List.takeWhile_cons_of_neg (by simp [hc]), List.append_nil]

/-- A word with nothing behind it is read whole. -/
theorem IsWord.scanWord_eq {w : List UInt8} (h : IsWord w) : (scanWord w).1 = w := by
  rw [scanWord, List.span_eq_takeWhile_dropWhile]
  exact List.takeWhile_eq_self_iff.mpr fun x hx => by simp [h.2 x hx]

/-- A word that the width allows is read whole. -/
theorem scanWordN_append {width : ℕ} {w : List UInt8} (h : IsWord w) (hlen : w.length ≤ width)
    {c : UInt8} (hc : isspace c = true) (t : List UInt8) :
    scanWordN width (w ++ c :: t) = (w, c :: t) := by
  rw [scanWordN, scanWord_append h hc, List.take_of_length_le hlen, List.drop_left]

/-- **What is read has no white space** and is not longer than the width allows. -/
theorem scanWordN_spec (width : ℕ) (s : List UInt8) :
    (∀ c ∈ (scanWordN width s).1, isspace c = false) ∧ (scanWordN width s).1.length ≤ width := by
  simp only [scanWordN, scanWord, List.span_eq_takeWhile_dropWhile]
  refine ⟨fun c hc => ?_, List.length_take_le _ _⟩
  simpa using List.mem_takeWhile_imp (List.mem_of_mem_take hc)

end CLib
