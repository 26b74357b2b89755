import DialServer.Lib.Stores
import DialServer.Encoding
import Mathlib.Order.Bounds.Basic
import Mathlib.Order.Interval.Set.LinearOrder

/-!
# Chained concatenation

A text is put together by calls `p = smartstrcat(p, s, end - p)`, one for each of its
pieces (`DialServer.smartstrcatEach`). The loop of `smartstrcat` writes a byte before it
looks at its count, and the byte that is too much is overwritten by the NUL. So what
matters is not only the text the object holds at the end but every write on the way:
`DialServer.writesEach` records them.

The writes of one call fill an interval, from where it starts to where it leaves `p`, and
the intervals of the calls meet. `DialServer.boundedConcatenation` puts this together: the
object holds the text cut at `end` after every call, the largest index that is written is
that of the last NUL, and one byte behind `end` is needed and enough.
-/

namespace DialServer

open CLib

open CLib.Block

/-! ### The writes -/

/-- The copying loop of `smartstrcat` as the list of its writes, and the index it
returns. -/
def smartstrcatWrites (maxChars : ℕ) : List UInt8 → ℕ → ℕ → List (ℕ × UInt8) × ℕ
  | [], _, dest => ([(dest, 0), (dest, 0)], dest)
  | c :: src, copied, dest =>
    if copied < maxChars then
      let rest := smartstrcatWrites maxChars src (copied + 1) (dest + 1)
      ((dest, c) :: rest.1, rest.2)
    else ([(dest, c), (dest, 0)], dest)

/-- The calls `p = smartstrcat(p, s, end - p)` for one string after the other, with `end`
at index `N`; the difference of the pointers is passed as a `size_t`. -/
def smartstrcatEach (N : ℕ) : List CStr → Block → ℕ → Except Fault (Block × ℕ)
  | [], b, p => .ok (b, p)
  | s :: strings, b, p => do
    let (b, p) ← smartstrcat b p s (sizeSub N p)
    smartstrcatEach N strings b p

/-- The calls as the list of their writes, and the index they leave `p` at. -/
def writesEach (N : ℕ) : List CStr → ℕ → List (ℕ × UInt8) × ℕ
  | [], p => ([], p)
  | s :: strings, p =>
    let step := smartstrcatWrites (sizeSub N p) s.bytes 0 p
    let rest := writesEach N strings step.2
    (step.1 ++ rest.1, rest.2)

section Smartstrcat

variable {maxChars : ℕ}

/-- **The loop makes these writes**, whatever the object. -/
theorem smartstrcatLoop_eq (src : List UInt8) (copied dest : ℕ) (b : Block) :
    smartstrcatLoop maxChars src copied b dest =
      (b.storeEach (smartstrcatWrites maxChars src copied dest).1).map fun b =>
        (b, (smartstrcatWrites maxChars src copied dest).2) := by
  induction src generalizing copied dest b with
  | nil =>
    rw [smartstrcatLoop, smartstrcatWrites]
    simp only [← bind_map_storeEach, storeEach_nil]
    rfl
  | cons c src ih =>
    rw [smartstrcatLoop, smartstrcatWrites]
    split
    · simp only [ih, bind_map_storeEach]
    · simp only [← bind_map_storeEach, storeEach_nil]
      rfl

/-- The index that is returned. -/
theorem smartstrcatWrites_snd (src : List UInt8) (copied dest : ℕ) :
    (smartstrcatWrites maxChars src copied dest).2 =
      dest + min src.length (maxChars - copied) := by
  induction src generalizing copied dest with
  | nil => simp [smartstrcatWrites]
  | cons c src ih =>
    rw [smartstrcatWrites]
    split
    · rw [ih, List.length_cons]
      omega
    · rw [List.length_cons]
      omega

/-- **One call fills an interval**, up to the index it returns. -/
theorem indices_smartstrcatWrites (src : List UInt8) (copied dest : ℕ) :
    indices (smartstrcatWrites maxChars src copied dest).1 =
      Set.Icc dest (smartstrcatWrites maxChars src copied dest).2 := by
  induction src generalizing copied dest with
  | nil => simp [smartstrcatWrites]
  | cons c src ih =>
    rw [smartstrcatWrites]
    split
    · have hle : dest ≤ (smartstrcatWrites maxChars src (copied + 1) (dest + 1)).2 := by
        rw [smartstrcatWrites_snd]
        omega
      rw [indices_cons, ih]
      exact Set.insert_Icc_succ_left_eq_Icc hle
    · simp

end Smartstrcat

/-! ### The chain -/

section Chain

variable {N : ℕ} {b : Block}

/-- **The calls make these writes**, whatever the object. -/
theorem smartstrcatEach_eq (strings : List CStr) (b : Block) (p : ℕ) :
    smartstrcatEach N strings b p =
      (b.storeEach (writesEach N strings p).1).map fun b => (b, (writesEach N strings p).2) := by
  induction strings generalizing b p with
  | nil => rfl
  | cons s strings ih =>
    rw [smartstrcatEach, smartstrcat, smartstrcatLoop_eq, writesEach, storeEach_append]
    cases b.storeEach (smartstrcatWrites (sizeSub N p) s.bytes 0 p).1 with
    | error f => rfl
    | ok b' => exact ih b' _

/-- The byte that is too much is written at `end`, and the NUL over it. -/
example : writesEach 3 [.lit "ab", .lit "cde"] 0 = ([(0, 'a'.toUInt8), (1, 'b'.toUInt8), (2, 0),
    (2, 0), (2, 'c'.toUInt8), (3, 'd'.toUInt8), (3, 0)], 3) := by decide

/-- A call leaves `p` at the end of the text so far, or at `end`. -/
theorem smartstrcatWrites_sizeSub {p : ℕ} (hp : p ≤ N) (s : CStr) :
    (smartstrcatWrites (sizeSub N p) s.bytes 0 p).2 = min N (p + s.strlen) := by
  rw [smartstrcatWrites_snd, sizeSub_of_le hp, CStr.strlen]
  omega

/-- **The calls leave `p`** at the end of the text, or at `end`. -/
theorem writesEach_snd (strings : List CStr) {p : ℕ} (hp : p ≤ N) :
    (writesEach N strings p).2 = min N (p + (strings.flatMap CStr.bytes).length) := by
  induction strings generalizing p with
  | nil => exact (Nat.min_eq_right hp).symm
  | cons s strings ih =>
    rw [writesEach]
    dsimp only
    rw [smartstrcatWrites_sizeSub hp, ih (Nat.min_le_left _ _), List.flatMap_cons,
      List.length_append, CStr.strlen]
    omega

/-- **The calls fill an interval.** -/
theorem indices_writesEach {strings : List CStr} (hne : strings ≠ []) {p : ℕ} (hp : p ≤ N) :
    indices (writesEach N strings p).1 = Set.Icc p (writesEach N strings p).2 := by
  induction strings generalizing p with
  | nil => exact absurd rfl hne
  | cons s strings ih =>
    have hstep := smartstrcatWrites_sizeSub hp s
    rw [writesEach, indices_append, indices_smartstrcatWrites]
    dsimp only
    rcases strings with _ | ⟨s', strings⟩
    · simp [writesEach]
    · -- the next call starts where this one has left `p`
      have hle : (smartstrcatWrites (sizeSub N p) s.bytes 0 p).2 ≤ N := by omega
      rw [ih (List.cons_ne_nil _ _) hle]
      refine Set.Icc_union_Icc_eq_Icc (by omega) ?_
      rw [writesEach_snd _ hle]
      omega

/-- As long as `p` is not behind `end`, the calls are those of `appendAll`. -/
theorem smartstrcatEach_eq_appendAll (strings : List CStr) (b : Block) {p : ℕ} (hp : p ≤ N) :
    smartstrcatEach N strings b p = appendAll N strings b p := by
  induction strings generalizing b p with
  | nil => rfl
  | cons s strings ih =>
    have hstep := smartstrcatWrites_sizeSub hp s
    rw [sizeSub_of_le hp] at hstep
    rw [smartstrcatEach, appendAll, sizeSub_of_le hp, smartstrcat, smartstrcatLoop_eq, hstep]
    cases b.storeEach (smartstrcatWrites (N - p) s.bytes 0 p).1 with
    | error f => rfl
    | ok b' => exact ih b' (Nat.min_le_left _ _)

/-- A call goes on from where the one before it has left `p`. -/
theorem smartstrcatEach_append (front back : List CStr) (b : Block) (p : ℕ) :
    smartstrcatEach N (front ++ back) b p =
      smartstrcatEach N front b p >>= fun q => smartstrcatEach N back q.1 q.2 := by
  induction front generalizing b p with
  | nil => rfl
  | cons s front ih =>
    rw [List.cons_append, smartstrcatEach, smartstrcatEach]
    cases smartstrcat b p s (sizeSub N p) with
    | error f => rfl
    | ok q => exact ih q.1 q.2

/-- **What the object holds** after at least one call, whatever it held before. -/
theorem smartstrcatEach_spec {strings : List CStr} (hne : strings ≠ []) (hroom : N < b.size) :
    ∃ b', smartstrcatEach N strings b 0 =
        .ok (b', ((strings.flatMap CStr.bytes).take N).length) ∧
      b'.Starts ((strings.flatMap CStr.bytes).take N ++ [0]) := by
  obtain ⟨s, strings, rfl⟩ := List.exists_cons_of_ne_nil hne
  have hstep := smartstrcat_spec s (Nat.zero_le N) (starts_nil b)
  rw [List.nil_append, if_pos (by omega)] at hstep
  obtain ⟨b₁, hfirst, hstarts, hsize⟩ := hstep
  have hrest := appendAll_spec strings (List.length_take_le N s.bytes) hstarts
  rw [take_take_append, min_length_take_append, if_pos (by omega)] at hrest
  obtain ⟨b', hrest, hstarts', -⟩ := hrest
  refine ⟨b', ?_, hstarts'⟩
  rw [smartstrcatEach_eq_appendAll _ _ (Nat.zero_le N), appendAll]
  rw [List.length_nil] at hfirst
  rw [hfirst]
  exact hrest

/-- **The largest index** that is written is that of the last NUL. -/
theorem isGreatest_writesEach {strings : List CStr} (hne : strings ≠ []) :
    IsGreatest (indices (writesEach N strings 0).1)
      (min N (strings.flatMap CStr.bytes).length) := by
  rw [indices_writesEach hne (Nat.zero_le N), writesEach_snd _ (Nat.zero_le N), Nat.zero_add]
  exact isGreatest_Icc (Nat.zero_le _)

/-- **The chain stays in an object** just if there is room for the NUL behind the text. -/
theorem exists_smartstrcatEach_iff {strings : List CStr} (hne : strings ≠ []) :
    (∃ result, smartstrcatEach N strings b 0 = .ok result) ↔
      min N (strings.flatMap CStr.bytes).length < b.size := by
  have hlast := isGreatest_writesEach (N := N) hne
  have hfits : (∃ b', b.storeEach (writesEach N strings 0).1 = .ok b') ↔
      min N (strings.flatMap CStr.bytes).length < b.size := by
    rw [exists_storeEach_iff]
    exact ⟨fun h => h _ hlast.1, fun h i hi => (hlast.2 hi).trans_lt h⟩
  rw [← hfits, smartstrcatEach_eq]
  cases b.storeEach (writesEach N strings 0).1 with
  | error f => exact iff_of_false (by simp [Except.map]) (by simp)
  | ok b' => exact iff_of_true ⟨_, rfl⟩ ⟨b', rfl⟩

end Chain

/-- **Bounded concatenation**, with `end` at index `N`. -/
structure BoundedConcatenation (N : ℕ) (strings : List CStr) : Prop where
  /-- After every call, the object holds the text so far, cut at `N`, and `p` is at its NUL
  and not behind `end`; and the calls that are left go on from there. -/
  holds : ∀ (b : Block) (front back : List CStr), N < b.size → strings = front ++ back →
    front ≠ [] → ∃ b' p, smartstrcatEach N front b 0 = .ok (b', p) ∧
      b'.Starts ((front.flatMap CStr.bytes).take N ++ [0]) ∧
      p = ((front.flatMap CStr.bytes).take N).length ∧ p ≤ N ∧
      smartstrcatEach N strings b 0 = smartstrcatEach N back b' p
  /-- The writes that are recorded are those that are made, whatever the object. -/
  writes : ∀ b, smartstrcatEach N strings b 0 =
    (b.storeEach (writesEach N strings 0).1).map fun b => (b, (writesEach N strings 0).2)
  /-- The largest index that is written is that of the last NUL. -/
  greatest : strings ≠ [] → IsGreatest (indices (writesEach N strings 0).1)
    (min N (strings.flatMap CStr.bytes).length)

/-- **Chained `smartstrcat` is bounded concatenation**, and needs one byte behind `end`. -/
theorem boundedConcatenation (N : ℕ) :
    (∀ strings, BoundedConcatenation N strings) ∧
      ∀ size, (∀ (strings : List CStr) (b : Block), b.size = size →
        ∃ result, smartstrcatEach N strings b 0 = .ok result) ↔ N + 1 ≤ size := by
  refine ⟨fun strings => ⟨?_, fun b => smartstrcatEach_eq strings b 0, isGreatest_writesEach⟩,
    fun size => ⟨fun h => ?_, fun h strings b hsize => ?_⟩⟩
  · rintro b front back hroom rfl hne
    obtain ⟨b', hrun, hstarts⟩ := smartstrcatEach_spec hne hroom
    refine ⟨b', _, hrun, hstarts, rfl, List.length_take_le _ _, ?_⟩
    rw [smartstrcatEach_append, hrun]
    rfl
  · -- a text of `N` bytes needs the byte behind `end`
    have hnul : (0 : UInt8) ∉ List.replicate N 'a'.toUInt8 := fun hmem =>
      absurd (List.eq_of_mem_replicate hmem) (by decide)
    obtain ⟨full, hfull⟩ : ∃ full : CStr, full.bytes.length = N :=
      ⟨⟨_, hnul⟩, List.length_replicate⟩
    have hlt := (exists_smartstrcatEach_iff (List.cons_ne_nil full [])).mp
      (h [full] (Block.malloc size) (size_malloc size))
    rw [List.flatMap_singleton, hfull, size_malloc, Nat.min_self] at hlt
    exact hlt
  · rcases strings with _ | ⟨s, strings⟩
    · exact ⟨_, rfl⟩
    · exact (exists_smartstrcatEach_iff (List.cons_ne_nil _ _)).mpr (by omega)

end DialServer
