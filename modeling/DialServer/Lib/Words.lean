import DialServer.Lib.CString

/-!
# The words of a text

A conversion `%Ns` skips white space and takes at most `N` bytes of the word behind it; what
is left of a longer word is what the next conversion takes. So a sequence of such
conversions reads the words of the text (`CLib.words`), each cut into pieces of `N` bytes
(`CLib.chunks`), one piece at a time: `CLib.pieces_of_skipSpace` is the step, and
`CLib.pieces_eq_nil` the end.
-/

namespace CLib

/-! ### Chunks -/

section Chunks

variable {α : Type*} {width : ℕ}

/-- A list cut after every `width` elements. -/
def chunks (width : ℕ) (l : List α) : List (List α) :=
  (List.range ((l.length + width - 1) / width)).map fun i => (l.drop (i * width)).take width

theorem chunks_nil (hw : 0 < width) : chunks width ([] : List α) = [] := by
  have hcount : (width - 1) / width = 0 := Nat.div_eq_of_lt (Nat.sub_lt hw Nat.one_pos)
  rw [chunks, List.length_nil, Nat.zero_add, hcount]
  rfl

/-- The first chunk is what fits, and the others are those of the rest. -/
theorem chunks_of_ne_nil (hw : 0 < width) {l : List α} (hl : l ≠ []) :
    chunks width l = l.take width :: chunks width (l.drop width) := by
  have hlen : 0 < l.length := List.length_pos_iff.mpr hl
  have hcount : (l.length + width - 1) / width = (l.length - width + width - 1) / width + 1 := by
    rcases Nat.lt_or_ge l.length width with hlt | hge
    · have hone : l.length + width - 1 = (l.length - 1) + width := by omega
      rw [hone, Nat.add_div_right _ hw, Nat.sub_eq_zero_of_le hlt.le, Nat.zero_add,
        Nat.div_eq_of_lt (by omega), Nat.div_eq_of_lt (Nat.sub_lt hw Nat.one_pos)]
    · have hone : l.length + width - 1 = (l.length - width + width - 1) + width := by omega
      rw [hone, Nat.add_div_right _ hw]
  rw [chunks, hcount, List.range_succ_eq_map, List.map_cons, List.map_map, chunks,
    List.length_drop, Nat.zero_mul, List.drop_zero]
  refine congrArg _ (List.map_congr_left fun i _ => ?_)
  rw [Function.comp_apply, List.drop_drop, Nat.succ_mul, Nat.add_comm]

end Chunks

/-! ### Words -/

/-- The words of a text: what stands between white space. -/
def words (s : List UInt8) : List (List UInt8) := (s.splitOnP isspace).filter (· ≠ [])

/-- The pieces of a text: its words, each cut after every `width` bytes. -/
def pieces (width : ℕ) (s : List UInt8) : List (List UInt8) := (words s).flatMap (chunks width)

theorem words_cons_of_isspace {c : UInt8} (hc : isspace c = true) (s : List UInt8) :
    words (c :: s) = words s := by
  rw [words, List.splitOnP_cons_eq_if_modifyHead, if_pos hc, List.filter_cons_of_neg (by simp),
    ← words]

/-- White space in front does not matter. -/
theorem words_skipSpace (s : List UInt8) : words (skipSpace s) = words s := by
  induction s with
  | nil => rfl
  | cons c s ih =>
    cases hc : isspace c with
    | true => rw [skipSpace_cons hc, ih, words_cons_of_isspace hc]
    | false => rw [skipSpace, List.dropWhile_cons_of_neg (by simp [hc])]

/-- A word in front of white space, or of nothing, is the first word. -/
theorem words_append {w rest : List UInt8} (hw : IsWord w)
    (hrest : ∀ c ∈ rest.head?, isspace c = true) : words (w ++ rest) = w :: words rest := by
  rcases rest with _ | ⟨c, rest⟩
  · rw [List.append_nil, words, List.splitOnP_eq_singleton hw.2,
      List.filter_cons_of_pos (by simpa using hw.1)]
    rfl
  · have hc : isspace c = true := hrest c rfl
    rw [words, List.splitOnP_append_cons_of_forall_mem hw.2 _ hc,
      List.filter_cons_of_pos (by simpa using hw.1), ← words, words_cons_of_isspace hc]

/-! ### Pieces -/

section Pieces

variable {width : ℕ}

/-- Bytes that are not white space, in front of white space or of nothing, are cut into
chunks. -/
theorem pieces_append (hwidth : 0 < width) {w rest : List UInt8}
    (hw : ∀ c ∈ w, isspace c = false) (hrest : ∀ c ∈ rest.head?, isspace c = true) :
    pieces width (w ++ rest) = chunks width w ++ pieces width rest := by
  by_cases hne : w = []
  · rw [hne, chunks_nil hwidth, List.nil_append, List.nil_append]
  · rw [pieces, words_append ⟨hne, hw⟩ hrest, List.flatMap_cons, pieces]

/-- **The end**: there is no piece just if there is nothing but white space. -/
theorem pieces_eq_nil {s : List UInt8} (h : skipSpace s = []) : pieces width s = [] := by
  rw [pieces, ← words_skipSpace, h]
  rfl

/-- **The step**: a conversion takes the first piece, and leaves the others. -/
theorem pieces_of_skipSpace (hwidth : 0 < width) {s t : List UInt8} (h : skipSpace s = t)
    (ht : t ≠ []) :
    pieces width s = (scanWordN width t).1 :: pieces width (scanWordN width t).2 := by
  -- `t` is a word `w` and what comes behind it
  let w := t.takeWhile fun c => !isspace c
  let rest := t.dropWhile fun c => !isspace c
  have hcut : w ++ rest = t := List.takeWhile_append_dropWhile
  have hw : ∀ c ∈ w, isspace c = false := fun c hc => by
    simpa using List.mem_takeWhile_imp hc
  have hrest : ∀ c ∈ rest.head?, isspace c = true := by
    intro c hc
    have hhead := List.head?_dropWhile_not (fun c => !isspace c) t
    rw [Option.mem_def] at hc
    simpa [rest, hc] using hhead
  have hne : w ≠ [] := by
    obtain ⟨c, t', rfl⟩ := List.exists_cons_of_ne_nil ht
    have hc : isspace c = false := by
      have hhead := List.head?_dropWhile_not isspace s
      rw [← skipSpace, h] at hhead
      exact hhead
    simp [w, hc]
  -- the conversion takes as much of `w` as the width allows
  have hscan : scanWordN width t = (w.take width, w.drop width ++ rest) := by
    have hword : (scanWord t).1 = w := by rw [scanWord, List.span_eq_takeWhile_dropWhile]
    have hlen : (w.take width).length ≤ w.length := (List.take_sublist _ _).length_le
    rw [scanWordN, hword, ← hcut, List.drop_append_of_le_length hlen, List.length_take]
    rcases Nat.le_total width w.length with hle | hle
    · rw [Nat.min_eq_left hle]
    · rw [Nat.min_eq_right hle, List.drop_length, List.drop_of_length_le hle]
  have hpieces : pieces width s = pieces width (w ++ rest) := by
    rw [pieces, ← words_skipSpace, h, ← hcut, ← pieces]
  rw [hpieces, pieces_append hwidth hw hrest, chunks_of_ne_nil hwidth hne, hscan,
    pieces_append hwidth (fun c hc => hw c (List.mem_of_mem_drop hc)) hrest, List.cons_append]

end Pieces

/-- The elements of a list two by two; a last one without a partner is left out. -/
def consecutive {α : Type*} : List α → List (α × α)
  | [] => []
  | [_] => []
  | x :: y :: l => (x, y) :: consecutive l

theorem length_consecutive {α : Type*} (l : List α) : (consecutive l).length = l.length / 2 := by
  induction l using consecutive.induct with
  | case1 => simp [consecutive]
  | case2 x => simp [consecutive]
  | case3 x y l ih =>
    rw [consecutive, List.length_cons, ih, List.length_cons, List.length_cons]
    omega

end CLib
