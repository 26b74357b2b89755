import Mathlib.Data.List.Basic

/-!
# Rewriting a text where it stands

A text is rewritten by a rule: the rule looks at the next element and at what stands behind it,
and says what is written for it and how many of the elements behind it are passed over.
`InPlace.rewrite` does so from one list to another. `InPlace.run` does so where the text
stands, with one index to read at and one to write at. As long as it does not write in front of
where it reads, it never overwrites what is still to be read, so both do the same
(`InPlace.run_eq`).

A rule that writes every element it looks at only leaves elements out
(`InPlace.rewrite_sublist`), and leaves the text alone if and only if it never passes over
anything (`InPlace.rewrite_eq_self_iff`).
-/

namespace InPlace

variable {α : Type*} (rule : α → List α → α × ℕ)

/-- Rewrite a text, of which the first `k` elements are passed over. -/
def rewrite : ℕ → List α → List α
  | _, [] => []
  | 0, c :: rest => (rule c rest).1 :: rewrite (rule c rest).2 rest
  | k + 1, _ :: rest => rewrite k rest

/-- Rewrite a text where it stands: what is in its place then, and where writing stopped. It is
read from `i` on and written from `j` on, in at most `fuel` steps. -/
def run : ℕ → List α → ℕ → ℕ → List α × ℕ
  | 0, text, _, j => (text, j)
  | fuel + 1, text, i, j =>
    match text.drop i with
    | [] => (text, j)
    | c :: rest => run fuel (text.set j (rule c rest).1) (i + 1 + (rule c rest).2) (j + 1)

variable {rule}

theorem rewrite_drop (k : ℕ) (text : List α) :
    rewrite rule 0 (text.drop k) = rewrite rule k text := by
  induction text generalizing k with
  | nil => rw [List.drop_nil]; cases k <;> rfl
  | cons c rest ih =>
    cases k with
    | zero => rfl
    | succ k => exact ih k

/-- One step further. -/
theorem rewrite_cons (c : α) (rest : List α) :
    rewrite rule 0 (c :: rest) = (rule c rest).1 :: rewrite rule 0 (rest.drop (rule c rest).2) := by
  rw [rewrite_drop, rewrite]

/-- **Where it stands, a text is rewritten as it would be elsewhere.** -/
theorem run_eq {fuel i j : ℕ} {text : List α} (hji : j ≤ i) (hfuel : text.length ≤ i + fuel) :
    (run rule fuel text i j).1.take (run rule fuel text i j).2 =
      text.take j ++ rewrite rule 0 (text.drop i) := by
  induction fuel generalizing i j text with
  | zero =>
    rw [run, List.drop_eq_nil_of_le (Nat.add_zero i ▸ hfuel), rewrite, List.append_nil]
  | succ fuel ih =>
    rw [run]
    cases hrest : text.drop i with
    | nil => rw [rewrite, List.append_nil]
    | cons c rest =>
      have hi : i < text.length := by
        by_contra hle
        rw [List.drop_eq_nil_of_le (Nat.le_of_not_lt hle)] at hrest
        cases hrest
      have hlen : (text.set j (rule c rest).1).length ≤ i + 1 + (rule c rest).2 + fuel := by
        rw [List.length_set]
        omega
      -- What is written stands in front of what is read next.
      have hnext : (text.set j (rule c rest).1).drop (i + 1 + (rule c rest).2) =
          rest.drop (rule c rest).2 := by
        rw [List.drop_set_of_lt (by omega), ← List.drop_drop, ← List.drop_drop, hrest,
          List.drop_one, List.tail_cons]
      have hwritten : (text.set j (rule c rest).1).take (j + 1) =
          text.take j ++ [(rule c rest).1] := by
        rw [List.take_add_one, List.take_set_of_le (Nat.le_refl j),
          List.getElem?_set_self (by omega)]
        rfl
      dsimp only
      rw [ih (by omega) hlen, hnext, hwritten, rewrite_cons, List.append_assoc]
      rfl

/-- From its start to its end. -/
theorem run_whole (rule : α → List α → α × ℕ) (text : List α) :
    (run rule text.length text 0 0).1.take (run rule text.length text 0 0).2 =
      rewrite rule 0 text := by
  rw [run_eq (Nat.le_refl 0) (Nat.le_of_eq (Nat.zero_add _).symm), List.take_zero,
    List.nil_append, List.drop_zero]

/-! ### Rules that only leave out -/

section Copying

variable (hcopy : ∀ c rest, (rule c rest).1 = c)
include hcopy

theorem rewrite_sublist (k : ℕ) (text : List α) : List.Sublist (rewrite rule k text) text := by
  induction text generalizing k with
  | nil => cases k <;> exact List.Sublist.slnil
  | cons c rest ih =>
    cases k with
    | zero =>
      rw [rewrite, hcopy]
      exact (ih _).cons_cons c
    | succ k => exact (ih k).cons c

/-- **A text is left alone** if and only if nothing of it is passed over. -/
theorem rewrite_eq_self_iff (hbound : ∀ c rest, (rule c rest).2 ≤ rest.length) (text : List α) :
    rewrite rule 0 text = text ↔ ∀ c rest, c :: rest <:+ text → (rule c rest).2 = 0 := by
  induction text with
  | nil =>
    refine iff_of_true rfl fun c rest h => ?_
    exact absurd (List.suffix_nil.mp h) (List.cons_ne_nil _ _)
  | cons c rest ih =>
    have hstep : rewrite rule 0 (c :: rest) = c :: rest ↔
        (rule c rest).2 = 0 ∧ rewrite rule 0 rest = rest := by
      rw [rewrite_cons, hcopy, List.cons.injEq]
      constructor
      · rintro ⟨-, heq⟩
        have hlen := (rewrite_sublist hcopy 0 (rest.drop (rule c rest).2)).length_le
        rw [heq, List.length_drop] at hlen
        have hzero : (rule c rest).2 = 0 := by
          have := hbound c rest
          omega
        rw [hzero, List.drop_zero] at heq
        exact ⟨hzero, heq⟩
      · rintro ⟨hzero, heq⟩
        rw [hzero, List.drop_zero]
        exact ⟨rfl, heq⟩
    rw [hstep, ih]
    constructor
    · rintro ⟨hzero, hrest⟩ c' rest' hsuffix
      rcases List.suffix_cons_iff.mp hsuffix with heq | hsuffix
      · obtain ⟨rfl, rfl⟩ := List.cons.inj heq
        exact hzero
      · exact hrest c' rest' hsuffix
    · intro hall
      exact ⟨hall c rest (List.suffix_refl _), fun c' rest' hsuffix =>
        hall c' rest' (hsuffix.trans (List.suffix_cons c rest))⟩

end Copying

end InPlace
