import Mathlib.Algebra.Ring.Parity

/-!
# Command lines

How the command interpreter of Windows reads a line. It first replaces the variables
(`CommandLine.expand`). Then it goes through the line with one of three things in mind: whether
it is inside double quotes, outside them, or behind a caret that takes the next byte's meaning away
(`CommandLine.Quoting`). Outside quotes a separator ends the command, a blank ends the argument, and
a caret is dropped; inside, all of them stand for themselves. What is left of an argument
is `CommandLine.argument`.

`CommandLine.prefix_argument_iff` says which texts, put into an argument with a separator
behind them, come out as they are: those whose separators, blanks and carets are all inside
quotes, and that leave the quotes open. By `CommandLine.kept_iff_odd` that is a matter of counting
quotes. The point to prove is that a dropped caret is never made up for
(`CommandLine.not_prefix_of_dropped`).
-/

namespace CommandLine

/-! ### Variables -/

/-- A text between two percent signs is replaced if it names a variable, with the percent signs;
otherwise the first of them stays. -/
def expand (env : List UInt8 → Option (List UInt8)) : List UInt8 → List UInt8
  | [] => []
  | c :: l =>
    if c = '%'.toUInt8 ∧ '%'.toUInt8 ∈ l then
      match env (l.takeWhile (· ≠ '%'.toUInt8)) with
      | some value => value ++ expand env (l.dropWhile (· ≠ '%'.toUInt8)).tail
      | none => c :: expand env l
    else c :: expand env l
termination_by l => l.length
decreasing_by
  · have hsub := (List.dropWhile_suffix (l := l) (· ≠ '%'.toUInt8)).length_le
    rw [List.length_tail, List.length_cons]
    omega
  · exact Nat.lt_succ_self _
  · exact Nat.lt_succ_self _

/-- With `rest` behind `l`, no text between two percent signs names a variable if the first of
them is in `l`. -/
def Unnamed (env : List UInt8 → Option (List UInt8)) (l rest : List UInt8) : Prop :=
  ∀ t name u, '%'.toUInt8 :: t <:+ l → '%'.toUInt8 ∉ name → t ++ rest = name ++ '%'.toUInt8 :: u →
    env name = none

/-- What is in front of a percent sign, of a text that has one. -/
theorem exists_eq_takeWhile {l : List UInt8} (h : '%'.toUInt8 ∈ l) :
    '%'.toUInt8 ∉ l.takeWhile (· ≠ '%'.toUInt8) ∧
      ∃ u, l = l.takeWhile (· ≠ '%'.toUInt8) ++ '%'.toUInt8 :: u := by
  obtain ⟨name, u, rfl, hname⟩ := List.eq_append_cons_of_mem h
  have hfirst : (name ++ '%'.toUInt8 :: u).takeWhile (· ≠ '%'.toUInt8) = name := by
    have hpos : ∀ c ∈ name, decide (c ≠ '%'.toUInt8) = true := fun c hc =>
      decide_eq_true fun heq => hname (heq ▸ hc)
    rw [List.takeWhile_append_of_pos hpos, List.takeWhile_cons_of_neg (by simp), List.append_nil]
  rw [hfirst]
  exact ⟨hname, u, rfl⟩

/-- **Then `l` stays as it is.** -/
theorem expand_append {env : List UInt8 → Option (List UInt8)} {l rest : List UInt8}
    (h : Unnamed env l rest) : expand env (l ++ rest) = l ++ expand env rest := by
  induction l with
  | nil => rfl
  | cons c l ih =>
    have htail : expand env (l ++ rest) = l ++ expand env rest :=
      ih fun t name u hsuffix => h t name u (hsuffix.trans (List.suffix_cons c l))
    rw [List.cons_append, expand]
    split
    · rename_i hmark
      obtain ⟨rfl, hmem⟩ := hmark
      obtain ⟨hname, u, hu⟩ := exists_eq_takeWhile hmem
      rw [h l _ u List.suffix_rfl hname hu, htail, List.cons_append]
    · rw [htail, List.cons_append]

/-! ### Quotes and carets -/

/-- What the next byte is read as. -/
inductive Quoting
  /-- Outside double quotes. -/
  | outside
  /-- Inside double quotes. -/
  | inside
  /-- Behind a caret outside them. -/
  | escaped
  deriving DecidableEq

/-- One byte further. -/
def step : Quoting → UInt8 → Quoting
  | .outside, c =>
    if c = '\"'.toUInt8 then .inside else if c = '^'.toUInt8 then .escaped else .outside
  | .inside, c => if c = '\"'.toUInt8 then .outside else .inside
  | .escaped, _ => .outside

/-- Behind a text. -/
def scan (q : Quoting) (l : List UInt8) : Quoting := l.foldl step q

/-- What separates commands, or redirects. -/
def isSeparator (c : UInt8) : Bool :=
  c = '&'.toUInt8 || c = '|'.toUInt8 || c = '<'.toUInt8 || c = '>'.toUInt8

/-- What separates arguments. -/
def isBlank (c : UInt8) : Bool := c = ' '.toUInt8 || c = '\t'.toUInt8

/-- What does not stand for itself outside quotes, quotes apart. -/
def isSpecial (c : UInt8) : Bool := isSeparator c || isBlank c || c = '^'.toUInt8

/-- The argument that a text begins with. An escaped blank is no different from another for the
program that gets the argument. -/
def argument : Quoting → List UInt8 → List UInt8
  | _, [] => []
  | .outside, c :: l =>
    if isSeparator c ∨ isBlank c then []
    else if c = '^'.toUInt8 then argument .escaped l
    else c :: argument (step .outside c) l
  | .inside, c :: l => c :: argument (step .inside c) l
  | .escaped, c :: l => if isBlank c then [] else c :: argument .outside l

/-- Behind a caret even a quote is only a quote. -/
example : argument .outside ['^'.toUInt8, '\"'.toUInt8, '&'.toUInt8] = ['\"'.toUInt8] := by decide

/-- Every special byte of a text stands inside quotes. -/
def Kept : Quoting → List UInt8 → Prop
  | _, [] => True
  | q, c :: l => (isSpecial c = true → q = .inside) ∧ Kept (step q c) l

instance decidableKept : (q : Quoting) → (l : List UInt8) → Decidable (Kept q l)
  | _, [] => isTrue trivial
  | q, c :: l => @instDecidableAnd _ _ inferInstance (decidableKept (step q c) l)

theorem scan_append (q : Quoting) (l s : List UInt8) : scan q (l ++ s) = scan (scan q l) s :=
  List.foldl_append

theorem kept_append {q : Quoting} {l s : List UInt8} :
    Kept q (l ++ s) ↔ Kept q l ∧ Kept (scan q l) s := by
  induction l generalizing q with
  | nil => exact (and_iff_right trivial).symm
  | cons c l ih =>
    rw [List.cons_append, Kept, Kept, ih, and_assoc]
    rfl

section Argument

variable {q : Quoting} {c d : UInt8} {l s rest : List UInt8}

/-- What does not stand for itself is one of six bytes. -/
theorem isSpecial_eq_false :
    isSpecial c = false ↔ isSeparator c = false ∧ isBlank c = false ∧ c ≠ '^'.toUInt8 := by
  rw [isSpecial, Bool.or_eq_false_iff, Bool.or_eq_false_iff, decide_eq_false_iff_not, and_assoc]

theorem ne_caret_of_isSeparator (h : isSeparator d = true) : d ≠ '^'.toUInt8 := by
  rintro rfl
  exact absurd h (by decide)

theorem isBlank_of_isSeparator (h : isSeparator d = true) : isBlank d = false := by
  rw [isBlank, Bool.or_eq_false_iff, decide_eq_false_iff_not, decide_eq_false_iff_not]
  constructor
  · rintro rfl
    exact absurd h (by decide)
  · rintro rfl
    exact absurd h (by decide)

/-- A plain byte outside quotes. -/
theorem argument_outside_cons (hc : isSpecial c = false) :
    argument .outside (c :: l) = c :: argument (step .outside c) l := by
  obtain ⟨hseparator, hblank, hcaret⟩ := isSpecial_eq_false.mp hc
  rw [argument, if_neg (by simp [hseparator, hblank]), if_neg hcaret]

theorem step_outside_ne_escaped (hc : isSpecial c = false) : step .outside c ≠ .escaped := by
  rw [step, if_neg (isSpecial_eq_false.mp hc).2.2]
  split <;> simp

theorem step_inside_ne_escaped (c : UInt8) : step .inside c ≠ .escaped := by
  rw [step]
  split <;> simp

/-- **A dropped caret is not made up for**: while carets are missing, the next byte that comes out
has to be a caret, and one that does come out is missing where it stood. -/
theorem not_prefix_of_dropped (hd : isSeparator d = true) (k : ℕ) (q : Quoting)
    (s rest : List UInt8) :
    ¬List.replicate (k + 1) '^'.toUInt8 ++ (s ++ [d]) <+: argument q (s ++ d :: rest) := by
  induction s generalizing k q with
  | nil =>
    -- the separator comes first, if anything does
    intro h
    rw [List.nil_append, List.nil_append, List.replicate_succ, List.cons_append] at h
    cases q with
    | outside =>
      rw [argument, if_pos (.inl hd)] at h
      exact absurd h.length_le (by simp)
    | inside => exact ne_caret_of_isSeparator hd (List.cons_prefix_cons.mp h).1.symm
    | escaped =>
      rw [argument, if_neg (by simp [isBlank_of_isSeparator hd])] at h
      exact ne_caret_of_isSeparator hd (List.cons_prefix_cons.mp h).1.symm
  | cons c s ih =>
    intro h
    rw [List.cons_append, List.cons_append, List.replicate_succ, List.cons_append] at h
    have hshift : List.replicate k '^'.toUInt8 ++ '^'.toUInt8 :: (s ++ [d]) =
        List.replicate (k + 1) '^'.toUInt8 ++ (s ++ [d]) := by
      rw [List.replicate_succ', List.append_assoc, List.singleton_append]
    cases q with
    | outside =>
      rw [argument] at h
      split_ifs at h with hend hcaret
      · exact absurd h.length_le (by simp)
      · -- one more is missing
        subst hcaret
        rw [hshift, ← List.cons_append, ← List.replicate_succ] at h
        exact ih (k + 1) .escaped h
      · exact hcaret (List.cons_prefix_cons.mp h).1.symm
    | inside =>
      rw [argument, List.cons_prefix_cons] at h
      obtain ⟨rfl, h⟩ := h
      rw [hshift] at h
      exact ih k _ h
    | escaped =>
      rw [argument] at h
      split_ifs at h with hblank
      · exact absurd h.length_le (by simp)
      · obtain ⟨rfl, h⟩ := List.cons_prefix_cons.mp h
        rw [hshift] at h
        exact ih k _ h

/-- **A text comes out as it is, with a separator behind it**, exactly when its special bytes are
inside quotes and it leaves the quotes open. -/
theorem prefix_argument_iff (hd : isSeparator d = true) (hq : q ≠ .escaped)
    (s rest : List UInt8) :
    s ++ [d] <+: argument q (s ++ d :: rest) ↔ Kept q s ∧ scan q s = .inside := by
  induction s generalizing q with
  | nil =>
    cases q with
    | outside =>
      rw [List.nil_append, List.nil_append, argument, if_pos (.inl hd)]
      exact iff_of_false (fun h => absurd h.length_le (by simp))
        fun h => absurd h.2 (by simp [scan])
    | inside =>
      refine iff_of_true ?_ ⟨trivial, rfl⟩
      exact List.cons_prefix_cons.mpr ⟨rfl, List.nil_prefix⟩
    | escaped => exact absurd rfl hq
  | cons c s ih =>
    cases q with
    | outside =>
      cases hspecial : isSpecial c with
      | false =>
        rw [List.cons_append, List.cons_append, argument_outside_cons hspecial,
          List.cons_prefix_cons, ih (step_outside_ne_escaped hspecial)]
        simp [Kept, scan, hspecial]
      | true =>
        refine iff_of_false (fun h => ?_) fun h => absurd (h.1.1 hspecial) (by simp)
        rw [List.cons_append, List.cons_append, argument] at h
        split_ifs at h with hend hcaret
        · exact absurd h.length_le (by simp)
        · subst hcaret
          exact not_prefix_of_dropped hd 0 .escaped s rest h
        · rw [isSpecial_eq_false.mpr ⟨by simpa using fun h => hend (.inl h),
            by simpa using fun h => hend (.inr h), hcaret⟩] at hspecial
          exact absurd hspecial (by simp)
    | inside =>
      rw [List.cons_append, List.cons_append, argument, List.cons_prefix_cons,
        ih (step_inside_ne_escaped c)]
      simp [Kept, scan]
    | escaped => exact absurd rfl hq

end Argument

/-! ### Counting quotes -/

/-- How many double quotes there are. -/
def quotes (l : List UInt8) : ℕ := l.count '\"'.toUInt8

/-- The place behind some quotes, when nothing was escaped. -/
def ofQuotes (n : ℕ) : Quoting := if Odd n then .inside else .outside

theorem ofQuotes_eq_inside {n : ℕ} : ofQuotes n = .inside ↔ Odd n := by
  rw [ofQuotes]
  split_ifs with h
  · exact iff_of_true rfl h
  · exact iff_of_false (by simp) h

/-- A quote changes the place, and nothing else does. -/
theorem step_ofQuotes {n : ℕ} {c : UInt8} (hc : isSpecial c = true → Odd n) :
    step (ofQuotes n) c = ofQuotes (n + quotes [c]) := by
  by_cases hquote : c = '\"'.toUInt8
  · subst hquote
    have hone : quotes ['\"'.toUInt8] = 1 := rfl
    rw [hone, ofQuotes, ofQuotes]
    by_cases hodd : Odd n
    · rw [if_pos hodd, if_neg (Nat.not_odd_iff_even.mpr hodd.add_one)]
      rfl
    · rw [if_neg hodd, if_pos (Nat.not_odd_iff_even.mp hodd).add_one]
      rfl
  · have hzero : quotes [c] = 0 := List.count_eq_zero.mpr fun hmem =>
      hquote (List.mem_singleton.mp hmem).symm
    rw [hzero, Nat.add_zero, ofQuotes]
    by_cases hodd : Odd n
    · rw [if_pos hodd, step, if_neg hquote]
    · have hplain : isSpecial c = false := Bool.eq_false_iff.mpr fun h => hodd (hc h)
      rw [if_neg hodd, step, if_neg hquote, if_neg (isSpecial_eq_false.mp hplain).2.2]

/-- **What is kept is a matter of counting quotes**: each special byte stands behind an odd number
of them, and so does the end. -/
theorem kept_iff_odd (n : ℕ) (l : List UInt8) :
    (Kept (ofQuotes n) l ∧ scan (ofQuotes n) l = .inside) ↔
      (∀ i c, l[i]? = some c → isSpecial c = true → Odd (n + quotes (l.take i))) ∧
        Odd (n + quotes l) := by
  induction l generalizing n with
  | nil =>
    rw [scan, List.foldl_nil, ofQuotes_eq_inside]
    exact ⟨fun h => ⟨fun i c hc => absurd hc (by simp), h.2⟩, fun h => ⟨trivial, h.2⟩⟩
  | cons c l ih =>
    have hcount : ∀ m, quotes (c :: m) = quotes [c] + quotes m := fun m => by
      rw [quotes, ← List.singleton_append, List.count_append]
      rfl
    have hfirst : (∀ i d, (c :: l)[i]? = some d → isSpecial d = true →
          Odd (n + quotes ((c :: l).take i))) ↔
        (isSpecial c = true → Odd n) ∧ ∀ i d, l[i]? = some d → isSpecial d = true →
          Odd (n + quotes [c] + quotes (l.take i)) := by
      rw [← Nat.and_forall_add_one]
      refine and_congr (by simp [quotes]) (forall_congr' fun i => ?_)
      rw [List.getElem?_cons_succ, List.take_succ_cons, hcount (l.take i), Nat.add_assoc]
    rw [hfirst, hcount l, ← Nat.add_assoc, and_assoc, ← ih, Kept, ofQuotes_eq_inside, and_assoc]
    refine and_congr_right fun hc => ?_
    rw [scan, List.foldl_cons, step_ofQuotes hc]
    rfl

end CommandLine
