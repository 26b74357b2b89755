import Mathlib.Data.List.Basic

/-!
# Escaped texts

Two ways to write a text so that some characters lose their meaning. Either each of
them is replaced by an entity (`Escape.substitute`), or a mark announces that the two
characters after it stand for one (`Escape.Encodes`). The second has to be read from
left to right, and a text need not be one that anything was written as:
`Escape.decode` reads as far as it can and returns what is left. `Escape.Reading` keeps
the tokens that are read, and every text has exactly one.
-/

namespace Escape

variable {α : Type*}

/-! ### Entities -/

section Entities

variable (entity : α → Option (List α))

/-- What is written for a character. -/
def glyph (c : α) : List α := (entity c).getD [c]

/-- A text with every character that has an entity replaced by it. -/
def substitute (s : List α) : List α := s.flatMap (glyph entity)

@[simp] theorem substitute_nil : substitute entity [] = [] := rfl

@[simp] theorem substitute_cons (c : α) (s : List α) :
    substitute entity (c :: s) = glyph entity c ++ substitute entity s := rfl

/-- No text is longer than its longest entity for every character. -/
theorem length_substitute_le {n : ℕ} (h : ∀ c, (glyph entity c).length ≤ n) (s : List α) :
    (substitute entity s).length ≤ n * s.length := by
  induction s with
  | nil => exact Nat.zero_le _
  | cons c s ih =>
    have hc := h c
    rw [substitute_cons, List.length_append, List.length_cons, Nat.mul_succ]
    omega

/-- A character that is in no glyph is not in the text. -/
theorem notMem_substitute {x : α} (h : ∀ c, x ∉ glyph entity c) (s : List α) :
    x ∉ substitute entity s := by
  rw [substitute, List.mem_flatMap]
  rintro ⟨c, -, hc⟩
  exact h c hc

end Entities

/-! ### Entities resolved -/

section Resolve

variable [DecidableEq α]

/-- The text with every entity of the table replaced by its character, after `skip`
characters that belong to the entity before. -/
def resolve (names : List (List α × α)) : ℕ → List α → List α
  | _, [] => []
  | skip + 1, _ :: s => resolve names skip s
  | 0, c :: s =>
    match names.find? fun name => name.1 <+: c :: s with
    | some name => name.2 :: resolve names (name.1.length - 1) s
    | none => c :: resolve names 0 s

/-- **A table from which entities can be resolved**: each begins with a mark, the mark
itself is escaped, and no entity is the beginning of another. -/
structure Resolvable (entity : α → Option (List α)) (names : List (List α × α)) (mark : α) :
    Prop where
  /-- Every entity is in the table. -/
  complete : ∀ c e, entity c = some e → (e, c) ∈ names
  /-- An entity begins with the mark. -/
  marked : ∀ name ∈ names, name.1.head? = some mark
  /-- The mark has an entity. -/
  mark_escaped : (entity mark).isSome
  /-- No entity begins with another. -/
  prefixFree : ∀ name ∈ names, ∀ name' ∈ names, name.1 <+: name'.1 → name = name'

variable {entity : α → Option (List α)} {names : List (List α × α)} {mark : α}

/-- What belongs to an entity is skipped. -/
theorem resolve_append (l s : List α) : resolve names l.length (l ++ s) = resolve names 0 s := by
  induction l with
  | nil => rfl
  | cons c l ih => rw [List.length_cons, List.cons_append, resolve, ih]

/-- An entity of the table is found, whatever comes behind it. -/
theorem Resolvable.find_eq (h : Resolvable entity names mark) {e : List α} {c : α}
    (hmem : (e, c) ∈ names) (s : List α) :
    names.find? (fun name => name.1 <+: e ++ s) = some (e, c) := by
  have hfound : (names.find? fun name => name.1 <+: e ++ s).isSome :=
    List.find?_isSome.mpr ⟨(e, c), hmem, by simp⟩
  obtain ⟨name, hname⟩ := Option.isSome_iff_exists.mp hfound
  have hname_mem := List.mem_of_find?_eq_some hname
  have hprefix : name.1 <+: e ++ s := by simpa using List.find?_some hname
  -- two beginnings of one text: one of them begins with the other
  rcases List.prefix_or_prefix_of_prefix hprefix (List.prefix_append e s) with hle | hle
  · rw [hname, h.prefixFree _ hname_mem _ hmem hle]
  · rw [hname, h.prefixFree _ hmem _ hname_mem hle]

/-- A character without an entity begins none. -/
theorem Resolvable.find_eq_none (h : Resolvable entity names mark) {c : α} (hc : entity c = none)
    (s : List α) : names.find? (fun name => name.1 <+: c :: s) = none := by
  rw [List.find?_eq_none]
  intro name hmem hprefix
  have hprefix' : name.1 <+: c :: s := by simpa using hprefix
  have hhead := h.marked name hmem
  rcases hname : name.1 with _ | ⟨x, e⟩
  · rw [hname] at hhead
    exact absurd hhead (by simp)
  · rw [hname] at hhead hprefix'
    obtain ⟨rfl, -⟩ := List.cons_prefix_cons.mp hprefix'
    obtain rfl := Option.some.inj hhead
    have hescaped := h.mark_escaped
    rw [hc] at hescaped
    exact absurd hescaped (by simp)

/-- **Resolving undoes escaping.** -/
theorem Resolvable.resolve_substitute (h : Resolvable entity names mark) (s : List α) :
    resolve names 0 (substitute entity s) = s := by
  induction s with
  | nil => rfl
  | cons c s ih =>
    rw [substitute_cons, glyph]
    rcases hc : entity c with _ | e
    · rw [Option.getD_none, List.singleton_append, resolve, h.find_eq_none hc]
      exact congrArg (c :: ·) ih
    · have hmem := h.complete c e hc
      have hhead := h.marked _ hmem
      obtain ⟨x, e, rfl⟩ := List.exists_cons_of_ne_nil (l := e) (by rintro rfl; simp at hhead)
      rw [Option.getD_some, List.cons_append, resolve, ← List.cons_append, h.find_eq hmem]
      dsimp only
      rw [List.length_cons, Nat.add_sub_cancel, resolve_append, ih]

end Resolve

/-! ### Marked pairs -/

/-- An encoding by a mark and two characters behind it, in which a blank has a character
of its own. -/
structure PairCode (α : Type*) where
  /-- The character that is read as a blank. -/
  plus : α
  /-- The blank. -/
  blank : α
  /-- The mark. -/
  mark : α
  /-- What the two characters behind a mark stand for, if they stand for anything. -/
  pair : α → α → Option α
  /-- The two special characters differ. -/
  plus_ne_mark : plus ≠ mark

section Pairs

variable (code : PairCode α)

/-- The first text is written for the second one. -/
inductive Encodes : List α → List α → Prop
  | nil : Encodes [] []
  | blank {s t} : Encodes s t → Encodes (code.plus :: s) (code.blank :: t)
  | pair {x y c s t} : code.pair x y = some c → Encodes s t →
    Encodes (code.mark :: x :: y :: s) (c :: t)
  | plain {c s t} : c ≠ code.plus → c ≠ code.mark → Encodes s t → Encodes (c :: s) (c :: t)

/-- A text without special characters is written for itself. -/
theorem encodes_self {s : List α} (hplus : code.plus ∉ s) (hmark : code.mark ∉ s) :
    Encodes code s s := by
  induction s with
  | nil => exact .nil
  | cons c s ih =>
    obtain ⟨hc, hs⟩ := not_or.mp (fun h => hplus (List.mem_cons.mpr h))
    obtain ⟨hc', hs'⟩ := not_or.mp (fun h => hmark (List.mem_cons.mpr h))
    exact .plain (Ne.symm hc) (Ne.symm hc') (ih hs hs')

variable [DecidableEq α]

/-- Read a text from the left, up to a mark that is not followed by two characters that
stand for something: what was read, and what is left. -/
def decode : List α → List α × List α
  | [] => ([], [])
  | c :: s =>
    if c = code.plus then (code.blank :: (decode s).1, (decode s).2)
    else if c = code.mark then
      match s with
      | x :: y :: s' =>
        match code.pair x y with
        | some v => (v :: (decode s').1, (decode s').2)
        | none => ([], c :: x :: y :: s')
      | s' => ([], c :: s')
    else (c :: (decode s).1, (decode s).2)

theorem decode_plus (s : List α) :
    decode code (code.plus :: s) = (code.blank :: (decode code s).1, (decode code s).2) := by
  rw [decode.eq_def]
  exact if_pos rfl

theorem decode_pair {x y v : α} (h : code.pair x y = some v) (s : List α) :
    decode code (code.mark :: x :: y :: s) = (v :: (decode code s).1, (decode code s).2) := by
  rw [decode, if_neg code.plus_ne_mark.symm, if_pos rfl, h]

theorem decode_plain {c : α} (hplus : c ≠ code.plus) (hmark : c ≠ code.mark) (s : List α) :
    decode code (c :: s) = (c :: (decode code s).1, (decode code s).2) := by
  rw [decode.eq_def]
  dsimp only
  rw [if_neg hplus, if_neg hmark]

/-- Nothing is read behind a mark without its pair. -/
theorem decode_mark {s : List α} (h : ∀ x y s', s = x :: y :: s' → code.pair x y = none) :
    decode code (code.mark :: s) = ([], code.mark :: s) := by
  rw [decode.eq_def]
  dsimp only
  rw [if_neg code.plus_ne_mark.symm, if_pos rfl]
  split
  · rw [h _ _ _ rfl]
  · rfl

/-- **What was written is read**, and nothing is left. -/
theorem Encodes.decode_eq {s t : List α} (h : Encodes code s t) : decode code s = (t, []) := by
  induction h with
  | nil => rfl
  | blank _ ih => rw [decode_plus, ih]
  | pair hpair _ ih => rw [decode_pair code hpair, ih]
  | plain hplus hmark _ ih => rw [decode_plain code hplus hmark, ih]

/-- What is read with nothing left was written. -/
theorem encodes_of_decode {s t : List α} (h : decode code s = (t, [])) : Encodes code s t := by
  fun_induction decode code s generalizing t with
  | case1 =>
    rw [← (Prod.mk.inj h).1]
    exact .nil
  | case2 s ih =>
    obtain ⟨rfl, hrest⟩ := Prod.mk.inj h
    exact .blank (ih (Prod.ext rfl hrest))
  | case3 x y s v hpair _ ih =>
    obtain ⟨rfl, hrest⟩ := Prod.mk.inj h
    exact .pair hpair (ih (Prod.ext rfl hrest))
  | case4 => exact absurd (Prod.mk.inj h).2 (List.cons_ne_nil _ _)
  | case5 => exact absurd (Prod.mk.inj h).2 (List.cons_ne_nil _ _)
  | case6 c s hplus hmark ih =>
    obtain ⟨rfl, hrest⟩ := Prod.mk.inj h
    exact .plain hplus hmark (ih (Prod.ext rfl hrest))

/-- Behind what was written, reading goes on. -/
theorem Encodes.decode_append {s t : List α} (h : Encodes code s t) (rest : List α) :
    decode code (s ++ rest) = (t ++ (decode code rest).1, (decode code rest).2) := by
  induction h with
  | nil => rfl
  | blank _ ih => rw [List.cons_append, decode_plus, ih, List.cons_append]
  | pair hpair _ ih =>
    rw [List.cons_append, List.cons_append, List.cons_append, decode_pair code hpair, ih,
      List.cons_append]
  | plain hplus hmark _ ih =>
    rw [List.cons_append, decode_plain code hplus hmark, ih, List.cons_append]

/-- **A text without marks** is read as itself, with blanks. -/
theorem encodes_of_notMem {s : List α} (h : code.mark ∉ s) :
    Encodes code s (s.map fun c => if c = code.plus then code.blank else c) := by
  induction s with
  | nil => exact .nil
  | cons c s ih =>
    have hs := ih fun hc => h (List.mem_cons_of_mem _ hc)
    have hmark : c ≠ code.mark := fun hc => h (hc ▸ List.mem_cons_self)
    rw [List.map_cons]
    by_cases hplus : c = code.plus
    · rw [if_pos hplus, hplus]
      exact .blank hs
    · rw [if_neg hplus]
      exact .plain hplus hmark hs

/-- One text behind the other. -/
theorem Encodes.append {s t s' t' : List α} (h : Encodes code s t) (h' : Encodes code s' t') :
    Encodes code (s ++ s') (t ++ t') :=
  encodes_of_decode code (by rw [h.decode_append, h'.decode_eq])

/-- **A text with a mark is read as fewer characters**, when the mark is not one of a pair
and what comes behind the text starts with a mark. -/
theorem length_decode_append_le (hfirst : ∀ x, code.pair code.mark x = none)
    (hsecond : ∀ x, code.pair x code.mark = none) (s rest : List α) :
    (decode code (s ++ code.mark :: rest)).1.length + (if code.mark ∈ s then 1 else 0) ≤
      s.length + (decode code (code.mark :: rest)).1.length := by
  induction hn : s.length using Nat.strongRecOn generalizing s with
  | _ n ih =>
    rcases s with _ | ⟨c, s⟩
    · simp
    · rw [List.length_cons] at hn
      by_cases hmark : c = code.mark
      · subst hmark
        rw [if_pos List.mem_cons_self, List.cons_append]
        rcases s with _ | ⟨x, _ | ⟨y, s⟩⟩
        · rw [List.nil_append, decode_mark code fun x y s' heq => by
            rw [← (List.cons.inj heq).1]
            exact hfirst y]
          simp
          omega
        · rw [List.singleton_append, decode_mark code fun x' y s' heq => by
            obtain ⟨rfl, htail⟩ := List.cons.inj heq
            rw [← (List.cons.inj htail).1]
            exact hsecond x]
          simp
          omega
        · rw [List.cons_append, List.cons_append]
          cases hpair : code.pair x y with
          | none =>
            rw [decode_mark code fun x' y' s' heq => by
              obtain ⟨rfl, htail⟩ := List.cons.inj heq
              rwa [← (List.cons.inj htail).1]]
            simp
            omega
          | some v =>
            have hs := ih s.length (by simp at hn; omega) s rfl
            rw [decode_pair code hpair, List.length_cons]
            simp only [List.length_cons] at hn
            omega
      · have hs := ih s.length (by omega) s rfl
        have hmem : code.mark ∈ c :: s ↔ code.mark ∈ s := by
          rw [List.mem_cons, or_iff_right (Ne.symm hmark)]
        have hone : (decode code (c :: s ++ code.mark :: rest)).1.length =
            (decode code (s ++ code.mark :: rest)).1.length + 1 := by
          rw [List.cons_append]
          by_cases hplus : c = code.plus
          · rw [hplus, decode_plus, List.length_cons]
          · rw [decode_plain code hplus hmark, List.length_cons]
        rw [hone, if_congr hmem rfl rfl]
        omega

/-- No character stands for more than one. -/
theorem length_decode_le (s : List α) : (decode code s).1.length ≤ s.length := by
  fun_induction decode code s with
  | case1 => exact Nat.le_refl _
  | case2 s ih => exact Nat.succ_le_succ ih
  | case3 _ x y s v _ ih => exact Nat.succ_le_succ (Nat.le_succ_of_le (Nat.le_succ_of_le ih))
  | case4 => exact Nat.zero_le _
  | case5 => exact Nat.zero_le _
  | case6 _ s _ _ ih => exact Nat.succ_le_succ ih

end Pairs

/-! ### Tokens -/

section Tokens

variable (code : PairCode α)

/-- What is read as one character. -/
inductive Token
  | plus
  | pair (x y : α) (h : (code.pair x y).isSome)
  | plain (c : α) (hplus : c ≠ code.plus) (hmark : c ≠ code.mark)

/-- No token begins the text: it is at its end, or at a mark without its pair. -/
def Stuck (s : List α) : Prop :=
  s = [] ∨ ∃ s', s = code.mark :: s' ∧ ∀ x y s'', s' = x :: y :: s'' → code.pair x y = none

variable {code}

theorem stuck_mark {c : α} (hc : c = code.mark) {s : List α}
    (h : ∀ x y s', s = x :: y :: s' → code.pair x y = none) : Stuck code (c :: s) :=
  .inr ⟨s, by rw [hc], h⟩

/-- How a token is written. -/
def Token.text : Token code → List α
  | .plus => [code.plus]
  | .pair x y _ => [code.mark, x, y]
  | .plain c _ _ => [c]

/-- The character a token is read as. -/
def Token.value : Token code → α
  | .plus => code.blank
  | .pair x y h => (code.pair x y).get h
  | .plain c _ _ => c

/-- **A text tells its first token**, whatever comes behind it. -/
theorem Token.text_append_inj {t t' : Token code} {s s' : List α}
    (h : t.text ++ s = t'.text ++ s') : t = t' ∧ s = s' := by
  cases t with
  | plus =>
    cases t' with
    | plus => exact ⟨rfl, (List.cons.inj h).2⟩
    | pair => exact absurd (List.cons.inj h).1 code.plus_ne_mark
    | plain c hplus => exact absurd (List.cons.inj h).1.symm hplus
  | pair x y hxy =>
    cases t' with
    | plus => exact absurd (List.cons.inj h).1.symm code.plus_ne_mark
    | pair x' y' =>
      obtain ⟨rfl, htail⟩ := List.cons.inj (List.cons.inj h).2
      obtain ⟨rfl, hrest⟩ := List.cons.inj htail
      exact ⟨rfl, hrest⟩
    | plain c _ hmark => exact absurd (List.cons.inj h).1.symm hmark
  | plain c hplus hmark =>
    cases t' with
    | plus => exact absurd (List.cons.inj h).1 hplus
    | pair => exact absurd (List.cons.inj h).1 hmark
    | plain c' =>
      obtain ⟨rfl, hrest⟩ := List.cons.inj h
      exact ⟨rfl, hrest⟩

/-- Where a token begins, no text is stuck. -/
theorem Token.not_stuck (t : Token code) (s : List α) : ¬Stuck code (t.text ++ s) := by
  rintro (hnil | ⟨s', heq, hbad⟩)
  · cases t <;> exact List.cons_ne_nil _ _ hnil
  · cases t with
    | plus => exact code.plus_ne_mark (List.cons.inj heq).1
    | pair x y h =>
      rw [hbad x y s (List.cons.inj heq).2.symm] at h
      exact absurd h (by simp)
    | plain c _ hmark => exact hmark (List.cons.inj heq).1

variable (code)

/-- **A reading of a text**: the tokens it begins with, up to where it is stuck. -/
structure Reading (s : List α) where
  /-- The tokens. -/
  tokens : List (Token code)
  /-- What is left. -/
  tail : List α
  /-- Together they are the text. -/
  spells : tokens.flatMap Token.text ++ tail = s
  /-- No token begins what is left. -/
  stuck : Stuck code tail

variable {code}

/-- One token more in front. -/
def Reading.cons (t : Token code) {s s' : List α} (r : Reading code s) (h : t.text ++ s = s') :
    Reading code s' :=
  ⟨t :: r.tokens, r.tail, by rw [List.flatMap_cons, List.append_assoc, r.spells, h], r.stuck⟩

/-- Two lists of tokens that spell the same text up to where it is stuck. -/
theorem eq_of_spells {ts ts' : List (Token code)} {s s' : List α} (hs : Stuck code s)
    (hs' : Stuck code s')
    (h : ts.flatMap Token.text ++ s = ts'.flatMap Token.text ++ s') : ts = ts' ∧ s = s' := by
  induction ts generalizing ts' with
  | nil =>
    cases ts' with
    | nil => exact ⟨rfl, h⟩
    | cons t' ts' =>
      rw [List.flatMap_nil, List.nil_append, List.flatMap_cons, List.append_assoc] at h
      rw [h] at hs
      exact absurd hs (t'.not_stuck _)
  | cons t ts ih =>
    rw [List.flatMap_cons, List.append_assoc] at h
    cases ts' with
    | nil =>
      rw [List.flatMap_nil, List.nil_append] at h
      rw [← h] at hs'
      exact absurd hs' (t.not_stuck _)
    | cons t' ts' =>
      rw [List.flatMap_cons, List.append_assoc] at h
      obtain ⟨rfl, hrest⟩ := Token.text_append_inj h
      obtain ⟨rfl, hs⟩ := ih hrest
      exact ⟨rfl, hs⟩

variable (code) in
/-- Read a text from the left. -/
def read [DecidableEq α] : (s : List α) → Reading code s
  | [] => ⟨[], [], rfl, .inl rfl⟩
  | c :: s =>
    if hplus : c = code.plus then (read s).cons .plus (by rw [hplus]; rfl)
    else if hmark : c = code.mark then
      match s with
      | x :: y :: s' =>
        if hpair : (code.pair x y).isSome then
          (read s').cons (.pair x y hpair) (by rw [hmark]; rfl)
        else
          ⟨[], c :: x :: y :: s', rfl, stuck_mark hmark fun x' y' s'' heq => by
            obtain ⟨rfl, htail⟩ := List.cons.inj heq
            obtain ⟨rfl, -⟩ := List.cons.inj htail
            rwa [Option.not_isSome_iff_eq_none] at hpair⟩
      | [x] => ⟨[], [c, x], rfl, stuck_mark hmark (by simp)⟩
      | [] => ⟨[], [c], rfl, stuck_mark hmark (by simp)⟩
    else (read s).cons (.plain c hplus hmark) rfl

/-- **Every text has one reading.** -/
instance [DecidableEq α] (s : List α) : Unique (Reading code s) where
  default := read code s
  uniq r := by
    obtain ⟨ts, tail, hspells, hstuck⟩ := r
    obtain ⟨ts', tail', hspells', hstuck'⟩ := read code s
    obtain ⟨rfl, rfl⟩ := eq_of_spells hstuck hstuck' (hspells.trans hspells'.symm)
    rfl

/-- **What is decoded of a text** is what its tokens are read as. -/
theorem Reading.decode_eq [DecidableEq α] {s : List α} (r : Reading code s) :
    decode code s = (r.tokens.map Token.value, r.tail) := by
  obtain ⟨ts, tail, rfl, hstuck⟩ := r
  induction ts with
  | nil =>
    rcases hstuck with rfl | ⟨s, rfl, hbad⟩
    · rfl
    · exact decode_mark code hbad
  | cons t ts ih =>
    have hfirst : ∀ s, decode code (t.text ++ s) =
        (t.value :: (decode code s).1, (decode code s).2) := by
      cases t with
      | plus => exact decode_plus code
      | pair x y h => exact decode_pair code (Option.some_get h).symm
      | plain c hplus hmark => exact decode_plain code hplus hmark
    dsimp only at ih ⊢
    rw [List.flatMap_cons, List.append_assoc, hfirst, ih, List.map_cons]

end Tokens

end Escape
