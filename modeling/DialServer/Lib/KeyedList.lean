import Mathlib.Data.List.Induction
import Mathlib.Data.List.InsertIdx
import Mathlib.Data.List.Nodup
import Mathlib.Data.List.Pairwise
import Mathlib.Data.Nat.Init
import Mathlib.Order.Nat

/-!
# Insertion-ordered maps as lists

A list whose entries carry a key is a finite map that remembers the order its
entries came in, as long as no key occurs twice. The two ways such a list is
changed both start with the same search (`KeyedList.slot`), which ends at the
first entry with the key or, when there is none, just past the last one:
`KeyedList.insertNew` appends an entry whose key is absent, and
`KeyedList.remove` takes out the entry found.

The keys stay distinct over any run of such operations
(`KeyedList.distinct_run`), and the entries can be dated: `KeyedList.exists_stamps`
gives each entry the moment of the insertion that put it there, the moments
increasing along the list, and `KeyedList.lookup_run_eq_some` reads a lookup off
the history – it finds what the last effective insertion of the key put there,
if nothing has removed it since.
-/

namespace KeyedList

variable {α β κ : Type*} [DecidableEq κ] (key : α → κ)

/-- The place of the first entry with the key `k`, or the length of the list. -/
def slot : List α → κ → ℕ
  | [], _ => 0
  | a :: l, k => if k = key a then 0 else slot l k + 1

/-- The entry with the key `k`. -/
def lookup (l : List α) (k : κ) : Option α := l[slot key l k]?

/-- Append an entry, unless its key is there already. -/
def insertNew (l : List α) (a : α) : List α :=
  match lookup key l (key a) with
  | some _ => l
  | none => l ++ [a]

/-- Take out the entry with the key `k`. -/
def remove (l : List α) (k : κ) : List α := l.eraseIdx (slot key l k)

/-- No key occurs twice. -/
def Distinct (l : List α) : Prop := (l.map key).Nodup

variable {key} {l : List α} {a b : α} {k k' : κ}

/-! ### The search -/

theorem slot_le_length : slot key l k ≤ l.length := by
  induction l with
  | nil => exact le_rfl
  | cons b l ih =>
    rw [slot, List.length_cons]
    split <;> omega

/-- **What a successful search finds**: an entry of the list with that key, and
none before it. -/
theorem key_of_lookup (h : lookup key l k = some a) : key a = k := by
  induction l with
  | nil => exact absurd h (by simp [lookup])
  | cons b l ih =>
    rw [lookup, slot] at h
    split at h
    · rename_i hk
      obtain rfl : b = a := by simpa using h
      exact hk.symm
    · rw [List.getElem?_cons_succ] at h
      exact ih h

theorem mem_of_lookup (h : lookup key l k = some a) : a ∈ l := List.mem_of_getElem? h

theorem lookup_eq_none : lookup key l k = none ↔ k ∉ l.map key := by
  induction l with
  | nil => simp [lookup]
  | cons b l ih =>
    rw [lookup, slot, List.map_cons, List.mem_cons, not_or]
    split
    · rename_i hk
      simp [hk]
    · rename_i hk
      rw [List.getElem?_cons_succ]
      exact ih.trans (and_iff_right hk).symm

theorem slot_eq_length (h : lookup key l k = none) : slot key l k = l.length :=
  le_antisymm slot_le_length (List.getElem?_eq_none_iff.mp h)

theorem slot_lt_length (h : lookup key l k = some a) : slot key l k < l.length :=
  (List.getElem?_eq_some_iff.mp h).1

/-- With distinct keys every entry is the one its key finds. -/
theorem lookup_of_mem (hd : Distinct key l) (h : a ∈ l) : lookup key l (key a) = some a := by
  induction l with
  | nil => exact absurd h (by simp)
  | cons b l ih =>
    obtain ⟨hb, hd'⟩ := List.nodup_cons.mp hd
    rw [lookup, slot]
    rcases List.mem_cons.mp h with rfl | hl
    · simp
    · have hne : key a ≠ key b := fun hc => hb (hc ▸ List.mem_map_of_mem hl)
      rw [if_neg hne, List.getElem?_cons_succ]
      exact ih hd' hl

/-- An entry elsewhere in a list with distinct keys has another key. -/
theorem key_ne_of_getElem? (hd : Distinct key l) {i : ℕ} (h : l[i]? = some a)
    (hi : i ≠ slot key l k) : key a ≠ k := by
  rintro rfl
  have hl := lookup_of_mem hd (List.mem_of_getElem? h)
  obtain ⟨h1, h1'⟩ := List.getElem?_eq_some_iff.mp h
  obtain ⟨h2, h2'⟩ := List.getElem?_eq_some_iff.mp hl
  exact hi (List.Nodup.getElem_inj_iff (List.Nodup.of_map key hd) |>.mp (h1'.trans h2'.symm))

/-- A search does not see what a map that keeps the keys does to the entries. -/
theorem slot_map {key' : β → κ} {f : α → β} (hf : ∀ a, key' (f a) = key a) :
    slot key' (l.map f) k = slot key l k := by
  induction l with
  | nil => rfl
  | cons b l ih => rw [List.map_cons, slot, slot, hf, ih]

/-- The search passes over the entries with other keys. -/
theorem takeWhile_eq_take_slot :
    l.takeWhile (fun a => !decide (k = key a)) = l.take (slot key l k) := by
  induction l with
  | nil => rfl
  | cons b l ih =>
    rw [slot]
    by_cases hk : k = key b
    · rw [if_pos hk, List.takeWhile_cons_of_neg (by simpa using hk), List.take_zero]
    · rw [if_neg hk, List.takeWhile_cons_of_pos (by simpa using hk), ih, List.take_succ_cons]

/-! ### Changing the entry found -/

/-- Replacing the entry found by one with the same key leaves the keys alone. -/
theorem map_set_slot (h : key a = k) : (l.set (slot key l k) a).map key = l.map key := by
  induction l with
  | nil => rfl
  | cons b l ih =>
    rw [slot]
    split
    · rename_i hk
      simp [h, hk]
    · rw [List.set_cons_succ, List.map_cons, ih, List.map_cons]

theorem slot_set_slot (h : key a = k) : slot key (l.set (slot key l k) a) k' = slot key l k' := by
  have hid : ∀ m : List α, slot id (m.map key) k' = slot key m k' := fun m =>
    slot_map fun _ => rfl
  rw [← hid, map_set_slot h, hid]

/-- The entry found is replaced, and no other. -/
theorem lookup_set_self (h : key a = k) (hl : lookup key l k = some b) :
    lookup key (l.set (slot key l k) a) k = some a := by
  rw [lookup, slot_set_slot h, List.getElem?_set_self (slot_lt_length hl)]

/-! ### Insertion and removal -/

theorem insertNew_of_none (h : lookup key l (key a) = none) : insertNew key l a = l ++ [a] := by
  rw [insertNew, h]

theorem insertNew_of_some (h : lookup key l (key a) = some b) : insertNew key l a = l := by
  rw [insertNew, h]

theorem remove_of_none (h : lookup key l k = none) : remove key l k = l :=
  List.eraseIdx_of_length_le (slot_eq_length h).ge

theorem distinct_insertNew (hd : Distinct key l) (a : α) : Distinct key (insertNew key l a) := by
  rcases h : lookup key l (key a) with _ | b
  · rw [insertNew_of_none h, Distinct, List.map_append]
    exact List.nodup_append'.mpr ⟨hd, by simp, by simpa using lookup_eq_none.mp h⟩
  · rwa [insertNew_of_some h]

theorem distinct_remove (hd : Distinct key l) (k : κ) : Distinct key (remove key l k) :=
  List.Nodup.sublist ((List.eraseIdx_sublist _ _).map key) hd

/-- What is left after a removal has another key. -/
theorem key_ne_of_mem_remove (hd : Distinct key l) (h : a ∈ remove key l k) : key a ≠ k := by
  obtain ⟨i, hi, hne⟩ := List.mem_eraseIdx_iff_getElem?.mp h
  exact key_ne_of_getElem? hd hne hi

/-- With distinct keys the entry found is the entry with the key. -/
theorem lookup_eq_some (hd : Distinct key l) : lookup key l k = some a ↔ a ∈ l ∧ key a = k := by
  constructor
  · exact fun h => ⟨mem_of_lookup h, key_of_lookup h⟩
  · rintro ⟨hmem, rfl⟩
    exact lookup_of_mem hd hmem

theorem lookup_insertNew_self (hd : Distinct key l) (h : lookup key l (key a) = none) :
    lookup key (insertNew key l a) (key a) = some a := by
  refine lookup_of_mem (distinct_insertNew hd a) ?_
  rw [insertNew_of_none h]
  exact List.mem_append_right _ List.mem_cons_self

/-- Inserting an entry leaves the other keys alone. -/
theorem lookup_insertNew_of_ne (hd : Distinct key l) (h : key a ≠ k) :
    lookup key (insertNew key l a) k = lookup key l k := by
  refine Option.ext fun b => ?_
  rw [lookup_eq_some (distinct_insertNew hd a), lookup_eq_some hd]
  refine and_congr_left fun hb => ?_
  rcases hl : lookup key l (key a) with _ | c
  · rw [insertNew_of_none hl, List.mem_append, List.mem_singleton]
    exact or_iff_left fun hc => h (by rw [← hc, hb])
  · rw [insertNew_of_some hl]

theorem lookup_remove_self (hd : Distinct key l) : lookup key (remove key l k) k = none := by
  rw [lookup_eq_none]
  intro hmem
  obtain ⟨a, ha, hak⟩ := List.mem_map.mp hmem
  exact key_ne_of_mem_remove hd ha hak

/-- Removing a key leaves the other keys alone. -/
theorem lookup_remove_of_ne (hd : Distinct key l) (h : k' ≠ k) :
    lookup key (remove key l k) k' = lookup key l k' := by
  refine Option.ext fun b => ?_
  rw [lookup_eq_some (distinct_remove hd k), lookup_eq_some hd]
  refine and_congr_left fun hb => ⟨List.mem_of_mem_eraseIdx, fun hmem => ?_⟩
  obtain ⟨i, hi⟩ := List.mem_iff_getElem?.mp hmem
  refine List.mem_eraseIdx_iff_getElem?.mpr ⟨i, fun hslot => ?_, hi⟩
  -- otherwise it is the entry that the search for the removed key finds
  rw [hslot] at hi
  exact h (hb.symm.trans (key_of_lookup hi))

/-! ### Runs -/

/-- One change of the list. -/
inductive Op (α κ : Type*)
  /-- Insert an entry, unless its key is there already. -/
  | insert (a : α) : Op α κ
  /-- Remove the entry with a key. -/
  | remove (k : κ) : Op α κ

variable (key) in
/-- What one operation does. -/
def step (l : List α) : Op α κ → List α
  | .insert a => insertNew key l a
  | .remove k => remove key l k

variable (key) in
/-- What a run of operations leaves, from the empty list. -/
def run (ops : List (Op α κ)) : List α := ops.foldl (step key) []

theorem run_append_singleton (ops : List (Op α κ)) (op : Op α κ) :
    run key (ops ++ [op]) = step key (run key ops) op := by
  rw [run, List.foldl_append]
  rfl

theorem distinct_step (hd : Distinct key l) (op : Op α κ) : Distinct key (step key l op) := by
  cases op with
  | insert a => exact distinct_insertNew hd a
  | remove k => exact distinct_remove hd k

/-- **The keys stay distinct over any run.** -/
theorem distinct_run (ops : List (Op α κ)) : Distinct key (run key ops) := by
  induction ops using List.reverseRecOn with
  | nil => exact List.nodup_nil
  | append_singleton ops op ih =>
    rw [run_append_singleton]
    exact distinct_step ih op

variable (key) in
/-- The insertion at the moment `t` of a run put the entry `a` into the list –
its key was absent – and nothing has removed its key since. -/
structure Live (ops : List (Op α κ)) (t : ℕ) (a : α) : Prop where
  /-- The operation at that moment is the insertion. -/
  inserted : ops[t]? = some (.insert a)
  /-- It took effect. -/
  absent : lookup key (run key (ops.take t)) (key a) = none
  /-- The key was not removed later. -/
  kept : ∀ t', t < t' → ops[t']? ≠ some (.remove (key a))

theorem Live.lt_length {ops : List (Op α κ)} {t : ℕ} (h : Live key ops t a) : t < ops.length :=
  (List.getElem?_eq_some_iff.mp h.inserted).1

/-- An operation that does not remove the key leaves an entry live. -/
theorem Live.snoc {ops : List (Op α κ)} {op : Op α κ} {t : ℕ} (h : Live key ops t a)
    (hop : op ≠ .remove (key a)) : Live key (ops ++ [op]) t a := by
  have ht := h.lt_length
  refine ⟨by rw [List.getElem?_append_left ht, h.inserted], ?_, fun t' htt' => ?_⟩
  · rw [List.take_append_of_le_length ht.le]
    exact h.absent
  · rcases lt_trichotomy t' ops.length with hlt | rfl | hgt
    · rw [List.getElem?_append_left hlt]
      exact h.kept t' htt'
    · simpa using hop
    · rw [List.getElem?_eq_none_iff.mpr (by simp; omega)]
      simp

variable (key) in
/-- **Every entry is dated**, and the list is in the order of the dates. -/
theorem exists_stamps (ops : List (Op α κ)) :
    ∃ stamps : List (ℕ × α), stamps.map Prod.snd = run key ops ∧
      stamps.Pairwise (fun p q => p.1 < q.1) ∧ ∀ p ∈ stamps, Live key ops p.1 p.2 := by
  induction ops using List.reverseRecOn with
  | nil => exact ⟨[], rfl, List.Pairwise.nil, by simp⟩
  | append_singleton ops op ih =>
    obtain ⟨stamps, hrun, hsorted, hlive⟩ := ih
    have hd : Distinct key (run key ops) := distinct_run ops
    rw [run_append_singleton]
    cases op with
    | insert a =>
      have hkeep : ∀ p ∈ stamps, Live key (ops ++ [Op.insert a]) p.1 p.2 := fun p hp =>
        (hlive p hp).snoc (by simp)
      -- an insertion that takes effect is dated by its place in the history
      rcases h : lookup key (run key ops) (key a) with _ | b
      · refine ⟨stamps ++ [(ops.length, a)], ?_, ?_, ?_⟩
        · rw [step, insertNew_of_none h, List.map_append, hrun]
          rfl
        · refine List.pairwise_append.mpr ⟨hsorted, List.pairwise_singleton _ _, ?_⟩
          intro p hp q hq
          obtain rfl : q = (ops.length, a) := by simpa using hq
          exact (hlive p hp).lt_length
        · intro p hp
          rcases List.mem_append.mp hp with hp | hp
          · exact hkeep p hp
          · obtain rfl : p = (ops.length, a) := by simpa using hp
            refine ⟨by simp, by simpa using h, fun t' ht' => ?_⟩
            rw [List.getElem?_eq_none_iff.mpr (by rw [List.length_append]; exact ht')]
            simp
      · exact ⟨stamps, by rw [step, insertNew_of_some h, hrun], hsorted, hkeep⟩
    | remove k =>
      -- a removal drops one entry and its date
      have hmem : ∀ p ∈ stamps.eraseIdx (slot key (run key ops) k),
          p.2 ∈ remove key (run key ops) k := by
        intro p hp
        rw [remove, ← hrun, List.eraseIdx_map]
        exact List.mem_map_of_mem (by rwa [← hrun] at hp)
      refine ⟨stamps.eraseIdx (slot key (run key ops) k), ?_,
        hsorted.sublist (List.eraseIdx_sublist _ _), fun p hp => ?_⟩
      · rw [step, remove, ← List.eraseIdx_map, hrun]
      · refine (hlive p (List.mem_of_mem_eraseIdx hp)).snoc fun hc => ?_
        exact key_ne_of_mem_remove hd (hmem p hp) (Op.remove.inj hc).symm

/-- A live entry is in the list: it is put in at its moment, and no later operation
takes it out. -/
theorem Live.mem_run {ops : List (Op α κ)} {t : ℕ} (h : Live key ops t a) : a ∈ run key ops := by
  have hstep : ∀ n, t < n → n ≤ ops.length → a ∈ run key (ops.take n) := by
    intro n htn
    -- the induction is on the operations since the insertion
    induction n, htn using Nat.le_induction with
    | base =>
      intro hn
      rw [List.take_add_one, h.inserted, Option.toList_some, run_append_singleton, step,
        insertNew_of_none h.absent]
      simp
    | succ n htn ih =>
      intro hn
      have hmem := ih (by omega)
      obtain ⟨op, hop⟩ : ∃ op, ops[n]? = some op := ⟨_, List.getElem?_eq_getElem (by omega)⟩
      rw [List.take_add_one, hop, Option.toList_some, run_append_singleton]
      cases op with
      | insert b =>
        rw [step, insertNew]
        split
        · exact hmem
        · exact List.mem_append_left _ hmem
      | remove k' =>
        have hne : key a ≠ k' := fun hc => h.kept n htn (hc ▸ hop)
        obtain ⟨i, hi⟩ := List.mem_iff_getElem?.mp hmem
        refine List.mem_eraseIdx_iff_getElem?.mpr ⟨i, fun hc => hne ?_, hi⟩
        have hfound : lookup key (run key (ops.take n)) k' = some a := by rw [lookup, ← hc, hi]
        exact key_of_lookup hfound
  simpa using hstep ops.length h.lt_length le_rfl

/-- **A lookup reads the history**: it finds exactly the entry of the last
insertion of the key that took effect, unless the key was removed after it. -/
theorem lookup_run_eq_some {ops : List (Op α κ)} :
    lookup key (run key ops) k = some a ↔ key a = k ∧ ∃ t, Live key ops t a := by
  constructor
  · intro h
    obtain ⟨stamps, hrun, -, hlive⟩ := exists_stamps key ops
    have hmem : a ∈ stamps.map Prod.snd := hrun ▸ mem_of_lookup h
    obtain ⟨p, hp, rfl⟩ := List.mem_map.mp hmem
    exact ⟨key_of_lookup h, p.1, hlive p hp⟩
  · rintro ⟨rfl, t, hlive⟩
    exact lookup_of_mem (distinct_run ops) hlive.mem_run

end KeyedList
