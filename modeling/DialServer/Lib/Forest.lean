import Mathlib.Data.List.Nodup
import Mathlib.Logic.Relation

/-!
# Forests that are flattened at their roots

A forest is given by the relation `child` of a node to the nodes directly under it, in
which no node is under two others. A flattening keeps at every root the list of all the
nodes below it, each once, and nothing at the other nodes: `Forest.Flattens`. Grafting puts
a new root over some of the roots, and moves their lists into its own; the result,
`Forest.Flattens.graft`, is a flattening again.
-/

namespace Forest

open Relation

variable {α : Type*} {child : α → α → Prop}

/-- A node that is under no other. -/
def IsRoot (child : α → α → Prop) (r : α) : Prop := ∀ p, ¬child p r

/-- **A node is in the tree of one root only.** -/
theorem root_unique (hunique : Relator.LeftUnique child) {r r' q : α} (hr : IsRoot child r)
    (hr' : IsRoot child r') (h : ReflTransGen child r q) (h' : ReflTransGen child r' q) :
    r = r' := by
  have hback : Relator.RightUnique (Function.swap child) := fun _ _ _ hp hp' => hunique hp hp'
  have hup := ReflTransGen.total_of_right_unique hback (reflTransGen_swap.mpr h)
    (reflTransGen_swap.mpr h')
  rcases hup with hup | hup
  · rcases (ReflTransGen.cases_head hup) with heq | ⟨p, hp, -⟩
    · exact heq
    · exact absurd hp (hr p)
  · rcases (ReflTransGen.cases_head hup) with heq | ⟨p, hp, -⟩
    · exact heq.symm
    · exact absurd hp (hr' p)

/-! ### A new root -/

/-- The forest with `this` over the nodes `cs`. -/
def graft (child : α → α → Prop) (this : α) (cs : List α) (p q : α) : Prop :=
  child p q ∨ p = this ∧ q ∈ cs

section Graft

variable {this : α} {cs : List α}

theorem leftUnique_graft (hunique : Relator.LeftUnique child)
    (hroots : ∀ c ∈ cs, IsRoot child c) : Relator.LeftUnique (graft child this cs) := by
  rintro p q p' (hp | ⟨rfl, hq⟩) (hp' | ⟨rfl, hq'⟩)
  · exact hunique hp hp'
  · exact absurd hp (hroots _ hq' _)
  · exact absurd hp' (hroots _ hq _)
  · rfl

theorem isRoot_graft {q : α} :
    IsRoot (graft child this cs) q ↔ IsRoot child q ∧ q ∉ cs := by
  constructor
  · intro h
    exact ⟨fun p hp => h p (.inl hp), fun hq => h this (.inr ⟨rfl, hq⟩)⟩
  · rintro ⟨hroot, hq⟩ p (hp | ⟨-, hq'⟩)
    · exact hroot p hp
    · exact hq hq'

/-- Below an old node nothing changes. -/
theorem transGen_graft_of_ne (hroot : IsRoot child this) (hthis : this ∉ cs) {p q : α}
    (hp : p ≠ this) : TransGen (graft child this cs) p q ↔ TransGen child p q := by
  constructor
  · intro h
    induction h with
    | single hstep =>
      rcases hstep with hstep | ⟨rfl, -⟩
      · exact .single hstep
      · exact absurd rfl hp
    | @tail b c _ hstep ih =>
      rcases hstep with hstep | ⟨rfl, -⟩
      · exact ih.tail hstep
      · obtain ⟨d, -, hd⟩ := TransGen.tail'_iff.mp ih
        exact absurd hd (hroot d)
  · exact fun h => h.lift id fun _ _ hstep => .inl hstep

/-- Below the new root are the nodes it was put over, and what is below them. -/
theorem transGen_graft_this (hroot : IsRoot child this) (hleaf : ∀ q, ¬child this q)
    (hthis : this ∉ cs) {q : α} :
    TransGen (graft child this cs) this q ↔ ∃ c ∈ cs, q = c ∨ TransGen child c q := by
  have hold : ∀ c ∈ cs, ∀ q, TransGen (graft child this cs) c q ↔ TransGen child c q :=
    fun c hc q => transGen_graft_of_ne hroot hthis fun heq => hthis (heq ▸ hc)
  constructor
  · intro h
    obtain ⟨c, hstep, hrest⟩ := TransGen.head'_iff.mp h
    rcases hstep with hstep | ⟨-, hc⟩
    · exact absurd hstep (hleaf c)
    · rcases reflTransGen_iff_eq_or_transGen.mp hrest with rfl | hrest
      · exact ⟨q, hc, .inl rfl⟩
      · exact ⟨c, hc, .inr ((hold c hc q).mp hrest)⟩
  · rintro ⟨c, hc, rfl | hrest⟩
    · exact .single (.inr ⟨rfl, hc⟩)
    · exact .head (.inr ⟨rfl, hc⟩) ((hold c hc q).mpr hrest)

end Graft

/-! ### Flattenings -/

/-- **The lists flatten the forest**: the one of a root has every node below it once, and
the others are empty. -/
structure Flattens (child : α → α → Prop) (below : α → List α) : Prop where
  nodup : ∀ r, IsRoot child r → (below r).Nodup
  mem_iff : ∀ r, IsRoot child r → ∀ q, q ∈ below r ↔ TransGen child r q
  inner : ∀ q, ¬IsRoot child q → below q = []

/-- The lists after `this` has been put over `cs`. -/
def graftBelow [DecidableEq α] (below : α → List α) (this : α) (cs : List α) (p : α) : List α :=
  if p = this then cs.flatMap fun c => c :: below c
  else if p ∈ cs then [] else below p

/-- The lists of different roots have nothing in common. -/
theorem Flattens.disjoint {below : α → List α} (h : Flattens child below)
    (hunique : Relator.LeftUnique child) {r r' : α} (hr : IsRoot child r)
    (hr' : IsRoot child r') (hne : r ≠ r') : (r :: below r).Disjoint (r' :: below r') := by
  have hmem : ∀ s, IsRoot child s → ∀ q ∈ s :: below s, ReflTransGen child s q := by
    intro s hs q hq
    rcases List.mem_cons.mp hq with rfl | hq
    · exact .refl
    · exact ((h.mem_iff s hs q).mp hq).to_reflTransGen
  exact fun q hq hq' => hne (root_unique hunique hr hr' (hmem r hr q hq) (hmem r' hr' q hq'))

/-- **Grafting keeps a forest flattened.** -/
theorem Flattens.graft [DecidableEq α] {below : α → List α} {this : α} {cs : List α}
    (h : Flattens child below) (hunique : Relator.LeftUnique child)
    (hroot : IsRoot child this) (hleaf : ∀ q, ¬child this q) (hthis : this ∉ cs)
    (hnodup : cs.Nodup) (hroots : ∀ c ∈ cs, IsRoot child c) :
    Flattens (Forest.graft child this cs) (graftBelow below this cs) := by
  constructor
  · intro r hr
    obtain ⟨hr, hrcs⟩ := isRoot_graft.mp hr
    rw [graftBelow]
    split
    · refine List.nodup_flatMap.mpr ⟨fun c hc => List.nodup_cons.mpr ⟨?_, ?_⟩, ?_⟩
      · intro hmem
        obtain ⟨p, -, hp⟩ := TransGen.tail'_iff.mp ((h.mem_iff c (hroots c hc) c).mp hmem)
        exact hroots c hc p hp
      · exact h.nodup c (hroots c hc)
      · refine List.Pairwise.imp_of_mem (fun hc hc' hne => ?_) hnodup
        exact h.disjoint hunique (hroots _ hc) (hroots _ hc') hne
    · exact h.nodup r hr
  · intro r hr q
    obtain ⟨hr, hrcs⟩ := isRoot_graft.mp hr
    rw [graftBelow]
    split
    · rename_i heq
      rw [heq, transGen_graft_this hroot hleaf hthis, List.mem_flatMap]
      refine exists_congr fun c => and_congr_right fun hc => ?_
      rw [List.mem_cons, h.mem_iff c (hroots c hc)]
    · rename_i hne
      rw [transGen_graft_of_ne hroot hthis hne]
      exact h.mem_iff r hr q
  · intro q hq
    rw [isRoot_graft, not_and, not_not] at hq
    rw [graftBelow]
    split
    · rename_i heq
      exact absurd (hq (heq ▸ hroot)) (heq ▸ hthis)
    · split
      · rfl
      · rename_i hqcs
        exact h.inner q fun hr => hqcs (hq hr)

end Forest
