/-
# `Chain` — singly linked chains of cells in a heap

`links` says which addresses hold a cell and where the cell points: `none` if there is no
cell, `some p` if there is one and `p` is its link, itself `none` at the end of a chain.
`Seg links p l q` is the stretch that starts at the pointer `p`, goes through the cells
`l` in this order, and arrives at the pointer `q`; with `q = none` it is a whole chain.

    Seg.split, Seg.append    a stretch is cut and joined anywhere
    Seg.congr                it depends on the links of its own cells only
    Seg.unique, Seg.nodup    a whole chain is determined by its start and visits no cell twice
    Seg.extend               a cell is hung on at the end
    Seg.unlink               a cell is taken out behind its predecessor
    Seg.exists_rename        chains of equally many cells are the same up to renaming
-/
import Mathlib.Data.List.Basic
import Mathlib.Data.List.Nodup

/-- The cells from the pointer `p` to the pointer `q`. -/
inductive Seg {A : Type} (links : A → Option (Option A)) :
    Option A → List A → Option A → Prop
  | nil {p : Option A} : Seg links p [] p
  | cons {a : A} {r q : Option A} {l : List A} :
      links a = some r → Seg links r l q → Seg links (some a) (a :: l) q

namespace Seg

variable {A : Type} {links links' : A → Option (Option A)} {p q r : Option A} {l m : List A}

theorem append (h : Seg links p l r) (h' : Seg links r m q) : Seg links p (l ++ m) q := by
  induction h with
  | nil => exact h'
  | cons hlink _ ih => exact .cons hlink (ih h')

theorem split (h : Seg links p (l ++ m) q) : ∃ r, Seg links p l r ∧ Seg links r m q := by
  induction l generalizing p with
  | nil => exact ⟨p, .nil, h⟩
  | cons a l ih =>
      cases h with
      | cons hlink h =>
          obtain ⟨r, h₁, h₂⟩ := ih h
          exact ⟨r, .cons hlink h₁, h₂⟩

/-- A stretch depends on the links of its own cells only. -/
theorem congr (h : Seg links p l q) (hl : ∀ a ∈ l, links' a = links a) : Seg links' p l q := by
  induction h with
  | nil => exact .nil
  | cons hlink _ ih =>
      exact .cons ((hl _ List.mem_cons_self).trans hlink)
        (ih fun a ha => hl a (List.mem_cons_of_mem _ ha))

/-! ## Whole chains -/

theorem start_eq (h : Seg links p l none) : p = l.head? := by
  cases h with
  | nil => rfl
  | cons _ _ => rfl

/-- A cell of a chain points to the next one. -/
theorem link_eq {a : A} (h : Seg links p (l ++ a :: m) none) : links a = some m.head? := by
  obtain ⟨r, _, hrest⟩ := h.split
  cases hrest with
  | cons hlink hrest => rw [hlink, hrest.start_eq]

/-- The start of a chain determines its cells. -/
theorem unique (h : Seg links p l none) (h' : Seg links p m none) : l = m := by
  induction l generalizing p m with
  | nil =>
      cases h
      cases h'
      rfl
  | cons a l ih =>
      cases h with
      | cons hlink h =>
          cases h' with
          | cons hlink' h' =>
              rw [hlink, Option.some.injEq] at hlink'
              subst hlink'
              rw [ih h h']

/-- A chain that ends visits no cell twice: from a cell visited twice the rest would be
two different chains. -/
theorem nodup (h : Seg links p l none) : l.Nodup := by
  induction l generalizing p with
  | nil => exact List.nodup_nil
  | cons a l ih =>
      have hwhole := h
      cases h with
      | cons hlink h =>
          refine List.nodup_cons.mpr ⟨?_, ih h⟩
          intro hmem
          obtain ⟨l₁, l₂, rfl⟩ := List.append_of_mem hmem
          obtain ⟨r, _, hrest⟩ := h.split
          obtain rfl : r = some a := hrest.start_eq
          have := congrArg List.length (hwhole.unique hrest)
          simp at this
          omega

/-! ## Changing a chain -/

/-- A cell is hung on at the end: the last cell is pointed to it. -/
theorem extend {t n : A} (h : Seg links p (l ++ [t]) none) (hl : ∀ a ∈ l, links' a = links a)
    (ht : links' t = some (some n)) (hn : links' n = some none) :
    Seg links' p (l ++ [t] ++ [n]) none := by
  obtain ⟨r, hinit, hlast⟩ := h.split
  obtain rfl : r = some t := hlast.start_eq
  rw [List.append_assoc]
  exact (hinit.congr hl).append (.cons ht (.cons hn .nil))

/-- A cell is taken out: its predecessor is pointed to where it points. -/
theorem unlink {b c : A} (h : Seg links p (l ++ b :: c :: m) none)
    (hl : ∀ a ∈ l, links' a = links a) (hm : ∀ a ∈ m, links' a = links a)
    (hb : links' b = links c) : Seg links' p (l ++ b :: m) none := by
  obtain ⟨r, hinit, hrest⟩ := h.split
  cases hrest with
  | cons _ hrest =>
      cases hrest with
      | cons hc hrest => exact (hinit.congr hl).append (.cons (hb.trans hc) (hrest.congr hm))

/-- The first cell is taken out. -/
theorem tail {a : A} (h : Seg links p (a :: m) none) (hm : ∀ a ∈ m, links' a = links a) :
    Seg links' m.head? m none := by
  cases h with
  | cons _ h => exact h.start_eq ▸ h.congr hm

/-! ## Two chains -/

/-- A list without repeats is renamed to any list of its length. -/
theorem exists_map_eq {B : Type} [DecidableEq A] [Nonempty B] {l' : List B} (hl : l.Nodup)
    (hlen : l.length = l'.length) : ∃ f : A → B, l.map f = l' := by
  induction l generalizing l' with
  | nil =>
      refine ⟨fun _ => Classical.arbitrary B, ?_⟩
      rw [List.map_nil, List.length_eq_zero_iff.mp hlen.symm]
  | cons a l ih =>
      cases l' with
      | nil => cases hlen
      | cons b l' =>
          obtain ⟨ha, hl⟩ := List.nodup_cons.mp hl
          obtain ⟨f, hf⟩ := ih hl (Nat.succ.inj hlen)
          refine ⟨Function.update f a b, ?_⟩
          have hkeep : ∀ x ∈ l, Function.update f a b x = f x := by
            intro x hx
            have hne : x ≠ a := fun h => ha (h ▸ hx)
            exact Function.update_of_ne hne _ _
          rw [List.map_cons, Function.update_self, List.map_congr_left hkeep, hf]

/-- Two chains of equally many cells are the same up to a renaming of the addresses. -/
theorem exists_rename {B : Type} [DecidableEq A] [Nonempty B] {links' : B → Option (Option B)}
    {p' : Option B} {l' : List B} (h : Seg links p l none) (h' : Seg links' p' l' none)
    (hlen : l.length = l'.length) :
    ∃ f : A → B, l.map f = l' ∧ (∀ a ∈ l, ∀ b ∈ l, f a = f b → a = b) ∧
      ∀ a ∈ l, links' (f a) = (links a).map (Option.map f) := by
  obtain ⟨f, rfl⟩ := exists_map_eq h.nodup hlen
  refine ⟨f, rfl, ?_, ?_⟩
  · intro a ha b hb
    exact List.inj_on_of_nodup_map h'.nodup ha hb
  · intro a ha
    obtain ⟨l₁, l₂, rfl⟩ := List.append_of_mem ha
    rw [List.map_append, List.map_cons] at h'
    rw [h.link_eq, h'.link_eq, List.head?_map]
    rfl

end Seg
