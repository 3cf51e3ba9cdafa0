/-
# `Latch` — what a history has left set

Some entries of a history set a latch to a value, some reset it, most do neither.  What it
holds at the end is computed entry by entry (`latch`); what that says about the order of the
entries:

    latch_eq_some_iff   it holds `v`: an entry sets it to `v`, and no later entry resets it or
                        sets it to anything else (`Holds`)
    latch_eq_none_iff   it holds nothing: after every entry that sets it comes one that resets
                        it (`Clear`)
-/
import Mathlib.Data.List.Induction

namespace Latch

variable {α β : Type} (set : α → Option β) (reset : α → Bool)

/-- What the latch holds after the entries `l`. -/
def latch (l : List α) : Option β :=
  l.foldl (fun v x => (set x).or (if reset x then none else v)) none

/-- An entry sets the latch to `v`, and no later one changes that. -/
def Holds (l : List α) (v : β) : Prop :=
  ∃ l₁ x l₂, l = l₁ ++ x :: l₂ ∧ set x = some v ∧
    ∀ y ∈ l₂, reset y = false ∧ ∀ w ∈ set y, w = v

/-- Every entry that sets the latch is followed by one that resets it. -/
def Clear (l : List α) : Prop :=
  ∀ l₁ x l₂, l = l₁ ++ x :: l₂ → (set x).isSome = true → ∃ y ∈ l₂, reset y = true

variable {set reset} {l l₁ l₂ : List α} {x z : α} {v : β}

@[simp] theorem latch_nil : latch set reset [] = none := rfl

theorem latch_snoc (l : List α) (z : α) :
    latch set reset (l ++ [z]) = (set z).or (if reset z then none else latch set reset l) := by
  rw [latch, List.foldl_append]
  rfl

/-- The entry a list is split at is its last one, or the list before it is split. -/
theorem split_snoc (h : l ++ [z] = l₁ ++ x :: l₂) :
    (l = l₁ ∧ z = x ∧ l₂ = []) ∨ ∃ m, l₂ = m ++ [z] ∧ l = l₁ ++ x :: m := by
  rcases List.eq_nil_or_concat l₂ with rfl | ⟨m, w, rfl⟩
  · obtain ⟨hl, hz⟩ := List.append_inj' h rfl
    exact .inl ⟨hl, List.head_eq_of_cons_eq hz, rfl⟩
  · have hsplit : l ++ [z] = (l₁ ++ x :: m) ++ [w] := by simpa using h
    obtain ⟨hl, hz⟩ := List.append_inj' hsplit rfl
    obtain rfl := List.head_eq_of_cons_eq hz
    exact .inr ⟨m, by simp, hl⟩

theorem holds_snoc_iff :
    Holds set reset (l ++ [z]) v ↔
      set z = some v ∨ (set z = none ∧ reset z = false ∧ Holds set reset l v) := by
  constructor
  · rintro ⟨l₁, x, l₂, hl, hx, hlater⟩
    rcases split_snoc hl with ⟨-, rfl, -⟩ | ⟨m, rfl, rfl⟩
    · exact .inl hx
    · have hz := hlater z (by simp)
      cases hset : set z with
      | none => exact .inr ⟨rfl, hz.1, l₁, x, m, rfl, hx, fun y hy => hlater y (by simp [hy])⟩
      | some w => exact .inl (by rw [hz.2 w hset])
  · rintro (hz | ⟨hz, hreset, l₁, x, l₂, rfl, hx, hlater⟩)
    · exact ⟨l, z, [], rfl, hz, nofun⟩
    · refine ⟨l₁, x, l₂ ++ [z], by simp, hx, fun y hy => ?_⟩
      rcases List.mem_append.mp hy with hy | hy
      · exact hlater y hy
      · obtain rfl := List.mem_singleton.mp hy
        exact ⟨hreset, fun w hw => by rw [hz] at hw; cases hw⟩

theorem clear_snoc_iff :
    Clear set reset (l ++ [z]) ↔ set z = none ∧ (reset z = true ∨ Clear set reset l) := by
  constructor
  · intro h
    have hz : set z = none := by
      cases hset : set z with
      | none => rfl
      | some w =>
          obtain ⟨y, hy, -⟩ := h l z [] rfl (by rw [hset]; rfl)
          cases hy
    refine ⟨hz, or_iff_not_imp_left.mpr fun hreset l₁ x l₂ hl hx => ?_⟩
    obtain ⟨y, hy, hyr⟩ := h l₁ x (l₂ ++ [z]) (by simp [hl]) hx
    rcases List.mem_append.mp hy with hy | hy
    · exact ⟨y, hy, hyr⟩
    · obtain rfl := List.mem_singleton.mp hy
      exact absurd hyr hreset
  · rintro ⟨hz, hclear⟩ l₁ x l₂ hl hx
    rcases split_snoc hl with ⟨-, rfl, -⟩ | ⟨m, rfl, rfl⟩
    · rw [hz] at hx
      cases hx
    · rcases hclear with hreset | hclear
      · exact ⟨z, by simp, hreset⟩
      · obtain ⟨y, hy, hyr⟩ := hclear l₁ x m rfl hx
        exact ⟨y, by simp [hy], hyr⟩

theorem latch_eq_some_iff : latch set reset l = some v ↔ Holds set reset l v := by
  induction l using List.reverseRecOn with
  | nil => simp [Holds]
  | append_singleton l z ih =>
      rw [latch_snoc, holds_snoc_iff, ← ih]
      cases set z <;> cases reset z <;> simp

theorem latch_eq_none_iff : latch set reset l = none ↔ Clear set reset l := by
  induction l using List.reverseRecOn with
  | nil => simp [Clear]
  | append_singleton l z ih =>
      rw [latch_snoc, clear_snoc_iff, ← ih]
      cases set z <;> cases reset z <;> simp

end Latch
