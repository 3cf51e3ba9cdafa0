/-
# `BullFrog.Lmgr.Queue` — every waiter is in one place

A backend whose `lwWaiting` is set is in exactly one place: in the queue of the lock it waits
for, among the waiters some other backend has taken out and is about to tell, or on its own
way out.  A backend whose `lwWaiting` is clear is in none (`Queues`).  So nobody is queued
twice, nobody is taken out by two backends, and `LWLockQueueSelf` never finds its caller
still waiting (`queue_integrity`).
-/
import BullFrog.Lmgr.Spot

namespace BullFrog.Lmgr

variable {B L V : Type}

/-! ## Everybody is in one place -/

/-- The queue after an effect. -/
def Effect.onWaiters [DecidableEq B] (b : B) (ws : List B) : Effect B V → List B
  | .push mode => pushWaiter mode b ws
  | .queue ws' | .setVar _ ws' => ws'
  | .skip | .word _ | .clear _ | .post _ | .take => ws

theorem onCell_waiters [DecidableEq B] (b : B) (c : Cell B V) (e : Effect B V) :
    (e.onCell b c).waiters = e.onWaiters b c.waiters := by
  cases e <;> rfl

theorem after_waiters [DecidableEq B] [DecidableEq L] (s : State B L V) (b : B)
    (p' : Proc B L V) (e : Effect B V) (l : L) :
    ((s.after b p' e).lock l).waiters =
      if l = (s.proc b).lock then e.onWaiters b (s.lock (s.proc b).lock).waiters
      else (s.lock l).waiters := by
  by_cases hl : l = (s.proc b).lock
  · subst hl
    rw [after_lock_self, onCell_waiters, if_pos rfl]
  · rw [after_lock_ne s hl, if_neg hl]

section Collect

variable (mode : B → LWLockMode)

/-- `LWLockWakeup` splits the queue. -/
theorem collect_perm (woken : Bool) (ws : List B) :
    ((collect mode woken ws).1 ++ (collect mode woken ws).2.1).Perm ws := by
  induction ws generalizing woken with
  | nil => rfl
  | cons w ws ih =>
      simp only [collect]
      split
      · exact (ih woken).cons w
      · split
        · exact List.perm_append_singleton w ws
        · split
          · exact List.perm_middle.trans ((ih woken).cons w)
          · exact List.perm_middle.trans ((ih true).cons w)

theorem count_collect [DecidableEq B] (woken : Bool) (ws : List B) (b : B) :
    (collect mode woken ws).1.count b + (collect mode woken ws).2.1.count b = ws.count b := by
  rw [← List.count_append]
  exact (collect_perm mode woken ws).count_eq b

end Collect

/-- A step of `b` brings at most `b` into a queue, and only with a push. -/
theorem SpotChange.mem_waiters [DecidableEq B] {b c : B} {e : Effect B V} {q q' : Spot B L V}
    {ws : List B} {wt : Bool} {md : B → LWLockMode}
    (h : SpotChange b q q' ws wt md e) (hmem : c ∈ e.onWaiters b ws) :
    c ∈ ws ∨ c = b ∧ ∃ call : Call V,
      q' = { q with waiting := some call } ∧ e = .push call.queueMode := by
  cases h with
  | quiet _ heff =>
      left
      rcases heff with rfl | ⟨w, rfl⟩ | ⟨v, rfl⟩ <;> exact hmem
  | push call _ hq' =>
      simp only [Effect.onWaiters, pushWaiter] at hmem
      have hor : c = b ∨ c ∈ ws := by
        split at hmem
        · exact List.mem_cons.mp hmem
        · rcases List.mem_append.mp hmem with hws | hb
          · exact Or.inr hws
          · exact Or.inl (List.mem_singleton.mp hb)
      rcases hor with rfl | hws
      · exact Or.inr ⟨rfl, call, hq', rfl⟩
      · exact Or.inl hws
  | drop => exact Or.inl (List.mem_of_mem_erase hmem)
  | collect => exact Or.inl ((collect_perm _ false ws).subset (List.mem_append_left _ hmem))
  | update => exact Or.inl ((List.dropWhile_sublist _).subset hmem)
  | relock | unwait | absorb | wake | clear | post | repay | take => exact Or.inl hmem

/-- A backend turns to another lock only while it is in no queue. -/
theorem SpotChange.lock_eq [DecidableEq B] {b : B} {e : Effect B V} {q q' : Spot B L V}
    {ws : List B} {wt : Bool} {md : B → LWLockMode} (h : SpotChange b q q' ws wt md e) :
    q'.lock = q.lock ∨ q.waiting = none ∧ e = .skip := by
  cases h with
  | quiet hq' | drop _ _ hq' | post _ _ hq' | take hq' | push _ _ hq' | unwait _ _ hq'
  | absorb _ _ _ hq' | collect _ _ hq' | update _ _ _ hq' => rw [hq']; exact Or.inl rfl
  | repay hq | wake _ _ _ _ hq | clear _ _ _ hq => rw [hq]; exact Or.inl rfl
  | relock _ hnone => exact Or.inr ⟨hnone, rfl⟩

theorem count_pushWaiter [DecidableEq B] (mode : LWLockMode) (b : B) (ws : List B) (c : B) :
    (pushWaiter mode b ws).count c = ws.count c + if b = c then 1 else 0 := by
  rw [pushWaiter]
  split
  · rw [List.count_cons]
    simp
  · rw [List.count_append, List.count_cons, List.count_nil]
    simp

/-- What the queues see of backend `b`. -/
abbrev State.spot (s : State B L V) (b : B) : Spot B L V := (s.proc b).spot

@[simp] theorem spot_after_self [DecidableEq B] [DecidableEq L] (s : State B L V) (b : B)
    (p' : Proc B L V) (e : Effect B V) : (s.after b p' e).spot b = p'.spot := by
  rw [State.spot, after_proc_self]

theorem spot_after_ne [DecidableEq B] [DecidableEq L] (s : State B L V) {b c : B} (h : c ≠ b)
    (p' : Proc B L V) (e : Effect B V) : (s.after b p' e).spot c = s.spot c := by
  rw [State.spot, after_proc_ne s h]

theorem gone_after [DecidableEq B] [DecidableEq L] (s : State B L V) (b : B) (p' : Proc B L V)
    (e : Effect B V) (c : B) :
    ((s.after b p' e).spot c).gone = if c = b then p'.spot.gone else (s.spot c).gone := by
  by_cases hc : c = b
  · subst hc
    rw [spot_after_self, if_pos rfl]
  · rw [spot_after_ne s hc, if_neg hc]

section Invariant

variable [Fintype B] [DecidableEq B]

/-- A backend with `lwWaiting` set is in one place, and without it in none. -/
structure Queues (s : State B L V) : Prop where
  tidy : ∀ b, (s.proc b).Tidy
  listed : ∀ l, ∀ b ∈ (s.lock l).waiters, (s.proc b).lock = l ∧ (s.spot b).waiting.isSome = true
  once : ∀ b, (s.lock (s.proc b).lock).waiters.count b + ∑ w, (s.spot w).clears.count b +
    (s.spot b).gone.toNat = (s.lwWaiting b).toNat
  out : ∀ b, (s.spot b).waiting = none → s.lwWaiting b = false
  mode : ∀ b c, (s.spot b).waiting = some c → s.lwWaitMode b = c.queueMode

variable {s : State B L V} {b c : B} {l : L}

/-- In a queue, a backend has `lwWaiting` set, and is nowhere else. -/
theorem Queues.of_mem (h : Queues s) (hmem : b ∈ (s.lock l).waiters) :
    s.lwWaiting b = true ∧ (s.lock l).waiters.count b = 1 ∧
      ∑ w, (s.spot w).clears.count b = 0 ∧ (s.spot b).gone = false := by
  have honce := h.once b
  rw [(h.listed l b hmem).1] at honce
  have hpos := List.count_pos_iff.mpr hmem
  have hle := Bool.toNat_le (s.lwWaiting b)
  exact ⟨Bool.toNat_eq_one.mp (by omega), by omega, by omega, Bool.toNat_eq_zero.mp (by omega)⟩

/-- Without `lwWaiting`, a backend is in no queue and nobody has to tell it. -/
theorem Queues.of_not_waiting (h : Queues s) (hwt : s.lwWaiting b = false) :
    (∀ l, b ∉ (s.lock l).waiters) ∧ ∑ w, (s.spot w).clears.count b = 0 ∧
      (s.spot b).gone = false := by
  have honce := h.once b
  refine ⟨fun l hmem => ?_, ?_, ?_⟩
  · rw [(h.of_mem hmem).1] at hwt
    cases hwt
  · rw [hwt, Bool.toNat_false] at honce
    omega
  · rw [hwt, Bool.toNat_false] at honce
    exact Bool.toNat_eq_zero.mp (by omega)

/-- Whoever `b` has taken out of the queue has `lwWaiting` set, and is not in the queue. -/
theorem Queues.of_clears {w : B} (h : Queues s) (hw : w ∈ (s.proc b).pc.clears) :
    s.lwWaiting w = true ∧ w ∉ (s.lock (s.proc w).lock).waiters := by
  have honce := h.once w
  have hpos := List.count_pos_iff.mpr hw
  have hle := Tally.le_sum (g := fun d => (s.spot d).clears.count w) b
  have hbool := Bool.toNat_le (s.lwWaiting w)
  have hsame : (s.spot b).clears.count w = (s.proc b).pc.clears.count w := rfl
  exact ⟨Bool.toNat_eq_one.mp (by omega), List.count_eq_zero.mp (by omega)⟩

theorem Queues.of_initial (h : s.Initial) : Queues s := by
  have hwait : ∀ b, (s.spot b).waiting = none := fun b => by
    simp [State.spot, Proc.spot, h.idle b, Pc.waiting]
  refine ⟨fun b => ⟨fun _ => (h.waits b).2, fun _ => (h.waits b).1⟩, ?_, ?_,
    fun b _ => h.lwWaiting b, ?_⟩
  · intro l b hmem
    rw [h.waiters l] at hmem
    cases hmem
  · intro b
    simp [h.waiters, h.lwWaiting b, Proc.spot, h.idle, Pc.clears, Pc.gone]
  · intro b c hsome
    rw [hwait b] at hsome
    cases hsome

/-! ### One step -/

variable [DecidableEq L] {p' : Proc B L V} {e : Effect B V}

theorem sum_clears_after (s : State B L V) (b : B) (p' : Proc B L V) (e : Effect B V) (c : B) :
    ∑ w, ((s.after b p' e).spot w).clears.count c + (s.spot b).clears.count c =
      ∑ w, (s.spot w).clears.count c + p'.spot.clears.count c := by
  have hchange := Tally.sum_change (g := fun w => (s.spot w).clears.count c) b
    (fun w hw => congrArg (fun p => p.spot.clears.count c) (after_proc_ne s hw p' e))
  simpa using hchange

theorem Queues.listed_after (h : Queues s)
    (hch : SpotChange b (s.spot b) p'.spot (s.lock (s.proc b).lock).waiters (s.lwWaiting b)
      s.lwWaitMode e) (hmem : c ∈ ((s.after b p' e).lock l).waiters) :
    ((s.after b p' e).proc c).lock = l ∧ ((s.after b p' e).spot c).waiting.isSome = true := by
  have hcases : c ∈ (s.lock l).waiters ∨ c = b ∧ l = (s.proc b).lock ∧
      ∃ call : Call V, p'.spot = { s.spot b with waiting := some call } := by
    rw [after_waiters] at hmem
    split at hmem
    · rename_i hl
      rcases hch.mem_waiters hmem with hold | ⟨hc, call, hq', _⟩
      · exact Or.inl (hl ▸ hold)
      · exact Or.inr ⟨hc, hl, call, hq'⟩
    · exact Or.inl hmem
  rcases hcases with hold | ⟨rfl, rfl, call, hq'⟩
  · by_cases hc : c = b
    · subst hc
      rw [State.spot, after_proc_self]
      have hold' : (s.spot c).lock = l ∧ (s.spot c).waiting.isSome = true := h.listed l c hold
      change p'.spot.lock = l ∧ p'.spot.waiting.isSome = true
      cases hch with
      | quiet hq' | drop _ _ hq' | absorb _ _ _ hq' | post _ _ hq' | take hq' =>
          rw [hq']
          exact hold'
      | repay hq => rw [hq] at hold'; exact hold'
      | relock _ hnone | push _ hnone | collect hnone | update _ hnone | clear _ hnone =>
          rw [hnone] at hold'
          cases hold'.2
      | unwait _ hgone => rw [(h.of_mem hold).2.2.2] at hgone; cases hgone
      | wake _ _ hwt => rw [(h.of_mem hold).1] at hwt; cases hwt
    · rw [State.spot, after_proc_ne s hc]
      exact h.listed l c hold
  · rw [State.spot, after_proc_self]
    change p'.spot.lock = (s.spot c).lock ∧ p'.spot.waiting.isSome = true
    rw [hq']
    exact ⟨rfl, rfl⟩

/-- The place of every backend in the queue of its lock changes as the queue of the step's
lock does. -/
theorem Queues.count_after (h : Queues s)
    (hch : SpotChange b (s.spot b) p'.spot (s.lock (s.proc b).lock).waiters (s.lwWaiting b)
      s.lwWaitMode e) (c : B) :
    ((s.after b p' e).lock ((s.after b p' e).proc c).lock).waiters.count c +
        (s.lock (s.proc b).lock).waiters.count c =
      (s.lock (s.proc c).lock).waiters.count c +
        (e.onWaiters b (s.lock (s.proc b).lock).waiters).count c := by
  by_cases hc : c = b
  · subst hc
    rw [after_proc_self, after_waiters]
    by_cases hl : p'.lock = (s.proc c).lock
    · rw [if_pos hl]
      omega
    · -- the backend turns to another lock, so it is in no queue
      obtain ⟨hnone, rfl⟩ := hch.lock_eq.resolve_left hl
      have hnot := (h.of_not_waiting (h.out c hnone)).1
      have hzero : ∀ l, (s.lock l).waiters.count c = 0 := fun l => List.count_eq_zero.mpr (hnot l)
      rw [if_neg hl, hzero, hzero]
      exact congrArg (0 + ·) (hzero _).symm
  · rw [after_proc_ne s hc, after_waiters]
    by_cases hl : (s.proc c).lock = (s.proc b).lock
    · rw [if_pos hl, hl]
      omega
    · have hws : c ∉ (s.lock (s.proc b).lock).waiters := fun hmem => hl (h.listed _ c hmem).1
      have hws' : c ∉ e.onWaiters b (s.lock (s.proc b).lock).waiters := by
        intro hmem
        rcases hch.mem_waiters hmem with hold | ⟨rfl, _⟩
        · exact hws hold
        · exact hc rfl
      rw [if_neg hl, List.count_eq_zero.mpr hws, List.count_eq_zero.mpr hws']

theorem Queues.once_after (h : Queues s)
    (hch : SpotChange b (s.spot b) p'.spot (s.lock (s.proc b).lock).waiters (s.lwWaiting b)
      s.lwWaitMode e) (c : B) :
    ((s.after b p' e).lock ((s.after b p' e).proc c).lock).waiters.count c +
        ∑ w, ((s.after b p' e).spot w).clears.count c + ((s.after b p' e).spot c).gone.toNat =
      ((s.after b p' e).lwWaiting c).toNat := by
  have hcount := h.count_after hch c
  have hclears := sum_clears_after s b p' e c
  have honce := h.once c
  rw [gone_after]
  change _ = (e.onWaiting b s.lwWaiting c).toNat
  -- the backend's own exit apart, nobody's `gone` changes
  have hsame : p'.spot.gone = (s.spot b).gone →
      (if c = b then p'.spot.gone else (s.spot c).gone) = (s.spot c).gone := by
    intro hg
    split
    · rename_i hc
      rw [hg, hc]
    · rfl
  cases hch with
  | quiet hq' heff =>
      have hws : (e.onWaiters b (s.lock (s.proc b).lock).waiters) =
          (s.lock (s.proc b).lock).waiters := by
        rcases heff with rfl | ⟨w, rfl⟩ | ⟨v, rfl⟩ <;> rfl
      have hwt : e.onWaiting b s.lwWaiting = s.lwWaiting := by
        rcases heff with rfl | ⟨w, rfl⟩ | ⟨v, rfl⟩ <;> rfl
      rw [hsame (by rw [hq']), hwt]
      rw [hws] at hcount
      rw [hq'] at hclears
      omega
  | relock l _ _ _ hq' | absorb _ _ _ hq' | post _ _ hq' | take hq' =>
      rw [hsame (by rw [hq'])]
      rw [hq'] at hclears
      simp only [Effect.onWaiters, Effect.onWaiting] at hcount hclears ⊢
      omega
  | repay hq =>
      rw [hsame (by rw [hq])]
      rw [hq] at hclears
      simp only [Effect.onWaiters, Effect.onWaiting] at hcount hclears ⊢
      omega
  | wake call hgone hwt hnone hq =>
      rw [hsame (by rw [hq])]
      rw [hq] at hclears
      simp only [Effect.onWaiters, Effect.onWaiting] at hcount hclears ⊢
      omega
  | push call hnone hq' =>
      rw [hsame (by rw [hq'])]
      rw [hq'] at hclears
      simp only [Effect.onWaiters, Effect.onWaiting, count_pushWaiter] at hcount hclears ⊢
      by_cases hc : c = b
      · subst hc
        rw [h.out c hnone, Bool.toNat_false] at honce
        rw [if_pos rfl] at hcount
        rw [Function.update_self, Bool.toNat_true]
        omega
      · rw [if_neg (Ne.symm hc)] at hcount
        rw [Function.update_of_ne hc]
        omega
  | drop hsome hgone hq' =>
      rw [hq'] at hclears ⊢
      simp only [Effect.onWaiters, Effect.onWaiting] at hcount hclears ⊢
      by_cases hc : c = b
      · subst hc
        rw [if_pos rfl]
        rw [List.count_erase_self] at hcount
        by_cases hmem : c ∈ (s.lock (s.proc c).lock).waiters
        · have hone := (h.of_mem hmem).2.1
          rw [hgone, Bool.toNat_false] at honce
          rw [decide_eq_true hmem, Bool.toNat_true]
          omega
        · have hzero := List.count_eq_zero.mpr hmem
          rw [hgone, Bool.toNat_false] at honce
          rw [decide_eq_false hmem, Bool.toNat_false]
          omega
      · rw [if_neg hc]
        rw [List.count_erase_of_ne hc] at hcount
        omega
  | unwait _ hgone hq' =>
      rw [hq'] at hclears ⊢
      simp only [Effect.onWaiters, Effect.onWaiting] at hcount hclears ⊢
      by_cases hc : c = b
      · subst hc
        have hle := Bool.toNat_le (s.lwWaiting c)
        rw [hgone, Bool.toNat_true] at honce
        rw [if_pos rfl, Function.update_self, Bool.toNat_false]
        omega
      · rw [if_neg hc, Function.update_of_ne hc]
        omega
  | collect hnone hempty hq' =>
      rw [hsame (by rw [hq'])]
      rw [hq', hempty] at hclears
      have hsplit := count_collect s.lwWaitMode false (s.lock (s.proc b).lock).waiters c
      simp only [Effect.onWaiters, Effect.onWaiting, List.count_nil] at hcount hclears ⊢
      omega
  | update v hnone hempty hq' =>
      rw [hsame (by rw [hq'])]
      rw [hq', hempty] at hclears
      have hsplit := congrArg (List.count c) (List.takeWhile_append_dropWhile
        (p := fun w => s.lwWaitMode w == .waitUntilFree) (l := (s.lock (s.proc b).lock).waiters))
      rw [List.count_append] at hsplit
      simp only [Effect.onWaiters, Effect.onWaiting, List.count_nil] at hcount hclears ⊢
      omega
  | clear w hnone hpost hq hpost' =>
      rw [hsame (by rw [hq])]
      rw [hq] at hclears
      simp only [Effect.onWaiters, Effect.onWaiting, List.count_cons] at hcount hclears ⊢
      by_cases hc : c = w
      · subst hc
        have hle := Bool.toNat_le (s.lwWaiting c)
        rw [if_pos (beq_self_eq_true c)] at hclears
        rw [Function.update_self, Bool.toNat_false]
        omega
      · rw [if_neg (by simpa using Ne.symm hc)] at hclears
        rw [Function.update_of_ne hc]
        omega

theorem Queues.out_after (h : Queues s)
    (hch : SpotChange b (s.spot b) p'.spot (s.lock (s.proc b).lock).waiters (s.lwWaiting b)
      s.lwWaitMode e) (c : B) (hnone : ((s.after b p' e).spot c).waiting = none) :
    (s.after b p' e).lwWaiting c = false := by
  change e.onWaiting b s.lwWaiting c = false
  by_cases hc : c = b
  · subst hc
    rw [spot_after_self] at hnone
    cases hch with
    | quiet hq' heff =>
        rw [hq'] at hnone
        rcases heff with rfl | ⟨w, rfl⟩ | ⟨v, rfl⟩ <;> exact h.out c hnone
    | relock _ hq | collect hq | update _ hq => exact h.out c hq
    | push call _ hq' => rw [hq'] at hnone; cases hnone
    | drop _ _ hq' | absorb _ _ _ hq' | post _ _ hq' | take hq' =>
        rw [hq'] at hnone
        exact h.out c hnone
    | unwait => exact Function.update_self ..
    | wake _ _ hwt => exact hwt
    | clear w hq =>
        by_cases hw : c = w
        · subst hw; exact Function.update_self ..
        · exact (Function.update_of_ne hw _ _).trans (h.out c hq)
    | repay hq => exact h.out c (by rw [hq]; exact hnone)
  · rw [spot_after_ne s hc] at hnone
    have hold := h.out c hnone
    cases e with
    | push m => exact (Function.update_of_ne hc _ _).trans hold
    | clear w =>
        by_cases hw : c = w
        · subst hw; exact Function.update_self ..
        · exact (Function.update_of_ne hw _ _).trans hold
    | skip | word | queue | setVar | post | take => exact hold

theorem Queues.mode_after (h : Queues s)
    (hch : SpotChange b (s.spot b) p'.spot (s.lock (s.proc b).lock).waiters (s.lwWaiting b)
      s.lwWaitMode e) (c : B) (call : Call V)
    (hsome : ((s.after b p' e).spot c).waiting = some call) :
    (s.after b p' e).lwWaitMode c = call.queueMode := by
  change e.onMode b s.lwWaitMode c = call.queueMode
  by_cases hc : c = b
  · subst hc
    rw [spot_after_self] at hsome
    cases hch with
    | quiet hq' heff =>
        rw [hq'] at hsome
        rcases heff with rfl | ⟨w, rfl⟩ | ⟨v, rfl⟩ <;> exact h.mode c call hsome
    | push call' _ hq' =>
        rw [hq'] at hsome
        cases hsome
        exact Function.update_self ..
    | relock _ _ _ _ hq' | collect _ _ hq' | update _ _ _ hq' | drop _ _ hq' | absorb _ _ _ hq'
    | post _ _ hq' | take hq' => rw [hq'] at hsome; exact h.mode c call hsome
    | unwait _ _ hq' => rw [hq'] at hsome; cases hsome
    | wake _ _ _ hnone => rw [hnone] at hsome; cases hsome
    | clear w _ _ hq | repay hq => exact h.mode c call (by rw [hq]; exact hsome)
  · rw [spot_after_ne s hc] at hsome
    have hold := h.mode c call hsome
    cases e with
    | push m => exact (Function.update_of_ne hc _ _).trans hold
    | skip | word | queue | setVar | clear | post | take => exact hold

theorem Queues.after (h : Queues s)
    (hch : SpotChange b (s.spot b) p'.spot (s.lock (s.proc b).lock).waiters (s.lwWaiting b)
      s.lwWaitMode e) (ht : p'.Tidy) : Queues (s.after b p' e) where
  tidy c := by
    by_cases hc : c = b
    · subst hc; rw [after_proc_self]; exact ht
    · rw [after_proc_ne s hc]; exact h.tidy c
  listed _ _ := h.listed_after hch
  once := h.once_after hch
  out := h.out_after hch
  mode := h.mode_after hch

end Invariant

section Moves

variable [DecidableEq B] [DecidableEq L]

/-- Posting or taking a semaphore changes nothing else. -/
theorem after_self (s : State B L V) (b : B) (w : B) :
    s.after b (s.proc b) (.post w) = { s with sem := Function.update s.sem w (s.sem w + 1) } ∧
      s.after b (s.proc b) .take = { s with sem := Function.update s.sem b (s.sem b - 1) } := by
  constructor <;> simp [State.after]

variable [DecidableEq V] {s : State B L V} {b : B} {a : Act L V}
  {p' : Proc B L V} {e : Effect B V}

/-- A move is a step of the lock code, or somebody else's use of the semaphore. -/
inductive Moved (s : State B L V) (b : B) (p' : Proc B L V) : Act L V → Effect B V → Prop
  | step {a : Act L V} {e : Effect B V} : a ≠ .signal → a ≠ .wait →
      SpotChange b (s.spot b) p'.spot (s.lock (s.proc b).lock).waiters (s.lwWaiting b)
        s.lwWaitMode e →
      p'.Tidy → (e = .take → s.sem b ≠ 0) → Moved s b p' a e
  | signal : p' = s.proc b → Moved s b p' .signal (.post b)
  | wait : p' = s.proc b → (s.proc b).pc = .idle → s.sem b ≠ 0 → Moved s b p' .wait .take

theorem move_moved (h : Move s b a p' e) (ht : (s.proc b).Tidy) : Moved s b p' a e := by
  cases h with
  | next hn =>
      refine .step (by simp) (by simp) (next_spot hn ht) (next_tidy hn ht) ?_
      rintro rfl
      exact next_take hn
  | signal => exact .signal rfl
  | wait hpc hsem => exact .wait rfl hpc hsem
  | start hpc hs =>
      obtain ⟨hch, ht'⟩ := start_spot hpc hs ht (s.lock (s.proc b).lock).waiters
      refine .step ?_ ?_ hch ht' (by simp) <;> rintro rfl <;> cases hs

theorem Queues.of_move [Fintype B] (h : Queues s) (hm : Move s b a p' e) :
    Queues (s.after b p' e) := by
  cases move_moved hm (h.tidy b) with
  | step _ _ hch ht _ => exact h.after hch ht
  | signal hp =>
      subst hp
      rw [(after_self s b b).1]
      exact ⟨h.tidy, h.listed, h.once, h.out, h.mode⟩
  | wait hp =>
      subst hp
      rw [(after_self s b b).2]
      exact ⟨h.tidy, h.listed, h.once, h.out, h.mode⟩

theorem Queues.of_run [Fintype B] {s' : State B L V} {ok : State B L V → B × Act L V → Prop}
    {tr : List (B × Act L V)} (h : s.Initial) (r : (lwlocks B L V).Run ok s tr s') : Queues s' :=
  invariant_of_moves (fun _ _ _ _ _ _ hm hI => hI.of_move hm) r (.of_initial h)

/-- `elog(PANIC, "queueing for lock while waiting on another one")` is never reached. -/
theorem no_panic [Fintype B] {s' : State B L V} {ok : State B L V → B × Act L V → Prop}
    {tr : List (B × Act L V)} (h : s.Initial) (r : (lwlocks B L V).Run ok s tr s') (b : B) :
    (s'.proc b).pc ≠ .panic := by
  have hboth : Queues s' ∧ ∀ b, (s'.proc b).pc ≠ .panic := by
    refine invariant_of_moves (I := fun s => Queues s ∧ ∀ b, (s.proc b).pc ≠ .panic) ?_ r
      ⟨.of_initial h, fun b => by simp [h.idle b]⟩
    rintro s b a p' e - hm ⟨hQ, hP⟩
    refine ⟨hQ.of_move hm, fun c => ?_⟩
    by_cases hc : c = b
    · subst hc
      rw [after_proc_self]
      cases hm with
      | next hn =>
          intro hpanic
          obtain ⟨hnone, hwt⟩ := next_panic hn hpanic
          rw [hQ.out c hnone] at hwt
          cases hwt
      | signal | wait => exact hP c
      | start hpc hs =>
          cases a with
          | acquire | conditionalAcquire | acquireOrWait =>
              cases hs
              simp only [Proc.take]
              split <;> simp [hpc]
          | waitForVar | updateVar | release | releaseClearVar | releaseAll => cases hs; simp
          | next | signal | wait => cases hs
    · rw [after_proc_ne s hc]
      exact hP c
  exact hboth.2 b

/-- In every state of every run, a backend in a queue is waiting for the lock of that queue,
and `lwWaiting` counts the places it is in: the queue of its lock, the waiters a releasing
backend has taken out and not yet told, or its own way out of the queue.  So it is in at
most one of them, and once.  No backend has panicked. -/
theorem queue_integrity [Fintype B] {s' : State B L V} {tr : List (B × Act L V)} (h : s.Initial)
    (r : (lwlocks B L V).Run Machine.Any s tr s') (b : B) :
    (∀ l, b ∈ (s'.lock l).waiters →
      (s'.proc b).lock = l ∧
        ∃ c, (s'.proc b).pc.waiting = some c ∧ s'.lwWaitMode b = c.queueMode) ∧
    (s'.lock (s'.proc b).lock).waiters.count b + ∑ w, (s'.proc w).pc.clears.count b +
      (s'.proc b).pc.gone.toNat = (s'.lwWaiting b).toNat ∧
    (s'.proc b).pc ≠ .panic := by
  have hQ := Queues.of_run h r
  refine ⟨fun l hmem => ?_, hQ.once b, no_panic h r b⟩
  obtain ⟨hlock, hsome⟩ := hQ.listed l b hmem
  obtain ⟨c, hc⟩ := Option.isSome_iff_exists.mp hsome
  exact ⟨hlock, c, hc, hQ.mode b c hc⟩

theorem queue_integrity_contended :
    ∃ s' : State Bool Unit Bool,
      (lwlocks Bool Unit Bool).Run Machine.Any (.initial fun _ => false) contended s' ∧
      true ∈ (s'.lock ()).waiters ∧
      (∃ c, (s'.proc true).pc.waiting = some c ∧ s'.lwWaitMode true = c.queueMode) ∧
      (s'.lock (s'.proc true).lock).waiters.count true +
        ∑ w, (s'.proc w).pc.clears.count true + (s'.proc true).pc.gone.toNat =
          (s'.lwWaiting true).toNat := by
  obtain ⟨s', run, hmem⟩ := (lwlocks Bool Unit Bool).exists_run contended
    (s := .initial fun _ => false) (p := fun s => (s.lock ()).waiters.elem true)
    (by decide +kernel)
  have hin := List.elem_iff.mp hmem
  have hall := queue_integrity (State.initial_initial _) run true
  exact ⟨s', run, hin, (hall.1 () hin).2, hall.2.1⟩

end Moves

end BullFrog.Lmgr
