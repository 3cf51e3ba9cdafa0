/-
# `BullFrog.Lmgr.Ledger` — the lock code gives back the signals it takes

The semaphore of a `PGPROC` is not the lock code's own: other code posts it and waits on it.
A backend that sleeps on a lock may therefore be woken for a reason that is not the lock's,
counts such a signal in `extraWaits` and posts it again in the end; and a backend that
releases a lock posts the semaphore of every waiter it takes out of the queue, which may
happen long after that waiter has been woken by somebody else's signal.

`Ledger` is the balance of one semaphore.  On one side stands what is there: its count, what
its backend has absorbed and has in hand, and what others still have to post for the lock
code.  On the other stands what there should be: the count it started with and what the other
users have posted and taken, and one signal more for a backend that somebody has taken out
of the queue and that has not yet woken up.  The balance is kept by every step, so outside a
call, and with nothing left to post, the count is exactly what the other users have left
there (`semaphore_conserved`).

A backend that has been taken out of the queue is also never without a signal on its way
(`Told`): the absorbed ones cannot include the one meant for it.
-/
import BullFrog.Lmgr.Queue

namespace BullFrog.Lmgr

variable {B L V : Type}

/-- The waiters a backend has to post. -/
def Spot.posts (q : Spot B L V) : List B := q.posting.toList ++ q.clears

/-! ## What a step posts and takes -/

section Effects

variable [DecidableEq B] {b c : B} {q q' : Spot B L V} {ws : List B} {wt : Bool}
  {md : B → LWLockMode} {e : Effect B V}

/-- How often an effect posts the semaphore of `c`. -/
def Effect.posted (c : B) : Effect B V → Nat
  | .post w => if w = c then 1 else 0
  | _ => 0

/-- How often an effect takes the semaphore of its backend. -/
def Effect.taken : Effect B V → Nat
  | .take => 1
  | _ => 0

theorem onSem_self (sem : B → Nat) (h : e = .take → sem b ≠ 0) :
    e.onSem b sem b + e.taken = sem b + e.posted b := by
  cases e with
  | post w =>
      by_cases hw : w = b
      · subst hw; simp [Effect.taken, Effect.posted]
      · simp [Effect.taken, Effect.posted, hw, Ne.symm hw]
  | take =>
      have hpos := h rfl
      simp only [Effect.onSem, Function.update_self, Effect.taken, Effect.posted]
      omega
  | skip | word | push | queue | setVar | clear => rfl

theorem onSem_ne (sem : B → Nat) (h : c ≠ b) : e.onSem b sem c = sem c + e.posted c := by
  cases e with
  | post w =>
      by_cases hw : w = c
      · subst hw; simp [Effect.posted]
      · simp [Effect.posted, hw, Ne.symm hw]
  | take => simp [Effect.posted, h]
  | skip | word | push | queue | setVar | clear => rfl

/-- For everybody else, what a step takes out of the queue it will post, and what it posts
it had to. -/
theorem SpotChange.balance_ne (h : SpotChange b q q' ws wt md e) (hc : c ≠ b) :
    q'.posts.count c + (e.onWaiters b ws).count c + e.posted c =
      q.posts.count c + ws.count c := by
  cases h with
  | quiet hq' heff => rcases heff with rfl | ⟨w, rfl⟩ | ⟨v, rfl⟩ <;> rw [hq'] <;> rfl
  | relock _ _ _ _ hq' | absorb _ _ _ hq' | take hq' => rw [hq']; rfl
  | push call _ hq' =>
      rw [hq', Effect.onWaiters, count_pushWaiter, if_neg (Ne.symm hc)]
      rfl
  | drop _ _ hq' => rw [hq', Effect.onWaiters, List.count_erase_of_ne hc]; rfl
  | unwait _ _ hq' => rw [hq']; rfl
  | wake _ _ _ _ hq => rw [hq]; rfl
  | collect _ hempty hq' =>
      have hsplit := count_collect md false ws c
      simp only [hq', Spot.posts, hempty, Effect.onWaiters, Effect.posted, List.count_append,
        List.count_nil]
      omega
  | update v _ hempty hq' =>
      have hsplit := congrArg (List.count c) (List.takeWhile_append_dropWhile
        (p := fun w => md w == .waitUntilFree) (l := ws))
      simp only [hq', Spot.posts, hempty, Effect.onWaiters, Effect.posted, List.count_append,
        List.count_nil] at hsplit ⊢
      omega
  | clear w _ _ hq hpost =>
      rw [hq]
      simp only [Spot.posts, hpost, Effect.onWaiters, Effect.posted, Option.toList,
        List.count_append, List.count_cons, List.count_nil]
      omega
  | post w hpost hq' =>
      simp only [hq', Spot.posts, hpost, Effect.onWaiters, Effect.posted, Option.toList,
        List.count_append, List.count_cons, List.count_nil, beq_iff_eq]
      omega
  | repay hq => rw [hq, Effect.posted, if_neg (Ne.symm hc)]; rfl

/-- For the backend itself, what it has absorbed and has in hand changes as its semaphore
does; entering the queue and waking up are the two ends of one wait. -/
theorem SpotChange.balance_self (h : SpotChange b q q' ws wt md e) (hone : ws.count b ≤ 1) :
    q'.posts.count b + (e.onWaiters b ws).count b + e.posted b + q'.tokens + q'.hand +
        q'.gone.toNat + q.waiting.isSome.toNat =
      q.posts.count b + ws.count b + q.tokens + q.hand + q.gone.toNat +
        q'.waiting.isSome.toNat + e.taken := by
  cases h with
  | quiet hq' heff => rcases heff with rfl | ⟨w, rfl⟩ | ⟨v, rfl⟩ <;> rw [hq'] <;> rfl
  | relock _ _ _ _ hq' => rw [hq']; rfl
  | push call hnone hq' =>
      rw [hq', hnone, Effect.onWaiters, count_pushWaiter, if_pos rfl]
      simp only [Spot.posts, Effect.posted, Effect.taken, Option.isSome, Bool.toNat_true,
        Bool.toNat_false]
      omega
  | drop _ hgone hq' =>
      have hgone' : (ws.erase b).count b + (decide (b ∈ ws)).toNat = ws.count b := by
        rw [List.count_erase_self]
        by_cases hmem : b ∈ ws
        · have hpos := List.count_pos_iff.mpr hmem
          rw [decide_eq_true hmem, Bool.toNat_true]
          omega
        · rw [decide_eq_false hmem, List.count_eq_zero.mpr hmem]
          rfl
      simp only [hq', hgone, Spot.posts, Effect.onWaiters, Effect.posted, Effect.taken,
        Bool.toNat_false]
      omega
  | unwait hsome hgone hq' =>
      simp only [hq', hgone, hsome, Spot.posts, Effect.onWaiters, Effect.posted, Effect.taken,
        Option.isSome_none, Bool.toNat_true, Bool.toNat_false]
      omega
  | absorb _ _ hhand hq' =>
      rw [hq']
      simp only [hhand, Spot.posts, Effect.onWaiters, Effect.posted, Effect.taken]
      omega
  | wake call _ _ hnone hq =>
      rw [hq, hnone]
      simp only [Spot.posts, Effect.onWaiters, Effect.posted, Effect.taken, Option.isSome,
        Bool.toNat_true, Bool.toNat_false]
      omega
  | collect _ hempty hq' =>
      have hsplit := count_collect md false ws b
      simp only [hq', Spot.posts, hempty, Effect.onWaiters, Effect.posted, Effect.taken,
        List.count_append, List.count_nil]
      omega
  | update v _ hempty hq' =>
      have hsplit := congrArg (List.count b) (List.takeWhile_append_dropWhile
        (p := fun w => md w == .waitUntilFree) (l := ws))
      simp only [hq', Spot.posts, hempty, Effect.onWaiters, Effect.posted, Effect.taken,
        List.count_append, List.count_nil] at hsplit ⊢
      omega
  | clear w _ _ hq hpost =>
      rw [hq]
      simp only [Spot.posts, hpost, Effect.onWaiters, Effect.posted, Effect.taken, Option.toList,
        List.count_append, List.count_cons, List.count_nil]
      omega
  | post w hpost hq' =>
      simp only [hq', Spot.posts, hpost, Effect.onWaiters, Effect.posted, Effect.taken,
        Option.toList, List.count_append, List.count_cons, List.count_nil, beq_iff_eq]
      omega
  | repay hq =>
      rw [hq]
      simp only [Spot.posts, Effect.onWaiters, Effect.posted, Effect.taken, if_pos]
      omega
  | take hq' =>
      rw [hq']
      simp only [Spot.posts, Effect.onWaiters, Effect.posted, Effect.taken]
      omega

end Effects

section Ledger

variable [Fintype B] [DecidableEq B]

/-- Clearing somebody's `lwWaiting` comes before posting its semaphore. -/
theorem sum_clears_le_posts (s : State B L V) (c : B) :
    ∑ w, (s.spot w).clears.count c ≤ ∑ w, (s.spot w).posts.count c := by
  refine Finset.sum_le_sum fun w _ => ?_
  rw [Spot.posts, List.count_append]
  exact Nat.le_add_left _ _

variable [DecidableEq L]

/-- What backend `b` has taken from its semaphore or others have still to post there.  A
backend in the queue, or on its way out, has its signal as a matter of form. -/
def State.outstanding (s : State B L V) (b : B) : Nat :=
  (s.spot b).tokens + (s.spot b).hand + ∑ w, (s.spot w).posts.count b +
    (s.lock (s.proc b).lock).waiters.count b + (s.spot b).gone.toNat

theorem sum_posts_after (s : State B L V) (b : B) (p' : Proc B L V) (e : Effect B V) (c : B) :
    ∑ w, ((s.after b p' e).spot w).posts.count c + (s.spot b).posts.count c =
      ∑ w, (s.spot w).posts.count c + p'.spot.posts.count c := by
  have hchange := Tally.sum_change (g := fun w => (s.spot w).posts.count c) b
    (fun w hw => congrArg (fun p => p.spot.posts.count c) (after_proc_ne s hw p' e))
  simpa using hchange

variable [DecidableEq V]

/-- The balance of every semaphore; `sem₀` is what they started with, `tr` what has happened
since. -/
def Ledger (sem₀ : B → Nat) (tr : List (B × Act L V)) (s : State B L V) : Prop :=
  ∀ b, s.sem b + s.outstanding b + tr.count (b, .wait) =
    sem₀ b + tr.count (b, .signal) + (s.spot b).waiting.isSome.toNat

variable {sem₀ : B → Nat} {tr : List (B × Act L V)} {s : State B L V} {b : B} {a : Act L V}
  {p' : Proc B L V} {e : Effect B V}

theorem Ledger.step (h : Ledger sem₀ tr s) (hQ : Queues s)
    (hch : SpotChange b (s.spot b) p'.spot (s.lock (s.proc b).lock).waiters (s.lwWaiting b)
      s.lwWaitMode e) (hsem : e = .take → s.sem b ≠ 0) : Ledger sem₀ tr (s.after b p' e) := by
  intro c
  have hcount := hQ.count_after hch c
  have hposts := sum_posts_after s b p' e c
  have hold := h c
  change e.onSem b s.sem c + _ + _ = _
  rw [State.outstanding] at hold ⊢
  by_cases hc : c = b
  · subst hc
    have hone : (s.lock (s.proc c).lock).waiters.count c ≤ 1 := by
      have honce := hQ.once c
      have hle := Bool.toNat_le (s.lwWaiting c)
      omega
    have hbal := hch.balance_self hone
    have hs := onSem_self s.sem hsem
    rw [spot_after_self]
    omega
  · have hbal := hch.balance_ne hc
    rw [onSem_ne s.sem hc]
    rw [spot_after_ne s hc]
    omega

theorem Ledger.of_move (h : Ledger sem₀ tr s) (hQ : Queues s) (hm : Move s b a p' e) :
    Ledger sem₀ (tr ++ [(b, a)]) (s.after b p' e) := by
  intro c
  rw [List.count_append, List.count_append, List.count_singleton, List.count_singleton]
  cases move_moved hm (hQ.tidy b) with
  | step hsig hwait hch _ hsem =>
      rw [if_neg (by simp [hwait]), if_neg (by simp [hsig])]
      exact h.step hQ hch hsem c
  | signal hp =>
      subst hp
      rw [(after_self s b b).1]
      change Function.update s.sem b (s.sem b + 1) c + s.outstanding c + _ =
        _ + _ + (s.spot c).waiting.isSome.toNat
      have hold := h c
      by_cases hc : c = b
      · subst hc
        simp
        omega
      · simp [hc, Ne.symm hc]
        omega
  | wait hp hpc hsem =>
      subst hp
      rw [(after_self s b b).2]
      change Function.update s.sem b (s.sem b - 1) c + s.outstanding c + _ =
        _ + _ + (s.spot c).waiting.isSome.toNat
      have hold := h c
      by_cases hc : c = b
      · subst hc
        simp
        omega
      · simp [hc, Ne.symm hc]
        omega

theorem Ledger.of_initial (h : s.Initial) : Ledger s.sem [] s := by
  have hspot : ∀ b, s.spot b = .outside (s.proc b).lock := fun b => by
    simp [Proc.spot, Spot.outside, h.idle b, h.waits b, Pc.waiting, Pc.gone, Pc.clears, Pc.posting,
      Pc.inHand]
  intro b
  simp [State.outstanding, hspot, Spot.outside, Spot.posts, h.waiters]

theorem Ledger.of_run {s' : State B L V} {ok : State B L V → B × Act L V → Prop}
    (h : s.Initial) (r : (lwlocks B L V).Run ok s tr s') : Ledger s.sem tr s' := by
  have hboth : Queues s' ∧ Ledger s.sem tr s' := by
    refine r.tracks (P := fun tr s' => Queues s' ∧ Ledger s.sem tr s') ?_
      ⟨.of_initial h, .of_initial h⟩
    rintro tr s₁ ⟨b, a⟩ s₂ - hstep ⟨hQ, hL⟩
    obtain ⟨p', e, hm, rfl⟩ := step_move hstep
    exact ⟨hQ.of_move hm, hL.of_move hQ hm⟩
  exact hboth.2

/-- Whatever the backends do, in whatever order: when a backend is in no call of the lock code
and no other backend has a waiter's signal left to post for it, the count of its semaphore is
what it was at the start plus what the other users of the semaphore have posted, minus what
they have taken. -/
theorem semaphore_conserved {s' : State B L V} (h : s.Initial)
    (r : (lwlocks B L V).Run Machine.Any s tr s') (hidle : (s'.proc b).pc = .idle)
    (hnone : ∀ w, b ∉ (s'.spot w).posts) :
    s'.sem b + tr.count (b, .wait) = s.sem b + tr.count (b, .signal) := by
  have hQ := Queues.of_run h r
  have hbal := Ledger.of_run h r b
  have hwait : (s'.spot b).waiting = none := by simp [Proc.spot, hidle, Pc.waiting]
  obtain ⟨hnot, -, hgone⟩ := hQ.of_not_waiting (hQ.out b hwait)
  have hx := (hQ.tidy b).extraWaits (by simp [hidle, Pc.inCall])
  have hd := (hQ.tidy b).dequeueWaits (by simp [hidle, Pc.dequeueLoop])
  have htokens : (s'.spot b).tokens = 0 ∧ (s'.spot b).hand = 0 := by
    simp [Proc.spot, hx, hd, hidle, Pc.inHand]
  have hposts : ∑ w, (s'.spot w).posts.count b = 0 :=
    Finset.sum_eq_zero fun w _ => List.count_eq_zero.mpr (hnone w)
  rw [State.outstanding, htokens.1, htokens.2, hposts, List.count_eq_zero.mpr (hnot _), hgone,
    hwait] at hbal
  exact hbal

/-- A backend sleeps on a lock, is posted for another reason and absorbs it, is woken when
the lock is released, takes it, and gives back what it has absorbed. -/
def absorbed : List (Bool × Act Unit Bool) :=
  contended ++ (true, .signal) :: List.replicate 2 (true, .next) ++
    (false, .release ()) :: List.replicate 10 (false, .next) ++ List.replicate 10 (true, .next)

theorem semaphore_conserved_absorbed :
    ∃ s' : State Bool Unit Bool,
      (lwlocks Bool Unit Bool).Run Machine.Any (.initial fun _ => false) absorbed s' ∧
      ((), .exclusive) ∈ (s'.proc true).held ∧
      s'.sem true + absorbed.count (true, .wait) = 0 + absorbed.count (true, .signal) := by
  obtain ⟨s', run, hend⟩ := (lwlocks Bool Unit Bool).exists_run absorbed
    (s := .initial fun _ => false)
    (p := fun s => (s.proc true).held.elem ((), .exclusive) &&
      (s.proc true).pc.isIdle &&
      (s.spot false).posts.isEmpty && (s.spot true).posts.isEmpty)
    (by decide +kernel)
  simp only [Bool.and_eq_true, List.isEmpty_iff] at hend
  obtain ⟨⟨⟨hheld, hidle⟩, hfalse⟩, htrue⟩ := hend
  refine ⟨s', run, List.elem_iff.mp hheld,
    semaphore_conserved (State.initial_initial _) run (Pc.eq_idle hidle) ?_⟩
  intro w
  cases w
  · rw [hfalse]; exact List.not_mem_nil
  · rw [htrue]; exact List.not_mem_nil

end Ledger

/-! ## Nobody is taken out of the queue without a signal -/

section Told

variable [Fintype B] [DecidableEq B]

/-- A backend that waits, and is neither in the queue nor on its own way out, has a signal: in
its semaphore, in its hand, or with the backend that took it out. -/
def Told (s : State B L V) : Prop :=
  ∀ b, (s.spot b).waiting.isSome = true → b ∉ (s.lock (s.proc b).lock).waiters →
    (s.spot b).gone = false → 0 < s.sem b + (s.spot b).hand + ∑ w, (s.spot w).posts.count b

variable {s : State B L V}

theorem Told.of_initial (h : s.Initial) : Told s := by
  intro b hsome
  simp [Proc.spot, h.idle b, Pc.waiting] at hsome

variable [DecidableEq L] {b : B} {a : Act L V} {p' : Proc B L V} {e : Effect B V}

theorem Told.step (h : Told s) (hQ : Queues s)
    (hch : SpotChange b (s.spot b) p'.spot (s.lock (s.proc b).lock).waiters (s.lwWaiting b)
      s.lwWaitMode e) (hsem : e = .take → s.sem b ≠ 0) : Told (s.after b p' e) := by
  intro c hsome hnot hgone
  have hcount := hQ.count_after hch c
  have hposts := sum_posts_after s b p' e c
  rw [List.count_eq_zero.mpr hnot] at hcount
  change 0 < e.onSem b s.sem c + _ + _
  by_cases hc : c = b
  · subst hc
    have hs := onSem_self s.sem hsem
    rw [spot_after_self] at hsome hgone ⊢
    -- the backend has not entered the queue in this step, so it was out of it before
    have hout : e.onWaiters c (s.lock (s.proc c).lock).waiters =
        (s.lock (s.proc c).lock).waiters → c ∉ (s.lock (s.proc c).lock).waiters := by
      intro hws
      rw [hws] at hcount
      exact List.count_eq_zero.mp (by omega)
    cases hch with
    | quiet hq' heff =>
        rw [hq'] at hsome hgone hposts ⊢
        rcases heff with rfl | ⟨w, rfl⟩ | ⟨v, rfl⟩ <;>
          · have hold := h c hsome (hout rfl) hgone
            simp only [Effect.onSem]
            omega
    | push call _ hq' =>
        rw [Effect.onWaiters, count_pushWaiter, if_pos rfl] at hcount
        omega
    | drop _ hg hq' =>
        rw [hq'] at hsome hgone hposts ⊢
        have hold := h c hsome (of_decide_eq_false hgone) hg
        simp only [Effect.onSem, Spot.posts] at *
        omega
    | absorb hwt hg hhand hq' =>
        -- still waiting and not in the queue: somebody has it to tell
        have honce := hQ.once c
        rw [hwt, hg, List.count_eq_zero.mpr (hout rfl), Bool.toNat_true, Bool.toNat_false] at honce
        have hle := sum_clears_le_posts s c
        rw [hq'] at hposts
        simp only [Spot.posts] at *
        omega
    | post w hpost hq' =>
        rw [hq'] at hsome hgone hposts ⊢
        have hold := h c hsome (hout rfl) hgone
        simp only [Effect.taken, Effect.posted, Spot.posts, hpost, Option.toList, List.count_append,
          List.count_cons, List.count_nil, beq_iff_eq] at *
        omega
    | repay hq =>
        simp only [Effect.taken, Effect.posted, if_pos] at hs
        omega
    | take hq' =>
        rw [hq'] at hsome hgone hposts ⊢
        have hold := h c hsome (hout rfl) hgone
        simp only [Effect.taken, Effect.posted, Spot.posts] at *
        omega
    | relock _ hn _ _ hq' | collect hn _ hq' | update _ hn _ hq' =>
        rw [hq'] at hsome
        rw [hn] at hsome
        cases hsome
    | unwait _ _ hq' => rw [hq'] at hsome; cases hsome
    | wake _ _ _ hn => rw [hn] at hsome; cases hsome
    | clear w hn _ hq => rw [hq] at hn; rw [hn] at hsome; cases hsome
  · have hbal := hch.balance_ne hc
    rw [spot_after_ne s hc] at hsome hgone ⊢
    rw [onSem_ne s.sem hc]
    -- either `c` was out of the queue before, or this step has taken it out
    by_cases hmem : c ∈ (s.lock (s.proc c).lock).waiters
    · have hpos := List.count_pos_iff.mpr hmem
      omega
    · have hold := h c hsome hmem hgone
      rw [List.count_eq_zero.mpr hmem] at hcount
      omega

theorem Told.of_move [DecidableEq V] (h : Told s) (hQ : Queues s) (hm : Move s b a p' e) :
    Told (s.after b p' e) := by
  cases move_moved hm (hQ.tidy b) with
  | step _ _ hch _ hsem => exact h.step hQ hch hsem
  | signal hp =>
      subst hp
      rw [(after_self s b b).1]
      intro c hsome hnot hgone
      have hold := h c hsome hnot hgone
      change 0 < Function.update s.sem b (s.sem b + 1) c + (s.spot c).hand +
        ∑ w, (s.spot w).posts.count c
      by_cases hc : c = b
      · subst hc
        rw [Function.update_self]
        omega
      · rwa [Function.update_of_ne hc]
  | wait hp hpc hsem =>
      subst hp
      rw [(after_self s b b).2]
      intro c hsome hnot hgone
      have hc : c ≠ b := by
        rintro rfl
        change (s.spot c).waiting.isSome = true at hsome
        simp [Proc.spot, hpc, Pc.waiting] at hsome
      change 0 < Function.update s.sem b (s.sem b - 1) c + (s.spot c).hand +
        ∑ w, (s.spot w).posts.count c
      rw [Function.update_of_ne hc]
      exact h c hsome hnot hgone

end Told

end BullFrog.Lmgr
