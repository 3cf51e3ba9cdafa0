/-
# `BullFrog.Protocol.Failure` — what a failed migration statement leaves behind

Once a Bind has recognised a migration statement, about a dozen `ereport(ERROR)`
lie between it and the end of the statement.  One of them, the writer's exit of
`OnConflict_CheckForSerializationFailure`, calls `txn_error_handling` first, and
that function acts only if something has been claimed.  Error recovery in
`PostgresMain` touches none of the globals.

So the statement is undone (`Undone`) in exactly one case, and the direction
that needs an argument is that it is undone there:

    the loop clears the lock bits of the claims and nothing else     (`Recovers`)
    the claims are not held any more when it is over                 (`Recovers.over`)
    a bit raised later is raised for a claim made later              (`claimed_during`)

The other backends go on all the while, so a tuple released by the loop may be
locked again, by them, before recovery is over.
-/
import BullFrog.Protocol.Waiting

namespace BullFrog

section

variable {B : Type} [DecidableEq B]

/-- During the recovery of `b` this backend only goes on with its own code. -/
def Recovering (b : B) (_ : System B) (l : B × Action) : Prop := l.1 = b → l.2 = .next

/-- In the run of `tr` from `g`, one of the steps is `b` claiming `r`. -/
def ClaimsDuring (b : B) (r : Key) (g : System B) (tr : List (B × Action)) : Prop :=
  ∃ tr₁ tr₂ h h', tr = tr₁ ++ (b, .next) :: tr₂ ∧
    Machine.Run (protocol B) Machine.Any g tr₁ h ∧ (protocol B).step h (b, .next) = some h' ∧
    h.bits r = ⟨false, false⟩ ∧ h'.bits r = ⟨true, false⟩

/-- The migration state of a session is idle. -/
structure Session.Idle (s : Session) : Prop where
  migrateflag : s.migrateflag = false
  inProgLocalList0 : s.inProgLocalList0 = []
  inProgLocalList1 : s.inProgLocalList1 = []
  tuplemigratecount : s.tuplemigratecount = 0

/-- The statement that failed in `g`, leaving `b` in `g₁`, is undone: recovery comes
to its end, and then the session is idle, the lock bits of the claims are clear or
set by others, no other bit has been changed, and the session raises the migrate
bit of such a tuple later only after claiming it again. -/
structure Undone (g : System B) (b : B) (g₁ : System B) : Prop where
  ends : ∀ tr h, Machine.Run (protocol B) (Recovering b) g₁ tr h →
    ∃ n g₂, Machine.Run (protocol B) (Recovering b) h (nexts b n) g₂ ∧ (g₂.sess b).pc = .idle
  idle : ∀ tr g₂, Machine.Run (protocol B) (Recovering b) g₁ tr g₂ →
    (g₂.sess b).pc = .idle → (g₂.sess b).Idle
  released : ∀ tr g₂, Machine.Run (protocol B) (Recovering b) g₁ tr g₂ →
    (g₂.sess b).pc = .idle → ∀ e ∈ (g.sess b).inProgLocalList0,
      (g₂.bits ((g.sess b).bitmapNum, e)).lock = true →
      ∃ b', b' ≠ b ∧ ((g.sess b).bitmapNum, e) ∈ (g₂.sess b').held
  others : g₁.bits = g.bits ∧
    ∀ tr h h', Machine.Run (protocol B) (Recovering b) g₁ tr h →
      (protocol B).step h (b, .next) = some h' → ∀ r, h'.bits r ≠ h.bits r →
        r.1 = (g.sess b).bitmapNum ∧ r.2 ∈ (g.sess b).inProgLocalList0 ∧
          h.bits r = ⟨true, false⟩ ∧ h'.bits r = ⟨false, false⟩
  anew : ∀ tr g₂ tr' g₃ a g₄, Machine.Run (protocol B) (Recovering b) g₁ tr g₂ →
    (g₂.sess b).pc = .idle → Machine.Run (protocol B) Machine.Any g₂ tr' g₃ →
    (protocol B).step g₃ (b, a) = some g₄ → ∀ e ∈ (g.sess b).inProgLocalList0,
      (g₃.bits ((g.sess b).bitmapNum, e)).migrate = false →
      (g₄.bits ((g.sess b).bitmapNum, e)).migrate = true →
      ClaimsDuring b ((g.sess b).bitmapNum, e) g₂ tr'

/-! ## The recovery -/

/-- `txn_error_handling` has the lock bits `todo` of `claims` to clear, or it is
over and the claims are not held any more. -/
def Session.Recovers (k : BitmapNum) (claims : List Eid) (s : Session) : Prop :=
  s.bitmapNum = k ∧
    ((∃ todo, s.pc = .resetLock todo ∧ (∀ e ∈ todo, e ∈ claims) ∧
        ∀ e ∈ claims, e ∈ todo ∨ (k, e) ∉ s.held) ∨
      (s.pc = .idle ∧ s.Idle ∧ ∀ e ∈ claims, (k, e) ∉ s.held))

theorem Session.Move.recovers {bits : Key → Status} {s s' : Session} {eff : Effect}
    {k : BitmapNum} {claims : List Eid} (hm : Session.Move bits s .next s' eff)
    (hnd : s.held.Nodup) (h : s.Recovers k claims) : s'.Recovers k claims := by
  obtain ⟨rfl, ⟨todo, hpc, hsub, hclaims⟩ | ⟨hpc, -⟩⟩ := h
  · cases hm with
    | resetLock e rest hpc' =>
        obtain rfl : todo = e :: rest := by
          rw [hpc] at hpc'
          exact (Pc.resetLock.inj hpc')
        refine ⟨rfl, .inl ⟨rest, rfl, fun e' he' => hsub e' (List.mem_cons_of_mem _ he'), ?_⟩⟩
        intro e' he'
        have herase := hnd.mem_erase_iff (a := (s.bitmapNum, e')) (b := (s.bitmapNum, e))
        rcases hclaims e' he' with hmem | hnot
        · rcases List.mem_cons.mp hmem with rfl | hmem
          · exact .inr fun hheld => (herase.mp hheld).1 rfl
          · exact .inl hmem
        · exact .inr fun hheld => hnot (herase.mp hheld).2
    | undone hpc' =>
        obtain rfl : todo = [] := by
          rw [hpc] at hpc'
          exact (Pc.resetLock.inj hpc')
        exact ⟨rfl, .inr ⟨rfl, ⟨rfl, rfl, rfl, rfl⟩,
          fun e he => (hclaims e he).resolve_left List.not_mem_nil⟩⟩
    | _ => simp_all
  · cases hm <;> simp_all

variable {bits₀ : Key → Status} {g g₁ g₂ : System B} {b : B} {tr : List (B × Action)}

/-- Recovery, whatever the others do. -/
theorem recovers_run {k : BitmapNum} {claims : List Eid} (hO : Ownership bits₀ g₁)
    (h : (g₁.sess b).Recovers k claims)
    (r : Machine.Run (protocol B) (Recovering b) g₁ tr g₂) :
    Ownership bits₀ g₂ ∧ (g₂.sess b).Recovers k claims := by
  refine r.invariant (I := fun g => Ownership bits₀ g ∧ (g.sess b).Recovers k claims) ?_ ⟨hO, h⟩
  rintro g ⟨b', a⟩ g' hok hstep ⟨hO, h⟩
  obtain ⟨s', eff, hm, hen, rfl⟩ := step_cases hstep
  refine ⟨hO.after hm hen, ?_⟩
  by_cases hb : b = b'
  · subst hb
    obtain rfl : a = .next := hok rfl
    rw [after_sess_self]
    exact hm.recovers (hO.held_nodup b) h
  · rw [after_sess_ne hb]
    exact h

/-- A claim that is held now and was not before has been made in between. -/
theorem claimed_during {r : Key} (hO : Ownership bits₀ g)
    (run : Machine.Run (protocol B) Machine.Any g tr g₁) (hnot : r ∉ (g.sess b).held)
    (hheld : r ∈ (g₁.sess b).held) : ClaimsDuring b r g tr := by
  induction run with
  | nil => exact absurd hheld hnot
  | @snoc tr l h h' run _ hstep ih =>
      obtain ⟨b', a⟩ := l
      have hO' := ownership_run hO run
      obtain ⟨s', eff, hm, -, rfl⟩ := step_cases hstep
      rcases (hO'.held_after hm b r).mp hheld with ⟨rfl, rfl⟩ | ⟨hold, -⟩
      · have hclear : h.bits r = ⟨false, false⟩ := hO'.finds hm
        obtain rfl := hm.next_of_setLock
        exact ⟨tr, [], h, _, rfl, run, hstep, hclear, by simp [Effect.onBits, hclear]⟩
      · obtain ⟨tr₁, tr₂, h₁, h₂, rfl, hrest⟩ := ih hold
        exact ⟨tr₁, tr₂ ++ [(b', a)], h₁, h₂, by simp, hrest⟩

/-- Left alone, `txn_error_handling` comes to its end. -/
theorem recovery_ends (todo : List Eid) {h : System B} (hpc : (h.sess b).pc = .resetLock todo) :
    ∃ n g₂, Machine.Run (protocol B) (Recovering b) h (nexts b n) g₂ ∧
      (g₂.sess b).pc = .idle := by
  induction todo generalizing h with
  | nil =>
      have hstep : (protocol B).step h (b, .next) =
          some (h.after b (h.sess b).clear.abort .skip) := by
        simp [protocol, Session.step, Session.next, hpc, Effect.enabled]
      exact ⟨1, _, .snoc .nil (fun _ => rfl) hstep, by rw [after_sess_self]; rfl⟩
  | cons e todo ih =>
      let s' : Session := { h.sess b with
        pc := .resetLock todo, held := (h.sess b).held.erase ((h.sess b).bitmapNum, e) }
      have hstep : (protocol B).step h (b, .next) =
          some (h.after b s' (.resetLock (h.sess b).bitmapNum e)) := by
        simp [protocol, Session.step, Session.next, hpc, Effect.enabled, s']
      obtain ⟨n, g₂, run, hidle⟩ := ih (h := h.after b s' (.resetLock (h.sess b).bitmapNum e))
        (by rw [after_sess_self])
      have first : Machine.Run (protocol B) (Recovering b) h ([] ++ [(b, .next)]) _ :=
        .snoc .nil (fun _ => rfl) hstep
      exact ⟨n + 1, g₂, first.append run, hidle⟩

/-! ## When a failed statement is undone -/

theorem Session.Move.of_error {bits : Key → Status} {s s' : Session} {eff : Effect}
    {x : ErrorExit} (hm : Session.Move bits s (.error x) s' eff) :
    eff = .skip ∧ ((s.mustUndo x = true ∧ s' = { s with pc := .resetLock s.inProgLocalList0 }) ∨
      (s.mustUndo x = false ∧ s' = s.abort)) := by
  cases hm with
  | failUndo _ _ h => exact ⟨rfl, .inl ⟨h, rfl⟩⟩
  | fail _ _ h => exact ⟨rfl, .inr ⟨h, rfl⟩⟩
  | finishPending _ _ h _ | finishCommit _ _ h _ | finishDiscard _ _ h _ =>
      rcases h with ⟨h, -⟩ | ⟨h, -⟩ <;> cases h

theorem Session.Move.of_undoing {bits : Key → Status} {s s' : Session} {eff : Effect}
    {todo : List Eid} (hm : Session.Move bits s .next s' eff) (hpc : s.pc = .resetLock todo) :
    eff = .skip ∨ ∃ e ∈ todo, eff = .resetLock s.bitmapNum e := by
  cases hm with
  | resetLock e rest hpc' =>
      rw [hpc] at hpc'
      rw [Pc.resetLock.inj hpc']
      exact .inr ⟨e, List.mem_cons_self, rfl⟩
  | undone _ => exact .inl rfl
  | _ => simp_all

/-- A session that `txn_error_handling` is called in, with the claims of `g`, undoes them. -/
theorem undone_of_recovers (hO : Ownership allClear g₁) (hbits : g₁.bits = g.bits)
    (h : (g₁.sess b).Recovers (g.sess b).bitmapNum (g.sess b).inProgLocalList0) :
    Undone g b g₁ where
  ends tr h' run := by
    obtain ⟨-, -, ⟨todo, hpc, -⟩ | ⟨hpc, -⟩⟩ := recovers_run hO h run
    · exact recovery_ends todo hpc
    · exact ⟨0, h', .nil, hpc⟩
  idle tr g₂ run hidle := by
    obtain ⟨-, -, ⟨todo, hpc, -⟩ | ⟨-, h, -⟩⟩ := recovers_run hO h run
    · rw [hidle] at hpc; cases hpc
    · exact h
  released tr g₂ run hidle e he hlock := by
    obtain ⟨hO₂, -, ⟨todo, hpc, -⟩ | ⟨-, -, hnot⟩⟩ := recovers_run hO h run
    · rw [hidle] at hpc; cases hpc
    · rcases (hO₂.lock_iff _).mp hlock with h₀ | ⟨b', hb'⟩
      · cases h₀
      · refine ⟨b', ?_, hb'⟩
        rintro rfl
        exact hnot e he hb'
  others := by
    refine ⟨hbits, ?_⟩
    intro tr h₁ h₂ run hstep r hne
    obtain ⟨hO', hk, hrec⟩ := recovers_run hO h run
    obtain ⟨s', eff, hm, -, rfl⟩ := step_cases hstep
    rcases hrec with ⟨todo, hpc, hsub, -⟩ | ⟨hpc, -⟩
    · rcases hm.of_undoing hpc with rfl | ⟨e, he, rfl⟩
      · exact absurd rfl hne
      · have hfind := (hO'.finds hm).1
        rw [hk] at hfind hne ⊢
        have hr : r = ((g.sess b).bitmapNum, e) := by
          by_contra hr
          exact hne (by simp [Effect.onBits, hr])
        subst hr
        exact ⟨rfl, hsub e he, hfind, by simp [Effect.onBits, hfind]⟩
    · cases hm <;> simp_all
  anew tr g₂ tr' g₃ a g₄ run hidle run' hstep e he hclear hset := by
    obtain ⟨hO₂, -, ⟨todo, hpc, -⟩ | ⟨-, -, hnot⟩⟩ := recovers_run hO h run
    · rw [hidle] at hpc; cases hpc
    · refine claimed_during hO₂ run' (hnot e he) ?_
      have hO₃ := ownership_run hO₂ run'
      obtain ⟨s', eff, hm, -, rfl⟩ := step_cases hstep
      rcases Effect.onBits_migrate.mp hset with hold | rfl
      · rw [hclear] at hold; cases hold
      · exact (hO₃.finds hm).2

/-- For every error raised in migration mode, in every reachable state: the
statement is undone if and only if the error is the writer's exit of
`OnConflict_CheckForSerializationFailure` and something has been claimed. -/
theorem failed_statement_undone_iff {x : ErrorExit}
    (run : Machine.Run (protocol B) Machine.Any (System.initial allClear) tr g)
    (hflag : (g.sess b).migrateflag = true)
    (herr : (protocol B).step g (b, .error x) = some g₁) :
    Undone g b g₁ ↔
      x.callsTxnErrorHandling = true ∧ (g.sess b).inProgLocalList0 ≠ [] := by
  have hO : Ownership allClear g₁ :=
    ownership_run (ownership_initial allClear) (run.snoc trivial herr)
  have hundo : (g.sess b).mustUndo x = true ↔
      x.callsTxnErrorHandling = true ∧ (g.sess b).inProgLocalList0 ≠ [] := by
    simp [Session.mustUndo, hflag]
  obtain ⟨s', eff, hm, -, rfl⟩ := step_cases herr
  obtain ⟨rfl, ⟨hyes, rfl⟩ | ⟨hno, rfl⟩⟩ := hm.of_error
  · refine ⟨fun _ => hundo.mp hyes, fun _ => undone_of_recovers hO rfl ?_⟩
    rw [after_sess_self]
    exact ⟨rfl, .inl ⟨_, rfl, fun _ he => he, fun _ he => .inl he⟩⟩
  · constructor
    · -- the flag is left on, so the session is not idle
      intro hU
      have hoff := (hU.idle [] _ .nil (by rw [after_sess_self]; rfl)).migrateflag
      rw [after_sess_self] at hoff
      exact absurd (hflag.symm.trans hoff) (by decide)
    · intro h
      rw [hundo.mpr h] at hno
      cases hno

/-- Backend `false` has claimed tuples 5 and 6 when the writer's exit is taken. -/
theorem failed_statement_undone_claims :
    ∃ tr g g₁, Machine.Run (protocol Bool) Machine.Any (System.initial allClear) tr g ∧
      (protocol Bool).step g (false, .error .onConflictWriter) = some g₁ ∧
      (g.sess false).inProgLocalList0 = [5, 6] ∧ Undone g false g₁ := by
  let tr := startStatement false 0 ++ claim false 5 ++ claim false 6
  obtain ⟨g, run, h⟩ := (protocol Bool).exists_run (s := System.initial allClear) tr
    (p := fun g => decide ((g.sess false).migrateflag = true ∧
        (g.sess false).inProgLocalList0 = [5, 6]) &&
      ((protocol Bool).step g (false, .error .onConflictWriter)).isSome)
    (by decide +kernel)
  obtain ⟨h, h'⟩ := Bool.and_eq_true_iff.mp h
  obtain ⟨hflag, hlist⟩ := of_decide_eq_true h
  obtain ⟨g₁, herr⟩ := Option.isSome_iff_exists.mp h'
  exact ⟨tr, g, g₁, run, herr, hlist,
    (failed_statement_undone_iff run hflag herr).mpr ⟨rfl, by rw [hlist]; simp⟩⟩

/-- An error of the insert after tuple 5 has been claimed leaves the flag, the list
and the lock bit as they are. -/
theorem failed_insert_not_undone :
    ∃ tr g g₁, Machine.Run (protocol Unit) Machine.Any (System.initial allClear) tr g ∧
      (g.sess ()).migrateflag = true ∧
      (protocol Unit).step g ((), .error .execution) = some g₁ ∧ ¬ Undone g () g₁ := by
  let tr := startStatement () 0 ++ [((), .pass 5)] ++ nexts () 8
  obtain ⟨g, run, h⟩ := (protocol Unit).exists_run (s := System.initial allClear) tr
    (p := fun g => decide ((g.sess ()).migrateflag = true) &&
      ((protocol Unit).step g ((), .error .execution)).any fun g₁ : System Unit =>
        decide ((g₁.sess ()).pc = .idle ∧ (g₁.sess ()).migrateflag = true))
    (by decide +kernel)
  obtain ⟨hflag, h'⟩ := Bool.and_eq_true_iff.mp h
  obtain ⟨g₁, herr, h₁⟩ := (Option.any_eq_true _ _).mp h'
  obtain ⟨hpc, hon⟩ := of_decide_eq_true h₁
  refine ⟨tr, g, g₁, run, of_decide_eq_true hflag, herr, ?_⟩
  intro hU
  rw [(hU.idle [] g₁ .nil hpc).migrateflag] at hon
  cases hon

end

end BullFrog
