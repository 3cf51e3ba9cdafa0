/-
# `BullFrog.Protocol.Linearize` — the protocol holds over the code of the locks

For the protocol, a partition lock is taken at the instruction that adds to the state word and
given back at the one that subtracts from it.  Seen so, every step of the linked system is a
step of the protocol or none at all, and every state it reaches is one the protocol reaches
(`linked_refines_protocol`): what was proved of the protocol holds over the real locks, for a
migration whose partition locks have been initialised.
-/
import BullFrog.Protocol.Linked

namespace BullFrog

/-! ## What the protocol sees -/

section Refinement

variable {B : Type} {g g' : Linked B} {b : B} {t : System B}

/-- The session as the protocol has it: a call is done with the instruction that takes the
lock, or gives it back. -/
def Session.seen (s : Session) (p : Lmgr.Proc B Nat Unit) : Session :=
  match s.pc with
  | .acquire e => if p.owned = [] then s else { s with pc := .recheckMigrate e }
  | .releaseClaimed e => if p.owned = [] then { s with pc := .appendClaimed e } else s
  | .releaseBusy e => if p.owned = [] then { s with pc := .appendBusy e } else s
  | .releaseDone _ => if p.owned = [] then { s with pc := .scan } else s
  | _ => s

/-- A state of the linked system and a state of the protocol. -/
structure Abstracts (s : Linked B) (g : System B) : Prop where
  sess : ∀ b, g.sess b = (s.sess b).seen (s.locks.proc b)
  bits : g.bits = s.bits
  lwlock : ∀ l b, g.lwlock l = some b ↔ (l, .exclusive) ∈ (s.locks.proc b).owned
  emitted : g.emitted = s.emitted
  committed : g.committed = s.committed

/-- The protocol and the session differ only during a lock call. -/
theorem Session.seen_of_section {s : Session} {p : Lmgr.Proc B Nat Unit}
    (h : s.pc.section = .out ∨ (∃ e, s.pc.section = .inside e) ∨
      (∃ e, s.pc.section = .enter e) ∧ p.owned = [] ∨
      (∃ e, s.pc.section = .leave e) ∧ p.owned ≠ []) : s.seen p = s := by
  rw [Session.seen]
  cases hpc : s.pc <;> simp_all [Pc.section]

theorem Place.seen_of_not_calling {s : Session} {p : Lmgr.Proc B Nat Unit}
    (h : Place s p false) : s.seen p = s := by
  cases h with
  | out hs => exact s.seen_of_section (Or.inl hs)
  | enter e hs hrest => exact s.seen_of_section (Or.inr (Or.inr (Or.inl ⟨⟨e, hs⟩, hrest.owned⟩)))
  | inside e hs hrest =>
      rcases hs with hs | hs
      · exact s.seen_of_section (Or.inr (Or.inl ⟨e, hs⟩))
      · refine s.seen_of_section (Or.inr (Or.inr (Or.inr ⟨⟨e, hs⟩, ?_⟩)))
        rw [hrest.owned]
        exact List.cons_ne_nil _ _

/-- What the protocol makes of a session whose call has had its effect. -/
theorem Session.Move.seen_of_call {bits : Key → Status} {s s' : Session} {a : Action}
    {eff : Effect} {c : Lmgr.Act Nat Unit} {p : Lmgr.Proc B Nat Unit}
    (hm : Session.Move bits s a s' eff) (hcall : eff.lockCall = some c)
    (h : (∃ e, s.pc.section = .enter e) ∧ p.owned ≠ [] ∨
      (∃ e, s.pc.section = .leave e) ∧ p.owned = []) : s.seen p = s' := by
  rw [Session.seen]
  cases hm with
  | acquire e hpc | releaseClaimed e hpc | releaseBusy e hpc | releaseDone e hpc =>
      simp_all [Pc.section]
  | _ => cases hcall

/-- A finished call is a step the protocol has already made. -/
theorem Place.seen_of_back {s s' : Session} {p : Lmgr.Proc B Nat Unit} {bits : Key → Status}
    {a : Action} {eff : Effect} {c : Lmgr.Act Nat Unit} (h : Place s p true)
    (hm : Session.Move bits s a s' eff) (hcall : eff.lockCall = some c) (hidle : p.pc = .idle) :
    s.seen p = s' := by
  refine hm.seen_of_call hcall ?_
  cases h with
  | acquiring e hs hacq =>
      have hpc := hacq.pc
      rw [hidle] at hpc
      cases hpc
  | acquired e hs hrest =>
      left
      rw [hrest.owned]
      exact ⟨⟨e, hs⟩, List.cons_ne_nil _ _⟩
  | releasing e hs hrel =>
      rcases hrel.place with ⟨hpc, _⟩ | ⟨hpc, _⟩ <;> rw [hidle] at hpc <;> cases hpc
  | released e hs hrest => exact Or.inr ⟨⟨e, hs⟩, hrest.owned⟩

theorem Linked.Start.abstracts {n : Nat} {requests : NamedLWLockTrancheRequests}
    {bits : Key → Status} (h : g.Start n requests bits) : Abstracts g (System.initial bits) where
  sess b := by
    rw [h.sess b]
    rfl
  bits := h.bits.symm
  lwlock l b := by
    rw [(h.proc b).owned]
    change none = some b ↔ (l, .exclusive) ∈ ([] : List (Nat × Lmgr.LWLockMode))
    simp
  emitted := h.emitted.symm
  committed := h.committed.symm

/-- If nobody's locks and nobody's session change in the eyes of the protocol, neither does
its state. -/
theorem Abstracts.stutter (h : Abstracts g t) (hbits : g'.bits = g.bits)
    (hemitted : g'.emitted = g.emitted) (hcommitted : g'.committed = g.committed)
    (hsess : ∀ c, (g'.sess c).seen (g'.locks.proc c) = (g.sess c).seen (g.locks.proc c))
    (howned : ∀ c x, x ∈ (g'.locks.proc c).owned ↔ x ∈ (g.locks.proc c).owned) :
    Abstracts g' t where
  sess c := (h.sess c).trans (hsess c).symm
  bits := h.bits.trans hbits.symm
  lwlock l c := (h.lwlock l c).trans (howned c _).symm
  emitted := h.emitted.trans hemitted.symm
  committed := h.committed.trans hcommitted.symm

/-- The protocol looks at a session's locks only to see whether there are any. -/
theorem Session.seen_congr (s : Session) {p p' : Lmgr.Proc B Nat Unit}
    (h : p'.owned.Perm p.owned) : s.seen p' = s.seen p := by
  have hiff : p'.owned = [] ↔ p.owned = [] := by
    rw [← List.length_eq_zero_iff, ← List.length_eq_zero_iff, h.length_eq]
  rw [Session.seen, Session.seen]
  split <;> simp only [hiff]

theorem Effect.onLocks_of_plain {eff : Effect} (h : eff.lockCall = none) [DecidableEq B]
    (lwlock : Nat → Option B) : eff.onLocks b lwlock = lwlock ∧ eff.enabled lwlock = true := by
  cases eff <;> first | exact ⟨rfl, rfl⟩ | cases h

/-- The instruction that takes a lock is in `LWLockAcquire`, and the session waits there. -/
theorem Place.of_swap {s : Session} {p : Lmgr.Proc B Nat Unit} {r : Lmgr.Try} {w : UInt32}
    (h : Place s p true) (hpc : p.pc = .swap r w) :
    ∃ e, s.pc.section = .enter e ∧ p.lock = s.partition e ∧ r.mode = .exclusive ∧ p.owned = [] := by
  cases h with
  | acquiring e hs hacq =>
      have hheld := hacq.held
      have hmode := hacq.pc
      rw [hpc] at hheld hmode
      refine ⟨e, hs, hacq.lock, ?_, ?_⟩
      · cases r <;> first | exact eq_of_beq hmode | cases hmode
      · rw [Lmgr.Proc.owned, hheld, hpc]
        rfl
  | releasing e hs hrel =>
      rcases hrel.place with ⟨hpc', _⟩ | ⟨hpc', _⟩ <;> rw [hpc] at hpc' <;> cases hpc'
  | acquired e hs hrest | released e hs hrest =>
      have hidle := hrest.pc
      rw [hpc] at hidle
      cases hidle

/-- The one that gives it back is in `LWLockRelease`. -/
theorem Place.of_subtract {s : Session} {p : Lmgr.Proc B Nat Unit} {m : Lmgr.LWLockMode}
    (h : Place s p true) (hpc : p.pc = .subtract m) :
    ∃ e, s.pc.section = .leave e ∧ p.lock = s.partition e ∧ m = .exclusive ∧
      p.owned = [(s.partition e, .exclusive)] := by
  cases h with
  | releasing e hs hrel =>
      rcases hrel.place with ⟨hpc', _⟩ | ⟨hmode, hheld⟩
      · rw [hpc] at hpc'
        cases hpc'
      · rw [hpc] at hmode
        obtain rfl := eq_of_beq hmode
        refine ⟨e, hs, hrel.lock, rfl, ?_⟩
        rw [Lmgr.Proc.owned, hheld, hpc, hrel.lock]
        rfl
  | acquiring e hs hacq =>
      have hmode := hacq.pc
      rw [hpc] at hmode
      cases hmode
  | acquired e hs hrest | released e hs hrest =>
      have hidle := hrest.pc
      rw [hpc] at hidle
      cases hidle

variable [DecidableEq B]

/-- A step of the linked system that is not an instruction of `lwlock.c`. -/
theorem Abstracts.of_plain {a : Action} {s' : Session} {eff : Effect} (h : Abstracts g t)
    (hJ : Joined g) (hs : (g.sess b).step g.bits a = some (s', eff)) (hc : eff.lockCall = none)
    (hcalling : g.calling b = false) :
    ∃ m t', (protocol B).step t m = some t' ∧ Abstracts (g.afterSession b s' eff) t' := by
  have hplace := hJ.place b
  rw [hcalling] at hplace
  have hsess : t.sess b = g.sess b := (h.sess b).trans hplace.seen_of_not_calling
  obtain ⟨hlocks, henabled⟩ := Effect.onLocks_of_plain (b := b) hc t.lwlock
  refine ⟨(b, a), t.after b s' eff, ?_, ?_⟩
  · simp only [protocol]
    rw [hsess, h.bits, hs]
    exact if_pos henabled
  · refine ⟨fun c => ?_, ?_, fun l c => ?_, ?_, ?_⟩
    · by_cases hcb : c = b
      · subst hcb
        have hplace' := hplace.after_plain (Session.move_of_step hs) hc
        simp [Linked.afterSession, hplace'.seen_of_not_calling]
      · simp [Linked.afterSession, after_sess_ne hcb, hcb, h.sess c]
    · simp [Linked.afterSession, h.bits]
    · rw [after_lwlock, hlocks]
      exact h.lwlock l c
    · simp [Linked.afterSession, h.emitted]
    · simp [Linked.afterSession, h.committed]

variable [Fintype B]

/-- What the locks' own invariants say of a partition lock that a word shows as free. -/
theorem Joined.free (h : Joined g) {l : Nat} (hl : l < numMigrateBitmapLocks) {m : Lmgr.LWLockMode}
    (hfree : Lmgr.lockFree m (g.locks.lock l).state = true) (c : B) :
    (l, .exclusive) ∉ (g.locks.proc c).owned := by
  obtain ⟨t₀, t, hinit, ⟨tr, r⟩, hagree⟩ := h.locks
  rw [← hagree.lock l hl] at hfree
  rw [← hagree.proc]
  exact ((Lmgr.Lively.of_run hinit r).1.counted.admits hfree).1 c

theorem Joined.unique (h : Joined g) {l : Nat} {b c : B}
    (hb : (l, .exclusive) ∈ (g.locks.proc b).owned)
    (hc : (l, .exclusive) ∈ (g.locks.proc c).owned) : c = b := by
  obtain ⟨t₀, t, hinit, ⟨tr, r⟩, hagree⟩ := h.locks
  rw [← hagree.proc] at hb hc
  exact (Lmgr.Lively.of_run hinit r).1.counted.unique hb hc

/-- The instruction that takes the lock is the protocol's acquire. -/
theorem Abstracts.of_take {m : Lmgr.LWLockMode} {p' : Lmgr.Proc B Nat Unit}
    {e : Lmgr.Effect B Unit} (h : Abstracts g t) (hJ : Joined g) (hcalling : g.calling b = true)
    (hpc : ∃ r : Lmgr.Try, (g.locks.proc b).pc =
      .swap r (g.locks.lock (g.locks.proc b).lock).state ∧ r.mode = m)
    (hfree : Lmgr.lockFree m (g.locks.lock (g.locks.proc b).lock).state = true)
    (hperm : p'.owned.Perm (((g.locks.proc b).lock, m) :: (g.locks.proc b).owned)) :
    ∃ x t', (protocol B).step t x = some t' ∧
      Abstracts { g with locks := g.locks.after b p' e } t' := by
  have hplace := hJ.place b
  rw [hcalling] at hplace
  obtain ⟨r, hswap, rfl⟩ := hpc
  obtain ⟨eid, hsec, hlock, hmode, hnone⟩ := hplace.of_swap hswap
  rw [hmode, hlock, hnone] at hperm
  rw [hlock] at hfree
  have hadmits := hJ.free (Session.partition_lt (hJ.first b) eid) hfree
  have howned : p'.owned = [((g.sess b).partition eid, .exclusive)] := List.perm_singleton.mp hperm
  obtain ⟨s', hs⟩ := Session.step_of_enter hsec g.bits
  have hsess : t.sess b = g.sess b := by
    rw [h.sess b]
    exact Session.seen_of_section (Or.inr (Or.inr (Or.inl ⟨⟨eid, hsec⟩, hnone⟩)))
  have hfree' : t.lwlock ((g.sess b).partition eid) = none := by
    by_contra hheld
    obtain ⟨c, hc⟩ := Option.ne_none_iff_exists'.mp hheld
    exact hadmits c ((h.lwlock _ c).mp hc)
  refine ⟨(b, .next), t.after b s' (.acquire (g.sess b).bitmapNum eid), ?_, ?_⟩
  · simp only [protocol]
    rw [hsess, h.bits, hs]
    exact if_pos (Option.isNone_iff_eq_none.mpr hfree')
  · refine ⟨fun c => ?_, h.bits, fun l c => ?_, h.emitted, h.committed⟩
    · by_cases hcb : c = b
      · subst hcb
        rw [after_sess_self, Lmgr.after_proc_self]
        refine ((Session.move_of_step hs).seen_of_call rfl (Or.inl ⟨⟨eid, hsec⟩, ?_⟩)).symm
        rw [howned]
        exact List.cons_ne_nil _ _
      · rw [after_sess_ne hcb, Lmgr.after_proc_ne g.locks hcb]
        exact h.sess c
    · rw [after_lwlock]
      change Function.update t.lwlock ((g.sess b).partition eid) (some b) l = some c ↔ _
      by_cases hcb : c = b
      · subst hcb
        rw [Lmgr.after_proc_self, howned]
        by_cases hl : l = (g.sess c).partition eid
        · subst hl
          simp
        · have hold := h.lwlock l c
          rw [hnone] at hold
          simp [hold, hl]
      · rw [Lmgr.after_proc_ne g.locks hcb]
        by_cases hl : l = (g.sess b).partition eid
        · subst hl
          simp [hadmits c, Ne.symm hcb]
        · rw [Function.update_of_ne hl]
          exact h.lwlock l c

/-- The one that gives it back is the protocol's release. -/
theorem Abstracts.of_give {m : Lmgr.LWLockMode} {p' : Lmgr.Proc B Nat Unit}
    {e : Lmgr.Effect B Unit} (h : Abstracts g t) (hJ : Joined g) (hcalling : g.calling b = true)
    (hpc : (g.locks.proc b).pc = .subtract m)
    (hperm : (g.locks.proc b).owned.Perm (((g.locks.proc b).lock, m) :: p'.owned)) :
    ∃ x t', (protocol B).step t x = some t' ∧
      Abstracts { g with locks := g.locks.after b p' e } t' := by
  have hplace := hJ.place b
  rw [hcalling] at hplace
  obtain ⟨eid, hsec, hlock, rfl, howned⟩ := hplace.of_subtract hpc
  rw [howned, hlock] at hperm
  have hnone : p'.owned = [] := List.nil_perm.mp (List.perm_cons _ |>.mp hperm)
  obtain ⟨s', hs⟩ := Session.step_of_leave hsec g.bits
  have hsess : t.sess b = g.sess b := by
    rw [h.sess b]
    refine Session.seen_of_section (Or.inr (Or.inr (Or.inr ⟨⟨eid, hsec⟩, ?_⟩)))
    rw [howned]
    exact List.cons_ne_nil _ _
  refine ⟨(b, .next), t.after b s' (.release (g.sess b).bitmapNum eid), ?_, ?_⟩
  · simp only [protocol]
    rw [hsess, h.bits, hs]
    rfl
  · refine ⟨fun c => ?_, h.bits, fun l c => ?_, h.emitted, h.committed⟩
    · by_cases hcb : c = b
      · subst hcb
        rw [after_sess_self, Lmgr.after_proc_self]
        exact ((Session.move_of_step hs).seen_of_call rfl (Or.inr ⟨⟨eid, hsec⟩, hnone⟩)).symm
      · rw [after_sess_ne hcb, Lmgr.after_proc_ne g.locks hcb]
        exact h.sess c
    · rw [after_lwlock]
      change Function.update t.lwlock ((g.sess b).partition eid) none l = some c ↔ _
      by_cases hcb : c = b
      · subst hcb
        rw [Lmgr.after_proc_self, hnone]
        by_cases hl : l = (g.sess c).partition eid
        · subst hl
          simp
        · have hold := h.lwlock l c
          rw [howned] at hold
          simp [hold, hl]
      · rw [Lmgr.after_proc_ne g.locks hcb]
        by_cases hl : l = (g.sess b).partition eid
        · subst hl
          have hnot : ((g.sess b).partition eid, .exclusive) ∉ (g.locks.proc c).owned := by
            intro hmem
            refine hcb (hJ.unique (b := b) ?_ hmem)
            rw [howned]
            exact List.mem_singleton.mpr rfl
          simp [hnot]
        · rw [Function.update_of_ne hl]
          exact h.lwlock l c

theorem Abstracts.of_moved {x : LinkedAct} (h : Abstracts g t) (hJ : Joined g)
    (hm : g.Moved b x g') :
    Abstracts g' t ∨ ∃ x t', (protocol B).step t x = some t' ∧ Abstracts g' t' := by
  have hplace := hJ.place b
  cases hm with
  | plain a s' eff hs hc hcalling => exact Or.inr (h.of_plain hJ hs hc hcalling)
  | back a s' eff c hs hc hcalling hidle =>
      rw [hcalling] at hplace
      obtain ⟨_, hbits, hemitted, hcommitted, _⟩ :=
        (Session.move_of_step hs).section_of_call hc
      refine Or.inl (h.stutter hbits (hemitted _) (hcommitted _) (fun d => ?_) fun _ _ => Iff.rfl)
      by_cases hd : d = b
      · subst hd
        have hback := hplace.after_back (Session.move_of_step hs) hc hidle
        rw [hplace.seen_of_back (Session.move_of_step hs) hc hidle]
        simpa [Linked.afterSession] using hback.seen_of_not_calling
      · simp [Linked.afterSession, hd]
  | call s' eff c p' hs hc hcalling hstart =>
      rw [hcalling] at hplace
      have howned := (hplace.after_call (Session.move_of_step hs) hc hstart).2
      refine Or.inl (h.stutter rfl rfl rfl (fun d => ?_) fun d x => ?_)
      · by_cases hd : d = b
        · subst hd
          rw [Lmgr.after_proc_self]
          exact Session.seen_congr _ (.of_eq howned)
        · rw [Lmgr.after_proc_ne g.locks hd]
      · by_cases hd : d = b
        · subst hd
          rw [Lmgr.after_proc_self, howned]
        · rw [Lmgr.after_proc_ne g.locks hd]
  | lock p' e hcalling hn =>
      have hown := Lmgr.move_owned (.next hn)
      generalize (e.onCell b (g.locks.lock (g.locks.proc b).lock)).state = w' at hown
      cases hown with
      | take m hpc hfree hperm => exact Or.inr (h.of_take hJ hcalling hpc hfree hperm)
      | give m hpc hperm => exact Or.inr (h.of_give hJ hcalling hpc hperm)
      | keep hperm _ =>
          refine Or.inl (h.stutter rfl rfl rfl (fun d => ?_) fun d x => ?_)
          · by_cases hd : d = b
            · subst hd
              rw [Lmgr.after_proc_self]
              exact Session.seen_congr _ hperm
            · rw [Lmgr.after_proc_ne g.locks hd]
          · by_cases hd : d = b
            · subst hd
              rw [Lmgr.after_proc_self]
              exact hperm.mem_iff
            · rw [Lmgr.after_proc_ne g.locks hd]
  | signal | wait =>
      -- the backend's memory is as it was
      have hproc : ∀ e d, (g.locks.after b (g.locks.proc b) e).proc d = g.locks.proc d := by
        intro e d
        by_cases hd : d = b
        · subst hd
          rw [Lmgr.after_proc_self]
        · rw [Lmgr.after_proc_ne g.locks hd]
      refine Or.inl (h.stutter rfl rfl rfl (fun d => ?_) fun d x => ?_)
      · rw [hproc _ d]
      · rw [hproc _ d]

/-- Over the code of the locks, and from the state `InitializeLWLocks` leaves them in, the
protocol of the first bitmap does nothing it does not do over atomic locks: every state the
linked system reaches is, up to lock calls on their way, a state the protocol reaches, with the
same status bits, the same tuples emitted and the same transactions committed; a backend in no
lock call is where the protocol has it, and the protocol's holder of a partition lock is the
backend that has it in the word. -/
theorem linked_refines_protocol {n : Nat} {requests : NamedLWLockTrancheRequests}
    {bits : Key → Status} {g₀ : Linked B} {tr : List (B × LinkedAct)}
    (h : g₀.Start n requests bits) (r : (linked B).Run Linked.FirstBitmap g₀ tr g) :
    ∃ t, (protocol B).Reachable (.initial bits) t ∧ t.bits = g.bits ∧ t.emitted = g.emitted ∧
      t.committed = g.committed ∧ (∀ b, g.calling b = false → t.sess b = g.sess b) ∧
      ∀ l b, t.lwlock l = some b ↔ (l, .exclusive) ∈ (g.locks.proc b).owned := by
  obtain ⟨t, hreach, hJ, hA⟩ := Machine.Run.refines
    (R := fun g t => Joined g ∧ Abstracts g t) (t := System.initial bits) (by
      rintro g t ⟨b, x⟩ g' hx hstep ⟨hJ, hA⟩
      obtain ⟨hm, hlocks⟩ := Linked.moved_of_step hstep
      have hJ' := hJ.of_moved hx hm hlocks
      rcases hA.of_moved hJ hm with hA' | ⟨y, t', ht, hA'⟩
      · exact Or.inl ⟨hJ', hA'⟩
      · exact Or.inr ⟨y, t', ht, hJ', hA'⟩) r ⟨h.joined, h.abstracts⟩
  refine ⟨t, hreach, hA.bits, hA.emitted, hA.committed, fun b hcalling => ?_, hA.lwlock⟩
  have hplace := hJ.place b
  rw [hcalling] at hplace
  rw [hA.sess b, hplace.seen_of_not_calling]

theorem linked_refines_protocol_contended :
    ∃ (g : Linked Bool) (t : System Bool),
      (Linked.initial allClear : Linked Bool).Start 46 [] allClear ∧
      (linked Bool).Run Linked.FirstBitmap (.initial allClear) (linkedContended 7) g ∧
      (g.locks.proc true).pc.asleep = true ∧ (protocol Bool).Reachable (.initial allClear) t ∧
      t.bits = g.bits ∧ t.sess false = g.sess false ∧ t.lwlock 7 = some false := by
  have hstart : (Linked.initial allClear : Linked Bool).Start 46 [] allClear :=
    Linked.initial_start 46 [] allClear
  obtain ⟨g, run, hend⟩ := (linked Bool).exists_runIn Linked.FirstBitmap (linkedContended 7)
    (s := .initial allClear)
    (p := fun g => !g.calling false && (g.locks.proc true).pc.asleep &&
      (g.locks.proc false).owned.elem (7, .exclusive)) (by decide +kernel)
  simp only [Bool.and_eq_true, Bool.not_eq_true'] at hend
  obtain ⟨⟨hfalse, hsleep⟩, hown⟩ := hend
  obtain ⟨t, hreach, hbits, _, _, hsess, hlock⟩ := linked_refines_protocol hstart run
  exact ⟨g, t, hstart, run, hsleep, hreach, hbits, hsess false hfalse,
    (hlock 7 false).mpr (List.elem_iff.mp hown)⟩

end Refinement

end BullFrog
