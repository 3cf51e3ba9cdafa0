/-
# `BullFrog.Protocol.Words` — the protocol over shared 64-bit words

`PartialBitmap[wordid] |= ...` is a load of the word, an operation on a register,
and a store of the whole word.  Here the three writers of a bitmap take the two
steps apart, `load` and then the step that stores, and other backends may move in
between.  Everything else is the protocol of `BullFrog.Protocol.System`; a read of
a status bit is one load and stays one step.

Thirty-two tuples share a word, while the partition lock is chosen by the tuple
and two of the three writers take no lock.  So nothing keeps a store from
writing back a word that has changed since it was loaded.  If no store does
(`undisturbed`), the words refine the status bits; if one does, a bit of some
other tuple is lost, and the words can say what no run of the protocol leads to.
-/
import BullFrog.Protocol.Ownership

namespace BullFrog

/-- The system with its bitmaps in memory. -/
structure WordSystem (B : Type) where
  sess : B → Session
  words : BitmapNum → Bitmap
  /-- the word a backend has loaded and not yet stored -/
  reg : B → Option Word
  lwlock : Nat → Option B
  emitted : List Key
  committed : List (List Key)

/-- Load the word to be updated, or take a step; the step that updates it stores it. -/
inductive WordAction where
  | load
  | act (a : Action)
  deriving DecidableEq, Repr

/-- A schedule without loads. -/
def acts {B : Type} (tr : List (B × Action)) : List (B × WordAction) :=
  tr.map fun l => (l.1, .act l.2)

/-- The tuple whose word the backend updates next. -/
def Session.target (s : Session) : Option Key :=
  match s.pc with
  | .setLock e => some (s.bitmapNum, e)
  | .setMigrate (e :: _) => some (s.bitmapNum, e)
  | .resetLock (e :: _) => some (s.bitmapNum, e)
  | _ => none

/-- The tuple an effect writes, and what it does to the word. -/
def Effect.write : Effect → Option (Key × (Word → Word))
  | .setLock k e => some ((k, e), (· ||| kthbit (getlockbitid e)))
  | .setMigrate k e => some ((k, e), (· ||| kthbit (getmigratebitid e)))
  | .resetLock k e => some ((k, e), (· &&& ~~~kthbit (getlockbitid e)))
  | _ => none

/-- The status bits the words stand for. -/
def bitsOf (words : BitmapNum → Bitmap) : Key → Status := fun r => statusOf (words r.1) r.2

/-- Store `w` as the word of tuple `r`. -/
def storeWord (words : BitmapNum → Bitmap) (r : Key) (w : Word) : BitmapNum → Bitmap :=
  Function.update words r.1 (Function.update (words r.1) (getwordid r.2) w)

/-! ## Storing an up-to-date word is one update of the bits -/

theorem Writes.bitsOf_storeWord {e : Eid} {f : Word → Word} {u : Status → Status}
    (h : Writes e f u) (words : BitmapNum → Bitmap) (k : BitmapNum) :
    bitsOf (storeWord words (k, e) (f (words k (getwordid e)))) =
      Function.update (bitsOf words) (k, e) (u (bitsOf words (k, e))) := by
  funext r
  have key := h.statusOf_update (words k)
  by_cases hk : r.1 = k
  · subst hk
    have := congrFun key r.2
    by_cases he : r.2 = e
    · subst he
      simpa [bitsOf, storeWord] using this
    · have hr : r ≠ (r.1, e) := fun h => he (congrArg Prod.snd h)
      simpa [bitsOf, storeWord, he, hr] using this
  · have hr : r ≠ (k, e) := fun h => hk (congrArg Prod.fst h)
    simp [bitsOf, storeWord, hk, hr]

theorem Effect.bitsOf_storeWord {eff : Effect} {r : Key} {f : Word → Word}
    (h : eff.write = some (r, f)) (words : BitmapNum → Bitmap) :
    bitsOf (storeWord words r (f (words r.1 (getwordid r.2)))) = eff.onBits (bitsOf words) := by
  cases eff with
  | setLock k e => cases h; exact (writes_setlockbit e).bitsOf_storeWord words k
  | setMigrate k e => cases h; exact (writes_setmigratebit e).bitsOf_storeWord words k
  | resetLock k e => cases h; exact (writes_resetlockbit e).bitsOf_storeWord words k
  | _ => cases h

theorem Effect.onBits_of_write_none {eff : Effect} (h : eff.write = none)
    (bits : Key → Status) : eff.onBits bits = bits := by
  cases eff <;> first | rfl | cases h

/-- Only the tuple an effect writes is changed. -/
theorem Effect.write_of_onBits_ne {eff : Effect} {bits : Key → Status} {r : Key}
    (h : eff.onBits bits r ≠ bits r) : ∃ f, eff.write = some (r, f) := by
  cases eff with
  | setLock k e | setMigrate k e | resetLock k e =>
      by_cases hr : r = (k, e)
      · subst hr; exact ⟨_, rfl⟩
      · exact absurd (by simp [onBits, hr]) h
  | _ => exact absurd rfl h

theorem Session.Move.target_of_write {bits : Key → Status} {s s' : Session} {a : Action}
    {eff : Effect} {r : Key} {f : Word → Word} (hm : Session.Move bits s a s' eff)
    (h : eff.write = some (r, f)) : s.target = some r := by
  cases hm with
  | setLock _ hpc | setMigrate _ _ hpc | resetLock _ _ hpc =>
      cases h
      simp [Session.target, hpc]
  | _ => cases h

section

variable {B : Type}

/-- Forget how the bits are stored. -/
def WordSystem.forget (g : WordSystem B) : System B :=
  { sess := g.sess, bits := bitsOf g.words, lwlock := g.lwlock, emitted := g.emitted,
    committed := g.committed }

def WordSystem.initial (words : BitmapNum → Bitmap) : WordSystem B :=
  { sess := fun _ => {}, words := words, reg := fun _ => none, lwlock := fun _ => none,
    emitted := [], committed := [] }

variable [DecidableEq B]

/-- The protocol on words. -/
def wordProtocol (B : Type) [DecidableEq B] : Machine (WordSystem B) (B × WordAction) where
  step g l :=
    match l.2 with
    | .load =>
        match g.reg l.1, (g.sess l.1).target with
        | none, some r =>
            some { g with reg := Function.update g.reg l.1 (some (g.words r.1 (getwordid r.2))) }
        | _, _ => none
    | .act a =>
        match (g.sess l.1).step (bitsOf g.words) a with
        | none => none
        | some (s', eff) =>
            if eff.enabled g.lwlock then
              let g' := { g with
                sess := Function.update g.sess l.1 s'
                lwlock := eff.onLocks l.1 g.lwlock
                emitted := eff.onEmitted g.emitted
                committed := eff.onCommitted g.committed }
              match eff.write, g.reg l.1 with
              | none, _ => some g'
              | some _, none => none
              | some (r, f), some w =>
                  some { g' with
                    words := storeWord g.words r (f w)
                    reg := Function.update g.reg l.1 none }
            else none

/-- The word about to be stored over is still the one that was loaded. -/
def undisturbed (g : WordSystem B) (l : B × WordAction) : Bool :=
  match (g.sess l.1).target, g.reg l.1 with
  | some r, some w => g.words r.1 (getwordid r.2) == w
  | _, _ => true

variable {g g' : WordSystem B} {b : B}

/-- A load shows nowhere; a step is a step of the backend whose effect on the words
is nothing, or the store of the loaded word with one bit changed. -/
theorem word_step_cases {wa : WordAction} (h : (wordProtocol B).step g (b, wa) = some g') :
    g'.forget = g.forget ∨
    ∃ a s' eff, (g.sess b).step (bitsOf g.words) a = some (s', eff) ∧
      eff.enabled g.lwlock = true ∧
      g'.forget = { g.forget.after b s' eff with bits := bitsOf g'.words } ∧
      ((eff.write = none ∧ g'.words = g.words) ∨
        ∃ r f w, eff.write = some (r, f) ∧ g.reg b = some w ∧
          g'.words = storeWord g.words r (f w)) := by
  cases wa with
  | load =>
      simp only [wordProtocol] at h
      split at h
      · cases h; exact .inl rfl
      · cases h
  | act a =>
      refine .inr ⟨a, ?_⟩
      simp only [wordProtocol] at h
      split at h
      · cases h
      · rename_i s' eff hs
        split at h
        · rename_i hen
          refine ⟨s', eff, hs, hen, ?_⟩
          split at h
          · rename_i hw
            cases h
            exact ⟨rfl, .inl ⟨hw, rfl⟩⟩
          · cases h
          · rename_i r f w hw hr
            cases h
            exact ⟨rfl, .inr ⟨r, f, w, hw, hr, rfl⟩⟩
        · cases h

/-- An undisturbed step is a step of the protocol, or none. -/
theorem word_step_simulates {l : B × WordAction} (h : (wordProtocol B).step g l = some g')
    (hok : undisturbed g l = true) :
    g'.forget = g.forget ∨
      ∃ a s' eff, (protocol B).step g.forget (l.1, a) = some g'.forget ∧
        Session.Move g.forget.bits (g.sess l.1) a s' eff ∧
        g'.forget = g.forget.after l.1 s' eff := by
  obtain ⟨b, wa⟩ := l
  rcases word_step_cases h with h | ⟨a, s', eff, hs, hen, hg, hwords⟩
  · exact .inl h
  · have hm := Session.move_of_step hs
    have hbits : bitsOf g'.words = eff.onBits (bitsOf g.words) := by
      rcases hwords with ⟨hw, heq⟩ | ⟨r, f, w, hw, hreg, heq⟩
      · rw [heq, Effect.onBits_of_write_none hw]
      · simp only [undisturbed, hm.target_of_write hw, hreg, beq_iff_eq] at hok
        rw [heq, ← hok]
        exact Effect.bitsOf_storeWord hw g.words
    have hafter : g'.forget = g.forget.after b s' eff := by
      rw [hg, hbits]
      rfl
    refine .inr ⟨a, s', eff, ?_, hm, hafter⟩
    rw [hafter]
    show (match (g.sess b).step (bitsOf g.words) a with
      | none => none
      | some (s', eff) =>
          if eff.enabled g.lwlock then some (g.forget.after b s' eff) else none) = _
    rw [hs]
    exact if_pos hen

/-- As long as no store is disturbed, the words refine the status bits: what they
stand for is reachable by the protocol, and a step changes no bit of a tuple other
than the one it works on. -/
theorem words_refine_bits {w₀ : BitmapNum → Bitmap} {tr : List (B × WordAction)}
    (r : Machine.Run (wordProtocol B) (fun g l => undisturbed g l = true)
      (WordSystem.initial w₀) tr g) :
    (protocol B).Reachable (System.initial (bitsOf w₀)) g.forget ∧
    ∀ l g', (wordProtocol B).step g l = some g' → undisturbed g l = true →
      ∀ key, bitsOf g'.words key ≠ bitsOf g.words key → (g.sess l.1).target = some key := by
  constructor
  · refine r.maps WordSystem.forget (J := fun _ => True) (fun _ _ _ _ _ _ => trivial) ?_ trivial
    intro g l g' hok hstep _
    rcases word_step_simulates hstep hok with h | ⟨a, -, -, h, -⟩
    · exact .inl h
    · exact .inr ⟨(l.1, a), h⟩
  · intro l g' hstep hok key hne
    rcases word_step_simulates hstep hok with h | ⟨a, s', eff, -, hm, h⟩
    · exact absurd (congrFun (congrArg System.bits h) key) hne
    · have hbits : bitsOf g'.words = eff.onBits (bitsOf g.words) := congrArg System.bits h
      rw [hbits] at hne
      obtain ⟨f, hw⟩ := Effect.write_of_onBits_ne hne
      exact hm.target_of_write hw

/-- Backends `false` and `true` claim tuples 0 and 1, whose four bits share a word,
one store after the other. -/
theorem words_refine_bits_shared :
    ∃ tr g, Machine.Run (wordProtocol Bool) (fun g l => undisturbed g l = true)
        (WordSystem.initial fun _ _ => 0) tr g ∧
      g.words 0 0 = 5 ∧
      (protocol Bool).Reachable (System.initial (bitsOf fun _ _ => 0)) g.forget ∧
      ∀ l g', (wordProtocol Bool).step g l = some g' → undisturbed g l = true →
        ∀ key, bitsOf g'.words key ≠ bitsOf g.words key → (g.sess l.1).target = some key := by
  let claimWord (b : Bool) (e : Eid) : List (Bool × WordAction) :=
    acts ((b, .pass e) :: nexts b 5) ++ [(b, .load)] ++ acts (nexts b 4)
  let tr := acts (startStatement false 0) ++ acts (startStatement true 0) ++ claimWord false 0 ++
    claimWord true 1
  obtain ⟨g, run, h⟩ := (wordProtocol Bool).exists_runIn (fun g l => undisturbed g l = true)
    (s := WordSystem.initial fun _ _ => 0) tr (p := fun g => decide (g.words 0 0 = 5))
    (by decide +kernel)
  exact ⟨tr, g, run, of_decide_eq_true h, words_refine_bits run⟩

/-! ## A lost update -/

/-- Backend `true` loads the word to claim tuple 1; `false` claims tuple 0; `true`
stores, and the lock bit of tuple 0 is gone.  When the statement of `false` ends,
tuple 0 is migrated and not locked, which no run of the protocol leads to. -/
theorem store_loses_claim :
    ∃ tr g, Machine.Run (wordProtocol Bool) Machine.Any (WordSystem.initial fun _ _ => 0) tr g ∧
      ¬ ∃ g', (protocol Bool).Reachable (System.initial (bitsOf fun _ _ => 0)) g' ∧
        g'.bits = bitsOf g.words := by
  let tr := acts (startStatement true 0 ++ [(true, .pass 1)] ++ nexts true 5) ++ [(true, .load)] ++
    acts (startStatement false 0 ++ [(false, .pass 0)] ++ nexts false 5) ++ [(false, .load)] ++
    acts (nexts false 4 ++ nexts true 1 ++ [(false, .portalEnd)]) ++ [(false, .load)] ++
    acts (nexts false 1)
  obtain ⟨g, run, h⟩ := (wordProtocol Bool).exists_run
    (s := WordSystem.initial fun _ _ => 0) tr
    (p := fun g => decide (bitsOf g.words (0, 0) = ⟨false, true⟩)) (by decide +kernel)
  have hbits := of_decide_eq_true h
  refine ⟨tr, g, run, ?_⟩
  rintro ⟨g', ⟨tr', run'⟩, hg'⟩
  have hclear : bitsOf (fun _ _ => 0) = allClear := by
    funext r
    simp [bitsOf, statusOf, getlockbit, getmigratebit, getkthbit, allClear]
  rw [hclear] at run'
  have hO := ownership_run (ownership_initial allClear) run'
  have hmig : (g'.bits (0, 0)).migrate = true := by rw [hg', hbits]
  have hlock := hO.lock_of_migrate hmig
  rw [hg', hbits] at hlock
  cases hlock

end

end BullFrog
