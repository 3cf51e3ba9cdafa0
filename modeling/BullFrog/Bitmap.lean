/-
# `BullFrog.Bitmap` — two status bits per tuple, thirty-two tuples per word

The accessors of `migrate_schema.c`.  A bitmap is an array of 64-bit words; tuple
`eid` has its lock bit and its migrate bit next to each other in word `eid / 32`:

    getwordid       eid / 32
    getlockbitid    (eid % 32) * 2
    getmigratebitid (eid % 32) * 2 + 1

`statusOf` reads a bitmap as a map from eids to pairs of bits.  Under that
reading the three writers are pointwise updates (`statusOf_setlockbit` and its
two siblings), which is all that the protocol modules use.  The array is indexed by
word number without a bound.
-/
import Mathlib.Logic.Function.Basic

namespace BullFrog

/-- `uint32 eid`, the number of a tuple of the old table. -/
abbrev Eid := UInt32

/-- `BitmapNum`: which of the two bitmaps `PartialBitmap` points to. -/
abbrev BitmapNum := Fin 2

/-- Two is not zero, in the form in which the literals 0 and 1 of `BitmapNum` ask for it: with it
they are the same terms in every module. -/
instance twoNeZero : @NeZero Nat (@Zero.ofOfNat0 Nat (instOfNatNat 0)) 2 := ⟨Nat.succ_ne_zero 1⟩

/-- A tuple as one of the two migrations sees it. -/
abbrev Key := BitmapNum × Eid

/-- The two bits of a tuple in a bitmap. -/
@[ext] structure Status where
  lock : Bool
  migrate : Bool
  deriving DecidableEq, Repr

/-! ## The accessors -/

/-- `uint64`. -/
abbrev Word := BitVec 64

/-- `uint64 *bitmap`, by word number. -/
abbrev Bitmap := UInt32 → Word

/-- `LOCKBITPOS`. -/
def lockBitPos : UInt32 := 0

/-- `MIGRATEBITPOS`. -/
def migrateBitPos : UInt32 := 1

/-- `SIZEOFWORD`. -/
def sizeOfWord : UInt32 := 64

/-- `ELEMCOUNTINWORD`. -/
def elemCountInWord : UInt32 := sizeOfWord / 2

/-- `NUMTUPLES`. -/
def numTuples : Nat := 2000000

/-- `BITMAPSIZE`, in words. -/
def bitmapSize : Nat := (numTuples * 2 + (sizeOfWord.toNat - 1)) / sizeOfWord.toNat

def getwordid (eid : Eid) : UInt32 := eid / elemCountInWord

def getlockbitid (eid : Eid) : UInt32 := eid % elemCountInWord * 2 + lockBitPos

def getmigratebitid (eid : Eid) : UInt32 := eid % elemCountInWord * 2 + migrateBitPos

/-- `(uint64)1 << k`. -/
def kthbit (k : UInt32) : Word := 1#64 <<< k.toNat

def getkthbit (word : Word) (k : UInt32) : Bool := (word &&& kthbit k) != 0#64

def getlockbit (bitmap : Bitmap) (eid : Eid) : Bool :=
  getkthbit (bitmap (getwordid eid)) (getlockbitid eid)

def getmigratebit (bitmap : Bitmap) (eid : Eid) : Bool :=
  getkthbit (bitmap (getwordid eid)) (getmigratebitid eid)

def setlockbit (bitmap : Bitmap) (eid : Eid) : Bitmap :=
  Function.update bitmap (getwordid eid) (bitmap (getwordid eid) ||| kthbit (getlockbitid eid))

def resetlockbit (bitmap : Bitmap) (eid : Eid) : Bitmap :=
  Function.update bitmap (getwordid eid) (bitmap (getwordid eid) &&& ~~~kthbit (getlockbitid eid))

def setmigratebit (bitmap : Bitmap) (eid : Eid) : Bitmap :=
  Function.update bitmap (getwordid eid)
    (bitmap (getwordid eid) ||| kthbit (getmigratebitid eid))

/-- Both bits of a tuple. -/
def statusOf (bitmap : Bitmap) (eid : Eid) : Status :=
  ⟨getlockbit bitmap eid, getmigratebit bitmap eid⟩

/-! ## Single bits of a word -/

variable {w : Word} {j k : UInt32} {e e' : Eid}

theorem getLsbD_kthbit (hk : k.toNat < 64) (i : Nat) :
    (kthbit k).getLsbD i = decide (k.toNat = i) := by
  rw [kthbit, ← BitVec.twoPow_eq, BitVec.getLsbD_twoPow]
  simp [hk]

theorem getkthbit_eq_getLsbD (hk : k.toNat < 64) : getkthbit w k = w.getLsbD k.toNat := by
  have masked : ∀ i, (w &&& kthbit k).getLsbD i = (w.getLsbD i && decide (k.toNat = i)) := by
    intro i
    rw [BitVec.getLsbD_and, getLsbD_kthbit hk]
  cases hb : w.getLsbD k.toNat with
  | true =>
      refine bne_iff_ne.mpr ?_
      intro hz
      have := masked k.toNat
      simp [hz, hb] at this
  | false =>
      refine bne_eq_false_iff_eq.mpr (BitVec.eq_of_getLsbD_eq ?_)
      intro i _
      rw [masked i, BitVec.getLsbD_zero, Bool.and_eq_false_iff]
      by_cases hi : k.toNat = i
      · exact .inl (hi ▸ hb)
      · exact .inr (decide_eq_false hi)

/-- `|=` sets one bit. -/
theorem getkthbit_or (hj : j.toNat < 64) (hk : k.toNat < 64) :
    getkthbit (w ||| kthbit j) k = (getkthbit w k || decide (k = j)) := by
  rw [getkthbit_eq_getLsbD hk, getkthbit_eq_getLsbD hk, BitVec.getLsbD_or, getLsbD_kthbit hj]
  simp [UInt32.toNat_inj, eq_comm]

/-- `&= ~` clears one bit. -/
theorem getkthbit_and_not (hj : j.toNat < 64) (hk : k.toNat < 64) :
    getkthbit (w &&& ~~~kthbit j) k = (getkthbit w k && !decide (k = j)) := by
  rw [getkthbit_eq_getLsbD hk, getkthbit_eq_getLsbD hk, BitVec.getLsbD_and, BitVec.getLsbD_not,
    getLsbD_kthbit hj]
  simp [hk, UInt32.toNat_inj, eq_comm]

/-! ## Where the bits of a tuple are -/

theorem toNat_getwordid (e : Eid) : (getwordid e).toNat = e.toNat / 32 := rfl

theorem toNat_getlockbitid (e : Eid) : (getlockbitid e).toNat = e.toNat % 32 * 2 := by
  have : e.toNat % 32 < 32 := Nat.mod_lt _ (by decide)
  simp [getlockbitid, elemCountInWord, sizeOfWord, lockBitPos]
  omega

theorem toNat_getmigratebitid (e : Eid) : (getmigratebitid e).toNat = e.toNat % 32 * 2 + 1 := by
  have : e.toNat % 32 < 32 := Nat.mod_lt _ (by decide)
  simp [getmigratebitid, elemCountInWord, sizeOfWord, migrateBitPos]
  omega

theorem getlockbitid_lt (e : Eid) : (getlockbitid e).toNat < 64 := by
  rw [toNat_getlockbitid]
  omega

theorem getmigratebitid_lt (e : Eid) : (getmigratebitid e).toNat < 64 := by
  rw [toNat_getmigratebitid]
  omega

theorem getmigratebitid_ne_getlockbitid (e e' : Eid) : getmigratebitid e ≠ getlockbitid e' := by
  intro h
  have := congrArg UInt32.toNat h
  rw [toNat_getmigratebitid, toNat_getlockbitid] at this
  omega

/-- Word number and lock bit together name the tuple. -/
theorem eq_of_getlockbitid (hw : getwordid e' = getwordid e)
    (h : getlockbitid e' = getlockbitid e) : e' = e := by
  have hw := congrArg UInt32.toNat hw
  have h := congrArg UInt32.toNat h
  rw [toNat_getwordid, toNat_getwordid] at hw
  rw [toNat_getlockbitid, toNat_getlockbitid] at h
  exact UInt32.toNat_inj.mp (by omega)

theorem eq_of_getmigratebitid (hw : getwordid e' = getwordid e)
    (h : getmigratebitid e' = getmigratebitid e) : e' = e := by
  have hw := congrArg UInt32.toNat hw
  have h := congrArg UInt32.toNat h
  rw [toNat_getwordid, toNat_getwordid] at hw
  rw [toNat_getmigratebitid, toNat_getmigratebitid] at h
  exact UInt32.toNat_inj.mp (by omega)

/-! ## The writers as updates of the status map -/

/-- Both bits of a tuple in its word. -/
def wordStatus (word : Word) (eid : Eid) : Status :=
  ⟨getkthbit word (getlockbitid eid), getkthbit word (getmigratebitid eid)⟩

/-- A write that does `u` to the tuple `e` and nothing to its 31 neighbours. -/
def Writes (e : Eid) (f : Word → Word) (u : Status → Status) : Prop :=
  ∀ w e', getwordid e' = getwordid e →
    wordStatus (f w) e' = if e' = e then u (wordStatus w e) else wordStatus w e'

theorem writes_setlockbit (e : Eid) :
    Writes e (· ||| kthbit (getlockbitid e)) fun s => { s with lock := true } := by
  intro w e' hw
  have hlock := getkthbit_or (w := w) (getlockbitid_lt e) (getlockbitid_lt e')
  have hmig := getkthbit_or (w := w) (getlockbitid_lt e) (getmigratebitid_lt e')
  simp only [getmigratebitid_ne_getlockbitid, decide_false, Bool.or_false] at hmig
  by_cases he : e' = e
  · subst he
    simp [wordStatus, hlock, hmig]
  · have hne : getlockbitid e' ≠ getlockbitid e := fun h => he (eq_of_getlockbitid hw h)
    simp [wordStatus, hlock, hmig, he, hne]

theorem writes_resetlockbit (e : Eid) :
    Writes e (· &&& ~~~kthbit (getlockbitid e)) fun s => { s with lock := false } := by
  intro w e' hw
  have hlock := getkthbit_and_not (w := w) (getlockbitid_lt e) (getlockbitid_lt e')
  have hmig := getkthbit_and_not (w := w) (getlockbitid_lt e) (getmigratebitid_lt e')
  simp only [getmigratebitid_ne_getlockbitid, decide_false, Bool.not_false, Bool.and_true] at hmig
  by_cases he : e' = e
  · subst he
    simp [wordStatus, hlock, hmig]
  · have hne : getlockbitid e' ≠ getlockbitid e := fun h => he (eq_of_getlockbitid hw h)
    simp [wordStatus, hlock, hmig, he, hne]

theorem writes_setmigratebit (e : Eid) :
    Writes e (· ||| kthbit (getmigratebitid e)) fun s => { s with migrate := true } := by
  intro w e' hw
  have hlock := getkthbit_or (w := w) (getmigratebitid_lt e) (getlockbitid_lt e')
  have hmig := getkthbit_or (w := w) (getmigratebitid_lt e) (getmigratebitid_lt e')
  simp only [(getmigratebitid_ne_getlockbitid _ _).symm, decide_false, Bool.or_false] at hlock
  by_cases he : e' = e
  · subst he
    simp [wordStatus, hlock, hmig]
  · have hne : getmigratebitid e' ≠ getmigratebitid e := fun h => he (eq_of_getmigratebitid hw h)
    simp [wordStatus, hlock, hmig, he, hne]

/-- Storing the new word is a pointwise update of the status map. -/
theorem Writes.statusOf_update {f : Word → Word} {u : Status → Status} (h : Writes e f u)
    (bitmap : Bitmap) :
    statusOf (Function.update bitmap (getwordid e) (f (bitmap (getwordid e)))) =
      Function.update (statusOf bitmap) e (u (statusOf bitmap e)) := by
  funext e'
  by_cases hw : getwordid e' = getwordid e
  · have key := h (bitmap (getwordid e)) e' hw
    by_cases he : e' = e
    · subst he
      simpa [statusOf, getlockbit, getmigratebit, wordStatus] using key
    · simp only [he, if_false] at key
      simpa [statusOf, getlockbit, getmigratebit, hw, wordStatus, he] using key
  · have he : e' ≠ e := fun he => hw (by rw [he])
    simp [statusOf, getlockbit, getmigratebit, hw, he]

theorem statusOf_setlockbit (bitmap : Bitmap) (e : Eid) :
    statusOf (setlockbit bitmap e) =
      Function.update (statusOf bitmap) e { statusOf bitmap e with lock := true } :=
  (writes_setlockbit e).statusOf_update bitmap

theorem statusOf_resetlockbit (bitmap : Bitmap) (e : Eid) :
    statusOf (resetlockbit bitmap e) =
      Function.update (statusOf bitmap) e { statusOf bitmap e with lock := false } :=
  (writes_resetlockbit e).statusOf_update bitmap

theorem statusOf_setmigratebit (bitmap : Bitmap) (e : Eid) :
    statusOf (setmigratebit bitmap e) =
      Function.update (statusOf bitmap) e { statusOf bitmap e with migrate := true } :=
  (writes_setmigratebit e).statusOf_update bitmap

/-- Setting the lock bits of several tuples, in any order and with repeats. -/
theorem statusOf_foldl_setlockbit (es : List Eid) (bitmap : Bitmap) (e : Eid) :
    statusOf (es.foldl setlockbit bitmap) e =
      if e ∈ es then { statusOf bitmap e with lock := true } else statusOf bitmap e := by
  induction es generalizing bitmap with
  | nil => simp
  | cons e' es ih =>
      rw [List.foldl_cons, ih, statusOf_setlockbit]
      by_cases h : e = e'
      · subst h
        simp
      · simp [h]

/-! ## Bit positions

The status map does not see every bit of an array without a bound.  Where two bitmaps
are to be equal word for word, a bitmap is read bit by bit instead. -/

/-- A word number and the number of a bit in it. -/
abbrev BitPos := UInt32 × Nat

def bitAt (bitmap : Bitmap) (p : BitPos) : Bool := (bitmap p.1).getLsbD p.2

/-- Where the lock bit of a tuple is. -/
def lockAt (e : Eid) : BitPos := (getwordid e, (getlockbitid e).toNat)

/-- Where its migrate bit is. -/
def migrateAt (e : Eid) : BitPos := (getwordid e, (getmigratebitid e).toNat)

theorem lockAt_injective : Function.Injective lockAt := by
  intro e e' h
  rw [lockAt, lockAt, Prod.mk.injEq] at h
  exact eq_of_getlockbitid h.1 (UInt32.toNat_inj.mp h.2)

theorem migrateAt_ne_lockAt (e e' : Eid) : migrateAt e ≠ lockAt e' := by
  intro h
  rw [lockAt, migrateAt, Prod.mk.injEq] at h
  exact getmigratebitid_ne_getlockbitid e e' (UInt32.toNat_inj.mp h.2)

theorem ext_bitAt {b b' : Bitmap} (h : ∀ p, bitAt b p = bitAt b' p) : b = b' :=
  funext fun w => BitVec.eq_of_getLsbD_eq fun i _ => h (w, i)

theorem getlockbit_eq_bitAt (b : Bitmap) (e : Eid) : getlockbit b e = bitAt b (lockAt e) :=
  getkthbit_eq_getLsbD (getlockbitid_lt e)

/-- `|=` on a word of the array. -/
theorem bitAt_update_or (b : Bitmap) (w : UInt32) (hk : k.toNat < 64) (p : BitPos) :
    bitAt (Function.update b w (b w ||| kthbit k)) p =
      (bitAt b p || decide (p = (w, k.toNat))) := by
  obtain ⟨w', i⟩ := p
  by_cases hw : w' = w
  · subst hw
    simp [bitAt, getLsbD_kthbit hk, eq_comm]
  · simp [bitAt, hw]

/-- `&= ~` on a word of the array. -/
theorem bitAt_update_and_not (b : Bitmap) (w : UInt32) (hk : k.toNat < 64) (p : BitPos) :
    bitAt (Function.update b w (b w &&& ~~~kthbit k)) p =
      (bitAt b p && !decide (p = (w, k.toNat))) := by
  obtain ⟨w', i⟩ := p
  by_cases hw : w' = w
  · subst hw
    rw [bitAt, Function.update_self, BitVec.getLsbD_and, BitVec.getLsbD_not, getLsbD_kthbit hk]
    by_cases hi : i < 64
    · simp [bitAt, eq_comm, hi]
    · simp [bitAt, BitVec.getLsbD_of_ge _ _ (Nat.le_of_not_lt hi)]
  · simp [bitAt, hw]

theorem bitAt_setlockbit (b : Bitmap) (e : Eid) (p : BitPos) :
    bitAt (setlockbit b e) p = (bitAt b p || decide (p = lockAt e)) :=
  bitAt_update_or b _ (getlockbitid_lt e) p

theorem bitAt_resetlockbit (b : Bitmap) (e : Eid) (p : BitPos) :
    bitAt (resetlockbit b e) p = (bitAt b p && !decide (p = lockAt e)) :=
  bitAt_update_and_not b _ (getlockbitid_lt e) p

theorem bitAt_setmigratebit (b : Bitmap) (e : Eid) (p : BitPos) :
    bitAt (setmigratebit b e) p = (bitAt b p || decide (p = migrateAt e)) :=
  bitAt_update_or b _ (getmigratebitid_lt e) p

/-- Clearing the lock bits of several tuples. -/
theorem bitAt_foldl_resetlockbit (es : List Eid) (b : Bitmap) (p : BitPos) :
    bitAt (es.foldl resetlockbit b) p = (bitAt b p && !decide (p ∈ es.map lockAt)) := by
  induction es generalizing b with
  | nil => simp
  | cons e es ih =>
      rw [List.foldl_cons, ih, bitAt_resetlockbit]
      simp [Bool.and_assoc]

end BullFrog
