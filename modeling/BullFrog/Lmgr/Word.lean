/-
# `BullFrog.Lmgr.Word` — the state word of an `LWLock`

One 32-bit word holds four things, and every operation on a lock is one atomic
instruction on it:

    bit 30        LW_FLAG_HAS_WAITERS   the queue may be non-empty
    bit 29        LW_FLAG_RELEASE_OK    a release may wake somebody
    bit 28        LW_FLAG_LOCKED        the spinlock of the queue
    bits 0 .. 24  LW_LOCK_MASK          one exclusive holder, or the number of shared ones

The word is read through the three flags and the lock field, and each instruction is
described by what it does to these.  `+=` and `-=` are arithmetic on the whole word: that
they leave the flags alone is a fact about carries, and needs that the field does not
overflow.
-/
import Mathlib.Data.Nat.Bitwise

namespace BullFrog.Lmgr

/-- The flags of the word. -/
inductive Flag where
  | hasWaiters | releaseOk | locked
  deriving DecidableEq, Repr

/-- `LW_FLAG_HAS_WAITERS`, `LW_FLAG_RELEASE_OK`, `LW_FLAG_LOCKED`. -/
def Flag.mask : Flag → UInt32
  | .hasWaiters => (1 : UInt32) <<< 30
  | .releaseOk => (1 : UInt32) <<< 29
  | .locked => (1 : UInt32) <<< 28

/-- `LW_VAL_EXCLUSIVE`. -/
def valExclusive : UInt32 := (1 : UInt32) <<< 24

/-- `LW_VAL_SHARED`. -/
def valShared : UInt32 := 1

/-- `LW_LOCK_MASK`. -/
def lockMask : UInt32 := ((1 : UInt32) <<< 25) - 1

/-- `(state & flag) != 0`. -/
def has (f : Flag) (w : UInt32) : Bool := w &&& f.mask != 0

/-- The value of `state & LW_LOCK_MASK`. -/
def lockField (w : UInt32) : Nat := (w &&& lockMask).toNat

/-! ## Reading the word -/

/-- The position of a flag. -/
def Flag.bit : Flag → Nat
  | .hasWaiters => 30
  | .releaseOk => 29
  | .locked => 28

theorem Flag.toNat_mask (f : Flag) : f.mask.toNat = 2 ^ f.bit := by
  cases f <;> rfl

theorem has_eq_testBit (f : Flag) (w : UInt32) : has f w = w.toNat.testBit f.bit := by
  have hand : (w &&& f.mask).toNat = (w.toNat.testBit f.bit).toNat * 2 ^ f.bit := by
    rw [UInt32.toNat_and, f.toNat_mask, Nat.and_two_pow]
  rw [Bool.eq_iff_iff, has, bne_iff_ne, ne_eq, ← UInt32.toNat_inj, hand]
  cases w.toNat.testBit f.bit <;> simp

theorem lockField_eq (w : UInt32) : lockField w = w.toNat % 2 ^ 25 := by
  rw [lockField, UInt32.toNat_and, show lockMask.toNat = 2 ^ 25 - 1 from rfl,
    Nat.and_two_pow_sub_one_eq_mod]

theorem and_lockMask_eq_zero {w : UInt32} : w &&& lockMask = 0 ↔ lockField w = 0 := by
  rw [lockField, ← UInt32.toNat_inj]
  rfl

/-- The exclusive value is the top bit of the field. -/
theorem and_valExclusive_eq_zero {w : UInt32} :
    w &&& valExclusive = 0 ↔ lockField w < 2 ^ 24 := by
  have hand : (w &&& valExclusive).toNat = (w.toNat.testBit 24).toNat * 2 ^ 24 := by
    rw [UInt32.toNat_and, show valExclusive.toNat = 2 ^ 24 from rfl, Nat.and_two_pow]
  have hbit : w &&& valExclusive = 0 ↔ w.toNat.testBit 24 = false := by
    rw [← UInt32.toNat_inj, hand]
    cases w.toNat.testBit 24 <;> simp
  rw [hbit, lockField_eq, Nat.testBit_eq_decide_div_mod_eq, decide_eq_false_iff_not]
  omega

/-! ## Setting and clearing a flag -/

@[simp] theorem has_or (f g : Flag) (w : UInt32) :
    has f (w ||| g.mask) = (has f w || decide (f = g)) := by
  rw [has_eq_testBit, has_eq_testBit, UInt32.toNat_or, Nat.testBit_or]
  congr 1
  cases f <;> cases g <;> rfl

@[simp] theorem has_andNot (f g : Flag) (w : UInt32) :
    has f (w &&& ~~~g.mask) = (has f w && !decide (f = g)) := by
  rw [has_eq_testBit, has_eq_testBit, UInt32.toNat_and, Nat.testBit_and]
  congr 1
  cases f <;> cases g <;> rfl

@[simp] theorem lockField_or (g : Flag) (w : UInt32) : lockField (w ||| g.mask) = lockField w := by
  have hlow : g.mask.toNat % 2 ^ 25 = 0 := by cases g <;> rfl
  rw [lockField_eq, lockField_eq, UInt32.toNat_or, Nat.or_mod_two_pow, hlow, Nat.or_zero]

@[simp] theorem lockField_andNot (g : Flag) (w : UInt32) :
    lockField (w &&& ~~~g.mask) = lockField w := by
  have hlow : (~~~g.mask).toNat % 2 ^ 25 = 2 ^ 25 - 1 := by cases g <;> rfl
  rw [lockField_eq, lockField_eq, UInt32.toNat_and, Nat.and_mod_two_pow, hlow,
    Nat.and_two_pow_sub_one_eq_mod, Nat.mod_mod]

/-! ## Taking and giving back the lock

`w'` is `w` with its field moved from `lockField w` to `n`: the two words agree above the
field. -/

/-- The part of the word above the lock field. -/
theorem has_eq_of_high {w w' : UInt32} (h : w'.toNat / 2 ^ 25 = w.toNat / 2 ^ 25) (f : Flag) :
    has f w' = has f w := by
  have hbit : ∀ v : UInt32, v.toNat.testBit f.bit = (v.toNat / 2 ^ 25).testBit (f.bit - 25) := by
    intro v
    rw [Nat.testBit_div_two_pow]
    congr 1
    cases f <;> rfl
  rw [has_eq_testBit, has_eq_testBit, hbit, hbit, h]

section Field

variable {w v : UInt32}

/-- Adding within the field carries nothing into the flags. -/
theorem toNat_add_field (h : lockField w + v.toNat < 2 ^ 25) :
    (w + v).toNat = w.toNat + v.toNat := by
  rw [lockField_eq] at h
  rw [UInt32.toNat_add]
  have := w.toNat_lt
  omega

theorem lockField_add (h : lockField w + v.toNat < 2 ^ 25) :
    lockField (w + v) = lockField w + v.toNat := by
  have hsum := toNat_add_field h
  rw [lockField_eq] at h
  rw [lockField_eq, lockField_eq, hsum]
  omega

theorem has_add (h : lockField w + v.toNat < 2 ^ 25) (f : Flag) : has f (w + v) = has f w := by
  have hsum := toNat_add_field h
  rw [lockField_eq] at h
  exact has_eq_of_high (by omega) f

/-- Subtracting at most the field borrows nothing from the flags. -/
theorem toNat_sub_field (h : v.toNat ≤ lockField w) : (w - v).toNat = w.toNat - v.toNat := by
  rw [lockField_eq] at h
  exact UInt32.toNat_sub_of_le _ _ (UInt32.le_iff_toNat_le.mpr (by omega))

theorem lockField_sub (h : v.toNat ≤ lockField w) :
    lockField (w - v) = lockField w - v.toNat := by
  have hdiff := toNat_sub_field h
  rw [lockField_eq] at h
  rw [lockField_eq, lockField_eq, hdiff]
  omega

theorem has_sub (h : v.toNat ≤ lockField w) (f : Flag) : has f (w - v) = has f w := by
  have hdiff := toNat_sub_field h
  rw [lockField_eq] at h
  exact has_eq_of_high (by omega) f

end Field

end BullFrog.Lmgr
