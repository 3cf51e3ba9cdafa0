/-
# `BullFrog.Packed` — the array behind the two bitmaps

`BullFrog.Bitmap` indexes the words of a bitmap without a bound.  Here the memory is what
`InitGlobalBitmap` allocates, for any capacity `NUMTUPLES`:

    GlobalBitmap    2 * BITMAPSIZE words, zero-filled
    PartialBitmap   GlobalBitmap + k * BITMAPSIZE, for bitmap k = 0, 1

An access outside the array, or a shift by 64 or more, has the outcome `none`.
`half mem k` reads the half of bitmap `k` as a bitmap without a bound.  Every access to
a tuple below the capacity succeeds, does to its own half what the function of the
same name in `BullFrog.Bitmap` does, and leaves the other half alone (`perform_spec`); so
the array stands for two maps from tuples to status bits under any sequence of
accesses (`packed_refines_maps`).
-/
import BullFrog.Bitmap
import BullFrog.Lib.Machine

namespace BullFrog

/-- A choice of `NUMTUPLES`: the preprocessor's `NUMTUPLES * 2` is a C `int`. -/
structure Capacity where
  numTuples : Nat
  fits : numTuples * 2 ≤ 2147483647

namespace Capacity

variable (c : Capacity)

/-- `BITMAPSIZE`: the product is an `int`, `SIZEOFWORD` and the rest are `size_t`. -/
def bitmapSize : UInt64 :=
  ((Int32.ofNat c.numTuples * 2).toInt64.toUInt64 + (sizeOfWord.toUInt64 - 1)) /
    sizeOfWord.toUInt64

theorem toNat_bitmapSize : c.bitmapSize.toNat = (c.numTuples * 2 + 63) / 64 := by
  have hfits := c.fits
  have hmul : Int32.ofNat c.numTuples * 2 = Int32.ofNat (c.numTuples * 2) := by
    rw [Int32.ofNat_mul]
    rfl
  have hint : (Int32.ofNat (c.numTuples * 2)).toInt64.toInt = (c.numTuples * 2 : Nat) := by
    rw [Int32.toInt_toInt64, Int32.toInt_ofNat_of_lt (by omega)]
  have hnat : (Int32.ofNat c.numTuples * 2).toInt64.toUInt64.toNat = c.numTuples * 2 := by
    have hnonneg : 0 ≤ (Int32.ofNat (c.numTuples * 2)).toInt64 := by
      rw [Int64.le_iff_toInt_le, hint]
      exact Int.natCast_nonneg _
    rw [hmul, Int64.toNat_toUInt64_of_le hnonneg, Int64.toNatClampNeg, hint]
    rfl
  rw [bitmapSize, UInt64.toNat_div, UInt64.toNat_add, hnat]
  show (c.numTuples * 2 + 63) % 2 ^ 64 / 64 = _
  omega

/-- The eid of a tuple. -/
def eid (i : Fin c.numTuples) : Eid := UInt32.ofNat i

theorem toNat_eid (i : Fin c.numTuples) : (c.eid i).toNat = i := by
  have := c.fits
  have := i.isLt
  exact UInt32.toNat_ofNat_of_lt' (by show _ < 4294967296; omega)

theorem eid_injective : Function.Injective c.eid := by
  intro i j h
  rw [← Fin.val_inj, ← c.toNat_eid i, ← c.toNat_eid j, h]

/-- The word of a tuple is in its half of the array. -/
theorem getwordid_lt (i : Fin c.numTuples) :
    (getwordid (c.eid i)).toNat < c.bitmapSize.toNat := by
  rw [toNat_getwordid, toNat_eid, toNat_bitmapSize]
  have := i.isLt
  omega

end Capacity

/-- With the capacity of the header the size is the one of `BullFrog.Bitmap`. -/
example : (⟨numTuples, by decide⟩ : Capacity).bitmapSize.toNat = bitmapSize := by decide

/-! ## Memory -/

/-- `GlobalBitmap`. -/
abbrev GlobalBitmap (c : Capacity) := Vector Word (2 * c.bitmapSize.toNat)

/-- `InitGlobalBitmap`. -/
def initGlobalBitmap (c : Capacity) : GlobalBitmap c := Vector.replicate _ 0#64

/-- `(uint64)1 << k`, which has no meaning from 64 on. -/
def shl1 (k : UInt32) : Option Word := if k.toNat < 64 then some (kthbit k) else none

namespace GlobalBitmap

variable {c : Capacity}

/-- Where `PartialBitmap[wordid]` is when `PartialBitmap` points to bitmap `k`. -/
def index (c : Capacity) (k : BitmapNum) (wordid : UInt32) : Nat :=
  k.val * c.bitmapSize.toNat + wordid.toNat

def load (mem : GlobalBitmap c) (k : BitmapNum) (wordid : UInt32) : Option Word :=
  mem[index c k wordid]?

def store (mem : GlobalBitmap c) (k : BitmapNum) (wordid : UInt32) (word : Word) :
    Option (GlobalBitmap c) :=
  if h : index c k wordid < 2 * c.bitmapSize.toNat then some (mem.set _ word h) else none

/-- `bitmap[wordid] = f bitmap[wordid] ((uint64)1 << bitid)`. -/
def update (mem : GlobalBitmap c) (k : BitmapNum) (wordid bitid : UInt32)
    (f : Word → Word → Word) : Option (GlobalBitmap c) := do
  let word ← mem.load k wordid
  let mask ← shl1 bitid
  mem.store k wordid (f word mask)

/-! The accessors, checked. -/

def getkthbit (word : Word) (k : UInt32) : Option Bool := do
  let mask ← shl1 k
  return (word &&& mask) != 0#64

def getlockbit (mem : GlobalBitmap c) (k : BitmapNum) (eid : Eid) : Option Bool := do
  let word ← mem.load k (getwordid eid)
  getkthbit word (getlockbitid eid)

def getmigratebit (mem : GlobalBitmap c) (k : BitmapNum) (eid : Eid) : Option Bool := do
  let word ← mem.load k (getwordid eid)
  getkthbit word (getmigratebitid eid)

def setlockbit (mem : GlobalBitmap c) (k : BitmapNum) (eid : Eid) : Option (GlobalBitmap c) :=
  mem.update k (getwordid eid) (getlockbitid eid) fun word mask => word ||| mask

def resetlockbit (mem : GlobalBitmap c) (k : BitmapNum) (eid : Eid) : Option (GlobalBitmap c) :=
  mem.update k (getwordid eid) (getlockbitid eid) fun word mask => word &&& ~~~mask

def setmigratebit (mem : GlobalBitmap c) (k : BitmapNum) (eid : Eid) : Option (GlobalBitmap c) :=
  mem.update k (getwordid eid) (getmigratebitid eid) fun word mask => word ||| mask

/-- `PartialBitmap[wordid] |= ((uint64)1 << lockbitid)`, in `MigrateTuple`. -/
def setLockInline (mem : GlobalBitmap c) (k : BitmapNum) (eid : Eid) : Option (GlobalBitmap c) :=
  let wordid := getwordid eid
  let lockbitid := getlockbitid eid
  mem.update k wordid lockbitid fun word mask => word ||| mask

end GlobalBitmap

/-! ## Accesses and what they are to do -/

inductive BitmapWrite where
  | setlockbit
  | resetlockbit
  | setmigratebit
  | setLockInline
  deriving DecidableEq, Repr

/-- A write to tuple `i` of bitmap `k`, whose eid is passed as it is or has been through
a list of `int`s. -/
structure Access (c : Capacity) where
  write : BitmapWrite
  k : BitmapNum
  i : Fin c.numTuples
  viaInt : Bool

/-- Two independent maps from tuples to status bits. -/
abbrev StatusMaps (c : Capacity) := BitmapNum → Fin c.numTuples → Status

def BitmapWrite.onStatus : BitmapWrite → Status → Status
  | setlockbit, s => { s with lock := true }
  | resetlockbit, s => { s with lock := false }
  | setmigratebit, s => { s with migrate := true }
  | setLockInline, s => { s with lock := true }

namespace Access

variable {c : Capacity}

/-- The `uint32` that arrives. -/
def eid (a : Access c) : Eid :=
  if a.viaInt then (c.eid a.i).toInt32.toUInt32 else c.eid a.i

def perform (a : Access c) (mem : GlobalBitmap c) : Option (GlobalBitmap c) :=
  match a.write with
  | .setlockbit => mem.setlockbit a.k a.eid
  | .resetlockbit => mem.resetlockbit a.k a.eid
  | .setmigratebit => mem.setmigratebit a.k a.eid
  | .setLockInline => mem.setLockInline a.k a.eid

def onMaps (a : Access c) (maps : StatusMaps c) : StatusMaps c :=
  Function.update maps a.k
    (Function.update (maps a.k) a.i (a.write.onStatus (maps a.k a.i)))

theorem eid_eq (a : Access c) : a.eid = c.eid a.i := by
  rw [eid, UInt32.toUInt32_toInt32, ite_self]

end Access

/-- The array under accesses. -/
def accesses (c : Capacity) : Machine (GlobalBitmap c) (Access c) where
  step mem a := a.perform mem

/-- The array stands for the maps: every read of a tuple succeeds and returns the value
the maps hold. -/
structure Represents {c : Capacity} (mem : GlobalBitmap c) (maps : StatusMaps c) : Prop where
  lock : ∀ k i, mem.getlockbit k (c.eid i) = some (maps k i).lock
  migrate : ∀ k i, mem.getmigratebit k (c.eid i) = some (maps k i).migrate
  word : ∀ k i, ∃ word, mem.load k (getwordid (c.eid i)) = some word ∧
    GlobalBitmap.getkthbit word (getlockbitid (c.eid i)) = some (maps k i).lock ∧
    GlobalBitmap.getkthbit word (getmigratebitid (c.eid i)) = some (maps k i).migrate

/-! ## The halves -/

namespace GlobalBitmap

variable {c : Capacity} (mem : GlobalBitmap c)

/-- The half of bitmap `k`, as a bitmap without a bound. -/
def half (k : BitmapNum) : Bitmap := fun w =>
  if w.toNat < c.bitmapSize.toNat then (mem.load k w).getD 0#64 else 0#64

variable {k k' : BitmapNum} {w w' : UInt32}

/-- A word of a half is in the array, and in its own half. -/
theorem index_bounds (hw : w.toNat < c.bitmapSize.toNat) :
    k.val * c.bitmapSize.toNat ≤ index c k w ∧
      index c k w < (k.val + 1) * c.bitmapSize.toNat ∧
      index c k w < 2 * c.bitmapSize.toNat := by
  have hk : (k.val + 1) * c.bitmapSize.toNat ≤ 2 * c.bitmapSize.toNat :=
    Nat.mul_le_mul_right _ k.isLt
  have hsucc : (k.val + 1) * c.bitmapSize.toNat =
      k.val * c.bitmapSize.toNat + c.bitmapSize.toNat := Nat.succ_mul _ _
  rw [index]
  omega

/-- Different words of the halves are different words of the array. -/
theorem index_inj (hw : w.toNat < c.bitmapSize.toNat) (hw' : w'.toNat < c.bitmapSize.toNat)
    (h : index c k w = index c k' w') : k = k' ∧ w = w' := by
  have hpos : 0 < c.bitmapSize.toNat := Nat.lt_of_le_of_lt (Nat.zero_le _) hw
  have hdiv : ∀ (k : BitmapNum) (w : UInt32), w.toNat < c.bitmapSize.toNat →
      index c k w / c.bitmapSize.toNat = k.val ∧ index c k w % c.bitmapSize.toNat = w.toNat := by
    intro k w hw
    rw [index, Nat.mul_comm, Nat.mul_add_div hpos, Nat.mul_add_mod, Nat.div_eq_of_lt hw,
      Nat.mod_eq_of_lt hw]
    exact ⟨rfl, rfl⟩
  have hk := hdiv k w hw
  rw [h] at hk
  have hk' := hdiv k' w' hw'
  exact ⟨Fin.ext (hk.1.symm.trans hk'.1), UInt32.toNat_inj.mp (hk.2.symm.trans hk'.2)⟩

theorem load_eq_half (hw : w.toNat < c.bitmapSize.toNat) :
    mem.load k w = some (mem.half k w) := by
  have hlt := (index_bounds (k := k) hw).2.2
  simp [half, load, hw, hlt]

/-- A store succeeds and changes one word of one half. -/
theorem store_spec (hw : w.toNat < c.bitmapSize.toNat) (word : Word) :
    ∃ mem' : GlobalBitmap c, mem.store k w word = some mem' ∧
      mem'.half k = Function.update (mem.half k) w word ∧
      ∀ k', k' ≠ k → mem'.half k' = mem.half k' := by
  have hlt := (index_bounds (k := k) hw).2.2
  have hload : ∀ (k' : BitmapNum) (w' : UInt32), w'.toNat < c.bitmapSize.toNat →
      GlobalBitmap.load (c := c) (mem.set (index c k w) word hlt) k' w' =
        if k' = k ∧ w' = w then some word else mem.load k' w' := by
    intro k' w' hw'
    rw [load, Vector.getElem?_set]
    by_cases h : k' = k ∧ w' = w
    · rw [if_pos h, if_pos (by rw [h.1, h.2])]
    · rw [if_neg h, if_neg (fun heq => h (index_inj hw' hw heq.symm)), load]
  refine ⟨mem.set (index c k w) word hlt, by rw [store, dif_pos hlt], ?_, ?_⟩
  · funext w'
    by_cases hin : w'.toNat < c.bitmapSize.toNat
    · by_cases hww : w' = w
      · subst hww
        simp [half, hin, hload k w' hin]
      · simp [half, hin, hload k w' hin, hww]
    · have hww : w' ≠ w := fun h => hin (h ▸ hw)
      simp [half, hin, hww]
  · intro k' hk
    funext w'
    by_cases hin : w'.toNat < c.bitmapSize.toNat
    · simp [half, hin, hload k' w' hin, hk]
    · simp [half, hin]

/-- One read-modify-write. -/
theorem update_spec (hw : w.toNat < c.bitmapSize.toNat) {bitid : UInt32} (hbit : bitid.toNat < 64)
    (f : Word → Word → Word) :
    ∃ mem' : GlobalBitmap c, mem.update k w bitid f = some mem' ∧
      mem'.half k = Function.update (mem.half k) w (f (mem.half k w) (kthbit bitid)) ∧
      ∀ k', k' ≠ k → mem'.half k' = mem.half k' := by
  obtain ⟨mem', hstore, hown, hother⟩ :=
    mem.store_spec (k := k) hw (f (mem.half k w) (kthbit bitid))
  refine ⟨mem', ?_, hown, hother⟩
  simp [update, mem.load_eq_half hw, shl1, hbit, hstore]

theorem getkthbit_eq (word : Word) {bitid : UInt32} (hbit : bitid.toNat < 64) :
    GlobalBitmap.getkthbit word bitid = some (BullFrog.getkthbit word bitid) := by
  simp [GlobalBitmap.getkthbit, shl1, hbit, BullFrog.getkthbit]

end GlobalBitmap

/-! ## Refinement -/

/-- A write as `BullFrog.Bitmap` has it. -/
def BitmapWrite.onBitmap : BitmapWrite → Bitmap → Eid → Bitmap
  | setlockbit => BullFrog.setlockbit
  | resetlockbit => BullFrog.resetlockbit
  | setmigratebit => BullFrog.setmigratebit
  | setLockInline => BullFrog.setlockbit

theorem BitmapWrite.statusOf_onBitmap (w : BitmapWrite) (b : Bitmap) (e : Eid) :
    statusOf (w.onBitmap b e) = Function.update (statusOf b) e (w.onStatus (statusOf b e)) := by
  cases w with
  | setlockbit => exact statusOf_setlockbit b e
  | resetlockbit => exact statusOf_resetlockbit b e
  | setmigratebit => exact statusOf_setmigratebit b e
  | setLockInline => exact statusOf_setlockbit b e

section Refinement

variable {c : Capacity}

/-- An access succeeds, does to its own half what `BullFrog.Bitmap` says, and leaves the
other half alone. -/
theorem perform_spec (a : Access c) (mem : GlobalBitmap c) :
    ∃ mem', a.perform mem = some mem' ∧
      mem'.half a.k = a.write.onBitmap (mem.half a.k) (c.eid a.i) ∧
      ∀ k, k ≠ a.k → mem'.half k = mem.half k := by
  have hw := c.getwordid_lt a.i
  have hlock := getlockbitid_lt (c.eid a.i)
  have hmig := getmigratebitid_lt (c.eid a.i)
  rw [Access.perform, a.eid_eq]
  cases a.write with
  | setlockbit => exact mem.update_spec hw hlock _
  | resetlockbit => exact mem.update_spec hw hlock _
  | setmigratebit => exact mem.update_spec hw hmig _
  | setLockInline => exact mem.update_spec hw hlock _

/-- The array stands for the maps if its halves do. -/
theorem represents_of_halves {mem : GlobalBitmap c} {maps : StatusMaps c}
    (h : ∀ k i, statusOf (mem.half k) (c.eid i) = maps k i) : Represents mem maps := by
  have hread : ∀ k i, mem.load k (getwordid (c.eid i)) =
      some (mem.half k (getwordid (c.eid i))) := fun k i => mem.load_eq_half (c.getwordid_lt i)
  have hlock : ∀ k i, GlobalBitmap.getkthbit (mem.half k (getwordid (c.eid i)))
      (getlockbitid (c.eid i)) = some (maps k i).lock := by
    intro k i
    rw [GlobalBitmap.getkthbit_eq _ (getlockbitid_lt _), ← h k i]
    rfl
  have hmig : ∀ k i, GlobalBitmap.getkthbit (mem.half k (getwordid (c.eid i)))
      (getmigratebitid (c.eid i)) = some (maps k i).migrate := by
    intro k i
    rw [GlobalBitmap.getkthbit_eq _ (getmigratebitid_lt _), ← h k i]
    rfl
  refine ⟨?_, ?_, ?_⟩
  · intro k i
    simp [GlobalBitmap.getlockbit, hread, hlock]
  · intro k i
    simp [GlobalBitmap.getmigratebit, hread, hmig]
  · intro k i
    exact ⟨_, hread k i, hlock k i, hmig k i⟩

theorem Represents.halves {mem : GlobalBitmap c} {maps : StatusMaps c} (h : Represents mem maps)
    (k : BitmapNum) (i : Fin c.numTuples) : statusOf (mem.half k) (c.eid i) = maps k i := by
  obtain ⟨word, hload, hlock, hmig⟩ := h.word k i
  rw [mem.load_eq_half (c.getwordid_lt i), Option.some.injEq] at hload
  subst hload
  rw [GlobalBitmap.getkthbit_eq _ (getlockbitid_lt _), Option.some.injEq] at hlock
  rw [GlobalBitmap.getkthbit_eq _ (getmigratebitid_lt _), Option.some.injEq] at hmig
  exact Status.ext hlock hmig

/-- One access. -/
theorem Represents.perform {mem : GlobalBitmap c} {maps : StatusMaps c} (h : Represents mem maps)
    (a : Access c) : ∃ mem', a.perform mem = some mem' ∧ Represents mem' (a.onMaps maps) := by
  obtain ⟨mem', hstep, hown, hother⟩ := perform_spec a mem
  refine ⟨mem', hstep, represents_of_halves ?_⟩
  intro k i
  by_cases hk : k = a.k
  · subst hk
    rw [hown, BitmapWrite.statusOf_onBitmap, Access.onMaps, Function.update_self]
    by_cases hi : i = a.i
    · rw [hi, Function.update_self, Function.update_self, h.halves]
    · rw [Function.update_of_ne (c.eid_injective.ne hi), Function.update_of_ne hi, h.halves]
  · rw [hother k hk, Access.onMaps, Function.update_of_ne hk, h.halves]

theorem represents_initGlobalBitmap :
    Represents (initGlobalBitmap c) fun _ _ => ⟨false, false⟩ := by
  refine represents_of_halves fun k i => ?_
  have hzero : (initGlobalBitmap c).half k = fun _ => 0#64 := by
    funext w
    by_cases hw : w.toNat < c.bitmapSize.toNat
    · have hlt := (GlobalBitmap.index_bounds (k := k) hw).2.2
      simp [GlobalBitmap.half, GlobalBitmap.load, initGlobalBitmap, hw, hlt]
    · simp [GlobalBitmap.half, hw]
  rw [hzero]
  simp [statusOf, getlockbit, getmigratebit, getkthbit]

end Refinement

/-- For every capacity: the zero-filled array stands for maps that are all clear; from an
array that stands for some maps, every sequence of accesses to tuples below the capacity
is carried out and leads to an array that stands for the maps it leads to; and the word
of a tuple lies in the array and in the half of its own bitmap, its bits at shifts below
64, its eid being the same after a round trip through an `int`. -/
theorem packed_refines_maps (c : Capacity) :
    Represents (initGlobalBitmap c) (fun _ _ => ⟨false, false⟩) ∧
    (∀ (mem : GlobalBitmap c) (maps : StatusMaps c), Represents mem maps →
      ∀ tr : List (Access c), ∃ mem', (accesses c).exec mem tr = some mem' ∧
        Represents mem' (tr.foldl (fun maps a => a.onMaps maps) maps)) ∧
    ∀ (k : BitmapNum) (i : Fin c.numTuples),
      (c.eid i).toNat = i ∧ (c.eid i).toInt32.toUInt32 = c.eid i ∧
      GlobalBitmap.index c k (getwordid (c.eid i)) < 2 * c.bitmapSize.toNat ∧
      k.val * c.bitmapSize.toNat ≤ GlobalBitmap.index c k (getwordid (c.eid i)) ∧
      GlobalBitmap.index c k (getwordid (c.eid i)) < (k.val + 1) * c.bitmapSize.toNat ∧
      (getlockbitid (c.eid i)).toNat < 64 ∧ (getmigratebitid (c.eid i)).toNat < 64 := by
  refine ⟨represents_initGlobalBitmap, ?_, ?_⟩
  · intro mem maps h tr
    induction tr generalizing mem maps with
    | nil => exact ⟨mem, rfl, h⟩
    | cons a tr ih =>
        obtain ⟨mem₁, hstep, h₁⟩ := h.perform a
        obtain ⟨mem', hexec, h'⟩ := ih mem₁ (a.onMaps maps) h₁
        refine ⟨mem', ?_, h'⟩
        rw [Machine.exec, show (accesses c).step mem a = some mem₁ from hstep]
        exact hexec
  · intro k i
    obtain ⟨hlow, hhigh, hin⟩ := GlobalBitmap.index_bounds (k := k) (c.getwordid_lt i)
    exact ⟨c.toNat_eid i, UInt32.toUInt32_toInt32 _, hin, hlow, hhigh, getlockbitid_lt _,
      getmigratebitid_lt _⟩

/-- Thirty-three tuples, so two words a half: the last tuple of bitmap 0 and the first of
bitmap 1 are neighbours in the array and do not disturb each other. -/
theorem packed_refines_maps_neighbours :
    let c : Capacity := ⟨33, by decide⟩
    ∃ mem, (accesses c).exec (initGlobalBitmap c)
        [⟨.setlockbit, 0, 32, true⟩, ⟨.setLockInline, 1, 0, false⟩,
          ⟨.resetlockbit, 0, 32, false⟩] = some mem ∧
      mem.getlockbit 0 32 = some false ∧ mem.getlockbit 1 0 = some true := by
  intro c
  obtain ⟨mem, hexec, h⟩ := (packed_refines_maps c).2.1 _ _ (packed_refines_maps c).1
    [⟨.setlockbit, 0, 32, true⟩, ⟨.setLockInline, 1, 0, false⟩, ⟨.resetlockbit, 0, 32, false⟩]
  exact ⟨mem, hexec, h.lock 0 32, h.lock 1 0⟩

end BullFrog
