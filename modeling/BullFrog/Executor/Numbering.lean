/-
# `BullFrog.Executor.Numbering` — when the eid numbering keeps tuples apart

`MigrateTuple` numbers the tuple at line pointer `offset` of block `b` as

    eid = b * NUMTUPLESPERPAGE + offset - 1

`NUMTUPLESPERPAGE` comes from the query in the comment of `migrate_schema.h`, which
counts the *visible* tuples of a page.  The offset counts *line pointers*: on a page
whose tuples have been updated or deleted, a visible tuple may have any offset up to
`MaxHeapTuplesPerPage`.  A tuple at an offset above 15 is numbered as if it were on a
later page.

For a table within the documented sizing the number never wraps and is below
`NUMTUPLES`.  It tells the visible tuples apart exactly if no tuple with an offset
above 15 meets the tuple it is numbered like (`eid_separates_iff`); if all offsets are
at most 15, as on pages that have never been updated, there is nothing to meet
(`not_overlaps_of_fresh`).
-/
import BullFrog.Executor.Scan
import Mathlib.Data.Finset.Card

namespace BullFrog

/-- `NUMPAGES`. -/
def numPages : Nat := 113505

/-- `BLCKSZ`. -/
def blcksz : Nat := 8192

/-- `SizeOfPageHeaderData`. -/
def sizeOfPageHeaderData : Nat := 24

/-- `MAXALIGN(SizeofHeapTupleHeader)`: 23 bytes, aligned to 8. -/
def maxalignSizeofHeapTupleHeader : Nat := (23 + 7) / 8 * 8

/-- `sizeof(ItemIdData)`. -/
def sizeofItemIdData : Nat := 4

/-- `MaxHeapTuplesPerPage`. -/
def maxHeapTuplesPerPage : Nat :=
  (blcksz - sizeOfPageHeaderData) / (maxalignSizeofHeapTupleHeader + sizeofItemIdData)

/-- The visible tuples of an old table within the documented sizing. -/
structure OldTable where
  visible : Finset ItemPointer
  blocks : ∀ tid ∈ visible, tid.blockNumber.toNat < numPages
  offsets : ∀ tid ∈ visible,
    1 ≤ tid.offsetNumber.toNat ∧ tid.offsetNumber.toNat ≤ maxHeapTuplesPerPage
  perPage : ∀ b, (visible.filter (·.blockNumber = b)).card ≤ numTuplesPerPage.toNat
  total : visible.card ≤ numTuples

/-! ## The number -/

/-- Within the sizing nothing wraps. -/
theorem ItemPointer.toNat_eid {tid : ItemPointer} (hb : tid.blockNumber.toNat < numPages)
    (ho : 1 ≤ tid.offsetNumber.toNat ∧ tid.offsetNumber.toNat ≤ maxHeapTuplesPerPage) :
    tid.eid.toNat + 1 =
      tid.blockNumber.toNat * numTuplesPerPage.toNat + tid.offsetNumber.toNat := by
  have hmax : maxHeapTuplesPerPage = 291 := rfl
  have hpages : numPages = 113505 := rfl
  have hfifteen : numTuplesPerPage.toNat = 15 := rfl
  have hone : (1 : UInt32).toNat = 1 := rfl
  rw [ItemPointer.eid, UInt32.toNat_sub, UInt32.toNat_add, UInt32.toNat_mul,
    UInt16.toNat_toUInt32, hfifteen, hone]
  omega

/-- The number of `t` is the number of `u`, a tuple of a later page. -/
def OverlapsLater (t u : ItemPointer) : Prop :=
  numTuplesPerPage.toNat < t.offsetNumber.toNat ∧
    ∃ q, 0 < q ∧ u.blockNumber.toNat = t.blockNumber.toNat + q ∧
      t.offsetNumber.toNat = u.offsetNumber.toNat + q * numTuplesPerPage.toNat

namespace OldTable

variable (T : OldTable)

/-- Distinct visible tuples that are numbered alike are on different pages, and the one
on the earlier page has its offset above `NUMTUPLESPERPAGE`. -/
theorem eid_eq_iff {t u : ItemPointer} (ht : t ∈ T.visible) (hu : u ∈ T.visible) :
    t.eid = u.eid ↔ t = u ∨ OverlapsLater t u ∨ OverlapsLater u t := by
  have ht' := t.toNat_eid (T.blocks t ht) (T.offsets t ht)
  have hu' := u.toNat_eid (T.blocks u hu) (T.offsets u hu)
  have hot := T.offsets t ht
  have hou := T.offsets u hu
  have hfifteen : numTuplesPerPage.toNat = 15 := rfl
  rw [hfifteen] at ht' hu'
  simp only [OverlapsLater, hfifteen]
  constructor
  · intro h
    rw [h] at ht'
    rcases Nat.lt_trichotomy t.blockNumber.toNat u.blockNumber.toNat with hlt | heq | hgt
    · exact .inr (.inl ⟨by omega, u.blockNumber.toNat - t.blockNumber.toNat, by omega, by omega,
        by omega⟩)
    · left
      have hoff : t.offsetNumber.toNat = u.offsetNumber.toNat := by omega
      exact ItemPointer.ext (UInt32.toNat_inj.mp heq) (UInt16.toNat_inj.mp hoff)
    · exact .inr (.inr ⟨by omega, t.blockNumber.toNat - u.blockNumber.toNat, by omega, by omega,
        by omega⟩)
  · rintro (rfl | ⟨_, q, _, hb, ho⟩ | ⟨_, q, _, hb, ho⟩)
    · rfl
    · exact UInt32.toNat_inj.mp (by omega)
    · exact UInt32.toNat_inj.mp (by omega)

end OldTable

/-! ## What hangs on it -/

namespace Globals

variable {R : Type} {g : Globals} {t : HeapTuple R}

/-- `MigrateTuple` answers yes. -/
def takes (g : Globals) (t : HeapTuple R) : Bool :=
  (g.migrateTuple (some (.heap t))).any Prod.fst

theorem takes_iff :
    g.takes t = true ↔ t.tLen = 0 ∨ statusOf g.partialBitmap t.tSelf.eid = ⟨false, false⟩ := by
  rw [takes, migrateTuple_heap]
  by_cases hlen : t.tLen = 0
  · simp [hlen]
  · rcases claim_cases g t.tSelf.eid with ⟨hm, hc⟩ | ⟨_, hl, hc⟩ | ⟨hs, hc⟩
    · simp [hlen, hc, Status.ext_iff, hm]
    · simp [hlen, hc, Status.ext_iff, hl]
    · simp [hlen, hc, hs]

/-- Taking a tuple sets its lock bit, if anything. -/
theorem partialBitmap_of_taken {g' : Globals}
    (h : g.migrateTuple (some (.heap t)) = some (true, g')) :
    g'.partialBitmap = g.partialBitmap ∨
      g'.partialBitmap = setlockbit g.partialBitmap t.tSelf.eid := by
  rw [migrateTuple_heap, Option.some.injEq] at h
  by_cases hlen : t.tLen = 0
  · rw [if_pos hlen, Prod.mk.injEq] at h
    exact .inl (by rw [h.2])
  · rw [if_neg hlen] at h
    rcases claim_cases g t.tSelf.eid with ⟨_, hc⟩ | ⟨_, _, hc⟩ | ⟨_, hc⟩ <;> rw [hc] at h
    · cases h
    · cases h
    · cases h
      exact .inr rfl

end Globals

/-- The numbering does what it is for: it neither wraps nor leaves the bitmap, it tells the
visible tuples apart, and neither claiming nor migrating one of them makes `MigrateTuple`
refuse another. -/
structure OldTable.Separated (T : OldTable) (R : Type) : Prop where
  noWrap : ∀ tid ∈ T.visible,
    tid.eid.toNat + 1 =
      tid.blockNumber.toNat * numTuplesPerPage.toNat + tid.offsetNumber.toNat
  inRange : ∀ tid ∈ T.visible, tid.eid.toNat < numTuples
  distinct : ∀ t ∈ T.visible, ∀ u ∈ T.visible, t ≠ u → t.eid ≠ u.eid
  claimKeeps : ∀ (g g' : Globals) (t u : HeapTuple R), t.tSelf ∈ T.visible →
    u.tSelf ∈ T.visible → t.tSelf ≠ u.tSelf →
    g.migrateTuple (some (.heap t)) = some (true, g') → g.takes u = true → g'.takes u = true
  migrateKeeps : ∀ (g : Globals) (t u : HeapTuple R), t.tSelf ∈ T.visible →
    u.tSelf ∈ T.visible → t.tSelf ≠ u.tSelf → g.takes u = true →
    { g with partialBitmap := setmigratebit g.partialBitmap t.tSelf.eid }.takes u = true

namespace OldTable

variable (T : OldTable) {R : Type}

/-- Distinct numbers are enough. -/
theorem separated_of_distinct
    (hd : ∀ t ∈ T.visible, ∀ u ∈ T.visible, t ≠ u → t.eid ≠ u.eid) : T.Separated R := by
  have hwrap : ∀ tid ∈ T.visible,
      tid.eid.toNat + 1 =
        tid.blockNumber.toNat * numTuplesPerPage.toNat + tid.offsetNumber.toNat :=
    fun tid h => tid.toNat_eid (T.blocks tid h) (T.offsets tid h)
  refine ⟨hwrap, ?_, hd, ?_, ?_⟩
  · intro tid h
    have hpages : numPages = 113505 := rfl
    have hmax : maxHeapTuplesPerPage = 291 := rfl
    have hfifteen : numTuplesPerPage.toNat = 15 := rfl
    have := hfifteen ▸ hwrap tid h
    have := T.blocks tid h
    have := (T.offsets tid h).2
    show _ < 2000000
    omega
  · intro g g' t u ht hu hne hg hu'
    rw [Globals.takes_iff] at hu' ⊢
    rcases Globals.partialBitmap_of_taken hg with h | h
    · rwa [h]
    · rwa [h, statusOf_setlockbit, Function.update_of_ne (hd _ ht _ hu hne).symm]
  · intro g t u ht hu hne hu'
    rw [Globals.takes_iff] at hu' ⊢
    rwa [statusOf_setmigratebit, Function.update_of_ne (hd _ ht _ hu hne).symm]

/-- On pages whose offsets are at most `NUMTUPLESPERPAGE` nothing overlaps. -/
theorem not_overlaps_of_fresh
    (h : ∀ t ∈ T.visible, t.offsetNumber.toNat ≤ numTuplesPerPage.toNat) :
    ∀ t ∈ T.visible, ∀ u ∈ T.visible, ¬OverlapsLater t u := by
  intro t ht u _ hover
  have := h t ht
  have := hover.1
  omega

/-- The numbering does what it is for exactly if no visible tuple with an offset
`o` above `NUMTUPLESPERPAGE` on a page `b` goes with a visible tuple on a page `b + q`
at offset `o - q * NUMTUPLESPERPAGE`. -/
theorem eid_separates_iff (T : OldTable) (R : Type) :
    T.Separated R ↔ ∀ t ∈ T.visible, ∀ u ∈ T.visible, ¬OverlapsLater t u := by
  constructor
  · intro h t ht u hu hover
    have hne : t ≠ u := by
      rintro rfl
      obtain ⟨_, q, hq, hb, _⟩ := hover
      omega
    exact h.distinct t ht u hu hne ((T.eid_eq_iff ht hu).mpr (.inr (.inl hover)))
  · intro h
    refine T.separated_of_distinct ?_
    intro t ht u hu hne heq
    rcases (T.eid_eq_iff ht hu).mp heq with h' | h' | h'
    · exact hne h'
    · exact h t ht u hu h'
    · exact h u hu t ht h'

end OldTable

/-- Two visible tuples: the one of block 0 has been updated into line pointer 16, the
other is the first of block 1. -/
def updatedTable : OldTable where
  visible := {⟨0, 16⟩, ⟨1, 1⟩}
  blocks := by decide
  offsets := by decide
  perPage b := (Finset.card_filter_le _ _).trans (by decide)
  total := by decide

/-- Both are tuple 15: claiming the first makes `MigrateTuple` refuse the second. -/
theorem updatedTable_not_separated :
    (⟨0, 16⟩ : ItemPointer).eid = (⟨1, 1⟩ : ItemPointer).eid ∧ ¬updatedTable.Separated Nat := by
  refine ⟨rfl, ?_⟩
  intro h
  exact absurd (h.claimKeeps ⟨true, fun _ => 0, [], [], 0⟩ _ ⟨40, ⟨0, 16⟩, 7⟩ ⟨40, ⟨1, 1⟩, 8⟩
    (by decide) (by decide) (by decide) rfl rfl) (by decide)

end BullFrog
