/-
# `BullFrog.Executor.Emission` — which calls of `ExecScan` return claimed rows only

A migration statement inserts every row its scan returns, so a row must be returned
only by the call that claims it.  `MigrateTuple` finds the row through the physical
tuple in the slot, and what the slot holds depends on the access method:

| slot | `MigrateTuple` |
| :-- | :-- |
| tuple of the old table, with a length | claims it, or answers no |
| heap tuple of length 0 | answers yes without claiming |
| heap tuple formed from an index entry | claims tuple 4294967280, whatever the row is |
| virtual tuple | reads `t_len` through a null pointer |

The calls made while a node is drained are the steps of a machine.  For the slots that
an access method delivers, all calls from all states return claimed rows only, and read no
absent tuple, exactly if every slot whose row passes the qual holds a tuple with a length
that has the eid of the row's base tuple (`emits_only_claims_iff`).
-/
import BullFrog.Executor.Drain
import BullFrog.Lib.Machine

namespace BullFrog

variable {R P : Type}

/-- `MigrateTuple` can tell from the slot which tuple the row is: it holds a physical tuple
with a length, and under the eid of the base tuple. -/
def Row.Identified (r : Row R) : Prop :=
  ∃ t, r.ttsTuple = some t ∧ t.tLen ≠ 0 ∧ t.tSelf.eid = r.base.eid

/-- A tuple of the old table says itself where it is. -/
theorem Row.identified_heap {t : HeapTuple R} (h : t.tLen ≠ 0) : (Row.heap t).Identified :=
  ⟨t, rfl, h, rfl⟩

/-- Between `g` and `g'` the lock bit of `e` went from 0 to 1 and `e` was appended to
`InProgLocalList0`. -/
structure ClaimedBetween (g g' : Globals) (e : Eid) : Prop where
  unlocked : getlockbit g.partialBitmap e = false
  locked : getlockbit g'.partialBitmap e = true
  listed : g'.inProgLocalList0 = g.inProgLocalList0 ++ [e.toInt32]

namespace ScanNode

/-- What is asked of one call of `ExecScan` from `g`: it reads no absent tuple, and a row
it returns is a row it claimed. -/
def OnlyClaims (g : Globals) :
    Option (Option (Returned R P) × Globals × List (Row R)) → Prop
  | none => False
  | some (none, _, _) => True
  | some (some r, g', _) => ClaimedBetween g g' r.scantuple.base.eid

/-- The calls of `ExecScan` that return a row, one after the other. -/
def calls (node : ScanNode R P) : Machine (Globals × List (Row R)) Unit where
  step s _ :=
    match node.execScan s.1 s.2 with
    | some (some _, g, rest) => some (g, rest)
    | some (none, _, _) => none
    | none => none

/-! ## The outcomes of a call -/

/-- How a call that starts at `rows` can end: with every row gone past, with one that it has
claimed under the eid its slot has, or at one that cannot be claimed. -/
inductive Outcome (node : ScanNode R P) (g : Globals) (rows : List (Row R)) :
    Option (Option (Returned R P) × Globals × List (Row R)) → Prop
  | atEnd {g' : Globals} : Outcome node g rows (some (none, g', []))
  | claimed {r : Row R} {t : HeapTuple R} {rest : List (Row R)} {g' : Globals} :
      r ∈ rows → node.passes r = true → r.ttsTuple = some t →
      ClaimedBetween g g' t.tSelf.eid → g'.migrateflag = true → (∀ x ∈ rest, x ∈ rows) →
      Outcome node g rows (some (some (node.result r), g', rest))
  | unclaimed {r : Row R} {rest : List (Row R)} {g' : Globals} :
      r ∈ rows → node.passes r = true → ¬r.Identified →
      Outcome node g rows (some (some (node.result r), g', rest))
  | absentTuple {r : Row R} :
      r ∈ rows → node.passes r = true → ¬r.Identified → Outcome node g rows none

variable {node : ScanNode R P} {g g' : Globals} {r : Row R} {t : HeapTuple R}
  {rows : List (Row R)}

/-- A row that the call goes past changes nothing that an outcome speaks of. -/
theorem Outcome.past {out : Option (Option (Returned R P) × Globals × List (Row R))}
    (h : Outcome node g' rows out) (hbitmap : g'.partialBitmap = g.partialBitmap)
    (hlist : g'.inProgLocalList0 = g.inProgLocalList0) : Outcome node g (r :: rows) out := by
  cases h with
  | atEnd => exact .atEnd
  | claimed hmem hpass ht hc hflag hrest =>
      refine .claimed (List.mem_cons_of_mem _ hmem) hpass ht ?_ hflag
        fun x hx => List.mem_cons_of_mem _ (hrest x hx)
      exact ⟨hbitmap ▸ hc.unlocked, hc.locked, hlist ▸ hc.listed⟩
  | unclaimed hmem hpass hr => exact .unclaimed (List.mem_cons_of_mem _ hmem) hpass hr
  | absentTuple hmem hpass hr => exact .absentTuple (List.mem_cons_of_mem _ hmem) hpass hr

theorem result_scantuple (node : ScanNode R P) (r : Row R) : (node.result r).scantuple = r := by
  rcases node with ⟨qual, _ | proj⟩ <;> rfl

theorem Outcome.onlyClaims {out : Option (Option (Returned R P) × Globals × List (Row R))}
    (h : Outcome node g rows out) (hall : ∀ r ∈ rows, node.passes r = true → r.Identified) :
    OnlyClaims g out := by
  cases h with
  | atEnd => trivial
  | claimed hmem hpass ht hc _ _ =>
      obtain ⟨t, ht', -, heid⟩ := hall _ hmem hpass
      rw [ht] at ht'
      cases ht'
      rw [OnlyClaims, result_scantuple, ← heid]
      exact hc
  | unclaimed hmem hpass hr => exact absurd (hall _ hmem hpass) hr
  | absentTuple hmem hpass hr => exact absurd (hall _ hmem hpass) hr

/-- A claim sets the lock bit and appends the eid. -/
theorem claimedBetween_setlockbit {e : Eid} (h : statusOf g.partialBitmap e = ⟨false, false⟩)
    (hbitmap : g'.partialBitmap = setlockbit g.partialBitmap e)
    (hlist : g'.inProgLocalList0 = g.inProgLocalList0 ++ [e.toInt32]) :
    ClaimedBetween g g' e := by
  refine ⟨congrArg Status.lock h, ?_, hlist⟩
  have hset := congrFun (statusOf_setlockbit g.partialBitmap e) e
  rw [Function.update_self] at hset
  rw [hbitmap]
  exact congrArg Status.lock hset

/-- The loop of `ExecScan`, by induction on the rows still to come. -/
theorem execScanLoop_outcome (hflag : g.migrateflag = true) (rows : List (Row R)) :
    Outcome node g rows (node.execScanLoop g rows) := by
  induction rows generalizing g with
  | nil => exact .atEnd
  | cons r rows ih =>
      cases hpass : node.passes r with
      | false =>
          have hskip : node.execScanLoop g (r :: rows) = node.execScanLoop g rows := by
            simp [execScanLoop, hpass]
          rw [hskip]
          exact (ih hflag).past rfl rfl
      | true =>
          cases ht : r.ttsTuple with
          | none =>
              have hnone : node.execScanLoop g (r :: rows) = none := by
                simp [execScanLoop, hpass, hflag, Globals.migrateTuple, ht]
              rw [hnone]
              refine .absentTuple List.mem_cons_self hpass ?_
              rintro ⟨t, ht', -⟩
              rw [ht] at ht'
              cases ht'
          | some t =>
              rw [execScanLoop_tuple hpass ht]
              rcases Globals.offer_cases (t := t) hflag with
                ⟨hl, ho⟩ | ⟨hl, _, ho⟩ | ⟨hl, _, _, ho⟩ | ⟨hl, hs, ho⟩
              · rw [ho]
                refine .unclaimed List.mem_cons_self hpass ?_
                rintro ⟨t', ht', hl', -⟩
                rw [ht] at ht'
                cases ht'
                exact hl' hl
              · rw [ho]
                exact (ih hflag).past rfl rfl
              · rw [ho]
                refine Outcome.past (ih ?_) rfl rfl
                exact hflag
              · rw [ho]
                exact .claimed List.mem_cons_self hpass ht
                  (claimedBetween_setlockbit hs rfl rfl) hflag
                  fun x hx => List.mem_cons_of_mem _ hx

/-- On a row the shortcut is a round of the loop, whatever the slot holds. -/
theorem execScan_cons (node : ScanNode R P) (g : Globals) (r : Row R) (rows : List (Row R)) :
    node.execScan g (r :: rows) = node.execScanLoop g (r :: rows) := by
  rcases node with ⟨_ | qual, _ | proj⟩ <;> rfl

/-- At the end of the stream no call returns a row. -/
theorem execScan_nil_ne (hflag : g.migrateflag = true) (x : Returned R P)
    (y : Globals × List (Row R)) : node.execScan g [] ≠ some (some x, y) := by
  rcases node with ⟨_ | qual, _ | proj⟩ <;>
    simp [execScan, execScanLoop, hflag, Globals.migrateTuple]

/-! ## The calls of a drain -/

theorem calls_step_eq_some {s s' : Globals × List (Row R)} :
    (node.calls).step s () = some s' ↔
      ∃ r, node.execScan s.1 s.2 = some (some r, s'.1, s'.2) := by
  rcases h : node.execScan s.1 s.2 with _ | ⟨_ | r, g, rest⟩
  · simp [calls, h]
  · simp [calls, h]
  · simp [calls, h, Prod.ext_iff]

/-- A call that starts before the end of the stream. -/
theorem execScan_outcome (hflag : g.migrateflag = true) (hrows : rows ≠ []) :
    Outcome node g rows (node.execScan g rows) := by
  cases rows with
  | nil => exact absurd rfl hrows
  | cons r rows =>
      rw [execScan_cons]
      exact execScanLoop_outcome hflag _

/-- One step: the rows left after a call are some of those before it. -/
theorem calls_step_rows {s s' : Globals × List (Row R)} (hflag : s.1.migrateflag = true)
    (hall : ∀ r ∈ s.2, node.passes r = true → r.Identified) (h : node.calls.step s () = some s') :
    s'.1.migrateflag = true ∧ ∀ r ∈ s'.2, node.passes r = true → r.Identified := by
  obtain ⟨r, hr⟩ := calls_step_eq_some.mp h
  by_cases hrows : s.2 = []
  · rw [hrows] at hr
    exact absurd hr (execScan_nil_ne hflag r s')
  · have hout : Outcome node s.1 s.2 (node.execScan s.1 s.2) := execScan_outcome hflag hrows
    rw [hr] at hout
    cases hout with
    | claimed _ _ _ _ hflag' hrest => exact ⟨hflag', fun x hx => hall x (hrest x hx)⟩
    | unclaimed hmem hpass hnot => exact absurd (hall _ hmem hpass) hnot

/-- The rest of a run: all rows that pass can be told, so all calls claim what they return. -/
theorem onlyClaims_of_identified (hflag : g.migrateflag = true)
    (hall : ∀ r ∈ rows, node.passes r = true → r.Identified) {s : Globals × List (Row R)}
    (h : node.calls.Reachable (g, rows) s) (hne : s.2 ≠ []) :
    OnlyClaims s.1 (node.execScan s.1 s.2) := by
  obtain ⟨tr, hrun⟩ := h
  obtain ⟨hflag', hall'⟩ :=
    hrun.invariant (fun _ _ _ _ hstep hinv => calls_step_rows hinv.1 hinv.2 hstep) ⟨hflag, hall⟩
  exact (execScan_outcome hflag' hne).onlyClaims hall'

/-- A call on one row, in a state in which nothing has been claimed: the row is claimed under
its own eid only if its slot tells it. -/
theorem identified_of_onlyClaims (hpass : node.passes r = true) (hflag : g.migrateflag = true)
    (hclear : ∀ e, statusOf g.partialBitmap e = ⟨false, false⟩)
    (h : OnlyClaims g (node.execScan g [r])) : r.Identified := by
  rw [execScan_cons] at h
  cases ht : r.ttsTuple with
  | none =>
      have hnone : node.execScanLoop g [r] = none := by
        simp [execScanLoop, hpass, hflag, Globals.migrateTuple, ht]
      rw [hnone] at h
      exact h.elim
  | some t =>
      rw [execScanLoop_tuple hpass ht] at h
      rcases Globals.offer_cases (t := t) hflag with
        ⟨-, ho⟩ | ⟨-, hm, -⟩ | ⟨-, -, hl, -⟩ | ⟨hlen, -, ho⟩
      · -- the list has not grown
        rw [ho] at h
        have hlist := h.listed
        simp [Globals.counted] at hlist
      · rw [hclear] at hm
        cases hm
      · rw [hclear] at hl
        cases hl
      · rw [ho] at h
        have hlist := h.listed
        simp only [List.append_cancel_left_eq, List.cons.injEq, and_true, result_scantuple]
          at hlist
        have heid := congrArg Int32.toUInt32 hlist
        rw [UInt32.toUInt32_toInt32, UInt32.toUInt32_toInt32] at heid
        exact ⟨t, ht, hlen, heid⟩

/-- For every access method, given by the slots it can deliver: while a node is drained in
migration mode, from whatever state, every call that starts at a row reads no absent tuple and
returns only a row it has claimed, exactly if each slot the access method delivers for a row
that passes the qual holds a physical tuple with a length and the eid of the base tuple. -/
theorem emits_only_claims_iff (node : ScanNode R P) (delivers : Row R → Prop) :
    (∀ g : Globals, g.migrateflag = true → ∀ rows, (∀ r ∈ rows, delivers r) →
      ∀ s, node.calls.Reachable (g, rows) s → s.2 ≠ [] →
        OnlyClaims s.1 (node.execScan s.1 s.2)) ↔
      ∀ r, delivers r → node.passes r = true → r.Identified := by
  constructor
  · intro h r hr hpass
    let g : Globals := ⟨true, fun _ => 0, [], [], 0⟩
    refine identified_of_onlyClaims (g := g) hpass rfl (fun e => ?_) ?_
    · simp [g, statusOf, getlockbit, getmigratebit, getkthbit]
    · exact h g rfl [r] (by simpa using hr) (g, [r]) ⟨[], .nil⟩ (by simp)
  · intro h g hflag rows hrows s hs hne
    exact onlyClaims_of_identified hflag (fun r hr => h r (hrows r hr)) hs hne

/-- A sequential scan with a qual: the tuple is claimed by the call that returns it. -/
theorem emits_only_claims_seqscan :
    let node : ScanNode Nat Nat := ⟨some (· < 7), none⟩
    let g : Globals := ⟨true, fun _ => 0, [], [], 0⟩
    let rows : List (Row Nat) := [.heap ⟨40, ⟨0, 6⟩, 3⟩]
    (node.execScan g rows).any (·.1.isSome) = true ∧ OnlyClaims g (node.execScan g rows) := by
  intro node g rows
  refine ⟨by decide, ?_⟩
  refine (emits_only_claims_iff node fun r => ∃ t : HeapTuple Nat, r = .heap t ∧ t.tLen ≠ 0).mpr
    ?_ g rfl rows ?_ (g, rows) ⟨[], .nil⟩ (by decide)
  · rintro _ ⟨t, rfl, hlen⟩ -
    exact Row.identified_heap hlen
  · intro r hr
    exact ⟨_, List.mem_singleton.mp hr, by decide⟩

/-- An index-only scan delivers a virtual tuple. -/
theorem indexonlyscan_reads_absent_tuple :
    let node : ScanNode Nat Nat := ⟨some (· < 7), some (· + 100)⟩
    ¬OnlyClaims ⟨true, fun _ => 0, [], [], 0⟩
      (node.execScan ⟨true, fun _ => 0, [], [], 0⟩ [.virtual ⟨0, 6⟩ 3]) :=
  id

/-- Over a GiST index it delivers a heap tuple that has no place: the row at (0, 6) is returned
and tuple 4294967280 is claimed for it. -/
example :
    let node : ScanNode Nat Nat := ⟨some (· < 7), none⟩
    let g : Globals := ⟨true, fun _ => 0, [], [], 0⟩
    (node.execScan g [.formed ⟨0, 6⟩ 40 3]).map (fun x => (x.1.isSome, x.2.1.inProgLocalList0)) =
      some (true, [(4294967280 : UInt32).toInt32]) := by
  decide

end ScanNode

end BullFrog
