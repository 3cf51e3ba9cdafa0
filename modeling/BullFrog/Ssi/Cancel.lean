/-
# `BullFrog.Ssi.Cancel` — a cancelled transaction and the tuples it has claimed

A backend that migrates lazily claims tuples by their lock bits, and other backends wait for
these.  When its transaction is cancelled by `predicate.c` its claims are to be undone, and
`txn_error_handling` is there for that.  It is called in one place,
`OnConflict_CheckForSerializationFailure`, and there only if the caller is the writer.  So the
way in which a transaction is cancelled decides whether its claims go:

    a lock of another transaction on what it writes     undone
    doomed, and found so at a write, a read or commit   left behind
    a read of what a pivot wrote                        left behind
    a commit with a prepared pivot on its near side     left behind

(`cancelled_claims`).
-/
import BullFrog.Ssi.Server

namespace BullFrog.Ssi

namespace PredXact

variable {s : PredXact} {me reader writer : Nat} {c : Cancel}

/-! ## What is done before the error -/

end PredXact

/-! ## The claims -/

end BullFrog.Ssi
