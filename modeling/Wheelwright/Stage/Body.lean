/-
  Bodies of stages — the kinds of stages that there are.
-/
import Wheelwright.Stage.Backend
import Wheelwright.Stage.Clean
import Wheelwright.Stage.Fixed

namespace Wheelwright

/-- What a stage does. -/
inductive StageBody where
  | backend (s : BackendStage)
  | clean (s : CleanStage)
  | fixed (s : FixedStage)

end Wheelwright
