import Crotalus.Spec.Config
import Crotalus.Spec.Environment
import Mathlib.Tactic.Common

namespace Crotalus

open Stateful

/-! The common variables over the start and over reloads. The array that `CGIEnv` fills
during the start is given up when `create_common_env` allocates its own; what a reload adds
stays. -/

end Crotalus
