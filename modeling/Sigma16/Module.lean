/-
A module under development: a named source that may change and be assembled again. Every run starts
afresh; the last one can be asked for.
-/
import Sigma16.Assembly

namespace Sigma16

structure Module where
  name : Text
  source : Text
  last : Option Assembly := none

namespace Module

def assemble (m : Module) : Module := { m with last := some (Sigma16.assemble m.name m.source) }

end Module

end Sigma16
