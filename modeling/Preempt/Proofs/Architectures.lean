import Preempt.Proofs.Frame.Contexts
import Preempt.Proofs.Runs
import Preempt.Proofs.Segment.Contexts

/-!
The register state of an architecture: a register file with one of the three layouts of linear
frames, or banks over a pool with fewer segments than there are numbers.
-/

namespace Preempt

inductive Architecture where
  | linear (layout : Layout) (builtIn : layout ∈ Layout.builtIn)
  | segmented (size : Nat) (small : size < segmentNumbers)

namespace Architecture

/-- The register state of `n` cores. -/
def State (n : Nat) : Architecture → Type
  | linear layout _ => RegisterFile layout n
  | segmented size _ => Banks size n

instance (n : Nat) : (a : Architecture) → SwitchPrimitives (a.State n)
  | linear layout _ => inferInstanceAs (SwitchPrimitives (RegisterFile layout n))
  | segmented size _ => inferInstanceAs (SwitchPrimitives (Banks size n))

def contexts (n : Nat) : (a : Architecture) → Contexts (a.State n) n
  | linear _ builtIn => RegisterFile.contexts builtIn
  | segmented _ small => Banks.contexts small

end Architecture

end Preempt
