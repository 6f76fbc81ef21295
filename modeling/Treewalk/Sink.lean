/-!
# Sinks

A sink holds what it is given until somebody takes it, and counts everything that it ever got.
-/

namespace Treewalk

set_option autoImplicit false

structure Sink (α : Type) where
  held : List α
  count : Nat
deriving Inhabited

namespace Sink

def empty {α : Type} : Sink α :=
  ⟨[], 0⟩

def emit {α : Type} (sink : Sink α) (value : α) : Sink α :=
  ⟨sink.held ++ [value], sink.count + 1⟩

def drained {α : Type} (sink : Sink α) : Sink α :=
  { sink with held := [] }

end Sink

end Treewalk
