/-!
# Sets of characters as tables

A set of characters is given by the first and last code points of its runs, in increasing order.
-/

namespace Treewalk.Text

set_option autoImplicit false

def inTable (table : List (Nat × Nat)) (char : Char) : Bool :=
  table.any fun (first, last) => first ≤ char.toNat && char.toNat ≤ last

end Treewalk.Text
