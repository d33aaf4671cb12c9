import Vitae.Text.Basic

/-!
# Runs of characters

A class of characters is given by its runs: pairs of a first and a last code point.
-/

namespace Vitae.Text

/-- Whether the character lies in one of the runs. -/
def inRuns (runs : List (Nat × Nat)) (c : Char) : Bool :=
  runs.any fun (first, last) => first ≤ c.toNat && c.toNat ≤ last

end Vitae.Text
