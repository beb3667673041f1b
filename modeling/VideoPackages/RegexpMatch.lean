import VideoPackages.RegexpCompile

namespace VideoPackages.Regexp

/-!
# What a regular expression matches

The matches of an expression at a position of the input, in the order in which they are tried: a
match ends at some position, with some captured groups.

* `Subject` — the input; `MatchState` — a position, and the groups captured so far;
* `outcomes` — the matches of an expression, forwards or backwards;
* `search` — the matches of an expression from a position on.

This is the language as the library has it: groups keep what they captured in an earlier iteration
of a quantifier, unless the quantifier begins anew, and a lazy quantifier may iterate on the spot.
-/

/-- The input, in 8 or 16 bit units. -/
structure Subject where
  cbuf : List ℕ
  multiLine : Bool
  deriving DecidableEq, Repr

/-- `is_word_char`. -/
def isWordChar (c : ℕ) : Bool :=
  decide (0x30 ≤ c ∧ c ≤ 0x39) || decide (0x61 ≤ c ∧ c ≤ 0x7a) || decide (0x41 ≤ c ∧ c ≤ 0x5a) ||
    decide (c = 0x5f)

namespace Subject

variable (t : Subject)

/-- The character at a position. -/
def charAt (cptr : ℕ) : ℕ := t.cbuf.getD cptr 0

/-- `REOP_line_start`. -/
def isLineStart (cptr : ℕ) : Bool :=
  if cptr = 0 then true else t.multiLine && isLineTerminator (t.charAt (cptr - 1))

/-- `REOP_line_end`. -/
def isLineEnd (cptr : ℕ) : Bool :=
  if cptr = t.cbuf.length then true else t.multiLine && isLineTerminator (t.charAt cptr)

/-- `v1 ^ v2` of `REOP_word_boundary`. -/
def isWordBoundary (cptr : ℕ) : Bool :=
  (if cptr = 0 then false else isWordChar (t.charAt (cptr - 1))) ^^
    (if t.cbuf.length ≤ cptr then false else isWordChar (t.charAt cptr))

end Subject

/-- Where a match has come to, and the bounds of the groups captured so far. -/
@[ext]
structure MatchState where
  pos : ℕ
  caps : List (Option ℕ)
  deriving DecidableEq, Repr

section Outcomes

variable (t : Subject)

/-- One character, or, backwards, the one before. -/
def oneChar (p : ℕ → Bool) (isBackwardDir : Bool) (x : MatchState) : List MatchState :=
  if isBackwardDir then
    if 0 < x.pos ∧ p (t.charAt (x.pos - 1)) = true then [{ x with pos := x.pos - 1 }] else []
  else
    if x.pos < t.cbuf.length ∧ p (t.charAt x.pos) = true then [{ x with pos := x.pos + 1 }] else []

/-- A condition on the position. -/
def assertion (p : ℕ → Bool) (x : MatchState) : List MatchState := if p x.pos then [x] else []

/-- The text of a group, once more; a group that was not captured matches the empty text. -/
def sameAsGroup (i : ℕ) (isBackwardDir : Bool) (x : MatchState) : List MatchState :=
  match x.caps[2 * i]?, x.caps[2 * i + 1]? with
  | some (some a), some (some b) =>
    let text := (t.cbuf.take b).drop a
    if isBackwardDir then
      if text <:+ t.cbuf.take x.pos then [{ x with pos := x.pos - text.length }] else []
    else if text <+: t.cbuf.drop x.pos then [{ x with pos := x.pos + text.length }] else []
  | some _, some _ => [x]
  | _, _ => []

/-- The text matched is captured as group `i`. -/
def captured (i : ℕ) (isBackwardDir : Bool) (f : MatchState → List MatchState) (x : MatchState) :
    List MatchState :=
  let first := if isBackwardDir then 2 * i + 1 else 2 * i
  let last := if isBackwardDir then 2 * i else 2 * i + 1
  (f { x with caps := x.caps.set first (some x.pos) }).map fun y =>
    { y with caps := y.caps.set last (some y.pos) }

/-- The first match counts only, and only for the groups that it captures. -/
def looking (isNeg : Bool) (f : MatchState → List MatchState) (x : MatchState) : List MatchState :=
  match f x with
  | [] => if isNeg then [x] else []
  | y :: _ => if isNeg then [] else [{ x with caps := y.caps }]

/-- `n` times. -/
def repeatTimes (f : MatchState → List MatchState) : ℕ → MatchState → List MatchState
  | 0, x => [x]
  | n + 1, x => (f x).flatMap (repeatTimes f n)

/-- Up to `n` times: as often as possible first, or as rarely as possible. -/
def repeatUpTo (f : MatchState → List MatchState) (greedy : Bool) :
    ℕ → MatchState → List MatchState
  | 0, x => [x]
  | n + 1, x =>
    let again := (f x).flatMap (repeatUpTo f greedy n)
    if greedy then again ++ [x] else x :: again

/-- Only the matches that move. -/
def moving (f : MatchState → List MatchState) (x : MatchState) : List MatchState :=
  (f x).filter fun y => decide (y.pos ≠ x.pos)

/-- The groups from `first` on, `n` of them, are forgotten. -/
def forget (first n : ℕ) (x : MatchState) : MatchState :=
  { x with caps := x.caps.mapIdx fun i c =>
    if 2 * first ≤ i ∧ i < 2 * (first + n) then none else c }

/-- A quantifier: the iterations that must be, and then those that may be.  Without a maximum, those
    that move the position are at most as many as there are characters. -/
def quantified (quantMin quantMax : ℕ) (greedy : Bool) (f : MatchState → List MatchState)
    (x : MatchState) : List MatchState :=
  (repeatTimes f quantMin x).flatMap (repeatUpTo (if greedy then moving f else f) greedy
    (if quantMax = int32Max then t.cbuf.length else quantMax - quantMin))

/-- **The matches of an expression**, in the order in which they are tried, when `n` groups were
    opened before it, the whole match included. -/
def outcomes (dotall : Bool) : RegExp → Bool → ℕ → MatchState → List MatchState
  | .empty, _, _, x => [x]
  | .seq a b, isBackwardDir, n, x =>
    if isBackwardDir then
      (outcomes dotall b isBackwardDir (n + a.captures) x).flatMap
        (outcomes dotall a isBackwardDir n)
    else
      (outcomes dotall a isBackwardDir n x).flatMap
        (outcomes dotall b isBackwardDir (n + a.captures))
  | .alt a b, isBackwardDir, n, x =>
    outcomes dotall a isBackwardDir n x ++ outcomes dotall b isBackwardDir (n + a.captures) x
  | .lineStart, _, _, x => assertion t.isLineStart x
  | .lineEnd, _, _, x => assertion t.isLineEnd x
  | .dot, isBackwardDir, _, x => oneChar t (fun c => dotall || !isLineTerminator c) isBackwardDir x
  | .char c, isBackwardDir, _, x => oneChar t (fun c' => decide (c = c')) isBackwardDir x
  | .escape e, isBackwardDir, _, x => oneChar t (ClassAtom.escape e).has isBackwardDir x
  | .charClass atoms invert, isBackwardDir, _, x =>
    oneChar t (fun c => atoms.any (·.has c) ^^ invert) isBackwardDir x
  | .wordBoundary isNot, _, _, x => assertion (fun pos => t.isWordBoundary pos ^^ isNot) x
  | .backReference i, isBackwardDir, _, x => sameAsGroup t i isBackwardDir x
  | .group r, isBackwardDir, n, x => outcomes dotall r isBackwardDir n x
  | .capture r, isBackwardDir, n, x =>
    captured n isBackwardDir (outcomes dotall r isBackwardDir (n + 1)) x
  | .look isBackward isNeg r, _, n, x => looking isNeg (outcomes dotall r isBackward n) x
  | .quant r quantMin quantMax greedy, isBackwardDir, n, x =>
    quantified t quantMin quantMax greedy (outcomes dotall r isBackwardDir n)
      (if quantMin = 0 then forget n r.captures x else x)

/-- The matches of an expression that begin at a position, the whole match being group 0. -/
def matchesAt (dotall : Bool) (re : RegExp) (x : MatchState) : List MatchState :=
  captured 0 false (outcomes t dotall re false 1) x

/-- The matches from a position on, up to `n` characters further. -/
def search (dotall : Bool) (re : RegExp) : ℕ → MatchState → List MatchState
  | 0, x => matchesAt t dotall re x
  | n + 1, x => matchesAt t dotall re x ++ search dotall re n { x with pos := x.pos + 1 }

end Outcomes

end VideoPackages.Regexp
