import VideoPackages.RegexpMatch

namespace VideoPackages.Regexp

/-!
# Matches that move

* `RegExp.moves` — every match of the expression moves;
* `Advances` — matches go in one direction only;
* `outcomes_advances` — so do those of an expression.
-/

/-- Every match moves, as the expression shows. -/
def RegExp.moves : RegExp → Bool
  | .dot | .char _ | .escape _ | .charClass _ _ => true
  | .seq a b => a.moves || b.moves
  | .alt a b => a.moves && b.moves
  | .group r | .capture r => r.moves
  | .quant r quantMin _ _ => decide (0 < quantMin) && r.moves
  | _ => false

/-- How many characters are left, in the direction of the match. -/
def remaining (t : Subject) (isBackwardDir : Bool) (x : MatchState) : ℕ :=
  if isBackwardDir then x.pos else t.cbuf.length - x.pos

/-- No match goes back, and when `b`, each one moves. -/
def Advances (t : Subject) (isBackwardDir b : Bool) (f : MatchState → List MatchState) : Prop :=
  ∀ x, ∀ y ∈ f x, remaining t isBackwardDir y ≤ remaining t isBackwardDir x ∧
    (b = true → remaining t isBackwardDir y < remaining t isBackwardDir x)

section Advances

variable {t : Subject} {isBackwardDir a b : Bool} {f g : MatchState → List MatchState}

/-- What stays at its position never moves back. -/
theorem Advances.same (h : ∀ x, ∀ y ∈ f x, y.pos = x.pos) : Advances t isBackwardDir false f := by
  intro x y hy
  have heq : remaining t isBackwardDir y = remaining t isBackwardDir x := by
    rw [remaining, remaining, h x y hy]
  exact ⟨heq.le, fun hfalse => absurd hfalse Bool.false_ne_true⟩

/-- What moves, moves on or stays. -/
theorem Advances.weaken (h : Advances t isBackwardDir b f) : Advances t isBackwardDir false f :=
  fun x y hy => ⟨(h x y hy).1, fun hfalse => absurd hfalse Bool.false_ne_true⟩

/-- A sequence moves when one of its parts does. -/
theorem Advances.seq (hf : Advances t isBackwardDir a f) (hg : Advances t isBackwardDir b g) :
    Advances t isBackwardDir (a || b) fun x => (f x).flatMap g := by
  intro x y hy
  obtain ⟨z, hz, hy⟩ := List.mem_flatMap.mp hy
  obtain ⟨hle, hlt⟩ := hf x z hz
  obtain ⟨hle', hlt'⟩ := hg z y hy
  refine ⟨hle'.trans hle, fun hor => ?_⟩
  rcases Bool.or_eq_true_iff.mp hor with ha | hb
  · exact hle'.trans_lt (hlt ha)
  · exact (hlt' hb).trans_le hle

/-- An alternative moves when both do. -/
theorem Advances.alt (hf : Advances t isBackwardDir a f) (hg : Advances t isBackwardDir b g) :
    Advances t isBackwardDir (a && b) fun x => f x ++ g x := by
  intro x y hy
  rcases List.mem_append.mp hy with hy | hy
  · exact ⟨(hf x y hy).1, fun hand => (hf x y hy).2 (Bool.and_eq_true_iff.mp hand).1⟩
  · exact ⟨(hg x y hy).1, fun hand => (hg x y hy).2 (Bool.and_eq_true_iff.mp hand).2⟩

/-- A character moves by itself. -/
theorem Advances.oneChar (p : ℕ → Bool) :
    Advances t isBackwardDir true (oneChar t p isBackwardDir) := by
  intro x y hy
  -- a character is read, so less of the subject remains
  have hlt : remaining t isBackwardDir y < remaining t isBackwardDir x := by
    rw [Regexp.oneChar] at hy
    cases isBackwardDir with
    | false =>
      simp only [Bool.false_eq_true, if_false] at hy
      split at hy
      · rename_i hchar
        rw [List.mem_singleton.mp hy]
        have := hchar.1
        simp only [remaining, Bool.false_eq_true, if_false]
        omega
      · exact absurd hy List.not_mem_nil
    | true =>
      simp only [if_true] at hy
      split at hy
      · rename_i hchar
        rw [List.mem_singleton.mp hy]
        have := hchar.1
        simp only [remaining, if_true]
        omega
      · exact absurd hy List.not_mem_nil
  exact ⟨hlt.le, fun _ => hlt⟩

/-- An assertion stays where it is. -/
theorem Advances.assertion (p : ℕ → Bool) : Advances t isBackwardDir false (assertion p) := by
  refine .same fun x y hy => ?_
  rw [Regexp.assertion] at hy
  split at hy
  · rw [List.mem_singleton.mp hy]
  · exact absurd hy List.not_mem_nil

/-- A back reference may be to an empty text. -/
theorem Advances.sameAsGroup (i : ℕ) :
    Advances t isBackwardDir false (sameAsGroup t i isBackwardDir) := by
  intro x y hy
  refine ⟨?_, fun hfalse => absurd hfalse Bool.false_ne_true⟩
  rw [Regexp.sameAsGroup] at hy
  split at hy
  · cases isBackwardDir with
    | false =>
      simp only [Bool.false_eq_true, if_false] at hy
      split at hy
      · rw [List.mem_singleton.mp hy]
        simp only [remaining, Bool.false_eq_true, if_false]
        omega
      · exact absurd hy List.not_mem_nil
    | true =>
      simp only [if_true] at hy
      split at hy
      · rw [List.mem_singleton.mp hy]
        exact Nat.sub_le _ _
      · exact absurd hy List.not_mem_nil
  · rw [List.mem_singleton.mp hy]
  · exact absurd hy List.not_mem_nil

/-- A group moves as its body does. -/
theorem Advances.captured (hf : Advances t isBackwardDir b f) (i : ℕ) :
    Advances t isBackwardDir b (captured i isBackwardDir f) := by
  intro x y hy
  obtain ⟨z, hz, rfl⟩ := List.mem_map.mp hy
  have h := hf _ z hz
  exact h

/-- A lookaround stays where it is, whatever it looks for. -/
theorem Advances.looking (isNeg : Bool) (f : MatchState → List MatchState) :
    Advances t isBackwardDir false (looking isNeg f) := by
  refine .same fun x y hy => ?_
  rw [Regexp.looking] at hy
  split at hy <;> split at hy <;> first
    | exact absurd hy List.not_mem_nil
    | rw [List.mem_singleton.mp hy]

/-- Repeated a number of times, an atom moves if it moves once. -/
theorem Advances.repeatTimes (hf : Advances t isBackwardDir b f) (n : ℕ) :
    Advances t isBackwardDir (decide (0 < n) && b) (repeatTimes f n) := by
  induction n with
  | zero => exact .same fun x y hy => by rw [List.mem_singleton.mp hy]
  | succ n ih =>
    have h := hf.seq ih
    intro x y hy
    refine ⟨(h x y hy).1, fun hand => (h x y hy).2 ?_⟩
    rw [(Bool.and_eq_true_iff.mp hand).2, Bool.true_or]

/-- Up to a number of times may be no time at all. -/
theorem Advances.repeatUpTo (hf : Advances t isBackwardDir b f) (greedy : Bool) (n : ℕ) :
    Advances t isBackwardDir false (repeatUpTo f greedy n) := by
  induction n with
  | zero => exact .same fun x y hy => by rw [List.mem_singleton.mp hy]
  | succ n ih =>
    have hself : Advances t isBackwardDir false fun x => [x] :=
      .same fun x y hy => by rw [List.mem_singleton.mp hy]
    have hagain := hf.weaken.seq ih
    cases greedy with
    | true => exact hagain.alt hself
    | false => exact hself.alt hagain

/-- The empty matches left out, nothing is added. -/
theorem Advances.moving (hf : Advances t isBackwardDir b f) :
    Advances t isBackwardDir false (moving f) :=
  fun x y hy => hf.weaken x y (List.mem_of_mem_filter hy)

/-- A quantifier moves if its atom has to match and moves. -/
theorem Advances.quantified (hf : Advances t isBackwardDir b f) (quantMin quantMax : ℕ)
    (greedy : Bool) :
    Advances t isBackwardDir (decide (0 < quantMin) && b)
      (quantified t quantMin quantMax greedy f) := by
  have hagain : Advances t isBackwardDir false (if greedy then Regexp.moving f else f) := by
    cases greedy with
    | true => exact hf.moving
    | false => exact hf.weaken
  have h := (hf.repeatTimes quantMin).seq (hagain.repeatUpTo greedy
    (if quantMax = int32Max then t.cbuf.length else quantMax - quantMin))
  rwa [Bool.or_false] at h

/-- When all matches move, the check changes nothing. -/
theorem moving_self (hf : Advances t isBackwardDir true f) (x : MatchState) : moving f x = f x := by
  refine List.filter_eq_self.mpr fun y hy => decide_eq_true fun heq => ?_
  have hlt := (hf x y hy).2 rfl
  rw [remaining, remaining, heq] at hlt
  exact lt_irrefl _ hlt

end Advances

/-- **The matches of an expression** go in its direction. -/
theorem outcomes_advances (t : Subject) (dotall : Bool) (r : RegExp) (isBackwardDir : Bool)
    (n : ℕ) :
    Advances t isBackwardDir r.moves (outcomes t dotall r isBackwardDir n) := by
  induction r generalizing isBackwardDir n with
  | empty => exact .same fun x y hy => by rw [List.mem_singleton.mp hy]
  | seq a b iha ihb =>
    cases isBackwardDir with
    | false => exact (iha false n).seq (ihb false _)
    | true =>
      have h := (ihb true (n + a.captures)).seq (iha true n)
      rwa [Bool.or_comm] at h
  | alt a b iha ihb => exact (iha isBackwardDir n).alt (ihb isBackwardDir _)
  | lineStart => exact .assertion _
  | lineEnd => exact .assertion _
  | dot => exact .oneChar _
  | char c => exact .oneChar _
  | escape e => exact .oneChar _
  | charClass atoms invert => exact .oneChar _
  | wordBoundary isNot => exact .assertion _
  | backReference i => exact .sameAsGroup i
  | group r ih => exact ih isBackwardDir n
  | capture r ih => exact (ih isBackwardDir (n + 1)).captured n
  | look isBackward isNeg r _ => exact .looking isNeg _
  | quant r quantMin quantMax greedy ih =>
    have h := (ih isBackwardDir n).quantified quantMin quantMax greedy
    intro x y hy
    -- forgetting captures does not move
    have hpos : remaining t isBackwardDir (if quantMin = 0 then forget n r.captures x else x)
        = remaining t isBackwardDir x := by
      split <;> rfl
    have hy' := h _ y hy
    rwa [hpos] at hy'

end VideoPackages.Regexp
