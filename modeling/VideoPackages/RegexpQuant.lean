import VideoPackages.RegexpAdvance
import VideoPackages.RegexpGreedy

namespace VideoPackages.Regexp

open Backtracking Bytes

/-!
# Quantifiers are compiled correctly

* `Implements.loopCode` — the code of a quantifier is a loop over the code of its atom;
* `Implements.reQuantifier` — so is the code that `re_parse_term` chooses.
-/

section Quantifiers

variable {s : REExecContext} {is : List REOp} {f g : MatchState → List MatchState}
  {quantMin quantMax n m : ℕ} {greedy check : Bool}

/-- What is left to read is no more than the input. -/
theorem remaining_le {x : MatchState} (hx : s.Valid x) (isBackwardDir : Bool) :
    remaining s.toSubject isBackwardDir x ≤ s.cbuf.length := by
  rw [remaining]
  split
  · exact hx.pos
  · exact Nat.sub_le _ _

/-- A quantifier that is not a simple one, when `g` is the atom with the check that it advances. -/
theorem Implements.loopCode (hs : s.Ok) (hf : Implements s is f)
    (hg : Implements s (Regexp.advancing check is) g)
    (hcheck : check = false → ∀ x, s.Valid x → g x = f x) (isBackwardDir : Bool)
    (hless : quantMax = int32Max → ∀ x, s.Valid x → ∀ y ∈ g x,
      remaining s.toSubject isBackwardDir y < remaining s.toSubject isBackwardDir x)
    (hle : quantMin ≤ quantMax) (hmax : quantMax ≤ int32Max) (hcount : n + m ≤ s.captureCount) :
    Implements s (loopCode quantMin quantMax greedy check n (n + m) is) fun x =>
      (repeatTimes f quantMin (if quantMin = 0 then forget n m x else x)).flatMap
        (repeatUpTo g greedy
          (if quantMax = int32Max then s.cbuf.length else quantMax - quantMin)) := by
  have hinf : int32Max = 2147483647 := rfl
  have hrem : ∀ x, s.Valid x → remaining s.toSubject isBackwardDir x ≤ s.cbuf.length :=
    fun x hx => remaining_le hx isBackwardDir
  have hstar : quantMax = int32Max →
      Implements s (starCode greedy check is) (repeatUpTo g greedy s.cbuf.length) := fun h =>
    .star hs hg _ hrem (hless h) greedy
  rw [Regexp.loopCode]
  -- no copy in front: the captures are reset, and `?`, `*` or `{0,m}` follows
  by_cases hzero : quantMin = 0
  · subst hzero
    simp only [if_true, repeatTimes, List.flatMap_singleton, Nat.sub_zero]
    have hreset := Implements.reset (n := n) (m := m) hs hcount
    have hrest : Implements s (if quantMax = 0 then []
        else if quantMax = 1 then optionCode greedy check is
        else if quantMax = int32Max then starCode greedy check is
        else upToCode greedy check quantMax is)
        (repeatUpTo g greedy (if quantMax = int32Max then s.cbuf.length else quantMax)) := by
      by_cases h0 : quantMax = 0
      · rw [if_pos h0, if_neg (by omega), h0]
        exact .nil s
      rw [if_neg h0]
      by_cases h1 : quantMax = 1
      · rw [if_pos h1, if_neg (by omega), h1]
        exact .option hs hg greedy
      rw [if_neg h1]
      by_cases hall : quantMax = int32Max
      · rw [if_pos hall, if_pos hall]
        exact hstar hall
      · rw [if_neg hall, if_neg hall]
        exact .upTo (n := quantMax) hs hg (by omega) (by omega) greedy
    exact (hreset.append hrest).congr fun x _ => List.flatMap_singleton _ _
  simp only [if_neg hzero]
  -- `+` of an atom that needs no test loops over the atom itself
  by_cases hplus : quantMin = 1 ∧ quantMax = int32Max ∧ check = false
  · obtain ⟨rfl, hall, hfalse⟩ := hplus
    rw [if_pos ⟨rfl, hall, hfalse⟩, if_pos hall]
    subst hfalse
    refine (Implements.plus hs (hf.congr fun x hx => (hcheck rfl x hx).symm) _ hrem (hless hall)
      greedy).congr fun x hx => ?_
    have htimes : repeatTimes f 1 x = f x := List.flatMap_singleton' (f x)
    rw [htimes, hcheck rfl x hx]
  rw [if_neg hplus]
  -- otherwise the copies come first
  have htimes := Implements.times (n := quantMin) hs hf (by omega) (by omega)
  apply htimes.append
  by_cases hall : quantMax = int32Max
  · rw [if_pos hall, if_pos hall]
    exact hstar hall
  rw [if_neg hall, if_neg hall]
  by_cases hmore : quantMin < quantMax
  · rw [if_pos hmore]
    exact .upTo (n := quantMax - quantMin) hs hg (by omega) (by omega) greedy
  · rw [if_neg hmore, Nat.sub_eq_zero_of_le (Nat.le_of_not_lt hmore)]
    exact .nil s

/-- A match in one direction that moves. -/
theorem remaining_lt {isBackwardDir b : Bool} (hf : Advances s.toSubject isBackwardDir b f)
    (hvalid : ∀ x, s.Valid x → ∀ y ∈ f x, s.Valid y) :
    ∀ x, s.Valid x → ∀ y ∈ moving f x,
      remaining s.toSubject isBackwardDir y < remaining s.toSubject isBackwardDir x := by
  intro x hx y hy
  obtain ⟨hmem, hne⟩ := List.mem_filter.mp hy
  have hne' := of_decide_eq_true hne
  have hle := (hf x y hmem).1
  have hpos := hx.pos
  have hpos' := (hvalid x hx y hmem).pos
  rw [remaining, remaining] at hle ⊢
  split at hle
  · rename_i hback
    rw [if_pos hback, if_pos hback]
    omega
  · rename_i hback
    rw [if_neg hback, if_neg hback]
    omega

/-- **The code of a quantifier.** -/
theorem Implements.reQuantifier (hs : s.Ok) (hf : Implements s is f)
    (hsimple : IsSimple is → SimpleRun s is f) {isBackwardDir moves : Bool}
    (hadv : Advances s.toSubject isBackwardDir moves f)
    (hmoves : (∀ i ∈ is, i.opcode.kind ≠ .other) → (∃ i ∈ is, i.opcode.kind = .simpleChar) →
      moves = true)
    (hlazy : greedy = false → quantMax = int32Max → moves = true)
    (hle : quantMin ≤ quantMax) (hmax : quantMax ≤ int32Max) (hcount : n + m ≤ s.captureCount)
    (hforget : IsSimple is → m = 0) :
    Implements s (reQuantifier quantMin quantMax greedy n (n + m) is) fun x =>
      quantified s.toSubject quantMin quantMax greedy f
        (if quantMin = 0 then forget n m x else x) := by
  -- the test for an advance is left out only where the atom always moves
  have hloop : Implements s (Regexp.loopCode quantMin quantMax true (reNeedCheckAdvance is) n
      (n + m) is) fun x => quantified s.toSubject quantMin quantMax true f
        (if quantMin = 0 then forget n m x else x) := by
    cases hcheck : reNeedCheckAdvance is with
    | true =>
      exact .loopCode hs hf hf.advancing (fun h => absurd h (by simp)) isBackwardDir
        (fun _ => remaining_lt hadv hf.valid) hle hmax hcount
    | false =>
      obtain ⟨hall, hor⟩ := reNeedCheckAdvanceLoop_false hcheck
      obtain rfl := hmoves hall (hor.resolve_left (by simp))
      exact .loopCode hs hf (hf.congr fun x _ => (moving_self hadv x).symm)
        (fun _ x _ => moving_self hadv x) isBackwardDir (fun _ => remaining_lt hadv hf.valid) hle
        hmax hcount
  rw [Regexp.reQuantifier]
  cases greedy with
  | false =>
    -- lazy: there is no test, so an endless one has to move by itself
    rw [if_neg Bool.false_ne_true]
    exact .loopCode hs hf hf (fun _ _ _ => rfl) isBackwardDir
      (fun hall x _ y hy => by
        obtain rfl := hlazy rfl hall
        exact (hadv x y hy).2 rfl) hle hmax hcount
  | true =>
    rw [if_pos rfl]
    cases hquant : reIsSimpleQuantifier is with
    | none => exact hloop
    | some len =>
      cases len with
      | zero => exact hloop
      | succ len =>
        -- a greedy one over a simple atom takes the loop of its own
        obtain ⟨hsi, hlen⟩ := reIsSimpleQuantifierLoop_some hquant
        rw [Nat.zero_add] at hlen
        by_cases hpos : 0 < quantMax
        · simp only [if_pos hpos]
          obtain rfl := hforget hsi
          rw [hlen]
          refine (Implements.simpleQuant hs hf (hsimple hsi) (by omega) hle hpos hmax).congr
            fun x _ => ?_
          have hother : ∀ i ∈ is, i.opcode.kind ≠ .other := fun i hi => by
            rcases hsi i hi with hkind | hkind <;> simp [hkind]
          obtain ⟨i, hi, hkind⟩ := List.countP_pos_iff.mp (show 0 < chars is by omega)
          obtain rfl := hmoves hother ⟨i, hi, of_decide_eq_true hkind⟩
          have hmoving : moving f = f := funext (moving_self hadv)
          rw [forget_zero, ite_self, quantified, if_pos rfl, hmoving]
        · simp only [if_neg hpos]
          exact hloop

end Quantifiers

end VideoPackages.Regexp
