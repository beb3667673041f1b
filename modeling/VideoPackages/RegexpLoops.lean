import VideoPackages.RegexpSteps

namespace VideoPackages.Regexp

open Backtracking Bytes

/-!
# Quantifiers, groups and lookarounds

The pieces of code that loop, save positions, or look ahead.

* `Implements.option`, `Implements.upTo`, `Implements.times` — loops that are counted;
* `Implements.star`, `Implements.plus` — loops that are not: each iteration has less left;
* `Implements.capture`, `Implements.reset` — the bounds of groups;
* `Implements.look` — the choices made within a lookaround are dropped with it.
-/

/-! ### Loops -/

section Loops

variable {s : REExecContext} {is : List REOp} {f g : MatchState → List MatchState} {n : ℕ}
  {greedy : Bool}

theorem splitOp_stackAfter (greedy : Bool) (n : ℕ) : (splitOp greedy).stackAfter n = n := by
  cases greedy <;> rfl

/-- Repeated up to a number of times, an atom stays within the input. -/
theorem repeatUpTo_valid (hg : ∀ x, s.Valid x → ∀ y ∈ g x, s.Valid y) (greedy : Bool) (n : ℕ) :
    ∀ x, s.Valid x → ∀ y ∈ repeatUpTo g greedy n x, s.Valid y := by
  induction n with
  | zero => exact fun x hx y hy => List.mem_singleton.mp hy ▸ hx
  | succ n ih =>
    intro x hx y hy
    have hagain : ∀ y ∈ (g x).flatMap (repeatUpTo g greedy n), s.Valid y := fun y hy => by
      obtain ⟨z, hz, hy⟩ := List.mem_flatMap.mp hy
      exact ih z (hg x hx z hz) y hy
    cases greedy with
    | true =>
      rcases List.mem_append.mp hy with hy | hy
      · exact hagain y hy
      · exact List.mem_singleton.mp hy ▸ hx
    | false =>
      rcases List.mem_cons.mp hy with rfl | hy
      · exact hx
      · exact hagain y hy

/-- Repeated a number of times, too. -/
theorem repeatTimes_valid (hf : ∀ x, s.Valid x → ∀ y ∈ f x, s.Valid y) (n : ℕ) :
    ∀ x, s.Valid x → ∀ y ∈ repeatTimes f n x, s.Valid y := by
  induction n with
  | zero => exact fun x hx y hy => List.mem_singleton.mp hy ▸ hx
  | succ n ih =>
    intro x hx y hy
    obtain ⟨z, hz, hy⟩ := List.mem_flatMap.mp hy
    exact ih z (hf x hx z hz) y hy

/-- One more round: before the choice to stop if greedy, and behind it if lazy. -/
theorem repeatUpTo_succ (g : MatchState → List MatchState) (greedy : Bool) (n : ℕ)
    (x : MatchState) :
    repeatUpTo g greedy (n + 1) x = if greedy then (g x).flatMap (repeatUpTo g greedy n) ++ [x]
      else [x] ++ (g x).flatMap (repeatUpTo g greedy n) := by
  rw [repeatUpTo]
  rfl

/-- The matches that move, one by one. -/
theorem moving_eq (f : MatchState → List MatchState) (x : MatchState) :
    moving f x = (f x).flatMap fun y => if x.pos = y.pos then [] else [y] := by
  rw [moving]
  induction f x with
  | nil => rfl
  | cons y ys ih =>
    rw [List.flatMap_cons, List.filter_cons, ih]
    by_cases heq : x.pos = y.pos
    · simp [heq]
    · simp [heq, Ne.symm heq]

/-- The check that the atom advances. -/
theorem Implements.advancing (hf : Implements s is f) :
    Implements s (advancing true is) (moving f) where
  balanced n := by
    show stackAfter (n + 1) (is ++ [reEmitOp .checkAdvance]) = n
    rw [stackAfter_append, hf.balanced]
    rfl
  valid x hx y hy := hf.valid x hx y (List.mem_of_mem_filter hy)
  tries pc stack x K hcode hfits hx := by
    have hcode₁ : CodeAt s.bcBuf (pc + 1) (is ++ [reEmitOp .checkAdvance]) := hcode.tail
    have hfits₁ : Fits s.stackSizeMax (x.pos :: stack).length (is ++ [reEmitOp .checkAdvance]) :=
      hfits.tail
    have hbody := hf.tries _ (x.pos :: stack) x K hcode₁.left (fits_append.mp hfits₁).1 hx
    have hsize : pc + codeSize (Regexp.advancing true is) = pc + 1 + codeSize is + 1 := by
      simp only [Regexp.advancing, if_pos, List.cons_append, codeSize_cons, codeSize_append,
        size_op, codeSize_nil]
      omega
    rw [hsize, moving_eq]
    refine (hbody.bind fun y _ K' => ?_).next (step_pushCharPos hcode hfits)
    have hstep := step_checkAdvance (x := y) (v := x.pos) (K := K' ++ K) stack hcode₁.right
    -- the position pushed is compared with the one after the atom
    by_cases heq : x.pos = y.pos
    · rw [if_pos heq] at hstep ⊢
      exact .none (.one hstep)
    · rw [if_neg heq] at hstep ⊢
      exact .one (.one hstep)

/-- The atom once or not at all. -/
theorem Implements.option (hs : s.Ok) (hg : Implements s is g) (greedy : Bool) :
    Implements s (reEmitJump (splitOp greedy) (codeSize is) :: is) (repeatUpTo g greedy 1) where
  balanced n := by
    show stackAfter ((splitOp greedy).stackAfter n) is = n
    rw [splitOp_stackAfter, hg.balanced]
  valid := repeatUpTo_valid hg.valid greedy 1
  tries pc stack x K hcode hfits hx := by
    have hend := hcode.le (List.cons_ne_nil _ _)
    rw [codeSize_cons, size_jump] at hend ⊢
    have hpc : pc + (5 + codeSize is) = pc + 5 + codeSize is := by omega
    rw [hpc] at hend ⊢
    have hfits₁ : Fits s.stackSizeMax ((splitOp greedy).stackAfter stack.length) is := hfits.tail
    rw [splitOp_stackAfter] at hfits₁
    rw [repeatUpTo_succ]
    refine tries_split _ hs hcode (by push_cast; omega) hend (fun K => ?_) fun K => .one .refl
    have hbody := hg.tries _ stack x K hcode.tail hfits₁ hx
    have hsame : (g x).flatMap (repeatUpTo g greedy 0) = g x := List.flatMap_singleton' _
    rwa [hsame]

/-- The atom any number of times, when each time there is less left. -/
theorem Implements.star (hs : s.Ok) (hg : Implements s is g) (rem : MatchState → ℕ)
    (hrem : ∀ x, s.Valid x → rem x ≤ n) (hless : ∀ x, s.Valid x → ∀ y ∈ g x, rem y < rem x)
    (greedy : Bool) :
    Implements s (reEmitJump (splitOp greedy) (codeSize is + 5) :: is ++
      [reEmitJump .goto (-(codeSize is + 10))]) (repeatUpTo g greedy n) where
  balanced m := by
    show stackAfter ((splitOp greedy).stackAfter m) (is ++ [reEmitJump .goto _]) = m
    rw [splitOp_stackAfter, stackAfter_append, hg.balanced]
    rfl
  valid := repeatUpTo_valid hg.valid greedy n
  tries pc stack x K hcode hfits hx := by
    have hend := hcode.le (List.cons_ne_nil _ _)
    simp only [List.cons_append, codeSize_cons, codeSize_append, size_jump, codeSize_nil] at hend ⊢
    have hpc : pc + (5 + (codeSize is + (5 + 0))) = pc + 5 + codeSize is + 5 := by omega
    rw [hpc] at hend ⊢
    have hcode₁ : CodeAt s.bcBuf (pc + 5) (is ++ [reEmitJump .goto (-(codeSize is + 10))]) :=
      hcode.tail
    have hfits₁ : Fits s.stackSizeMax ((splitOp greedy).stackAfter stack.length)
        (is ++ [reEmitJump .goto (-(codeSize is + 10))]) := hfits.tail
    rw [splitOp_stackAfter] at hfits₁
    -- at the split, with as many iterations to go as there are left
    have hloop : ∀ m y K, s.Valid y → rem y ≤ m → Tries s (pc + 5 + codeSize is + 5) stack K
        (.run (y.toState pc stack) K) (repeatUpTo g greedy m y) := by
      intro m
      induction m with
      | zero =>
        intro y K hy hm
        have hnone : g y = [] := List.eq_nil_iff_forall_not_mem.mpr fun z hz => by
          have := hless y hy z hz
          omega
        have hbody : ∀ K, Tries s (pc + 5 + codeSize is + 5) stack K
            (.run (y.toState (pc + 5) stack) K) [] := fun K => by
          have htries := hg.tries _ stack y K hcode₁.left (fits_append.mp hfits₁).1 hy
          rw [hnone] at htries
          exact .none htries.none_left
        have hsplit := tries_split (K := K) _ hs hcode (by push_cast; omega) hend hbody
          fun K => .one .refl
        cases greedy <;> exact hsplit
      | succ m ih =>
        intro y K hy hm
        rw [repeatUpTo_succ]
        refine tries_split _ hs hcode (by push_cast; omega) hend (fun K => ?_) fun K => .one .refl
        have htries := hg.tries _ stack y K hcode₁.left (fits_append.mp hfits₁).1 hy
        refine htries.bind fun z hz K' => ?_
        have hgoto : step s (.run (z.toState (pc + 5 + codeSize is) stack) (K' ++ K))
            = .inl (.run (z.toState pc stack) (K' ++ K)) :=
          step_goto _ hs hcode₁.right (by push_cast; omega) (by omega)
        have hlt := hless y hy z hz
        exact (ih z _ (hg.valid y hy z hz) (by omega)).next hgoto
    exact hloop n x K hx (hrem x hx)

/-- The atom up to `n` times. -/
theorem Implements.upTo (hs : s.Ok) (hg : Implements s is g) (hpos : 0 < n) (hn : n < 256 ^ 4)
    (greedy : Bool) :
    Implements s (reEmitOpU32 .pushI32 n :: reEmitJump (splitOp greedy) (codeSize is + 5) :: is ++
      [reEmitJump .loop (-(codeSize is + 10)), reEmitOp .drop]) (repeatUpTo g greedy n) where
  balanced m := by
    show stackAfter ((splitOp greedy).stackAfter (m + 1))
      (is ++ [reEmitJump .loop _, reEmitOp .drop]) = m
    rw [splitOp_stackAfter, stackAfter_append, hg.balanced]
    rfl
  valid := repeatUpTo_valid hg.valid greedy n
  tries pc stack x K hcode hfits hx := by
    have hend := hcode.le (List.cons_ne_nil _ _)
    simp only [List.cons_append, codeSize_cons, codeSize_append, size_jump, size_opU32, size_op,
      codeSize_nil] at hend ⊢
    have hpc : pc + (5 + (5 + (codeSize is + (5 + (1 + 0)))))
        = pc + 5 + 5 + codeSize is + 5 + 1 := by omega
    rw [hpc] at hend ⊢
    have hcode₁ : CodeAt s.bcBuf (pc + 5) (reEmitJump (splitOp greedy) (codeSize is + 5) ::
        (is ++ [reEmitJump .loop (-(codeSize is + 10)), reEmitOp .drop])) := hcode.tail
    have hcode₂ : CodeAt s.bcBuf (pc + 5 + 5)
        (is ++ [reEmitJump .loop (-(codeSize is + 10)), reEmitOp .drop]) := hcode₁.tail
    have hdrop : CodeAt s.bcBuf (pc + 5 + 5 + codeSize is + 5) [reEmitOp .drop] :=
      hcode₂.right.tail
    have hfits₁ : Fits s.stackSizeMax ((splitOp greedy).stackAfter (stack.length + 1))
        (is ++ [reEmitJump .loop (-(codeSize is + 10)), reEmitOp .drop]) := hfits.tail.tail
    rw [splitOp_stackAfter] at hfits₁
    have hleave : ∀ m y K, Tries s (pc + 5 + 5 + codeSize is + 5 + 1) stack K
        (.run (y.toState (pc + 5 + 5 + codeSize is + 5) (m :: stack)) K) [y] :=
      fun m y K => .one (.one (step_drop hdrop))
    -- at the split, with `m` iterations to go
    have hloop : ∀ m y K, s.Valid y → 0 < m → Tries s (pc + 5 + 5 + codeSize is + 5 + 1) stack K
        (.run (y.toState (pc + 5) (m :: stack)) K) (repeatUpTo g greedy m y) := by
      intro m
      induction m with
      | zero => exact fun y K _ h => absurd h (Nat.lt_irrefl 0)
      | succ m ih =>
        intro y K hy _
        rw [repeatUpTo_succ]
        refine tries_split (pc + 5 + 5 + codeSize is + 5) hs hcode₁
          (by push_cast; omega) (by omega) (fun K => ?_) fun K => hleave _ y K
        have htries := hg.tries _ ((m + 1) :: stack) y K hcode₂.left (fits_append.mp hfits₁).1 hy
        refine htries.bind fun z hz K' => ?_
        have hstep := step_loop (x := z) (n := m) (K := K' ++ K) stack (pc + 5) hs hcode₂.right
          (by push_cast; omega) (by omega)
        refine .next hstep ?_
        rcases Nat.eq_zero_or_pos m with rfl | hm
        · exact hleave 0 z _
        · rw [if_pos (Nat.pos_iff_ne_zero.mp hm)]
          exact ih z _ (hg.valid y hy z hz) hm
    exact (hloop n x K hx hpos).next (step_pushI32 hcode hn hfits)

/-- The atom `n` times. -/
theorem Implements.times (hs : s.Ok) (hf : Implements s is f) (hpos : 0 < n) (hn : n < 256 ^ 4) :
    Implements s (timesCode n is) (repeatTimes f n) := by
  rw [timesCode]
  by_cases hone : n = 1
  · subst hone
    rw [if_pos rfl]
    exact hf.congr fun x _ => (List.flatMap_singleton' (f x)).symm
  rw [if_neg hone]
  refine ⟨fun m => ?_, repeatTimes_valid hf.valid n, fun pc stack x K hcode hfits hx => ?_⟩
  · show stackAfter (m + 1) (is ++ [reEmitJump .loop _, reEmitOp .drop]) = m
    rw [stackAfter_append, hf.balanced]
    rfl
  · have hend := hcode.le (List.cons_ne_nil _ _)
    simp only [List.cons_append, codeSize_cons, codeSize_append, size_jump, size_opU32, size_op,
      codeSize_nil] at hend ⊢
    have hpc : pc + (5 + (codeSize is + (5 + (1 + 0)))) = pc + 5 + codeSize is + 5 + 1 := by omega
    rw [hpc] at hend ⊢
    have hcode₁ : CodeAt s.bcBuf (pc + 5)
        (is ++ [reEmitJump .loop (-(codeSize is + 5)), reEmitOp .drop]) := hcode.tail
    have hdrop : CodeAt s.bcBuf (pc + 5 + codeSize is + 5) [reEmitOp .drop] := hcode₁.right.tail
    have hfits₁ : Fits s.stackSizeMax (stack.length + 1)
        (is ++ [reEmitJump .loop (-(codeSize is + 5)), reEmitOp .drop]) := hfits.tail
    -- at the atom, with `m` iterations to go
    have hloop : ∀ m y K, s.Valid y → 0 < m → Tries s (pc + 5 + codeSize is + 5 + 1) stack K
        (.run (y.toState (pc + 5) (m :: stack)) K) (repeatTimes f m y) := by
      intro m
      induction m with
      | zero => exact fun y K _ h => absurd h (Nat.lt_irrefl 0)
      | succ m ih =>
        intro y K hy _
        have htries := hf.tries _ ((m + 1) :: stack) y K hcode₁.left (fits_append.mp hfits₁).1 hy
        refine htries.bind fun z hz K' => ?_
        have hstep := step_loop (x := z) (n := m) (K := K' ++ K) stack (pc + 5) hs hcode₁.right
          (by push_cast; omega) (by omega)
        refine .next hstep ?_
        rcases Nat.eq_zero_or_pos m with rfl | hm
        · exact .one (.one (step_drop hdrop))
        · rw [if_pos (Nat.pos_iff_ne_zero.mp hm)]
          exact ih z _ (hf.valid y hy z hz) hm
    exact (hloop n x K hx hpos).next (step_pushI32 hcode hn hfits)

/-- The atom at least once, when each time there is less left. -/
theorem Implements.plus (hs : s.Ok) (hg : Implements s is g) (rem : MatchState → ℕ)
    (hrem : ∀ x, s.Valid x → rem x ≤ n) (hless : ∀ x, s.Valid x → ∀ y ∈ g x, rem y < rem x)
    (greedy : Bool) :
    Implements s (is ++ [reEmitJump (splitOp !greedy) (-(codeSize is + 5))])
      (fun x => (g x).flatMap (repeatUpTo g greedy n)) where
  balanced m := by
    rw [stackAfter_append, hg.balanced]
    exact splitOp_stackAfter _ m
  valid x hx y hy := by
    obtain ⟨z, hz, hy⟩ := List.mem_flatMap.mp hy
    exact repeatUpTo_valid hg.valid greedy n z (hg.valid x hx z hz) y hy
  tries pc stack x K hcode hfits hx := by
    have hend := hcode.le (List.append_ne_nil_of_right_ne_nil _ (List.cons_ne_nil _ _))
    simp only [codeSize_append, codeSize_cons, size_jump, codeSize_nil] at hend ⊢
    have hpc : pc + (codeSize is + (5 + 0)) = pc + codeSize is + 5 := by omega
    rw [hpc] at hend ⊢
    have hfits₁ := (fits_append.mp hfits).1
    -- at the atom, with as many iterations to go as there are left after it
    have hloop : ∀ m y K, s.Valid y → (∀ z ∈ g y, rem z ≤ m) →
        Tries s (pc + codeSize is + 5) stack K (.run (y.toState pc stack) K)
          ((g y).flatMap (repeatUpTo g greedy m)) := by
      intro m
      induction m with
      | zero =>
        intro y K hy hm
        have htries := hg.tries _ stack y K hcode.left hfits₁ hy
        refine htries.bind fun z hz K' => ?_
        have hz' := hg.valid y hy z hz
        have hnone : g z = [] := List.eq_nil_iff_forall_not_mem.mpr fun w hw => by
          have := hless z hz' w hw
          have := hm z hz
          omega
        have hback : ∀ K, Tries s (pc + codeSize is + 5) stack K (.run (z.toState pc stack) K) [] :=
          fun K => by
            have hagain := hg.tries _ stack z K hcode.left hfits₁ hz'
            rw [hnone] at hagain
            exact .none hagain.none_left
        have hsplit := tries_split (K := K' ++ K) pc hs hcode.right
          (by push_cast; omega) (by omega) (fun K => Yields.one (x := z) .refl) hback
        cases greedy <;> exact hsplit
      | succ m ih =>
        intro y K hy hm
        have htries := hg.tries _ stack y K hcode.left hfits₁ hy
        refine htries.bind fun z hz K' => ?_
        have hz' := hg.valid y hy z hz
        have hback : ∀ K, Tries s (pc + codeSize is + 5) stack K (.run (z.toState pc stack) K)
            ((g z).flatMap (repeatUpTo g greedy m)) := fun K => ih z K hz' fun w hw => by
          have := hless z hz' w hw
          have := hm z hz
          omega
        have hsplit := tries_split (K := K' ++ K) pc hs hcode.right
          (by push_cast; omega) (by omega) (fun K => Yields.one (x := z) .refl) hback
        rw [repeatUpTo_succ]
        cases greedy <;> exact hsplit
    exact hloop n x K hx fun z hz => hrem z (hg.valid x hx z hz)

end Loops

/-! ### Groups -/

section Groups

variable {s : REExecContext} {is : List REOp} {f : MatchState → List MatchState} {i n m : ℕ}
  {x : MatchState}

/-- A position that is saved is within the input. -/
theorem Valid.set (hx : s.Valid x) (i : ℕ) :
    s.Valid { x with caps := x.caps.set i (some x.pos) } where
  pos := hx.pos
  length := by rw [List.length_set, hx.length]
  caps p hp := by
    rcases List.mem_or_eq_of_mem_set hp with hp | hp
    · exact hx.caps p hp
    · exact Option.some.inj hp ▸ hx.pos

/-- `REOP_save_start` or `REOP_save_end`. -/
theorem Implements.save (hs : s.Ok) (hi : i < s.captureCount) (isEnd : Bool) :
    Implements s [reEmitOpU8 (if isEnd then .saveEnd else .saveStart) i]
      fun x => [{ x with
        caps := x.caps.set (if isEnd then 2 * i + 1 else 2 * i) (some x.pos) }] where
  balanced _ := by cases isEnd <;> rfl
  valid x hx y hy := by
    rw [List.mem_singleton.mp hy]
    exact Valid.set hx _
  tries pc stack x K hcode _ hx := by
    have hmax : captureCountMax = 255 := rfl
    have hcaptures := hs.captures
    have hbyte := u8_operand hcode (by omega)
    refine .one (.one ?_)
    cases isEnd <;>
    · rw [step_exec hcode rfl]
      simp only [reEmitOpU8, execOp, hbyte, hi, if_true, Bool.false_eq_true, if_false]
      rfl

/-- A captured group. -/
theorem Implements.capture (hs : s.Ok) (hi : i < s.captureCount) (isBackwardDir : Bool)
    (hf : Implements s is f) :
    Implements s (captureCode isBackwardDir i is) (captured i isBackwardDir f) := by
  have h := ((Implements.save hs hi isBackwardDir).append hf).append
    (Implements.save hs hi !isBackwardDir)
  have hcode : captureCode isBackwardDir i is
      = [reEmitOpU8 (if isBackwardDir then .saveEnd else .saveStart) i] ++ is ++
        [reEmitOpU8 (if !isBackwardDir then .saveEnd else .saveStart) i] := by
    cases isBackwardDir <;> rfl
  rw [hcode]
  refine h.congr fun x _ => ?_
  rw [captured, List.flatMap_singleton, List.map_eq_flatMap]
  cases isBackwardDir <;> rfl

/-- The loop of `save_reset` resets the captures of its groups and no others. -/
theorem saveResetLoop_eq (n val : ℕ) (caps : List (Option ℕ)) :
    saveResetLoop n val caps
      = caps.mapIdx fun i o => if 2 * val ≤ i ∧ i < 2 * (val + n) then none else o := by
  induction n generalizing val caps with
  | zero =>
    rw [saveResetLoop]
    refine List.ext_getElem? fun i => ?_
    rw [List.getElem?_mapIdx]
    cases caps[i]? with
    | none => rfl
    | some o =>
      rw [Option.map_some, if_neg (show ¬ (2 * val ≤ i ∧ i < 2 * (val + 0)) by omega)]
  | succ n ih =>
    rw [saveResetLoop, ih]
    refine List.ext_getElem? fun i => ?_
    simp only [List.getElem?_mapIdx, List.getElem?_set, List.length_set]
    by_cases hlen : i < caps.length
    · rw [List.getElem?_eq_getElem hlen]
      -- the turn writes the two entries of the group `val`
      by_cases h₁ : 2 * val + 1 = i
      · simp only [h₁, hlen, if_true, Option.map_some]
        rw [ite_self, if_pos (by omega)]
      · by_cases h₀ : 2 * val = i
        · rw [if_neg h₁, if_pos h₀, if_pos (by omega), Option.map_some, ite_self, Option.map_some,
            if_pos (by omega)]
        · simp only [h₁, h₀, if_false, Option.map_some]
          refine congrArg some (if_congr ?_ rfl rfl)
          omega
    · rw [List.getElem?_eq_none (Nat.le_of_not_lt hlen)]
      by_cases h₁ : 2 * val + 1 = i
      · simp [h₁, hlen]
      · by_cases h₀ : 2 * val = i
        · simp [h₀, hlen]
        · simp [h₁, h₀]

theorem forget_zero (n : ℕ) (x : MatchState) : forget n 0 x = x := by
  rw [forget, ← saveResetLoop_eq, saveResetLoop]

/-- Captures that are reset do no harm. -/
theorem Valid.forget (hx : s.Valid x) (n m : ℕ) : s.Valid (forget n m x) where
  pos := hx.pos
  length := by rw [Regexp.forget, List.length_mapIdx, hx.length]
  caps p hp := by
    obtain ⟨j, hj, hget⟩ := List.getElem_of_mem hp
    simp only [Regexp.forget, List.getElem_mapIdx] at hget
    split at hget
    · exact absurd hget (by simp)
    · exact hx.caps p (hget ▸ List.getElem_mem _)

/-- `REOP_save_reset`. -/
theorem Implements.reset (hs : s.Ok) (hm : n + m ≤ s.captureCount) :
    Implements s (resetCode n (n + m)) fun x => [forget n m x] := by
  rw [resetCode]
  by_cases hzero : n = n + m
  · obtain rfl : m = 0 := by omega
    rw [if_neg fun h => h hzero]
    exact (Implements.nil s).congr fun x _ => by rw [forget_zero]
  rw [if_pos hzero]
  refine ⟨fun _ => rfl, fun x hx y hy => ?_, fun pc stack x K hcode _ hx => .one (.one ?_)⟩
  · rw [List.mem_singleton.mp hy]
    exact Valid.forget hx n m
  · have hmax : captureCountMax = 255 := rfl
    have hcaptures := hs.captures
    obtain ⟨rest, hrest⟩ := hcode.operand
    -- the two operands are the bytes behind the opcode
    have hbytes : ∀ j, s.bcBuf.getD (pc + 1 + j) 0
        = (putLE 1 n ++ putLE 1 (n + m - 1) ++ rest).getD j 0 := fun j => by
      have hget := congrArg (fun l => l.getD j 0) hrest
      simp only [List.getD_eq_getElem?_getD, List.getElem?_drop] at hget
      rw [List.getD_eq_getElem?_getD, List.getD_eq_getElem?_getD, hget]
    have hfirst : s.bcBuf.getD (pc + 1) 0 = n := by
      rw [← Nat.add_zero (pc + 1), hbytes 0]
      simp [putLE, Nat.mod_eq_of_lt (show n < 256 by omega)]
    have hlast : s.bcBuf.getD (pc + 1 + 1) 0 = n + m - 1 := by
      rw [hbytes 1]
      simp [putLE, Nat.mod_eq_of_lt (show n + m - 1 < 256 by omega)]
    rw [step_exec hcode rfl]
    simp only [execOp, hfirst, hlast, if_pos (show n + m - 1 < s.captureCount by omega)]
    rw [show n + m - 1 + 1 - n = m by omega, saveResetLoop_eq]
    rfl

end Groups

/-! ### Lookaheads and lookbehinds -/

section Look

variable {s : REExecContext} {is : List REOp} {f : MatchState → List MatchState}
  {K K' : List REExecState} {caps : List (Option ℕ)}

/-- After a match, choices are dropped. -/
theorem leads_drop (hK : ∀ e ∈ K', IsChoice e) :
    Leads (step s) (.recurse (some caps) (K' ++ K)) (.recurse (some caps) K) := by
  induction K' with
  | nil => exact .refl
  | cons e K' ih =>
    refine .head ?_ (ih fun e he => hK e (List.mem_cons_of_mem _ he))
    obtain ⟨type, count, saved⟩ := e
    rcases hK _ List.mem_cons_self with he | he <;>
    · obtain rfl : type = _ := he
      rfl

/-- A lookahead or lookbehind. -/
theorem Implements.look (hs : s.Ok) (hf : Implements s is f) (isNeg : Bool) :
    Implements s (lookCode isNeg is) (looking isNeg f) where
  balanced n := by
    rw [lookCode, stackAfter_append]
    cases isNeg <;> exact hf.balanced n
  valid x hx y hy := by
    rw [looking] at hy
    split at hy
    · split at hy
      · exact List.mem_singleton.mp hy ▸ hx
      · exact absurd hy List.not_mem_nil
    · rename_i z zs heq
      split at hy
      · exact absurd hy List.not_mem_nil
      · -- a positive look keeps the captures of its body, and the old position
        have hz := hf.valid x hx z (heq ▸ List.mem_cons_self)
        rw [List.mem_singleton.mp hy]
        exact ⟨hx.pos, hz.length, hz.caps⟩
  tries pc stack x K hcode hfits hx := by
    have hend := hcode.le (List.cons_ne_nil _ _)
    simp only [lookCode, List.cons_append, codeSize_cons, codeSize_append, size_jump, size_op,
      codeSize_nil] at hend ⊢
    have hpc : pc + (5 + (codeSize is + (1 + 0))) = pc + 5 + codeSize is + 1 := by omega
    rw [hpc] at hend ⊢
    have hcode₁ : CodeAt s.bcBuf (pc + 5) (is ++ [reEmitOp .match']) := hcode.tail
    have hfits₁ : Fits s.stackSizeMax stack.length (is ++ [reEmitOp .match']) := by
      cases isNeg <;> exact hfits.tail
    have htarget : ((pc + 5 + codeSize is + 1 : ℕ) : ℤ) = pc + 5 + (codeSize is + 1) := by
      push_cast
      omega
    -- the state that goes on behind the look is pushed, tagged with its kind
    have hstep : step s (.run (x.toState pc stack) K) = .inl (.run (x.toState (pc + 5) stack)
        (⟨if isNeg then .negativeLookahead else .lookahead, 0,
          x.toState (pc + 5 + codeSize is + 1) stack⟩ :: K)) := by
      have hjump := jump_target hs hcode htarget hend
      cases isNeg with
      | false =>
        rw [step_exec hcode rfl, reEmitJump, if_neg Bool.false_ne_true, execOp, hjump]
        rfl
      | true =>
        rw [step_exec hcode rfl, reEmitJump, if_pos rfl, execOp, hjump]
        rfl
    have hbody := fun K => hf.tries _ stack x K hcode₁.left (fits_append.mp hfits₁).1 hx
    refine .next hstep ?_
    rw [looking]
    -- the body fails: its pushed states are used up, down to the one of the look
    cases hfx : f x with
    | nil =>
      simp only [hfx] at hbody
      refine .lead (hbody _).none_left ?_
      cases isNeg with
      | false => exact .none (.one rfl)
      | true => exact .one (.one rfl)
    | cons y ys =>
      -- it matches: the states above the one of the look are dropped
      simp only [hfx] at hbody
      obtain ⟨K', hK', hlead⟩ := (hbody _).first
      refine .lead (hlead.trans (.head (step_match hcode₁.right) (leads_drop hK'))) ?_
      cases isNeg with
      | false => exact .one (.one rfl)
      | true => exact .none (.one rfl)

end Look

end VideoPackages.Regexp
