import VideoPackages.RegexpLoops

namespace VideoPackages.Regexp

open Backtracking Bytes

/-!
# `REOP_simple_greedy_quant`

A quantifier over characters and conditions is run as a loop that counts, without a stack.

* `reIsSimpleQuantifierLoop_some`, `reNeedCheckAdvanceLoop_false` — what the checks of an atom say;
* `SimpleRun` — the atom is run on its own;
* `reach` — how often an atom matches that matches once at most;
* `greedyLoop_eq` — the loop counts so far;
* `Implements.simpleQuant` — and so the instruction is a loop over its atom.
-/

/-- How many characters the instructions read. -/
def chars (is : List REOp) : ℕ := is.countP fun i => decide (i.opcode.kind = .simpleChar)

/-- Only characters and conditions. -/
def IsSimple (is : List REOp) : Prop :=
  ∀ i ∈ is, i.opcode.kind = .simpleChar ∨ i.opcode.kind = .assertion

section Walk

variable {is js : List REOp} {n k : ℕ}

@[simp] theorem chars_append (is js : List REOp) : chars (is ++ js) = chars is + chars js :=
  List.countP_append

/-- Simple code put together is simple. -/
theorem isSimple_append : IsSimple (is ++ js) ↔ IsSimple is ∧ IsSimple js := by
  simp only [IsSimple, List.forall_mem_append]

/-- **`re_is_simple_quantifier`.** -/
theorem reIsSimpleQuantifierLoop_some (h : reIsSimpleQuantifierLoop n is = some k) :
    IsSimple is ∧ k = n + chars is := by
  induction is generalizing n with
  | nil => exact ⟨fun i hi => absurd hi List.not_mem_nil, (Option.some.inj h).symm⟩
  | cons i is ih =>
    have hchars : chars (i :: is) = chars is + if i.opcode.kind = .simpleChar then 1 else 0 := by
      rw [chars, List.countP_cons, chars]
      simp only [decide_eq_true_eq]
    rw [reIsSimpleQuantifierLoop] at h
    cases hkind : i.opcode.kind <;> simp only [hkind] at h
    case simpleChar =>
      obtain ⟨hsimple, hk⟩ := ih h
      refine ⟨fun j hj => ?_, by rw [hk, hchars, if_pos hkind]; omega⟩
      rcases List.mem_cons.mp hj with rfl | hj
      · exact .inl hkind
      · exact hsimple j hj
    case assertion =>
      obtain ⟨hsimple, hk⟩ := ih h
      refine ⟨fun j hj => ?_, by rw [hk, hchars, if_neg (by simp [hkind])]; omega⟩
      rcases List.mem_cons.mp hj with rfl | hj
      · exact .inr hkind
      · exact hsimple j hj
    all_goals exact absurd h (by simp)

/-- **`re_need_check_advance`.** -/
theorem reNeedCheckAdvanceLoop_false {ret : Bool} (h : reNeedCheckAdvanceLoop ret is = false) :
    (∀ i ∈ is, i.opcode.kind ≠ .other) ∧
      (ret = false ∨ ∃ i ∈ is, i.opcode.kind = .simpleChar) := by
  induction is generalizing ret with
  | nil => exact ⟨fun i hi => absurd hi List.not_mem_nil, .inl h⟩
  | cons i is ih =>
    have hmem : (∀ j ∈ is, j.opcode.kind ≠ .other) → i.opcode.kind ≠ .other →
        ∀ j ∈ i :: is, j.opcode.kind ≠ .other := fun hall hi j hj => by
      rcases List.mem_cons.mp hj with rfl | hj
      · exact hi
      · exact hall j hj
    have hex : (∃ j ∈ is, j.opcode.kind = .simpleChar) →
        ∃ j ∈ i :: is, j.opcode.kind = .simpleChar := fun ⟨j, hj, hkind⟩ =>
      ⟨j, List.mem_cons_of_mem _ hj, hkind⟩
    rw [reNeedCheckAdvanceLoop] at h
    cases hkind : i.opcode.kind <;> simp only [hkind] at h
    case simpleChar =>
      exact ⟨hmem (ih h).1 (by simp [hkind]), .inr ⟨i, List.mem_cons_self, hkind⟩⟩
    case other => exact absurd h (by simp)
    all_goals
      obtain ⟨hall, hor⟩ := ih h
      exact ⟨hmem hall (by simp [hkind]), hor.imp_right hex⟩

end Walk

/-- What a simple atom does, run on its own: at most one match, some characters further. -/
def SimpleRun (s : REExecContext) (is : List REOp) (f : MatchState → List MatchState) : Prop :=
  ∀ pc x, CodeAt s.bcBuf pc is → s.Valid x →
    (f x = [] ∧ ∀ fuel, execSimple s (fuel + is.length) pc x.pos = some none) ∨
      (f x = [{ x with pos := x.pos + chars is }] ∧ ∀ fuel,
        execSimple s (fuel + is.length) pc x.pos
          = execSimple s fuel (pc + codeSize is) (x.pos + chars is))

section SimpleRun

variable {s : REExecContext} {is js : List REOp} {f g : MatchState → List MatchState} {i : REOp}
  {p : ℕ → Bool} {op : REOPCodeEnum} {k : ℕ}

/-- Only what is done from valid positions counts. -/
theorem SimpleRun.congr (h : SimpleRun s is f) (hfg : ∀ x, s.Valid x → f x = g x) :
    SimpleRun s is g := fun pc x hcode hx => hfg x hx ▸ h pc x hcode hx

theorem SimpleRun.nil (s : REExecContext) : SimpleRun s [] fun x => [x] :=
  fun _ _ _ _ => .inr ⟨rfl, fun _ => rfl⟩

/-- Simple code runs one piece after the other; what the first piece finds has to be valid. -/
theorem SimpleRun.append (hf : SimpleRun s is f) (hvalid : ∀ x, s.Valid x → ∀ y ∈ f x, s.Valid y)
    (hg : SimpleRun s js g) : SimpleRun s (is ++ js) fun x => (f x).flatMap g := by
  intro pc x hcode hx
  have hlen : ∀ fuel, fuel + (is ++ js).length = fuel + js.length + is.length := fun fuel => by
    rw [List.length_append]
    omega
  rcases hf pc x hcode.left hx with ⟨hnone, hrun⟩ | ⟨hsome, hrun⟩
  · refine .inl ⟨?_, fun fuel => ?_⟩
    · show (f x).flatMap g = []
      rw [hnone, List.flatMap_nil]
    · rw [hlen, hrun]
  · have hy := hvalid x hx { x with pos := x.pos + chars is } (hsome ▸ List.mem_cons_self)
    rcases hg _ _ hcode.right hy with ⟨hnone, hrun'⟩ | ⟨hsome', hrun'⟩
    · refine .inl ⟨?_, fun fuel => ?_⟩
      · show (f x).flatMap g = []
        rw [hsome, List.flatMap_singleton, hnone]
      · rw [hlen, hrun, hrun']
    · refine .inr ⟨?_, fun fuel => ?_⟩
      · show (f x).flatMap g = _
        rw [hsome, List.flatMap_singleton, hsome', chars_append]
        simp only [Nat.add_assoc]
      · rw [hlen, hrun, hrun', codeSize_append, chars_append, Nat.add_assoc, Nat.add_assoc]

/-- An instruction that moves or fails is not the one that ends the code. -/
theorem ne_match {pc q : ℕ} (hop : simpleOp s op pc q ≠ .other) : op ≠ .match' := fun h => by
  subst h
  exact hop rfl

/-- One step of `lre_exec_backtrack` within a greedy quantifier: the position moves on, or there is
    no match. -/
theorem execSimple_step {pc q fuel : ℕ} (hcode : CodeAt s.bcBuf pc (i :: is))
    (hop : simpleOp s i.opcode (pc + 1) q ≠ .other) :
    (∀ pc' q', simpleOp s i.opcode (pc + 1) q = .next pc' q' →
      execSimple s (fuel + 1) pc q = execSimple s fuel pc' q') ∧
    (simpleOp s i.opcode (pc + 1) q = .noMatch → execSimple s (fuel + 1) pc q = some none) := by
  have hne := ne_match hop
  rw [execSimple, hcode.opcode]
  generalize i.opcode = o at hne hop
  cases o <;> first
    | exact absurd rfl hne
    | exact ⟨fun pc' q' h => by simp only [h], fun h => by simp only [h]⟩

/-- One instruction. -/
theorem SimpleRun.one (hstep : ∀ pc x, CodeAt s.bcBuf pc [i] → s.Valid x →
    (f x = [] ∧ simpleOp s i.opcode (pc + 1) x.pos = .noMatch) ∨
      (f x = [{ x with pos := x.pos + chars [i] }] ∧
        simpleOp s i.opcode (pc + 1) x.pos = .next (pc + i.size) (x.pos + chars [i]))) :
    SimpleRun s [i] f := by
  intro pc x hcode hx
  rcases hstep pc x hcode hx with ⟨hnone, hop⟩ | ⟨hsome, hop⟩
  · refine .inl ⟨hnone, fun fuel => ?_⟩
    exact (execSimple_step hcode (by simp [hop])).2 hop
  · refine .inr ⟨hsome, fun fuel => ?_⟩
    exact (execSimple_step hcode (by simp [hop])).1 _ _ hop

/-- An instruction that tests a character is simple. -/
theorem kind_tests (hi : i.Tests p) : i.opcode.kind = .simpleChar := by
  obtain ⟨test, hop, -⟩ := hi []
  cases hcase : i.opcode <;> rw [hcase] at hop <;> first | rfl | exact absurd hop (by simp [charOp])

/-- A test, run as simple code. -/
theorem SimpleRun.tests (hs : s.Ok) (hi : i.Tests p) :
    SimpleRun s [i] (oneChar s.toSubject p false) := by
  have hchars : chars [i] = 1 := by simp [chars, kind_tests hi]
  refine .one fun pc x hcode _ => ?_
  rw [simpleOp_tests hs hi hcode, oneChar, if_neg Bool.false_ne_true, hchars]
  split
  · exact .inr ⟨rfl, rfl⟩
  · exact .inl ⟨rfl, rfl⟩

/-- An assertion, run as simple code. -/
theorem SimpleRun.assertion (hkind : op.kind = .assertion)
    (hop : ∀ pc q, simpleOp s op pc q = checkThat pc q (p q)) :
    SimpleRun s [reEmitOp op] (assertion p) := by
  have hchars : chars [reEmitOp op] = 0 := by simp [chars, reEmitOp, hkind]
  refine .one fun pc x _ _ => ?_
  rw [hchars]
  show (_ ∧ simpleOp s op (pc + 1) x.pos = _) ∨ (_ ∧ simpleOp s op (pc + 1) x.pos = _)
  rw [hop, checkThat, Regexp.assertion]
  by_cases hp : p x.pos = true
  · rw [if_pos hp, if_pos hp]
    exact .inr ⟨rfl, rfl⟩
  · rw [if_neg hp, if_neg hp]
    exact .inl ⟨rfl, rfl⟩

end SimpleRun

/-! ### Repeating what matches once at most -/

/-- How often `f` matches, one match after the other, up to `n` times. -/
def reach (f : MatchState → List MatchState) : ℕ → MatchState → ℕ
  | 0, _ => 0
  | n + 1, x =>
    match f x with
    | [] => 0
    | y :: _ => reach f n y + 1

/-- `j` matches of `k` characters further. -/
def further (k j : ℕ) (x : MatchState) : MatchState := { x with pos := x.pos + j * k }

section Reach

variable {s : REExecContext} {is : List REOp} {f : MatchState → List MatchState} {k n m q : ℕ}
  {x : MatchState}

theorem further_zero (k : ℕ) (x : MatchState) : further k 0 x = x := by
  rw [further, Nat.zero_mul, Nat.add_zero]

/-- Steps of one width add up. -/
theorem further_further (k i j : ℕ) (x : MatchState) :
    further k i (further k j x) = further k (j + i) x := by
  simp only [further, Nat.add_mul, Nat.add_assoc]

theorem further_one (k : ℕ) (x : MatchState) : further k 1 x = { x with pos := x.pos + k } := by
  rw [further, Nat.one_mul]

/-- At most one match, `k` characters further. -/
structure Steady (s : REExecContext) (k : ℕ) (f : MatchState → List MatchState) : Prop where
  valid : ∀ x, s.Valid x → ∀ y ∈ f x, s.Valid y
  once : ∀ x, s.Valid x → f x = [] ∨ f x = [further k 1 x]

/-- A step that has been taken ends within the input. -/
theorem Steady.further_valid (h : Steady s k f) (hx : s.Valid x) (hf : f x = [further k 1 x]) :
    s.Valid (further k 1 x) := h.valid x hx _ (hf ▸ List.mem_cons_self)

/-- Where the atom does not match, it is reached no further. -/
theorem reach_none (hf : f x = []) (n : ℕ) : reach f n x = 0 := by
  cases n with
  | zero => rfl
  | succ n => simp only [reach, hf]

/-- A match more is one more. -/
theorem reach_some {y : MatchState} (hf : f x = [y]) (n : ℕ) :
    reach f (n + 1) x = reach f n y + 1 := by simp only [reach, hf]

/-- No further than the bound. -/
theorem reach_le (h : Steady s k f) (hx : s.Valid x) (n : ℕ) : reach f n x ≤ n := by
  induction n generalizing x with
  | zero => exact le_rfl
  | succ n ih =>
    rcases h.once x hx with hf | hf
    · rw [reach_none hf]
      exact Nat.zero_le _
    · rw [reach_some hf]
      exact Nat.succ_le_succ (ih (h.further_valid hx hf))

/-- The matches of a steady atom: as many as there are, then one less, down to none. -/
theorem repeatUpTo_steady (h : Steady s k f) (hx : s.Valid x) (n : ℕ) :
    repeatUpTo f true n x
      = (List.range (reach f n x + 1)).map fun j => further k (reach f n x - j) x := by
  induction n generalizing x with
  | zero =>
    show [x] = [further k 0 x]
    rw [further_zero]
  | succ n ih =>
    rw [repeatUpTo_succ, if_pos rfl]
    rcases h.once x hx with hf | hf
    · rw [hf, reach_none hf]
      show [x] = [further k 0 x]
      rw [further_zero]
    · rw [hf, reach_some hf, List.flatMap_singleton, ih (h.further_valid hx hf),
        List.range_succ (n := reach f n (further k 1 x) + 1), List.map_append]
      refine congrArg₂ (· ++ ·) (List.map_congr_left fun j hj => ?_) ?_
      · have hj' := List.mem_range.mp hj
        rw [further_further]
        exact congrArg (fun i => further k i x) (by omega)
      · rw [List.map_singleton, Nat.sub_self, further_zero]

/-- A number of times is all of them or fails. -/
theorem repeatTimes_steady (h : Steady s k f) (hx : s.Valid x) (n : ℕ) :
    repeatTimes f n x = if reach f n x = n then [further k n x] else [] := by
  induction n generalizing x with
  | zero => rw [repeatTimes, reach, if_pos rfl, further_zero]
  | succ n ih =>
    rw [repeatTimes]
    rcases h.once x hx with hf | hf
    · rw [hf, reach_none hf, if_neg (Nat.succ_ne_zero n).symm, List.flatMap_nil]
    · rw [hf, reach_some hf, List.flatMap_singleton, ih (h.further_valid hx hf), further_further,
        Nat.add_comm 1 n]
      exact if_congr (by omega) rfl rfl

/-- How far the atom reaches is counted in two parts. -/
theorem reach_add (h : Steady s k f) (hx : s.Valid x) (n m : ℕ) :
    reach f (n + m) x
      = if reach f n x = n then n + reach f m (further k n x) else reach f n x := by
  induction n generalizing x with
  | zero => rw [reach, if_pos rfl, further_zero, Nat.zero_add, Nat.zero_add]
  | succ n ih =>
    rw [Nat.succ_add]
    rcases h.once x hx with hf | hf
    · rw [reach_none hf, reach_none hf, if_neg (Nat.succ_ne_zero n).symm]
    · rw [reach_some hf, reach_some hf, ih (h.further_valid hx hf), further_further,
        Nat.add_comm 1 n]
      by_cases heq : reach f n (further k 1 x) = n
      · rw [if_pos heq, if_pos (by omega)]
        omega
      · rw [if_neg heq, if_neg (by omega)]

/-- What the loop of `REOP_simple_greedy_quant` is told of one iteration. -/
def Iterates (s : REExecContext) (pc k : ℕ) (f : MatchState → List MatchState) : Prop :=
  ∀ x, s.Valid x → (f x = [] ∧ execSimple s s.bcBuf.length pc x.pos = some none) ∨
    (f x = [further k 1 x] ∧ execSimple s s.bcBuf.length pc x.pos = some (some (x.pos + k)))

/-- What the interpreter counts in steps of one width is steady. -/
theorem Iterates.steady {pc : ℕ} (h : Iterates s pc k f)
    (hvalid : ∀ x, s.Valid x → ∀ y ∈ f x, s.Valid y) : Steady s k f :=
  ⟨hvalid, fun x hx => (h x hx).imp And.left And.left⟩

/-- **The loop of `REOP_simple_greedy_quant`** iterates as often as the atom matches. -/
theorem greedyLoop_eq {pc quantMax fuel : ℕ} (h : Iterates s pc k f) (hs : Steady s k f)
    (hk : 0 < k) (hx : s.Valid x) (hfuel : s.cbuf.length < x.pos + fuel)
    (hno : quantMax = int32Max → s.cbuf.length ≤ x.pos + m)
    (hmax : quantMax ≠ int32Max → q + m = quantMax ∧ 0 < m) :
    greedyLoop s pc quantMax fuel q x.pos
      = some (q + reach f m x, (further k (reach f m x) x).pos) := by
  induction fuel generalizing x q m with
  | zero =>
    have := hx.pos
    omega
  | succ fuel ih =>
    rw [greedyLoop]
    rcases h x hx with ⟨hf, hrun⟩ | ⟨hf, hrun⟩
    · simp only [hrun]
      rw [reach_none hf, further_zero, Nat.add_zero]
    · simp only [hrun]
      have hy := hs.further_valid hx hf
      have hpos : (further k 1 x).pos = x.pos + k := by rw [further_one]
      have hle := hy.pos
      rw [hpos] at hle
      obtain ⟨m', rfl⟩ : ∃ m', m = m' + 1 := by
        by_cases hinf : quantMax = int32Max
        · have := hno hinf
          exact ⟨m - 1, by omega⟩
        · have := hmax hinf
          exact ⟨m - 1, by omega⟩
      have hreach : (further k (reach f (m' + 1) x) x).pos
          = (further k (reach f m' (further k 1 x)) (further k 1 x)).pos := by
        rw [further_further, reach_some hf, Nat.add_comm 1]
      rw [hreach, reach_some hf]
      -- the loop stops at the maximum, which is the last turn of `reach`
      by_cases hstop : quantMax ≤ q + 1 ∧ quantMax ≠ int32Max
      · rw [if_pos hstop]
        obtain rfl : m' = 0 := by
          have := hmax hstop.2
          omega
        rw [reach, further_zero, hpos]
      · rw [if_neg hstop, ← hpos, ih (x := further k 1 x) (q := q + 1) (m := m') hy (by omega)
          (fun hinf => ?_) fun hinf => ?_]
        · exact congrArg some (Prod.ext (by simp only; omega) rfl)
        · have := hno hinf
          omega
        · have := hmax hinf
          have : ¬ quantMax ≤ q + 1 := fun hle => hstop ⟨hle, hinf⟩
          omega

end Reach

/-! ### `REOP_simple_greedy_quant` -/

section SimpleQuant

variable {s : REExecContext} {is js : List REOp} {f : MatchState → List MatchState}
  {pc k b quantMin quantMax len : ℕ} {x : MatchState} {stack : List ℕ} {K : List REExecState}

/-- Every instruction takes a byte at least. -/
theorem length_le_codeSize (is : List REOp) : is.length ≤ codeSize is := by
  induction is with
  | nil => exact le_rfl
  | cons i is ih =>
    rw [codeSize_cons, List.length_cons, REOp.size]
    omega

/-- Simple code that ends with `match` is what a greedy quantifier repeats. -/
theorem SimpleRun.iterates (h : SimpleRun s is f)
    (hcode : CodeAt s.bcBuf pc (is ++ [reEmitOp .match'])) : Iterates s pc (chars is) f := by
  intro x hx
  have hend := hcode.le (by simp)
  rw [codeSize_append, codeSize_cons, codeSize_nil, size_op] at hend
  have hlen := length_le_codeSize is
  obtain ⟨fuel, hfuel⟩ : ∃ fuel, s.bcBuf.length = fuel + 1 + is.length :=
    ⟨s.bcBuf.length - is.length - 1, by omega⟩
  rw [hfuel, further_one]
  refine (h pc x hcode.left hx).imp (fun ⟨hf, hrun⟩ => ⟨hf, hrun _⟩) fun ⟨hf, hrun⟩ => ⟨hf, ?_⟩
  rw [hrun, execSimple, hcode.right.opcode]
  rfl

/-- The operands. -/
theorem quant_operands (h : CodeAt s.bcBuf pc
      (⟨.simpleGreedyQuant, putLE 4 b ++ putLE 4 quantMin ++ putLE 4 quantMax ++ putLE 4 len⟩
        :: js))
    (hb : b < 256 ^ 4) (hmin : quantMin < 256 ^ 4) (hmax : quantMax < 256 ^ 4)
    (hlen : len < 256 ^ 4) :
    getLE 4 (s.bcBuf.drop (pc + 1)) = b ∧ getLE 4 (s.bcBuf.drop (pc + 1 + 4)) = quantMin ∧
      getLE 4 (s.bcBuf.drop (pc + 1 + 8)) = quantMax ∧
      getLE 4 (s.bcBuf.drop (pc + 1 + 12)) = len := by
  obtain ⟨rest, hrest⟩ := h.operand
  simp only [List.append_assoc] at hrest
  refine ⟨?_, ?_, ?_, ?_⟩
  · rw [hrest, getLE_putLE hb]
  · rw [← List.drop_drop, hrest, List.drop_left' (length_putLE 4 _), getLE_putLE hmin]
  · rw [← List.drop_drop, hrest, ← List.append_assoc (putLE 4 b),
      List.drop_left' (by simp only [List.length_append, length_putLE]), getLE_putLE hmax]
  · rw [← List.drop_drop, hrest, ← List.append_assoc (putLE 4 quantMin),
      ← List.append_assoc (putLE 4 b),
      List.drop_left' (by simp only [List.length_append, length_putLE]), getLE_putLE hlen]

/-- The machine goes back to a quantifier. -/
theorem step_greedyQuant (n : ℕ) (st : REState) :
    step s (.recurse none (⟨.greedyQuant, n, st⟩ :: K)) =
      if n - 1 = 0 then
        .inl (.run { st with
          pc := jump (st.pc + 16) (getLE 4 (s.bcBuf.drop st.pc))
          cptr := st.cptr - getLE 4 (s.bcBuf.drop (st.pc + 12)) } K)
      else
        .inl (.run { st with
          pc := jump (st.pc + 16) (getLE 4 (s.bcBuf.drop st.pc))
          cptr := st.cptr - getLE 4 (s.bcBuf.drop (st.pc + 12)) }
          (⟨.greedyQuant, n - 1, { st with cptr := st.cptr - getLE 4 (s.bcBuf.drop (st.pc + 12)) }⟩
            :: K)) := rfl

/-- A failure goes back one step, and keeps the choice unless it was the last. -/
theorem step_descend {target : ℕ} (stack : List ℕ) (n m : ℕ)
    (hchars : getLE 4 (s.bcBuf.drop (pc + 12)) = k)
    (htarget : jump (pc + 16) (getLE 4 (s.bcBuf.drop pc)) = target) :
    step s (.recurse none (⟨.greedyQuant, n + 1, (further k (m + 1) x).toState pc stack⟩ :: K))
      = .inl (.run ((further k m x).toState target stack)
        (if n = 0 then K
          else ⟨.greedyQuant, n, (further k m x).toState pc stack⟩ :: K)) := by
  have hcptr : (further k (m + 1) x).pos - k = (further k m x).pos := by
    simp only [further, Nat.succ_mul]
    omega
  rw [step_greedyQuant]
  simp only [MatchState.toState, hchars, htarget, hcptr, Nat.add_sub_cancel]
  split <;> rfl

/-- One match fewer each time the machine goes back. -/
theorem tries_descend {target : ℕ} (n m : ℕ) (hchars : getLE 4 (s.bcBuf.drop (pc + 12)) = k)
    (htarget : jump (pc + 16) (getLE 4 (s.bcBuf.drop pc)) = target) :
    Tries s target stack K
      (.recurse none (⟨.greedyQuant, n + 1, (further k (m + n + 1) x).toState pc stack⟩ :: K))
      ((List.range (n + 1)).map fun j => further k (m + n - j) x) := by
  induction n with
  | zero =>
    have hstep := step_descend (x := x) (K := K) stack 0 m hchars htarget
    rw [if_pos rfl] at hstep
    exact .one (.one hstep)
  | succ n ih =>
    have hstep := step_descend (x := x) (K := K) stack (n + 1) (m + (n + 1)) hchars htarget
    rw [if_neg n.succ_ne_zero] at hstep
    refine .next hstep ?_
    have hlist : ((List.range (n + 1 + 1)).map fun j => further k (m + (n + 1) - j) x)
        = [further k (m + (n + 1)) x] ++
          (List.range (n + 1)).map fun j => further k (m + n - j) x := by
      rw [List.range_succ_eq_map, List.map_cons, List.map_map]
      refine congrArg₂ List.cons rfl (List.map_congr_left fun j _ => ?_)
      exact congrArg (fun i => further k i x) (by simp only [Nat.succ_eq_add_one]; omega)
    rw [hlist]
    exact .choose (.inr rfl) (.one .refl) ih

/-- **`REOP_simple_greedy_quant`** is a loop over its atom. -/
theorem Implements.simpleQuant (hs : s.Ok) (hf : Implements s is f) (hsimple : SimpleRun s is f)
    (hchars : 0 < chars is)
    (hle : quantMin ≤ quantMax) (hpos : 0 < quantMax) (hmax : quantMax ≤ int32Max) :
    Implements s (simpleQuantCode quantMin quantMax (chars is) is)
      (fun x => (repeatTimes f quantMin x).flatMap (repeatUpTo f true
        (if quantMax = int32Max then s.cbuf.length else quantMax - quantMin))) where
  balanced n := by
    show stackAfter n (is ++ [reEmitOp .match']) = n
    rw [stackAfter_append, hf.balanced]
    rfl
  valid x hx y hy := by
    obtain ⟨z, hz, hy⟩ := List.mem_flatMap.mp hy
    exact repeatUpTo_valid hf.valid true _ z (repeatTimes_valid hf.valid _ x hx z hz) y hy
  tries pc stack x K hcode hfits hx := by
    have hend := hcode.le (List.cons_ne_nil _ _)
    have hsize := hs.size
    have hcode₁ : CodeAt s.bcBuf (pc + 17) (is ++ [reEmitOp .match']) := hcode.tail
    have hcount : chars is ≤ is.length := List.countP_le_length
    have hlength := length_le_codeSize is
    have hinf : int32Max = 2147483647 := rfl
    have htotal : codeSize (simpleQuantCode quantMin quantMax (chars is) is)
        = 17 + codeSize is + 1 := by
      rw [simpleQuantCode, List.cons_append, codeSize_cons, codeSize_append]
      rfl
    rw [htotal] at hend ⊢
    -- the four operands, each of which fits its field
    obtain ⟨hnext, hmin, hmax', hlen⟩ :=
      quant_operands hcode (by omega) (by omega) (by omega) (by omega)
    have htarget : jump (pc + 1 + 16) (getLE 4 (s.bcBuf.drop (pc + 1)))
        = pc + (17 + codeSize is + 1) := by
      rw [hnext, jump, toInt, if_pos (by omega)]
      omega
    have hit := hsimple.iterates hcode₁
    have hsteady := hit.steady hf.valid
    generalize hN : (if quantMax = int32Max then s.cbuf.length else quantMax - quantMin) = N
    -- the loop runs as far as the atom matches
    have hgreedy : greedyLoop s (pc + 17) quantMax (s.cbuf.length + 1) 0 x.pos
        = some (0 + reach f (quantMin + N) x,
          (further (chars is) (reach f (quantMin + N) x) x).pos) :=
    greedyLoop_eq hit hsteady hchars hx (by omega) (fun h => by rw [if_pos h] at hN; omega)
      fun h => by rw [if_neg h] at hN; omega
    have hstep : step s (.run (x.toState pc stack) K)
        = execOp s .simpleGreedyQuant (pc + 1) (x.toState pc stack) K := step_exec hcode rfl
    have hpos' : (x.toState pc stack).cptr = x.pos := rfl
    simp only [execOp, hmin, hmax', htarget, hpos', hgreedy, Nat.zero_add] at hstep
    have htimes := repeatTimes_steady hsteady hx quantMin
    have hadd := reach_add hsteady hx quantMin N
    -- the minimum is reached, or the quantifier fails
    by_cases hreach : reach f quantMin x = quantMin
    · rw [if_pos hreach] at htimes hadd
      have hy : s.Valid (further (chars is) quantMin x) :=
        repeatTimes_valid hf.valid quantMin x hx _ (htimes ▸ List.mem_cons_self)
      rw [htimes, List.flatMap_singleton, repeatUpTo_steady hsteady hy]
      rw [hadd, if_neg (by omega)] at hstep
      simp only [further_further]
      generalize reach f N (further (chars is) quantMin x) = r at hstep
      cases r with
      | zero =>
        rw [if_neg (by omega)] at hstep
        exact .one (.one hstep)
      | succ r =>
        rw [if_pos (by omega), Nat.add_sub_cancel_left] at hstep
        refine .next hstep ?_
        -- the state pushed gives back one turn at a time
        have hlist : ((List.range (r + 1 + 1)).map fun j =>
              further (chars is) (quantMin + (r + 1 - j)) x)
            = [further (chars is) (quantMin + (r + 1)) x] ++
              (List.range (r + 1)).map fun j => further (chars is) (quantMin + r - j) x := by
          rw [List.range_succ_eq_map, List.map_cons, List.map_map]
          refine congrArg₂ List.cons rfl (List.map_congr_left fun j hj => ?_)
          have hj' := List.mem_range.mp hj
          refine congrArg (fun i => further (chars is) i x) ?_
          simp only [Nat.succ_eq_add_one]
          omega
        rw [hlist]
        exact .choose (.inr rfl) (.one .refl) (tries_descend r quantMin hlen htarget)
    · rw [if_neg hreach] at htimes hadd
      have hlt := reach_le hsteady hx quantMin
      rw [htimes, List.flatMap_nil]
      rw [hadd, if_pos (by omega)] at hstep
      exact .none (.one hstep)

end SimpleQuant

end VideoPackages.Regexp
