import VideoPackages.RegexpExec

namespace VideoPackages.Regexp

open Backtracking Bytes Unicode

/-!
# Code that implements matches

A piece of code implements a function from a match to the matches that it may go on with: entered
with a match, it is left with each of them, one after the other, as far as it is gone back to.

* `Fits` — the stack does not grow above its limit, as `compute_stack_size` finds by one pass over
  the code; `computeStackSize_fits`;
* `Implements` — the code does so wherever it stands, and leaves the stack as it was;
* `Implements.append`, `Implements.alt` and the like — the pieces the compiler puts together.
-/

/-- What the code relies on: its size, and that of the characters and groups. -/
structure REExecContext.Ok (s : REExecContext) : Prop where
  size : s.bcBuf.length < 2147483648
  chars : ∀ c ∈ s.cbuf, c < uint32Max
  captures : s.captureCount ≤ captureCountMax

/-- The position and the groups are those of the input. -/
structure REExecContext.Valid (s : REExecContext) (x : MatchState) : Prop where
  pos : x.pos ≤ s.cbuf.length
  length : x.caps.length = 2 * s.captureCount
  caps : ∀ p, some p ∈ x.caps → p ≤ s.cbuf.length

/-- The registers of a match. -/
def MatchState.toState (x : MatchState) (pc : ℕ) (stack : List ℕ) : REState :=
  ⟨pc, x.pos, x.caps, stack⟩

/-! ### The stack -/

/-- What an instruction does to the size of the stack. -/
def REOPCodeEnum.stackAfter (op : REOPCodeEnum) (n : ℕ) : ℕ :=
  match op with
  | .pushI32 | .pushCharPos => n + 1
  | .drop | .checkAdvance => n - 1
  | _ => n

/-- The size of the stack after the code, in one pass. -/
def stackAfter (n : ℕ) (is : List REOp) : ℕ := is.foldl (fun n i => i.opcode.stackAfter n) n

/-- The stack stays within its limit, in one pass over the code. -/
def Fits (lim : ℕ) : ℕ → List REOp → Prop
  | n, [] => n ≤ lim
  | n, i :: is => n ≤ lim ∧ Fits lim (i.opcode.stackAfter n) is

section Stack

variable {lim n m k : ℕ} {i : REOp} {is js : List REOp}

/-- What fits has fitted so far. -/
theorem Fits.le (h : Fits lim n is) : n ≤ lim := by
  cases is with
  | nil => exact h
  | cons i is => exact h.1

/-- Behind an instruction the rest fits. -/
theorem Fits.tail (h : Fits lim n (i :: is)) : Fits lim (i.opcode.stackAfter n) is := h.2

/-- The stack through one piece of code and another. -/
theorem stackAfter_append (n : ℕ) (is js : List REOp) :
    stackAfter n (is ++ js) = stackAfter (stackAfter n is) js := List.foldl_append

/-- Code fits when its pieces do, one after the other. -/
theorem fits_append :
    Fits lim n (is ++ js) ↔ Fits lim n is ∧ Fits lim (stackAfter n is) js := by
  induction is generalizing n with
  | nil =>
    show Fits lim n js ↔ n ≤ lim ∧ Fits lim n js
    exact ⟨fun h => ⟨h.le, h⟩, fun h => h.2⟩
  | cons i is ih =>
    show n ≤ lim ∧ Fits lim (i.opcode.stackAfter n) (is ++ js)
      ↔ (n ≤ lim ∧ Fits lim (i.opcode.stackAfter n) is) ∧ Fits lim (stackAfter n (i :: is)) js
    rw [ih, and_assoc]
    rfl

/-- **`compute_stack_size`.**  The stack stays within what it returns. -/
theorem computeStackSize_fits (h : computeStackSize n m is = some k) (hn : n ≤ m) :
    m ≤ k ∧ Fits k n is := by
  induction is generalizing n m with
  | nil =>
    obtain rfl : m = k := Option.some.inj h
    exact ⟨le_rfl, hn⟩
  | cons i is ih =>
    -- an opcode that pushes may raise the maximum
    have hpush : ∀ {q : Option ℕ}, q = some k →
        q = (if m < n + 1 then
          if stackSizeMax < n + 1 then none else computeStackSize (n + 1) (n + 1) is
          else computeStackSize (n + 1) m is) → m ≤ k ∧ n ≤ k ∧ Fits k (n + 1) is := by
      intro q hq heq
      rw [hq] at heq
      split at heq
      · split at heq
        · exact absurd heq (by simp)
        · obtain ⟨hle, hfits⟩ := ih heq.symm le_rfl
          exact ⟨by omega, by omega, hfits⟩
      · obtain ⟨hle, hfits⟩ := ih heq.symm (by omega)
        exact ⟨hle, by omega, hfits⟩
    -- all others leave it as it is
    have hsame : ∀ n', n' ≤ n → computeStackSize n' m is = some k →
        m ≤ k ∧ n ≤ k ∧ Fits k n' is := fun n' hle hrun => by
      obtain ⟨hmk, hfits⟩ := ih hrun (by omega)
      exact ⟨hmk, by omega, hfits⟩
    rw [computeStackSize] at h
    show m ≤ k ∧ n ≤ k ∧ Fits k (i.opcode.stackAfter n) is
    cases hop : i.opcode <;> rw [hop] at h <;>
      first
        | exact hpush h rfl
        | exact hsame (n - 1) (Nat.sub_le n 1) h
        | exact hsame n le_rfl h

end Stack

/-! ### Reading operands -/

section Operands

variable {s : REExecContext} {code : List ℕ} {pc v target : ℕ} {d : ℤ} {op : REOPCodeEnum}
  {is : List REOp}

/-- An operand of four bytes is read back. -/
theorem u32_operand (h : CodeAt code pc (reEmitOpU32 op v :: is)) (hv : v < 256 ^ 4) :
    getLE 4 (code.drop (pc + 1)) = v := by
  obtain ⟨rest, hrest⟩ := h.operand
  rw [hrest]
  exact getLE_putLE hv rest

/-- An operand of one byte is read back. -/
theorem u8_operand (h : CodeAt code pc (reEmitOpU8 op v :: is)) (hv : v < 256) :
    code.getD (pc + 1) 0 = v := by
  obtain ⟨rest, hrest⟩ := h.operand
  have hget := congrArg (fun l => l.getD 0 0) hrest
  simp only [List.getD_eq_getElem?_getD, List.getElem?_drop, Nat.add_zero] at hget
  rw [List.getD_eq_getElem?_getD, hget]
  simp [reEmitOpU8, putLE, Nat.mod_eq_of_lt hv]

/-- A jump goes to the place that its displacement was made for. -/
theorem jump_target (hs : s.Ok) (h : CodeAt s.bcBuf pc (reEmitJump op d :: is))
    (ht : (target : ℤ) = pc + 5 + d) (hle : target ≤ s.bcBuf.length) :
    jump (pc + 1 + 4) (getLE 4 (s.bcBuf.drop (pc + 1))) = target := by
  have hsize := hs.size
  have hend := h.le (List.cons_ne_nil _ _)
  rw [codeSize_cons, size_jump] at hend
  obtain ⟨rest, hrest⟩ := h.operand
  have hval : getLE 4 (s.bcBuf.drop (pc + 1)) = toU32 d := by
    rw [hrest]
    exact getLE_putLE (toU32_lt d) rest
  rw [hval, jump, toInt_toU32 (by omega) (by omega)]
  omega

end Operands

/-! ### Implementation -/

/-- Entries that are tried when the machine goes back. -/
def IsChoice (e : REExecState) : Prop := e.type = .split ∨ e.type = .greedyQuant

/-- From `c`, the interpreter comes to `pc` with these matches, one after the other. -/
abbrev Tries (s : REExecContext) (pc : ℕ) (stack : List ℕ) (K : List REExecState) (c : Config)
    (L : List MatchState) : Prop :=
  Yields (step s) IsChoice (fun K => .recurse none K) (fun x K => .run (x.toState pc stack) K) K c L

/-- The code implements `f`, wherever it stands. -/
structure Implements (s : REExecContext) (is : List REOp) (f : MatchState → List MatchState) :
    Prop where
  balanced : ∀ n, stackAfter n is = n
  valid : ∀ x, s.Valid x → ∀ y ∈ f x, s.Valid y
  tries : ∀ pc stack x K, CodeAt s.bcBuf pc is → Fits s.stackSizeMax stack.length is → s.Valid x →
    Tries s (pc + codeSize is) stack K (.run (x.toState pc stack) K) (f x)

section Steps

variable {s : REExecContext} {pc pc' v n : ℕ} {stack : List ℕ} {x : MatchState}
  {K : List REExecState} {i : REOp} {is : List REOp} {d : ℤ} {op : REOPCodeEnum}
  {L L' : List MatchState} {greedy : Bool}

/-- What one step does, by the instruction that stands there. -/
theorem step_run (h : CodeAt s.bcBuf pc (i :: is)) :
    step s (.run (x.toState pc stack) K) =
      (simpleOp s i.opcode (pc + 1) x.pos).config (x.toState pc stack) K
        (execOp s i.opcode (pc + 1) (x.toState pc stack) K) := by
  have hop : REOPCodeEnum.ofByte (s.bcBuf.getD (x.toState pc stack).pc 0) = some i.opcode :=
    h.opcode
  rw [step, hop]
  rfl

/-- An instruction that does not only look at the input. -/
theorem step_exec (h : CodeAt s.bcBuf pc (i :: is))
    (hop : simpleOp s i.opcode (pc + 1) x.pos = .other) :
    step s (.run (x.toState pc stack) K) = execOp s i.opcode (pc + 1) (x.toState pc stack) K := by
  rw [step_run h, hop, SimpleResult.config]

/-- `goto` -/
theorem step_goto (target : ℕ) (hs : s.Ok) (h : CodeAt s.bcBuf pc (reEmitJump .goto d :: is))
    (ht : (target : ℤ) = pc + 5 + d) (hle : target ≤ s.bcBuf.length) :
    step s (.run (x.toState pc stack) K) = .inl (.run (x.toState target stack) K) := by
  rw [step_exec h rfl, reEmitJump, execOp, jump_target hs h ht hle]
  rfl

/-- A choice between going on and a jump. -/
theorem tries_split (target : ℕ) (hs : s.Ok)
    (h : CodeAt s.bcBuf pc (reEmitJump (splitOp greedy) d :: is))
    (ht : (target : ℤ) = pc + 5 + d) (hle : target ≤ s.bcBuf.length) {stack' : List ℕ}
    (hgo : ∀ K, Tries s pc' stack' K (.run (x.toState (pc + 5) stack) K) L)
    (hjump : ∀ K, Tries s pc' stack' K (.run (x.toState target stack) K) L') :
    Tries s pc' stack' K (.run (x.toState pc stack) K) (if greedy then L ++ L' else L' ++ L) := by
  have hjump₁ := jump_target hs h ht hle
  cases greedy with
  | true =>
    have hstep : step s (.run (x.toState pc stack) K) = .inl (.run (x.toState (pc + 5) stack)
        (⟨.split, 0, x.toState target stack⟩ :: K)) := by
      rw [step_exec h rfl, reEmitJump, splitOp, if_pos rfl, execOp, hjump₁]
      rfl
    refine .next hstep (.choose (.inl rfl) (hgo _) (.next ?_ (hjump K)))
    rfl
  | false =>
    have hstep : step s (.run (x.toState pc stack) K) = .inl (.run (x.toState target stack)
        (⟨.split, 0, x.toState (pc + 5) stack⟩ :: K)) := by
      rw [step_exec h rfl, reEmitJump, splitOp, if_neg Bool.false_ne_true, execOp, hjump₁]
      rfl
    refine .next hstep (.choose (.inl rfl) (hjump _) (.next ?_ (hgo K)))
    rfl

/-- `push_i32`, where there is room on the stack. -/
theorem step_pushI32 (h : CodeAt s.bcBuf pc (reEmitOpU32 .pushI32 v :: is)) (hv : v < 256 ^ 4)
    (hfits : Fits s.stackSizeMax stack.length (reEmitOpU32 .pushI32 v :: is)) :
    step s (.run (x.toState pc stack) K) = .inl (.run (x.toState (pc + 5) (v :: stack)) K) := by
  have hlt : (x.toState pc stack).stack.length < s.stackSizeMax := hfits.tail.le
  rw [step_exec h rfl, reEmitOpU32, execOp, u32_operand h hv]
  simp only [if_pos hlt]
  rfl

/-- `drop` -/
theorem step_drop (h : CodeAt s.bcBuf pc (reEmitOp .drop :: is)) :
    step s (.run (x.toState pc (v :: stack)) K) = .inl (.run (x.toState (pc + 1) stack) K) := by
  rw [step_exec h rfl, reEmitOp, execOp]
  rfl

/-- `loop`: the count goes down, and the jump is taken until it is 0. -/
theorem step_loop (stack : List ℕ) (target : ℕ) (hs : s.Ok)
    (h : CodeAt s.bcBuf pc (reEmitJump .loop d :: is))
    (ht : (target : ℤ) = pc + 5 + d) (hle : target ≤ s.bcBuf.length) :
    step s (.run (x.toState pc ((n + 1) :: stack)) K)
      = .inl (.run (x.toState (if n ≠ 0 then target else pc + 5) (n :: stack)) K) := by
  rw [step_exec h rfl, reEmitJump, execOp, jump_target hs h ht hle]
  rfl

/-- `push_char_pos`, where there is room on the stack. -/
theorem step_pushCharPos (h : CodeAt s.bcBuf pc (reEmitOp .pushCharPos :: is))
    (hfits : Fits s.stackSizeMax stack.length (reEmitOp .pushCharPos :: is)) :
    step s (.run (x.toState pc stack) K) = .inl (.run (x.toState (pc + 1) (x.pos :: stack)) K) := by
  have hlt : (x.toState pc stack).stack.length < s.stackSizeMax := hfits.tail.le
  rw [step_exec h rfl, reEmitOp, execOp]
  simp only [if_pos hlt]
  rfl

/-- `check_advance`: an iteration that has not moved is given up. -/
theorem step_checkAdvance (stack : List ℕ) (h : CodeAt s.bcBuf pc (reEmitOp .checkAdvance :: is)) :
    step s (.run (x.toState pc (v :: stack)) K)
      = if v = x.pos then .inl (.recurse none K)
        else .inl (.run (x.toState (pc + 1) stack) K) := by
  rw [step_exec h rfl, reEmitOp, execOp]
  rfl

/-- `match` gives the captures to whoever waits for them. -/
theorem step_match (h : CodeAt s.bcBuf pc (reEmitOp .match' :: is)) :
    step s (.run (x.toState pc stack) K) = .inl (.recurse (some x.caps) K) := by
  rw [step_exec h rfl, reEmitOp, execOp]
  rfl

end Steps

/-! ### Pieces of code -/

section Pieces

variable {s : REExecContext} {is js : List REOp} {f g : MatchState → List MatchState} {i : REOp}
  {p : ℕ → Bool} {n : ℕ} {isBackwardDir greedy : Bool}

/-- Only what is done from valid positions counts. -/
theorem Implements.congr (h : Implements s is f) (hfg : ∀ x, s.Valid x → f x = g x) :
    Implements s is g where
  balanced := h.balanced
  valid _ hx _ hy := h.valid _ hx _ (hfg _ hx ▸ hy)
  tries pc stack x K hcode hfits hx := hfg x hx ▸ h.tries pc stack x K hcode hfits hx

theorem Implements.nil (s : REExecContext) : Implements s [] fun x => [x] where
  balanced _ := rfl
  valid _ hx _ hy := List.mem_singleton.mp hy ▸ hx
  tries _ _ _ _ _ _ _ := .one .refl

/-- Code put together does one thing after the other. -/
theorem Implements.append (hf : Implements s is f) (hg : Implements s js g) :
    Implements s (is ++ js) fun x => (f x).flatMap g where
  balanced n := by rw [stackAfter_append, hf.balanced, hg.balanced]
  valid x hx y hy := by
    obtain ⟨z, hz, hy⟩ := List.mem_flatMap.mp hy
    exact hg.valid z (hf.valid x hx z hz) y hy
  tries pc stack x K hcode hfits hx := by
    have hfits' := fits_append.mp hfits
    rw [hf.balanced] at hfits'
    rw [codeSize_append, ← Nat.add_assoc]
    exact (hf.tries pc stack x K hcode.left hfits'.1 hx).bind fun y hy K' =>
      hg.tries _ stack y _ hcode.right hfits'.2 (hf.valid x hx y hy)

/-- An instruction that only looks at the input. -/
theorem Implements.simple (hbalanced : ∀ n, i.opcode.stackAfter n = n)
    (hvalid : ∀ x, s.Valid x → ∀ y ∈ f x, s.Valid y)
    (hstep : ∀ pc x, CodeAt s.bcBuf pc [i] → s.Valid x →
      (f x = [] ∧ simpleOp s i.opcode (pc + 1) x.pos = .noMatch) ∨
        ∃ p, f x = [{ x with pos := p }] ∧
          simpleOp s i.opcode (pc + 1) x.pos = .next (pc + i.size) p) :
    Implements s [i] f where
  balanced := hbalanced
  valid := hvalid
  tries pc stack x K hcode _ hx := by
    rw [codeSize_cons, codeSize_nil, Nat.add_zero]
    rcases hstep pc x hcode hx with ⟨hnone, hop⟩ | ⟨p, hsome, hop⟩
    · rw [hnone]
      exact .none (.one (by rw [step_run hcode, hop, SimpleResult.config]))
    · rw [hsome]
      exact .one (.one (by rw [step_run hcode, hop]; rfl))

/-- Another position within the input. -/
theorem Valid.withPos {x : MatchState} (hx : s.Valid x) {q : ℕ} (hq : q ≤ s.cbuf.length) :
    s.Valid { x with pos := q } := ⟨hq, hx.length, hx.caps⟩

/-- The units of the input are within the limits of the interpreter. -/
theorem charAt_lt (hs : s.Ok) {q : ℕ} (hq : q < s.cbuf.length) : s.charAt q < uint32Max := by
  rw [Subject.charAt, List.getD_eq_getElem _ _ hq]
  exact hs.chars _ (List.getElem_mem hq)

/-- What an instruction that matches one character does. -/
theorem simpleOp_tests (hs : s.Ok) (hi : i.Tests p) {pc q : ℕ} {is : List REOp}
    (hcode : CodeAt s.bcBuf pc (i :: is)) :
    simpleOp s i.opcode (pc + 1) q =
      if q < s.cbuf.length ∧ p (s.charAt q) = true then .next (pc + i.size) (q + 1)
      else .noMatch := by
  obtain ⟨rest, hrest⟩ := hcode.operand
  obtain ⟨test, hop, htest⟩ := hi rest
  unfold simpleOp
  rw [hrest, hop]
  simp only
  by_cases hq : q < s.cbuf.length
  · rw [if_neg (Nat.not_le_of_lt hq), htest _ (charAt_lt hs hq), REOp.size, Nat.add_assoc,
      Nat.add_comm 1]
    simp only [hq, true_and]
  · rw [if_pos (Nat.le_of_not_lt hq), if_neg fun h => hq h.1]

/-- A test leaves the stack as it is. -/
theorem stackAfter_tests (hi : i.Tests p) (n : ℕ) : i.opcode.stackAfter n = n := by
  obtain ⟨test, hop, -⟩ := hi []
  cases hcase : i.opcode <;> rw [hcase] at hop <;> first | rfl | exact absurd hop (by simp [charOp])

/-- A test, run by itself. -/
theorem Implements.tests (hs : s.Ok) (hi : i.Tests p) :
    Implements s [i] (oneChar s.toSubject p false) := by
  refine .simple (stackAfter_tests hi) (fun _ hx _ hy => ?_) fun pc x hcode _ => ?_
  · rw [oneChar, if_neg Bool.false_ne_true] at hy
    split at hy
    · rename_i hlt
      exact List.mem_singleton.mp hy ▸ Valid.withPos hx hlt.1
    · exact absurd hy List.not_mem_nil
  · rw [simpleOp_tests hs hi hcode, oneChar, if_neg Bool.false_ne_true]
    split
    · exact .inr ⟨_, rfl, rfl⟩
    · exact .inl ⟨rfl, rfl⟩

/-- One character back. -/
theorem Implements.prev (s : REExecContext) :
    Implements s [reEmitOp .prev] fun x =>
      if x.pos = 0 then [] else [{ x with pos := x.pos - 1 }] := by
  refine .simple (fun _ => rfl) (fun x hx y hy => ?_) fun pc x _ _ => ?_
  · split at hy
    · exact absurd hy List.not_mem_nil
    · have hpos := hx.pos
      exact List.mem_singleton.mp hy ▸ Valid.withPos hx (by omega)
  · show _ ∨ ∃ p, _ ∧ (if x.pos = 0 then SimpleResult.noMatch else .next (pc + 1) (x.pos - 1)) = _
    by_cases hzero : x.pos = 0
    · exact .inl ⟨if_pos hzero, if_pos hzero⟩
    · exact .inr ⟨x.pos - 1, if_neg hzero, if_neg hzero⟩

/-- A character, forwards or backwards. -/
theorem Implements.charTerm (hs : s.Ok) (hi : i.Tests p) (isBackwardDir : Bool) :
    Implements s (charTerm isBackwardDir i) (oneChar s.toSubject p isBackwardDir) := by
  cases isBackwardDir with
  | false => exact .tests hs hi
  | true =>
    have hback : Implements s ([reEmitOp .prev] ++ ([i] ++ [reEmitOp .prev])) _ :=
      (Implements.prev s).append ((Implements.tests hs hi).append (.prev s))
    refine hback.congr fun x hx => ?_
    have hpos := hx.pos
    simp only [oneChar, Bool.false_eq_true, if_false, if_true]
    by_cases hzero : x.pos = 0
    · rw [if_pos hzero, if_neg (by omega), List.flatMap_nil]
    · rw [if_neg hzero, List.flatMap_singleton]
      by_cases hp : p (s.charAt (x.pos - 1)) = true
      · rw [if_pos ⟨by simp only; omega, hp⟩, if_pos ⟨by omega, hp⟩, List.flatMap_singleton,
          if_neg (by simp only; omega)]
        simp only [Nat.add_sub_cancel]
      · rw [if_neg fun h => hp h.2, if_neg fun h => hp h.2, List.flatMap_nil]

/-- A condition on the position. -/
theorem Implements.assertion (hbalanced : ∀ n, op.stackAfter n = n)
    (hop : ∀ pc q, simpleOp s op pc q = checkThat pc q (p q)) :
    Implements s [reEmitOp op] (assertion p) := by
  refine .simple hbalanced (fun x hx y hy => ?_) fun pc x _ _ => ?_
  · rw [Regexp.assertion] at hy
    split at hy
    · exact List.mem_singleton.mp hy ▸ hx
    · exact absurd hy List.not_mem_nil
  · show _ ∨ ∃ q, _ ∧ simpleOp s op (pc + 1) x.pos = _
    rw [Regexp.assertion]
    show (_ ∧ simpleOp s op (pc + 1) x.pos = _) ∨ _
    rw [hop, checkThat]
    by_cases hp : p x.pos = true
    · rw [if_pos hp, if_pos hp]
      exact .inr ⟨x.pos, rfl, rfl⟩
    · rw [if_neg hp, if_neg hp]
      exact .inl ⟨rfl, rfl⟩

/-- Two alternatives. -/
theorem Implements.alt (hs : s.Ok) (hf : Implements s is f) (hg : Implements s js g) :
    Implements s (altCode is js) fun x => f x ++ g x where
  balanced n := by
    rw [altCode, stackAfter_append]
    show stackAfter (stackAfter n is) js = n
    rw [hf.balanced, hg.balanced]
  valid x hx y hy := (List.mem_append.mp hy).elim (hf.valid x hx y) (hg.valid x hx y)
  tries pc stack x K hcode hfits hx := by
    have hend := hcode.le (List.cons_ne_nil _ _)
    have hsize : codeSize (altCode is js) = 10 + codeSize is + codeSize js := by
      simp only [altCode, List.cons_append, codeSize_cons, codeSize_append, size_jump]
      omega
    rw [hsize] at hend ⊢
    obtain ⟨hfits₁, hfits₂⟩ := fits_append.mp hfits
    have hfits₃ : Fits s.stackSizeMax (stackAfter stack.length is) js := hfits₂.tail
    rw [hf.balanced] at hfits₃
    have hcode₁ : CodeAt s.bcBuf (pc + 5) (is ++ reEmitJump .goto (codeSize js) :: js) := hcode.tail
    have hcode₂ : CodeAt s.bcBuf (pc + 5 + codeSize is + 5) js := hcode₁.right.tail
    have hpc : pc + (10 + codeSize is + codeSize js) = pc + 5 + codeSize is + 5 + codeSize js := by
      omega
    have htarget : ((pc + 5 + codeSize is + 5 : ℕ) : ℤ) = pc + 5 + (codeSize is + 5) := by
      push_cast
      omega
    rw [hpc] at hend ⊢
    -- the split tries the first branch, whose `goto` skips the second
    refine tries_split _ hs (show CodeAt s.bcBuf pc (reEmitJump (splitOp true) _ :: _) from hcode)
      htarget (by omega) (fun K => ?_) fun K => hg.tries _ stack x K hcode₂ hfits₃ hx
    refine (hf.tries _ stack x K hcode₁.left hfits₁.tail hx).leave fun y _ K' => .one ?_
    exact step_goto _ hs hcode₁.right (by push_cast; omega) hend

end Pieces

end VideoPackages.Regexp
