import VideoPackages.Lib.Backtracking
import VideoPackages.RegexpMatch

namespace VideoPackages.Regexp

open Backtracking Bytes

/-!
# The interpreter of `libregexp.c`

A backtracking machine: the registers, and a stack of states to go back to.

* `REExecContext` — the code and the input; `REState` — the registers;
* `execOp` — one instruction; `stepRecurse` — a state is popped;
* `lreExec` — the interpreter on what `lre_compile` returns;
* `step_*` — what an instruction does, where it stands in the code.

The input is an array of units, 8 or 16 bits each: the flags `i` and `u` are left out.  That memory
runs out is left out.  What the C code leaves undefined, and assertions that fail, are `fault`.
-/

/-- `REExecContext`: the input, the code, and what the header says. -/
structure REExecContext extends Subject where
  bcBuf : List ℕ
  captureCount : ℕ
  stackSizeMax : ℕ

/-- The registers of `lre_exec_backtrack`; the stack with its top first. -/
structure REState where
  pc : ℕ
  cptr : ℕ
  capture : List (Option ℕ)
  stack : List ℕ

/-- `RE_EXEC_STATE_*`. -/
inductive REExecStateEnum where
  | split
  | lookahead
  | negativeLookahead
  | greedyQuant
  deriving DecidableEq, Repr

/-- `REExecState`. -/
structure REExecState where
  type : REExecStateEnum
  count : ℕ
  saved : REState

/-- `pc + (int)val`. -/
def jump (pc val : ℕ) : ℕ := (pc + toInt val).toNat

/-! ### Instructions that only look at the input -/

/-- What becomes of such an instruction. -/
inductive SimpleResult where
  | next (pc cptr : ℕ)
  | noMatch
  | other
  deriving DecidableEq, Repr

section Simple

variable (s : REExecContext)

/-- A condition on the position. -/
def checkThat (pc cptr : ℕ) (b : Bool) : SimpleResult := if b then .next pc cptr else .noMatch

/-- The `case`s of `lre_exec_backtrack` that only look at the input; `pc` is after the opcode. -/
def simpleOp (op : REOPCodeEnum) (pc cptr : ℕ) : SimpleResult :=
  match charOp op (s.bcBuf.drop pc) with
  | some (size, test) =>
    if s.cbuf.length ≤ cptr then .noMatch
    else if test (s.charAt cptr) then .next (pc + size) (cptr + 1)
    else .noMatch
  | none =>
    match op with
    | .lineStart => checkThat pc cptr (s.isLineStart cptr)
    | .lineEnd => checkThat pc cptr (s.isLineEnd cptr)
    | .wordBoundary => checkThat pc cptr (s.isWordBoundary cptr)
    | .notWordBoundary => checkThat pc cptr (!s.isWordBoundary cptr)
    | .prev => if cptr = 0 then .noMatch else .next pc (cptr - 1)
    | _ => .other

/-- `lre_exec_backtrack` with `no_recurse`: the position after the match, or that there is none.
    Other instructions than those above do not occur there. -/
def execSimple : ℕ → ℕ → ℕ → Option (Option ℕ)
  | 0, _, _ => none
  | fuel + 1, pc, cptr =>
    match REOPCodeEnum.ofByte (s.bcBuf.getD pc 0) with
    | none => none
    | some .match' => some (some cptr)
    | some op =>
      match simpleOp s op (pc + 1) cptr with
      | .next pc cptr => execSimple fuel pc cptr
      | .noMatch => some none
      | .other => none

/-- The loop of `REOP_simple_greedy_quant`: how often the atom matches, and where the last match
    ends. -/
def greedyLoop (pc quantMax : ℕ) : ℕ → ℕ → ℕ → Option (ℕ × ℕ)
  | 0, _, _ => none
  | fuel + 1, q, cptr =>
    match execSimple s s.bcBuf.length pc cptr with
    | none => none
    | some none => some (q, cptr)
    | some (some cptr) =>
      if quantMax ≤ q + 1 ∧ quantMax ≠ int32Max then some (q + 1, cptr)
      else greedyLoop pc quantMax fuel (q + 1) cptr

/-- The loop of `REOP_back_reference`, over `n` characters from `cptr1` on. -/
def backReferenceLoop : ℕ → ℕ → ℕ → Option ℕ
  | 0, _, cptr => some cptr
  | n + 1, cptr1, cptr =>
    if s.cbuf.length ≤ cptr then none
    else if s.charAt cptr1 = s.charAt cptr then backReferenceLoop n (cptr1 + 1) (cptr + 1)
    else none

/-- The loop of `REOP_backward_back_reference`, over `n` characters up to `cptr1`. -/
def backwardBackReferenceLoop : ℕ → ℕ → ℕ → Option ℕ
  | 0, _, cptr => some cptr
  | n + 1, cptr1, cptr =>
    if cptr = 0 then none
    else if s.charAt (cptr1 - 1) = s.charAt (cptr - 1) then
      backwardBackReferenceLoop n (cptr1 - 1) (cptr - 1)
    else none

end Simple

/-! ### `lre_exec_backtrack` -/

/-- What the interpreter returns. -/
inductive ExecResult where
  | found (capture : List (Option ℕ))
  | notFound
  | fault
  deriving DecidableEq, Repr

/-- The interpreter runs, or goes back: after a match with its captures, or without a match. -/
inductive Config where
  | run (st : REState) (states : List REExecState)
  | recurse (ret : Option (List (Option ℕ))) (states : List REExecState)

/-- The loop of `REOP_save_reset`, over `n` groups from `val` on. -/
def saveResetLoop : ℕ → ℕ → List (Option ℕ) → List (Option ℕ)
  | 0, _, capture => capture
  | n + 1, val, capture =>
    saveResetLoop n (val + 1) ((capture.set (2 * val) none).set (2 * val + 1) none)

section Exec

variable (s : REExecContext)

/-- The other `case`s of `lre_exec_backtrack`; `pc` is after the opcode. -/
def execOp (op : REOPCodeEnum) (pc : ℕ) (st : REState) (states : List REExecState) :
    Config ⊕ ExecResult :=
  let val := getLE 4 (s.bcBuf.drop pc)
  let byte := s.bcBuf.getD pc 0
  match op with
  | .match' => .inl (.recurse (some st.capture) states)
  | .splitGotoFirst =>
    .inl (.run { st with pc := jump (pc + 4) val }
      (⟨.split, 0, { st with pc := pc + 4 }⟩ :: states))
  | .splitNextFirst =>
    .inl (.run { st with pc := pc + 4 }
      (⟨.split, 0, { st with pc := jump (pc + 4) val }⟩ :: states))
  | .lookahead =>
    .inl (.run { st with pc := pc + 4 }
      (⟨.lookahead, 0, { st with pc := jump (pc + 4) val }⟩ :: states))
  | .negativeLookahead =>
    .inl (.run { st with pc := pc + 4 }
      (⟨.negativeLookahead, 0, { st with pc := jump (pc + 4) val }⟩ :: states))
  | .goto => .inl (.run { st with pc := jump (pc + 4) val } states)
  | .saveStart =>
    if byte < s.captureCount then
      .inl (.run { st with pc := pc + 1, capture := st.capture.set (2 * byte) (some st.cptr) }
        states)
    else .inr .fault
  | .saveEnd =>
    if byte < s.captureCount then
      .inl (.run { st with pc := pc + 1, capture := st.capture.set (2 * byte + 1) (some st.cptr) }
        states)
    else .inr .fault
  | .saveReset =>
    let val2 := s.bcBuf.getD (pc + 1) 0
    if val2 < s.captureCount then
      .inl (.run { st with
        pc := pc + 2, capture := saveResetLoop (val2 + 1 - byte) byte st.capture } states)
    else .inr .fault
  | .pushI32 =>
    if st.stack.length < s.stackSizeMax then
      .inl (.run { st with pc := pc + 4, stack := val :: st.stack } states)
    else .inr .fault
  | .drop =>
    match st.stack with
    | _ :: stack => .inl (.run { st with pc := pc, stack := stack } states)
    | [] => .inr .fault
  | .loop =>
    match st.stack with
    | (n + 1) :: stack =>
      .inl (.run { st with
        pc := if n ≠ 0 then jump (pc + 4) val else pc + 4, stack := n :: stack } states)
    | _ => .inr .fault
  | .pushCharPos =>
    if st.stack.length < s.stackSizeMax then
      .inl (.run { st with pc := pc, stack := st.cptr :: st.stack } states)
    else .inr .fault
  | .checkAdvance =>
    match st.stack with
    | pos :: stack =>
      if pos = st.cptr then .inl (.recurse none states)
      else .inl (.run { st with pc := pc, stack := stack } states)
    | [] => .inr .fault
  | .backReference =>
    if s.captureCount ≤ byte then .inl (.recurse none states)
    else
      match st.capture.getD (2 * byte) none, st.capture.getD (2 * byte + 1) none with
      | some cptr1Start, some cptr1End =>
        match backReferenceLoop s (cptr1End - cptr1Start) cptr1Start st.cptr with
        | some cptr => .inl (.run { st with pc := pc + 1, cptr := cptr } states)
        | none => .inl (.recurse none states)
      | _, _ => .inl (.run { st with pc := pc + 1 } states)
  | .backwardBackReference =>
    if s.captureCount ≤ byte then .inl (.recurse none states)
    else
      match st.capture.getD (2 * byte) none, st.capture.getD (2 * byte + 1) none with
      | some cptr1Start, some cptr1End =>
        match backwardBackReferenceLoop s (cptr1End - cptr1Start) cptr1End st.cptr with
        | some cptr => .inl (.run { st with pc := pc + 1, cptr := cptr } states)
        | none => .inl (.recurse none states)
      | _, _ => .inl (.run { st with pc := pc + 1 } states)
  | .simpleGreedyQuant =>
    let quantMin := getLE 4 (s.bcBuf.drop (pc + 4))
    let quantMax := getLE 4 (s.bcBuf.drop (pc + 8))
    match greedyLoop s (pc + 16) quantMax (s.cbuf.length + 1) 0 st.cptr with
    | none => .inr .fault
    | some (q, cptr) =>
      if q < quantMin then .inl (.recurse none states)
      else
        let next := { st with pc := jump (pc + 16) val, cptr := cptr }
        -- all matches down to `quantMin` are examined
        if quantMin < q then
          .inl (.run next
            (⟨.greedyQuant, q - quantMin, { st with pc := pc, cptr := cptr }⟩ :: states))
        else .inl (.run next states)
  | _ => .inr .fault

/-- The loop at `recurse:`, one state. -/
def stepRecurse (ret : Option (List (Option ℕ))) : List REExecState → Config ⊕ ExecResult
  | [] =>
    match ret with
    | some capture => .inr (.found capture)
    | none => .inr .notFound
  | rs :: states =>
    match rs.type, ret with
    | .split, none => .inl (.run rs.saved states)
    | .split, some _ => .inl (.recurse ret states)
    | .greedyQuant, none =>
      let pc := rs.saved.pc
      let charCount := getLE 4 (s.bcBuf.drop (pc + 12))
      let cptr := rs.saved.cptr - charCount
      let next := { rs.saved with pc := jump (pc + 16) (getLE 4 (s.bcBuf.drop pc)), cptr := cptr }
      if rs.count - 1 = 0 then .inl (.run next states)
      else
        .inl (.run next (⟨.greedyQuant, rs.count - 1, { rs.saved with cptr := cptr }⟩ :: states))
    | .greedyQuant, some _ => .inl (.recurse ret states)
    | .lookahead, some capture => .inl (.run { rs.saved with capture := capture } states)
    | .lookahead, none => .inl (.recurse none states)
    | .negativeLookahead, none => .inl (.run rs.saved states)
    | .negativeLookahead, some _ => .inl (.recurse none states)

/-- What an instruction that only looks at the input comes to, when other instructions come to
    `other`. -/
def SimpleResult.config (st : REState) (states : List REExecState) (other : Config ⊕ ExecResult) :
    SimpleResult → Config ⊕ ExecResult
  | .next pc cptr => .inl (.run { st with pc := pc, cptr := cptr } states)
  | .noMatch => .inl (.recurse none states)
  | .other => other

/-- `lre_exec_backtrack`, one instruction or one state. -/
def step : Config → Config ⊕ ExecResult
  | .run st states =>
    match REOPCodeEnum.ofByte (s.bcBuf.getD st.pc 0) with
    | none => .inr .fault
    | some op =>
      (simpleOp s op (st.pc + 1) st.cptr).config st states (execOp s op (st.pc + 1) st states)
  | .recurse ret states => stepRecurse s ret states

end Exec

/-- The context that the header and the input make. -/
def execContext (bcBuf cbuf : List ℕ) : REExecContext where
  bcBuf := bcBuf.drop 7
  cbuf := cbuf
  captureCount := bcBuf.getD 1 0
  stackSizeMax := bcBuf.getD 2 0
  multiLine := decide (bcBuf.getD 0 0 / 4 % 2 = 1)

/-- The registers at the start. -/
def startState (s : REExecContext) (cindex : ℕ) : REState :=
  ⟨0, cindex, List.replicate (2 * s.captureCount) none, []⟩

/-- `lre_exec`, for at most `fuel` steps. -/
def lreExec (fuel : ℕ) (bcBuf cbuf : List ℕ) (cindex : ℕ) : Option ExecResult :=
  let s := execContext bcBuf cbuf
  runFor (step s) fuel (.run (startState s cindex) [])

end VideoPackages.Regexp
