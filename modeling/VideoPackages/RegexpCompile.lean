import VideoPackages.RegexpClass

namespace VideoPackages.Regexp

open Bytes

/-!
# The compiler of `libregexp.c`

The compiler parses a regular expression and appends instructions as it goes, or inserts them before
what it has appended last.  Here the expression is parsed already.

* `RegExp` — regular expressions;
* `reQuantifier` — the end of `re_parse_term`, which turns the code of an atom into that of a loop;
* `reParse` — `re_parse_term`, `re_parse_alternative` and `re_parse_disjunction`;
* `lreCompile` — the header and the code.

The flags `i` and `u`, named groups, and the reading of the text are left out.
-/

/-- A regular expression, as it is parsed: from the left, so that a sequence or an alternative ends
    with its last term. -/
inductive RegExp where
  | empty
  | seq (a t : RegExp)
  | alt (a b : RegExp)
  | lineStart
  | lineEnd
  | dot
  | char (c : ℕ)
  | escape (e : CharRangeEnum)
  | charClass (atoms : List ClassAtom) (invert : Bool)
  | wordBoundary (isNot : Bool)
  | backReference (i : ℕ)
  | group (r : RegExp)
  | capture (r : RegExp)
  | look (isBackward isNeg : Bool) (r : RegExp)
  | quant (r : RegExp) (quantMin quantMax : ℕ) (greedy : Bool)

namespace RegExp

/-- How many groups are captured. -/
def captures : RegExp → ℕ
  | seq a b | alt a b => a.captures + b.captures
  | group r | look _ _ r | quant r _ _ _ => r.captures
  | capture r => r.captures + 1
  | _ => 0

/-- What may be repeated: `last_atom_start` is set. -/
def isAtom : RegExp → Bool
  | dot | char _ | escape _ | charClass _ _ | backReference _ | group _ | capture _ => true
  | look isBackward _ _ => !isBackward
  | _ => false

end RegExp

/-- `INT32_MAX`, which stands for no maximum. -/
def int32Max : ℕ := 2147483647

/-! ### Quantifiers -/

/-- What the checks of an atom make of an opcode. -/
inductive OpKind where
  /-- One character. -/
  | simpleChar
  /-- A condition on the position. -/
  | assertion
  /-- Nothing that moves, or what moves back over a character. -/
  | noEffect
  | other
  deriving DecidableEq, Repr

/-- The `case`s of `re_need_check_advance` and `re_is_simple_quantifier`. -/
def REOPCodeEnum.kind : REOPCodeEnum → OpKind
  | .range | .range32 | .char | .char32 | .dot | .any => .simpleChar
  | .lineStart | .lineEnd | .wordBoundary | .notWordBoundary => .assertion
  | .pushI32 | .pushCharPos | .drop | .prev | .saveStart | .saveEnd | .saveReset | .backReference
  | .backwardBackReference => .noEffect
  | _ => .other

/-- The loop of `re_need_check_advance`. -/
def reNeedCheckAdvanceLoop (ret : Bool) : List REOp → Bool
  | [] => ret
  | i :: is =>
    match i.opcode.kind with
    | .simpleChar => reNeedCheckAdvanceLoop false is
    | .assertion | .noEffect => reNeedCheckAdvanceLoop ret is
    | .other => true

/-- `re_need_check_advance`. -/
def reNeedCheckAdvance (is : List REOp) : Bool := reNeedCheckAdvanceLoop true is

/-- The loop of `re_is_simple_quantifier`; `none` is -1. -/
def reIsSimpleQuantifierLoop (count : ℕ) : List REOp → Option ℕ
  | [] => some count
  | i :: is =>
    match i.opcode.kind with
    | .simpleChar => reIsSimpleQuantifierLoop (count + 1) is
    | .assertion => reIsSimpleQuantifierLoop count is
    | .noEffect | .other => none

/-- `re_is_simple_quantifier`. -/
def reIsSimpleQuantifier (is : List REOp) : Option ℕ := reIsSimpleQuantifierLoop 0 is

/-- `REOP_split_goto_first + greedy`. -/
def splitOp (greedy : Bool) : REOPCodeEnum := if greedy then .splitNextFirst else .splitGotoFirst

/-- The atom, with the check that it advances. -/
def advancing (check : Bool) (atom : List REOp) : List REOp :=
  if check then reEmitOp .pushCharPos :: atom ++ [reEmitOp .checkAdvance] else atom

/-- The atom once or not at all. -/
def optionCode (greedy check : Bool) (atom : List REOp) : List REOp :=
  reEmitJump (splitOp greedy) (codeSize (advancing check atom)) :: advancing check atom

/-- The atom any number of times. -/
def starCode (greedy check : Bool) (atom : List REOp) : List REOp :=
  reEmitJump (splitOp greedy) (codeSize (advancing check atom) + 5) :: advancing check atom ++
    [reEmitJump .goto (-(codeSize (advancing check atom) + 10))]

/-- The atom up to `n` times. -/
def upToCode (greedy check : Bool) (n : ℕ) (atom : List REOp) : List REOp :=
  reEmitOpU32 .pushI32 n ::
    reEmitJump (splitOp greedy) (codeSize (advancing check atom) + 5) :: advancing check atom ++
    [reEmitJump .loop (-(codeSize (advancing check atom) + 10)), reEmitOp .drop]

/-- The atom `n` times. -/
def timesCode (n : ℕ) (atom : List REOp) : List REOp :=
  if n = 1 then atom
  else reEmitOpU32 .pushI32 n :: atom ++ [reEmitJump .loop (-(codeSize atom + 5)), reEmitOp .drop]

/-- `REOP_save_reset`, in case the atom is not executed. -/
def resetCode (lastCaptureCount captureCount : ℕ) : List REOp :=
  if lastCaptureCount ≠ captureCount then
    [⟨.saveReset, putLE 1 lastCaptureCount ++ putLE 1 (captureCount - 1)⟩]
  else []

/-- `REOP_simple_greedy_quant`. -/
def simpleQuantCode (quantMin quantMax len : ℕ) (atom : List REOp) : List REOp :=
  ⟨.simpleGreedyQuant, putLE 4 (codeSize atom + 1) ++ putLE 4 quantMin ++ putLE 4 quantMax
    ++ putLE 4 len⟩ :: atom ++ [reEmitOp .match']

/-- The code of a quantifier that is not a simple one. -/
def loopCode (quantMin quantMax : ℕ) (greedy check : Bool) (lastCaptureCount captureCount : ℕ)
    (atom : List REOp) : List REOp :=
  if quantMin = 0 then
    resetCode lastCaptureCount captureCount ++
      if quantMax = 0 then []
      else if quantMax = 1 then optionCode greedy check atom
      else if quantMax = int32Max then starCode greedy check atom
      else upToCode greedy check quantMax atom
  else if quantMin = 1 ∧ quantMax = int32Max ∧ check = false then
    atom ++ [reEmitJump (splitOp !greedy) (-(codeSize atom + 5))]
  else
    timesCode quantMin atom ++
      if quantMax = int32Max then starCode greedy check atom
      else if quantMin < quantMax then upToCode greedy check (quantMax - quantMin) atom
      else []

/-- The quantifier part of `re_parse_term`. -/
def reQuantifier (quantMin quantMax : ℕ) (greedy : Bool) (lastCaptureCount captureCount : ℕ)
    (atom : List REOp) : List REOp :=
  if greedy then
    match reIsSimpleQuantifier atom with
    | some (len + 1) =>
      if 0 < quantMax then simpleQuantCode quantMin quantMax (len + 1) atom
      else loopCode quantMin quantMax greedy (reNeedCheckAdvance atom) lastCaptureCount captureCount
        atom
    | _ => loopCode quantMin quantMax greedy (reNeedCheckAdvance atom) lastCaptureCount captureCount
        atom
  else loopCode quantMin quantMax greedy false lastCaptureCount captureCount atom

/-! ### Terms, alternatives and disjunctions -/

/-- A character is read, or, in a lookbehind, the one before. -/
def charTerm (isBackwardDir : Bool) (i : REOp) : List REOp :=
  if isBackwardDir then [reEmitOp .prev, i, reEmitOp .prev] else [i]

/-- The code between two alternatives. -/
def altCode (first second : List REOp) : List REOp :=
  reEmitJump .splitNextFirst (codeSize first + 5) :: first ++
    reEmitJump .goto (codeSize second) :: second

/-- A lookahead or lookbehind. -/
def lookCode (isNeg : Bool) (code : List REOp) : List REOp :=
  reEmitJump (if isNeg then .negativeLookahead else .lookahead) (codeSize code + 1) :: code ++
    [reEmitOp .match']

/-- A captured group; a lookbehind comes to its end first. -/
def captureCode (isBackwardDir : Bool) (captureIndex : ℕ) (code : List REOp) : List REOp :=
  reEmitOpU8 (if isBackwardDir then .saveEnd else .saveStart) captureIndex :: code ++
    [reEmitOpU8 (if isBackwardDir then .saveStart else .saveEnd) captureIndex]

/-- `CAPTURE_COUNT_MAX`. -/
def captureCountMax : ℕ := 255

/-- `re_parse_term`, `re_parse_alternative` and `re_parse_disjunction`: the code of an expression,
    when `captureCount` groups were captured before it, the whole match included. -/
def reParse (dotall : Bool) : RegExp → Bool → ℕ → Except String (List REOp)
  | .empty, _, _ => .ok []
  | .seq a t, isBackwardDir, captureCount => do
    let code ← reParse dotall a isBackwardDir captureCount
    let term ← reParse dotall t isBackwardDir (captureCount + a.captures)
    -- the terms of a lookbehind are in reverse order
    return if isBackwardDir then term ++ code else code ++ term
  | .alt a b, isBackwardDir, captureCount => do
    let first ← reParse dotall a isBackwardDir captureCount
    let second ← reParse dotall b isBackwardDir (captureCount + a.captures)
    return altCode first second
  | .lineStart, _, _ => .ok [reEmitOp .lineStart]
  | .lineEnd, _, _ => .ok [reEmitOp .lineEnd]
  | .dot, isBackwardDir, _ =>
    .ok (charTerm isBackwardDir (reEmitOp (if dotall then .any else .dot)))
  | .char c, isBackwardDir, _ =>
    .ok (charTerm isBackwardDir
      (if c ≤ 0xffff then reEmitOpU16 .char c else reEmitOpU32 .char32 c))
  | .escape e, isBackwardDir, _ => do
    let i ← reEmitRange (crInitCharRange e)
    return charTerm isBackwardDir i
  | .charClass atoms invert, isBackwardDir, _ => do
    let i ← reParseClass atoms invert
    return charTerm isBackwardDir i
  | .wordBoundary isNot, _, _ =>
    .ok [reEmitOp (if isNot then .notWordBoundary else .wordBoundary)]
  | .backReference i, isBackwardDir, _ =>
    .ok [reEmitOpU8 (if isBackwardDir then .backwardBackReference else .backReference) i]
  | .group r, isBackwardDir, captureCount => reParse dotall r isBackwardDir captureCount
  | .capture r, isBackwardDir, captureCount =>
    if captureCountMax ≤ captureCount then .error "too many captures"
    else do
      let code ← reParse dotall r isBackwardDir (captureCount + 1)
      return captureCode isBackwardDir captureCount code
  | .look isBackward isNeg r, _, captureCount => do
    let code ← reParse dotall r isBackward captureCount
    return lookCode isNeg code
  | .quant r quantMin quantMax greedy, isBackwardDir, captureCount => do
    let atom ← reParse dotall r isBackwardDir captureCount
    if r.isAtom = false then .error "nothing to repeat"
    else if quantMax < quantMin then .error "invalid repetition count"
    else return reQuantifier quantMin quantMax greedy captureCount (captureCount + r.captures) atom

/-! ### `lre_compile` -/

/-- `STACK_SIZE_MAX`. -/
def stackSizeMax : ℕ := 255

/-- `compute_stack_size`; `none` is -1. -/
def computeStackSize (stackSize sizeMax : ℕ) : List REOp → Option ℕ
  | [] => some sizeMax
  | i :: is =>
    match i.opcode with
    | .pushI32 | .pushCharPos =>
      if sizeMax < stackSize + 1 then
        if stackSizeMax < stackSize + 1 then none
        else computeStackSize (stackSize + 1) (stackSize + 1) is
      else computeStackSize (stackSize + 1) sizeMax is
    | .drop | .checkAdvance => computeStackSize (stackSize - 1) sizeMax is
    | _ => computeStackSize stackSize sizeMax is

/-- `LRE_FLAG_MULTILINE`, `LRE_FLAG_DOTALL` and `LRE_FLAG_STICKY`. -/
structure LreFlags where
  multiline : Bool
  dotall : Bool
  sticky : Bool
  deriving DecidableEq, Repr

/-- The flags as a number. -/
def LreFlags.toByte (f : LreFlags) : ℕ :=
  f.multiline.toNat * 4 + f.dotall.toNat * 8 + f.sticky.toNat * 32

/-- What iterates through all positions. -/
def searchCode : List REOp :=
  [reEmitJump .splitGotoFirst (1 + 5), reEmitOp .any, reEmitJump .goto (-(5 + 1 + 5))]

/-- The instructions of an expression with code `body`. -/
def programCode (sticky : Bool) (body : List REOp) : List REOp :=
  (if sticky then [] else searchCode) ++
    (reEmitOpU8 .saveStart 0 :: body ++ [reEmitOpU8 .saveEnd 0, reEmitOp .match'])

/-- The header: the flags, the number of captures, the size of the stack, and the size of the code,
    in 7 bytes. -/
def lreHeader (f : LreFlags) (captureCount stackSize size : ℕ) : List ℕ :=
  f.toByte :: captureCount :: stackSize :: putLE 4 size

/-- `lre_compile`. -/
def lreCompile (f : LreFlags) (re : RegExp) : Except String (List ℕ) := do
  let body ← reParse f.dotall re false 1
  let code := programCode f.sticky body
  match computeStackSize 0 0 code with
  | none => .error "too many imbricated quantifiers"
  | some stackSize =>
    return lreHeader f (re.captures + 1) stackSize (codeSize code) ++ codeBytes code

end VideoPackages.Regexp
