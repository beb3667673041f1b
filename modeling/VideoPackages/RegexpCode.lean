import VideoPackages.Lib.Bytes

namespace VideoPackages.Regexp

open Bytes

/-!
# The instructions of `libregexp.c`

The compiler appends instructions to a buffer, and the interpreter reads its bytes.

* `REOPCodeEnum` — the opcodes, in the order of `libregexp-opcode.h`;
* `REOp` / `bytes` — an instruction, and the bytes of a list of instructions;
* `CodeAt` — instructions at a place in the buffer; `CodeAt.cons` / `CodeAt.append`.
-/

/-- The opcodes of `libregexp-opcode.h`. -/
inductive REOPCodeEnum where
  | invalid
  | char
  | char32
  | dot
  | any
  | lineStart
  | lineEnd
  | goto
  | splitGotoFirst
  | splitNextFirst
  | match'
  | saveStart
  | saveEnd
  | saveReset
  | loop
  | pushI32
  | drop
  | wordBoundary
  | notWordBoundary
  | backReference
  | backwardBackReference
  | range
  | range32
  | lookahead
  | negativeLookahead
  | pushCharPos
  | checkAdvance
  | prev
  | simpleGreedyQuant
  deriving DecidableEq, Repr

namespace REOPCodeEnum

/-- The opcodes in order. -/
def all : List REOPCodeEnum :=
  [invalid, char, char32, dot, any, lineStart, lineEnd, goto, splitGotoFirst, splitNextFirst,
    match', saveStart, saveEnd, saveReset, loop, pushI32, drop, wordBoundary, notWordBoundary,
    backReference, backwardBackReference, range, range32, lookahead, negativeLookahead,
    pushCharPos, checkAdvance, prev, simpleGreedyQuant]

/-- The byte of an opcode. -/
def byte (op : REOPCodeEnum) : ℕ := all.idxOf op

/-- The opcode of a byte. -/
def ofByte (b : ℕ) : Option REOPCodeEnum := all[b]?

@[simp] theorem ofByte_byte (op : REOPCodeEnum) : ofByte op.byte = some op := by cases op <;> rfl

end REOPCodeEnum

/-- An instruction: the opcode, and the bytes of the operands. -/
structure REOp where
  opcode : REOPCodeEnum
  operand : List ℕ
  deriving DecidableEq, Repr

/-- `re_emit_op`. -/
def reEmitOp (op : REOPCodeEnum) : REOp := ⟨op, []⟩

/-- `re_emit_op_u8`. -/
def reEmitOpU8 (op : REOPCodeEnum) (val : ℕ) : REOp := ⟨op, putLE 1 val⟩

/-- `re_emit_op_u16`. -/
def reEmitOpU16 (op : REOPCodeEnum) (val : ℕ) : REOp := ⟨op, putLE 2 val⟩

/-- `re_emit_op_u32`. -/
def reEmitOpU32 (op : REOPCodeEnum) (val : ℕ) : REOp := ⟨op, putLE 4 val⟩

/-- An `int` as a `uint32_t`. -/
def toU32 (v : ℤ) : ℕ := (v % 4294967296).toNat

/-- `(int)val`. -/
def toInt (v : ℕ) : ℤ := if v < 2147483648 then v else v - 4294967296

/-- A displacement that fits into 32 bits is read back with its sign. -/
theorem toInt_toU32 {v : ℤ} (hmin : -2147483648 ≤ v) (hmax : v < 2147483648) :
    toInt (toU32 v) = v := by
  rw [toInt, toU32]
  split <;> omega

/-- A displacement is written in four bytes. -/
theorem toU32_lt (v : ℤ) : toU32 v < 256 ^ 4 := by
  rw [toU32]
  omega

/-- A jump, by a distance from the end of its operand: `re_emit_goto`, and what is patched or
    inserted with `put_u32`. -/
def reEmitJump (op : REOPCodeEnum) (distance : ℤ) : REOp := ⟨op, putLE 4 (toU32 distance)⟩

namespace REOp

/-- The size of an instruction: that of `reopcode_info`, and of the bounds of a range. -/
def size (i : REOp) : ℕ := i.operand.length + 1

/-- The bytes of an instruction. -/
def bytes (i : REOp) : List ℕ := i.opcode.byte :: i.operand

end REOp

/-- The bytes of instructions. -/
def codeBytes (is : List REOp) : List ℕ := is.flatMap REOp.bytes

/-- The size of instructions. -/
def codeSize (is : List REOp) : ℕ := (is.map REOp.size).sum

section Size

variable (i : REOp) (is js : List REOp)

@[simp] theorem size_op (op : REOPCodeEnum) : (reEmitOp op).size = 1 := rfl

@[simp] theorem size_opU8 (op : REOPCodeEnum) (v : ℕ) : (reEmitOpU8 op v).size = 2 := rfl

@[simp] theorem size_opU16 (op : REOPCodeEnum) (v : ℕ) : (reEmitOpU16 op v).size = 3 := rfl

@[simp] theorem size_opU32 (op : REOPCodeEnum) (v : ℕ) : (reEmitOpU32 op v).size = 5 := rfl

@[simp] theorem size_jump (op : REOPCodeEnum) (d : ℤ) : (reEmitJump op d).size = 5 := rfl

@[simp] theorem codeSize_nil : codeSize [] = 0 := rfl

@[simp] theorem codeSize_cons : codeSize (i :: is) = i.size + codeSize is := by
  rw [codeSize, List.map_cons, List.sum_cons, codeSize]

@[simp] theorem codeSize_append : codeSize (is ++ js) = codeSize is + codeSize js := by
  rw [codeSize, List.map_append, List.sum_append, codeSize, codeSize]

/-- Sizes are counted in bytes. -/
theorem length_codeBytes : (codeBytes is).length = codeSize is := by
  induction is with
  | nil => rfl
  | cons i is ih =>
    rw [codeBytes, List.flatMap_cons, List.length_append, codeSize_cons, ← ih, codeBytes]
    simp only [REOp.bytes, List.length_cons, REOp.size]

end Size

/-- The instructions stand in the code at `pc`. -/
def CodeAt (code : List ℕ) (pc : ℕ) (is : List REOp) : Prop :=
  ∃ rest, code.drop pc = codeBytes is ++ rest

section CodeAt

variable {code : List ℕ} {pc : ℕ} {i : REOp} {is js : List REOp}

/-- Code in front of other code stands where both stand. -/
theorem CodeAt.left (h : CodeAt code pc (is ++ js)) : CodeAt code pc is := by
  obtain ⟨rest, h⟩ := h
  refine ⟨codeBytes js ++ rest, ?_⟩
  rw [h, codeBytes, List.flatMap_append, List.append_assoc, codeBytes, codeBytes]

/-- Code behind other code stands where that ends. -/
theorem CodeAt.right (h : CodeAt code pc (is ++ js)) : CodeAt code (pc + codeSize is) js := by
  obtain ⟨rest, h⟩ := h
  refine ⟨rest, ?_⟩
  rw [← List.drop_drop, h, codeBytes, List.flatMap_append, List.append_assoc]
  exact List.drop_left' (length_codeBytes is)

/-- Behind an instruction stands the rest of the code. -/
theorem CodeAt.tail (h : CodeAt code pc (i :: is)) : CodeAt code (pc + i.size) is := by
  have h₁ : CodeAt code pc ([i] ++ is) := h
  simpa using h₁.right

/-- The bytes at an instruction. -/
theorem CodeAt.drop (h : CodeAt code pc (i :: is)) :
    ∃ rest, code.drop pc = i.opcode.byte :: (i.operand ++ rest) := by
  obtain ⟨rest, h⟩ := h
  refine ⟨codeBytes is ++ rest, ?_⟩
  rw [h, codeBytes, List.flatMap_cons, REOp.bytes, List.append_assoc, List.cons_append, codeBytes]

/-- The bytes after an opcode. -/
theorem CodeAt.operand (h : CodeAt code pc (i :: is)) :
    ∃ rest, code.drop (pc + 1) = i.operand ++ rest := by
  obtain ⟨rest, h⟩ := h.drop
  exact ⟨rest, by rw [← List.drop_drop, h, List.drop_one, List.tail_cons]⟩

/-- The interpreter reads the instruction that was written. -/
theorem CodeAt.opcode (h : CodeAt code pc (i :: is)) :
    REOPCodeEnum.ofByte (code.getD pc 0) = some i.opcode := by
  obtain ⟨rest, h⟩ := h.drop
  have hget : code.getD pc 0 = i.opcode.byte := by
    have h₀ := congrArg (fun l => l.getD 0 0) h
    simpa [List.getD_eq_getElem?_getD] using h₀
  rw [hget, REOPCodeEnum.ofByte_byte]

/-- The instructions end within the code. -/
theorem CodeAt.le (h : CodeAt code pc is) (hne : is ≠ []) : pc + codeSize is ≤ code.length := by
  obtain ⟨rest, h⟩ := h
  have hlen := congrArg List.length h
  rw [List.length_drop, List.length_append, length_codeBytes] at hlen
  have hpos : 0 < codeSize is := by
    obtain ⟨i, js, rfl⟩ := List.exists_cons_of_ne_nil hne
    rw [codeSize_cons, REOp.size]
    omega
  omega

end CodeAt

end VideoPackages.Regexp
