import CiRunner.Library.TextLines
import CiRunner.Library.LittleEndian
import Mathlib.Logic.Function.Basic

/-!
# The code generator's data

The runner is written over the types of `cranelift_codegen`: value types, signatures,
functions, the typed values tests pass in and out, and the instructions the trampoline is
built from.  This module has the part of each that the runner reads or produces.

Nothing here is the runner's own code.  What these types *do* is fixed by Cranelift's
documentation; what the code generator and the emulator compute with them stays a parameter
(`CiRunner.Toolchain`).  The one piece of meaning given here is `Inst.exec`, the documented
effect of the nine instructions a trampoline may contain on the SSA values and the memory,
with the callee left open.
-/

namespace CiRunner

open TextLines LittleEndian

/-! ## Value types -/

/-- The lane types of `ir::types`. -/
inductive LaneType
  | i8 | i16 | i32 | i64 | i128
  | f32 | f64
  | b1 | b8 | b16 | b32 | b64 | b128
  deriving DecidableEq, Repr

namespace LaneType

/-- The width of one lane. -/
def bits : LaneType → ℕ
  | .b1 => 1
  | .i8 | .b8 => 8
  | .i16 | .b16 => 16
  | .i32 | .f32 | .b32 => 32
  | .i64 | .f64 | .b64 => 64
  | .i128 | .b128 => 128

def isBool : LaneType → Bool
  | .b1 | .b8 | .b16 | .b32 | .b64 | .b128 => true
  | _ => false

/-- The integer lane of a boolean lane: `b1` becomes `i8`, every other boolean the integer of
its own width.  Lanes that are not boolean stay. -/
def boolToInt : LaneType → LaneType
  | .b1 | .b8 => .i8
  | .b16 => .i16
  | .b32 => .i32
  | .b64 => .i64
  | .b128 => .i128
  | l => l

end LaneType

/-- `ir::Type`: a lane type and the number of lanes, which is a power of two.  A scalar is a
type of one lane. -/
structure IrType where
  laneType : LaneType
  log2LaneCount : ℕ := 0
  deriving DecidableEq, Repr

namespace IrType

variable (ty : IrType)

def laneCount : ℕ := 2 ^ ty.log2LaneCount

def bits : ℕ := ty.laneType.bits * ty.laneCount

/-- The size in memory, in bytes. -/
def bytes : ℕ := (ty.bits + 7) / 8

def isVector : Bool := 0 < ty.log2LaneCount

/-- Is this a scalar boolean? -/
def isBool : Bool := !ty.isVector && ty.laneType.isBool

def isBoolVector : Bool := ty.isVector && ty.laneType.isBool

/-- The same lanes, as integers of the same size. -/
def asInt : IrType := { ty with laneType := ty.laneType.boolToInt }

/-- Boolean types, scalar and vector, as integer types; every other type unchanged. -/
def coerceBoolsToInts : IrType :=
  if ty.isBool || ty.isBoolVector then ty.asInt else ty

end IrType

/-! ## Signatures and functions -/

inductive ArgumentPurpose
  | normal
  | structArgument (size : ℕ)
  | structReturn
  | vmContext
  deriving DecidableEq, Repr

inductive ArgumentExtension
  | none | uext | sext
  deriving DecidableEq, Repr

structure AbiParam where
  valueType : IrType
  purpose : ArgumentPurpose := .normal
  extension : ArgumentExtension := .none
  deriving DecidableEq, Repr

inductive CallConv
  | fast | cold | systemV | windowsFastcall | appleAarch64 | probestack
  | wasmtimeSystemV | wasmtimeFastcall | wasmtimeAppleAarch64
  deriving DecidableEq, Repr

structure Signature where
  params : List AbiParam
  returns : List AbiParam
  callConv : CallConv
  deriving DecidableEq, Repr

/-- The name of a function in a test file. -/
inductive UserFuncName
  | testcase (name : Text)
  | user (namespaceIndex index : ℕ)
  deriving DecidableEq, Repr

/-- Test names are displayed with a leading `%`, numbered ones as `u0:1`. -/
def UserFuncName.display : UserFuncName → Text
  | .testcase name => '%' :: name
  | .user ns i => 'u' :: (toString ns).toList ++ ':' :: (toString i).toList

/-! ## Values -/

/-- `DataValue`: a value of some IR type.  Floats are their bits.  A boolean and a vector do
not remember which boolean or vector type they are of. -/
inductive DataValue
  | b (v : Bool)
  | i8 (v : BitVec 8)
  | i16 (v : BitVec 16)
  | i32 (v : BitVec 32)
  | i64 (v : BitVec 64)
  | i128 (v : BitVec 128)
  | f32 (v : BitVec 32)
  | f64 (v : BitVec 64)
  | v128 (v : BitVec 128)
  | v64 (v : BitVec 64)
  deriving DecidableEq, Repr

namespace DataValue

/-- `DataValue::ty`, with the default type of values that do not remember theirs. -/
def ty : DataValue → IrType
  | .b _ => ⟨.b8, 0⟩
  | .i8 _ => ⟨.i8, 0⟩
  | .i16 _ => ⟨.i16, 0⟩
  | .i32 _ => ⟨.i32, 0⟩
  | .i64 _ => ⟨.i64, 0⟩
  | .i128 _ => ⟨.i128, 0⟩
  | .f32 _ => ⟨.f32, 0⟩
  | .f64 _ => ⟨.f64, 0⟩
  | .v128 _ => ⟨.i8, 4⟩
  | .v64 _ => ⟨.i8, 3⟩

def isVector (v : DataValue) : Bool := v.ty.isVector

def isBool : DataValue → Bool
  | .b _ => true
  | _ => false

/-- The value is one of IR type `ty`. -/
def HasType (v : DataValue) (ty : IrType) : Prop :=
  match v with
  | .b _ => ty.isBool
  | .v128 _ => ty.isVector ∧ ty.bits = 128
  | .v64 _ => ty.isVector ∧ ty.bits = 64
  | v => v.ty = ty

instance (v : DataValue) (ty : IrType) : Decidable (v.HasType ty) := by
  unfold HasType
  cases v <;> infer_instance

/-- The bytes of the value, least significant first; a boolean is one byte, 0 or 1. -/
def toLeBytes : DataValue → List UInt8
  | .b v => toBytes 1 v.toNat
  | .i8 v => toBytes 1 v.toNat
  | .i16 v => toBytes 2 v.toNat
  | .i32 v | .f32 v => toBytes 4 v.toNat
  | .i64 v | .f64 v | .v64 v => toBytes 8 v.toNat
  | .i128 v | .v128 v => toBytes 16 v.toNat

/-- The value of type `ty` with the given bytes, of which it takes as many as the type has.  A
boolean is false exactly when they all are zero.  Vectors have 64 or 128 bits. -/
def ofLeBytes (ty : IrType) (bs : List UInt8) : Option DataValue :=
  let n := ofBytes (bs.take ty.bytes)
  if ty.isVector then
    if ty.bits = 128 then some (.v128 (BitVec.ofNat _ n))
    else if ty.bits = 64 then some (.v64 (BitVec.ofNat _ n))
    else none
  else
    match ty.laneType with
    | .i8 => some (.i8 (BitVec.ofNat _ n))
    | .i16 => some (.i16 (BitVec.ofNat _ n))
    | .i32 => some (.i32 (BitVec.ofNat _ n))
    | .i64 => some (.i64 (BitVec.ofNat _ n))
    | .i128 => some (.i128 (BitVec.ofNat _ n))
    | .f32 => some (.f32 (BitVec.ofNat _ n))
    | .f64 => some (.f64 (BitVec.ofNat _ n))
    | _ => some (.b (n ≠ 0))

/-- An integer value as a number. -/
def toInt? : DataValue → Option ℤ
  | .i8 v => some v.toInt
  | .i16 v => some v.toInt
  | .i32 v => some v.toInt
  | .i64 v => some v.toInt
  | .i128 v => some v.toInt
  | _ => none

/-- The integer of scalar type `ty` with value `n`. -/
def ofInt? (ty : IrType) (n : ℤ) : Option DataValue :=
  if ty.isVector then none
  else
    match ty.laneType with
    | .i8 => some (.i8 (BitVec.ofInt _ n))
    | .i16 => some (.i16 (BitVec.ofInt _ n))
    | .i32 => some (.i32 (BitVec.ofInt _ n))
    | .i64 => some (.i64 (BitVec.ofInt _ n))
    | .i128 => some (.i128 (BitVec.ofInt _ n))
    | _ => none

end DataValue

/-! ## Instructions -/

/-- An SSA value of a function. -/
abbrev Value := ℕ

/-- The one condition code the runner uses. -/
inductive IntCC
  | notEqual
  deriving DecidableEq, Repr

/-- The instructions the trampoline builder emits. -/
inductive Inst
  | load (ty : IrType) (ptr : Value) (offset : ℤ)
  | icmpImm (cond : IntCC) (x : Value) (imm : ℤ)
  | bextend (ty : IrType) (x : Value)
  | vconst (ty : IrType) (constant : List UInt8)
  | icmp (cond : IntCC) (ctrl : IrType) (x y : Value)
  | bint (ty : IrType) (x : Value)
  | callIndirect (sig : Signature) (callee : Value) (args : List Value)
  | store (x ptr : Value) (offset : ℤ)
  | return_ (rets : List Value)
  deriving DecidableEq, Repr

/-- An instruction with the values it defines. -/
structure Stmt where
  results : List Value
  inst : Inst
  deriving DecidableEq, Repr

/-- The body of a function: as parsed from a test file, or put together by a builder.  `Body`
stands for what the reader makes of the text of a function. -/
inductive FuncBody (Body : Type)
  | parsed (b : Body)
  | built (stmts : List Stmt)

/-- `ir::Function`. -/
structure IrFunction (Body : Type) where
  name : UserFuncName
  signature : Signature
  body : FuncBody Body

/-! ## The meaning of the instructions -/

/-- Lane by lane, all ones where the lanes differ and zero where they agree. -/
def lanesNotEqual (laneBits : ℕ) : ℕ → ℕ → ℕ → ℕ
  | 0, _, _ => 0
  | k + 1, x, y =>
    (if x % 2 ^ laneBits = y % 2 ^ laneBits then 0 else 2 ^ laneBits - 1) +
      2 ^ laneBits * lanesNotEqual laneBits k (x / 2 ^ laneBits) (y / 2 ^ laneBits)

/-! What the instructions that make a value of others make of them.  There is no value when an
operand is not of a kind the instruction takes. -/

namespace DataValue

/-- `icmp_imm`: is the integer different from `imm`? -/
def icmpImm (imm : ℤ) (x : DataValue) : Option DataValue := do
  let n ← x.toInt?
  return .b (n ≠ imm)

/-- `bextend`: a boolean does not remember its width. -/
def bextend : DataValue → Option DataValue
  | .b v => some (.b v)
  | _ => none

/-- `icmp` of two vectors of type `ctrl`. -/
def icmp (ctrl : IrType) : DataValue → DataValue → Option DataValue
  | .v128 v, .v128 w =>
    let lanes := lanesNotEqual ctrl.laneType.bits ctrl.laneCount v.toNat w.toNat
    some (.v128 (BitVec.ofNat _ lanes))
  | .v64 v, .v64 w =>
    let lanes := lanesNotEqual ctrl.laneType.bits ctrl.laneCount v.toNat w.toNat
    some (.v64 (BitVec.ofNat _ lanes))
  | _, _ => none

/-- `bint`: a boolean as the integer 0 or 1. -/
def bint (ty : IrType) : DataValue → Option DataValue
  | .b v => ofInt? ty v.toNat
  | _ => none

end DataValue

/-- What is known of a running function: its SSA values and the memory. -/
structure Frame where
  values : Value → Option DataValue
  mem : Mem

/-- Define the results of an instruction. -/
def Frame.define (fr : Frame) (results : List Value) (vs : List DataValue) : Frame :=
  let bind := fun (m : Value → Option DataValue) (p : Value × DataValue) =>
    Function.update m p.1 (some p.2)
  { fr with values := (results.zip vs).foldl bind fr.values }

/-- The address a memory instruction accesses: the pointer plus the sign-extended offset. -/
def DataValue.address (ptr : DataValue) (offset : ℤ) : Option ℕ :=
  match ptr with
  | .i64 p => some (p + BitVec.ofInt 64 offset).toNat
  | _ => none

def Frame.address (fr : Frame) (ptr : Value) (offset : ℤ) : Option ℕ := do
  (← fr.values ptr).address offset

/-- What calling an address does: from the arguments and the memory it makes the results and the
memory it leaves, unless it does not return. -/
abbrev Callee := BitVec 64 → List DataValue → Mem → Option (List DataValue × Mem)

/-- Call what a value points to. -/
def Callee.call (callee : Callee) (target : DataValue) (args : List DataValue) (mem : Mem) :
    Option (List DataValue × Mem) :=
  match target with
  | .i64 a => callee a args mem
  | _ => none

/-- The effect of one instruction.  There is none when an operand is not of a kind the instruction
takes.  A call defines all its results. -/
def Inst.exec (callee : Callee) (fr : Frame) (results : List Value) : Inst → Option Frame
  | .load ty ptr offset => do
    let a ← fr.address ptr offset
    let v ← DataValue.ofLeBytes ty (read fr.mem a ty.bytes)
    return fr.define results [v]
  | .icmpImm .notEqual x imm => do
    let v ← (← fr.values x).icmpImm imm
    return fr.define results [v]
  | .bextend _ x => do
    let v ← (← fr.values x).bextend
    return fr.define results [v]
  | .vconst ty constant => do
    let v ← DataValue.ofLeBytes ty constant
    return fr.define results [v]
  | .icmp .notEqual ctrl x y => do
    let v ← DataValue.icmp ctrl (← fr.values x) (← fr.values y)
    return fr.define results [v]
  | .bint ty x => do
    let v ← (← fr.values x).bint ty
    return fr.define results [v]
  | .callIndirect _ target args => do
    let vs ← args.mapM fr.values
    let (rets, mem) ← callee.call (← fr.values target) vs fr.mem
    guard (rets.length = results.length)
    return Frame.define { fr with mem } results rets
  | .store x ptr offset => do
    let v ← fr.values x
    let a ← fr.address ptr offset
    return { fr with mem := write fr.mem a v.toLeBytes }
  | .return_ _ => some fr

/-- Run statements in order. -/
def execStmts (callee : Callee) : List Stmt → Frame → Option Frame
  | [], fr => some fr
  | s :: ss, fr => (s.inst.exec callee fr s.results).bind (execStmts callee ss)

end CiRunner
