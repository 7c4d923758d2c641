import CiRunner.Toolchain
import CiRunner.TestCompile

/-!
# Compiling and calling a single function (`compiler.rs`)

A test calls a function whose signature is known only at run time, so the call goes through
memory.  `UnboxedValues` lays the arguments out in 16-byte slots; the *trampoline*, built by
`makeTrampoline` for a signature, loads them, calls the function through its address and
stores the results over the same slots; `call2` puts trampoline, function and slots into the
emulator's memory, runs the trampoline and reads the slots back.  (Before that it writes the code of
function and trampoline to `code.bin` and `trampoline.bin` in the working directory, which nothing
reads.  These writes, and their `unwrap`s, are left out.)

`SingleFunctionCompiler.compile` keeps one compiled trampoline for each signature it has met.
-/

namespace CiRunner

open TextLines LittleEndian

variable {Flags Body : Type}

/-! ## Slots -/

/-- A container for laying out values in memory in a way that the trampoline can understand. -/
structure UnboxedValues where
  slots : List (BitVec 128)
  deriving DecidableEq, Repr

namespace UnboxedValues

/-- The size in bytes of each slot. -/
def slotSize : ℕ := 16

section
variable (tc : Toolchain Flags Body)

/-- Store the argument values into the slots. -/
def storeArguments : List DataValue → List (BitVec 128) → List AbiParam →
    Outcome (List (BitVec 128))
  | arg :: arguments, slot :: slots, param :: params =>
    if arg.ty = param.valueType ∨ arg.isVector ∨ arg.isBool then do
      let rest ← storeArguments arguments slots params
      return tc.writeValueTo arg slot :: rest
    else .error (.panic .argumentType)
  | _, slots, _ => .ok slots

/-- Build the slots for passing the arguments into the trampoline. -/
def makeArguments (arguments : List DataValue) (signature : Signature) : Outcome UnboxedValues :=
  if arguments.length = signature.params.length then do
    let valuesVec := List.replicate (max signature.params.length signature.returns.length) 0
    return { slots := ← storeArguments tc arguments valuesVec signature.params }
  else .error (.panic .argumentCount)

/-- Read one value off each slot. -/
def readSlots : List (BitVec 128) → List AbiParam → Outcome (List DataValue)
  | slot :: slots, param :: params =>
    match tc.readValueFrom slot param.valueType with
    | some value => do
      let rest ← readSlots slots params
      return value :: rest
    | none => .error (.panic .returnType)
  | _, _ => .ok []

/-- Collect the returned values. -/
def collectReturns (self : UnboxedValues) (signature : Signature) : Outcome (List DataValue) :=
  if self.slots.length ≥ signature.returns.length then
    readSlots tc self.slots signature.returns
  else .error (.panic .returnCount)

end

/-- `make_vec_u8`: the slots as bytes. -/
def makeVecU8 (self : UnboxedValues) : List UInt8 :=
  self.slots.flatMap fun data => toBytes slotSize data.toNat

end UnboxedValues

/-! ## The trampoline -/

/-- `n as i32`. -/
def asI32 (n : ℕ) : ℤ := Int.bmod n (2 ^ 32)

/-- A function builder: the statements emitted so far and the next unused SSA value. -/
structure FunctionBuilder where
  stmts : List Stmt
  next : Value
  deriving DecidableEq, Repr

/-- Code that emits instructions. -/
abbrev Build := StateM FunctionBuilder

/-- Emit an instruction that defines `n` values. -/
def emit (n : ℕ) (inst : Inst) : Build (List Value) := fun b =>
  let results := List.range' b.next n
  (results, { stmts := b.stmts ++ [{ results, inst }], next := b.next + n })

/-- Emit an instruction that defines one value. -/
def emit1 (inst : Inst) : Build Value := fun b =>
  (b.next, { stmts := b.stmts ++ [{ results := [b.next], inst }], next := b.next + 1 })

/-- The offset of the slot of index `i`. -/
def slotOffset (i : ℕ) : ℤ := asI32 (i * UnboxedValues.slotSize)

/-- Load the argument of index `i`, using integers for booleans, and turn such an integer into
the boolean it stands for. -/
def loadArgument (valuesVecPtrVal : Value) (param : AbiParam) (i : ℕ) : Build Value := do
  let ty := param.valueType.coerceBoolsToInts
  let loaded ← emit1 (.load ty valuesVecPtrVal (slotOffset i))
  if param.valueType.isBool then
    let v ← emit1 (.icmpImm .notEqual loaded 0)
    if param.valueType.bits > 1 then emit1 (.bextend param.valueType v) else return v
  else if param.valueType.isBoolVector then
    let zeroVec ← emit1 (.vconst ty (List.replicate 16 0))
    emit1 (.icmp .notEqual ty loaded zeroVec)
  else return loaded

def loadArguments (valuesVecPtrVal : Value) (params : List AbiParam) : Build (List Value) :=
  params.zipIdx.mapM fun (param, i) => loadArgument valuesVecPtrVal param i

/-- Store the result of index `i`, booleans as integers. -/
def storeResult (valuesVecPtrVal value : Value) (param : AbiParam) (i : ℕ) : Build Unit := do
  let value ←
    if param.valueType.laneType.isBool then
      let ty : IrType := { laneType := param.valueType.laneType.boolToInt }
      emit1 (.bint ty value)
    else pure value
  let _ ← emit 0 (.store value valuesVecPtrVal (slotOffset i))

def storeResults (valuesVecPtrVal : Value) (results : List Value) (returns : List AbiParam) :
    Build Unit :=
  (results.zipIdx.zip returns).forM fun ((value, i), param) =>
    storeResult valuesVecPtrVal value param i

/-- The statements of a trampoline.  The values `0` and `1` are the parameters of its block: the
address of the callee and that of the slots. -/
def trampolineStmts (signature : Signature) : List Stmt :=
  let build : Build Unit := do
    let calleeArgs ← loadArguments 1 signature.params
    let results ← emit signature.returns.length (.callIndirect signature 0 calleeArgs)
    storeResults 1 results signature.returns
    let _ ← emit 0 (.return_ [])
  (build.run { stmts := [], next := 2 }).2.stmts

/-- Build the IR for moving the values in memory to their correct location prior to calling a
compiled function. -/
def makeTrampoline (signature : Signature) (isa : TargetIsa Flags) : IrFunction Body :=
  let pointerType := isa.pointerType
  { name := .user 0 0
    signature :=
      { params := [{ valueType := pointerType }, { valueType := pointerType }]
        returns := []
        callConv := isa.defaultCallConv }
    body := .built (trampolineStmts signature) }

/-! ## Compilation -/

/-- Contains the compiled code to move memory-allocated values to the correct location. -/
structure Trampoline where
  code : List UInt8
  deriving DecidableEq, Repr

/-- Container for the compiled code of a function. -/
structure CompiledFunction where
  code : List UInt8
  signature : Signature
  trampoline : Trampoline
  deriving DecidableEq, Repr

/-- Compile a single function.  The trampolines are the entries of the source's hash map. -/
structure SingleFunctionCompiler (Flags : Type) where
  isa : TargetIsa Flags
  trampolines : List (Signature × Trampoline)

def SingleFunctionCompiler.new (isa : TargetIsa Flags) : SingleFunctionCompiler Flags :=
  { isa, trampolines := [] }

section
variable (tc : Toolchain Flags Body)

/-- `compile2`: the code bytes and the disassembly.  A failure of code generation is unwrapped
here, so no error is ever returned. -/
def compile2 (function : IrFunction Body) (isa : TargetIsa Flags) :
    Outcome (List UInt8 × Text) :=
  match tc.codegen function isa with
  | .error _ => .error (.panic .compileUnwrap)
  | .ok result => .ok (result.buffer, result.disasm)

/-- `.expect("failed to compile trampoline")`. -/
def expectTrampoline {α : Type} : Outcome α → Outcome α
  | .error (.err _) => .error (.panic .trampolineExpect)
  | r => r

/-- The cached trampoline of a signature, or a new one. -/
def trampolineFor (signature : Signature) (isa : TargetIsa Flags)
    (trampolines : List (Signature × Trampoline)) :
    Outcome (Trampoline × List (Signature × Trampoline)) :=
  match trampolines.lookup signature with
  | some trampoline => .ok (trampoline, trampolines)
  | none => do
    let ir := makeTrampoline signature isa
    let code ← expectTrampoline (compile2 tc ir isa)
    let trampoline : Trampoline := { code := code.1 }
    return (trampoline, (signature, trampoline) :: trampolines)

/-- `SingleFunctionCompiler::compile`. -/
def SingleFunctionCompiler.compile (function : IrFunction Body) :
    EStateM Fault (SingleFunctionCompiler Flags) CompiledFunction := fun self =>
  let signature := function.signature
  match compile2 tc function self.isa with
  | .error f => .error f self
  | .ok (codePage, _) =>
    match trampolineFor tc signature self.isa self.trampolines with
    | .error f => .error f self
    | .ok (trampoline, trampolines) =>
      .ok { code := codePage, signature, trampoline } { self with trampolines }

/-! ## The call -/

/-- Where the emulator's memory begins. -/
def dramBase : ℕ := 0x80000000

/-- The two 64-bit words of the slot of index `k`, put together. -/
def readBackSlot (mem : Mem) (argumentsArea k : ℕ) : BitVec 128 :=
  let addr := argumentsArea + k * 16
  let v1 := BitVec.ofNat 128 (ofBytes (read mem addr 8))
  let v2 := BitVec.ofNat 128 (ofBytes (read mem (addr + 8) 8))
  v1 ||| v2 <<< 64

/-- Read back as many slots as there are returns. -/
def readBack (mem : Mem) (argumentsArea returns : ℕ) (slots : List (BitVec 128)) :
    List (BitVec 128) :=
  (List.range returns).foldl (fun slots k => slots.set k (readBackSlot mem argumentsArea k)) slots

/-- `CompiledFunction::call2`, but for the two files it writes. -/
def CompiledFunction.call2 (self : CompiledFunction) (arguments : List DataValue) :
    Outcome (List DataValue) := do
  let values ← UnboxedValues.makeArguments tc arguments self.signature
  let dram := self.trampoline.code
  let endAt := dram.length + dramBase - 4
  let funcAddr := dram.length + dramBase
  let dram := dram ++ self.code
  let argumentsArea := dram.length + dramBase
  let dram := dram ++ values.makeVecU8
  let emulator : Emulator :=
    { dram, x10 := BitVec.ofNat 64 funcAddr, x11 := BitVec.ofNat 64 argumentsArea
      pc := BitVec.ofNat 64 dramBase }
  match tc.testRunEndAt emulator (BitVec.ofNat 64 endAt) with
  | none => .error (.panic .emulatorUnwrap)
  | some mem =>
    let values : UnboxedValues :=
      { slots := readBack mem argumentsArea self.signature.returns.length values.slots }
    values.collectReturns tc self.signature

end

end CiRunner
