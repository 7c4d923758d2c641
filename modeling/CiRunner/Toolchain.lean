import CiRunner.Cranelift

/-!
# What the runner is given

A test file as `cranelift_reader` delivers it, the ways a run can go wrong, and the
`Toolchain`: every function the runner calls that is not its own.

A `Toolchain` is a parameter of everything that follows.  The reader, the verifier, the code
generator, the emulator and the interpreter occur in the model only through it, so a result
that needs one of them to behave in a certain way says so in a hypothesis about the
corresponding field.
-/

namespace CiRunner

open TextLines LittleEndian

/-! ## Test files -/

structure Comment where
  text : Text
  deriving DecidableEq, Repr

/-- A place in the test file; lines count from 1. -/
structure Location where
  lineNumber : ℕ
  deriving DecidableEq, Repr

/-- What the reader reports of a function besides its IR. -/
structure Details where
  location : Location
  comments : List Comment
  deriving DecidableEq, Repr

inductive TestOption
  | flag (name : String)
  | value (name val : String)
  deriving DecidableEq, Repr

/-- A `test <command> <options>` line of the preamble. -/
structure TestCommand where
  command : String
  options : List TestOption := []
  deriving DecidableEq, Repr

/-- A target of the test file.  `Flags` stands for the shared settings. -/
structure TargetIsa (Flags : Type) where
  name : String
  flags : Flags
  pointerType : IrType
  defaultCallConv : CallConv
  deriving DecidableEq, Repr

/-- The targets of a test file: the flags of its `set` lines when it names none. -/
inductive IsaSpec (Flags : Type)
  | none (flags : Flags)
  | some (isas : List (TargetIsa Flags))

/-- The target, when there is just one. -/
def IsaSpec.uniqueIsa {Flags : Type} : IsaSpec Flags → Option (TargetIsa Flags)
  | .some [isa] => Option.some isa
  | _ => Option.none

/-- Flags, and a target if there is one, as the verifier takes them. -/
structure FlagsOrIsa (Flags : Type) where
  flags : Flags
  isa : Option (TargetIsa Flags)
  deriving DecidableEq, Repr

structure TestFile (Flags Body : Type) where
  commands : List TestCommand
  isaSpec : IsaSpec Flags
  preambleComments : List Comment
  functions : List (IrFunction Body × Details)

/-- A reader error.  A warning means that the file is to be skipped. -/
structure ParseError where
  location : Location
  message : String
  isWarning : Bool := false
  deriving DecidableEq, Repr

structure ParseOptions where
  passes : Option (List Text) := none
  target : Option Text := none
  deriving DecidableEq, Repr

/-- A parsed `run:` or `print:` comment: the function it calls, the arguments, and which
results satisfy it. -/
structure RunCommand where
  func : Text
  args : List DataValue
  accepts : List DataValue → Bool

/-- A parsed `heap:` comment: the size of the heap and where in the context struct its start
and its end are to be found. -/
structure HeapCommand where
  size : ℕ
  ptrOffset : Option ℕ
  boundOffset : Option ℕ
  deriving DecidableEq, Repr

/-! ## Faults -/

/-- The assertions and unwraps of the runner that can fail. -/
inductive Panic
  /-- `update_at`: `location.line_number > self.last_update.get()` -/
  | updateNotAfterLast
  /-- `update_at`: `lines.next().unwrap()` -/
  | noLineToPreserve
  /-- `run`: `v.last().expect("Empty ISA list")` -/
  | emptyIsaList
  /-- `subtest`: `parsed.command` is not the expected one -/
  | wrongSubtest
  /-- `TestCompile::run`, `compile2`: code generation failed -/
  | compileUnwrap
  /-- `compile`: `failed to compile trampoline` -/
  | trampolineExpect
  /-- `make_arguments`: as many arguments as parameters -/
  | argumentCount
  /-- `make_arguments`: `argument type mismatch` -/
  | argumentType
  /-- `call2`: the emulator stopped with an exception -/
  | emulatorUnwrap
  /-- `collect_returns`: as many slots as returns -/
  | returnCount
  /-- `read_value_from`: no value of this type -/
  | returnType
  /-- `TestRun::run`: `context.isa.unwrap()` -/
  | isaUnwrap
  /-- `pointer`: `Failed to cast pointer to native target size` -/
  | pointerCast
  /-- `TestInterpret::run`: `Unexpected returned control flow` -/
  | controlFlow
  deriving DecidableEq, Repr

structure CodegenError where
  message : String
  deriving DecidableEq, Repr

/-- Compilation Error when compiling a function. -/
inductive CompilationError
  /-- "Cross-compilation not currently supported" -/
  | invalidTargetIsa
  | codegenError (e : CodegenError)
  | ioError (message : String)
  deriving DecidableEq, Repr

/-- The errors a run can return, each with the data its message is made of. -/
inductive Error
  /-- `anyhow`'s `context`: `what`, caused by `cause` -/
  | context (what : String) (cause : Error)
  /-- what the reader reports -/
  | parse (e : ParseError)
  /-- "no functions found" -/
  | noFunctions
  /-- "no test commands found" -/
  | noTestCommands
  /-- "test {} requires an ISA" -/
  | requiresIsa (test : String)
  /-- "unknown option on {}" -/
  | unknownOption (command : TestCommand)
  /-- "No options allowed on {}" -/
  | noOptionsAllowed (command : TestCommand)
  /-- the pretty-printed verifier errors -/
  | verifier (message : String)
  /-- "line {} in test file {:?} did not start with `function`, cannot automatically update
  test" -/
  | notAtFunction (line : ℕ)
  /-- "compilation of function on line {} does not match the text expectation" -/
  | preciseOutput (line : ℕ) (expected actual : List Text)
  /-- "Invalid ptr offset, expected vmctx+{}" -/
  | invalidPtrOffset (expected : ℕ)
  /-- "Invalid bound offset, expected vmctx+{}" -/
  | invalidBoundOffset (expected : ℕ)
  /-- "This test requests a heap, but the first argument is not `i64 vmctx`." -/
  | heapWithoutVmctx
  /-- what `SingleFunctionCompiler::compile` returns -/
  | compilation (e : CompilationError)
  /-- "unexpected trap: {:?}" -/
  | trap (message : String)
  /-- the results do not satisfy the run command -/
  | runCommandFailed
  deriving DecidableEq, Repr

/-- A computation of the runner stops with an error it returns, or panics. -/
inductive Fault
  | err (e : Error)
  | panic (p : Panic)
  deriving DecidableEq, Repr

/-- The result of a computation of the runner that changes nothing. -/
abbrev Outcome (α : Type) := Except Fault α

/-! ## The toolchain -/

/-- The result of `Context::compile` with `want_disasm` set. -/
structure CompiledCode where
  buffer : List UInt8
  disasm : Text
  deriving DecidableEq, Repr

/-- The emulator as `call2` sets it up. -/
structure Emulator where
  dram : List UInt8
  x10 : BitVec 64
  x11 : BitVec 64
  pc : BitVec 64
  deriving DecidableEq, Repr

inductive ControlFlow
  | return_ (results : List DataValue)
  | other
  deriving DecidableEq, Repr

/-- Where the host allocator puts the heaps of a test and the context struct. -/
structure Placement where
  heapStart : ℕ → BitVec 64
  contextStruct : BitVec 64

/-- The functions of other packages that the runner calls. -/
structure Toolchain (Flags Body : Type) where
  /-- `cranelift_reader::parse_test` -/
  parseTest : Text → ParseOptions → Except ParseError (TestFile Flags Body)
  /-- `cranelift_reader::parse_run_command` -/
  parseRunCommand : Text → Signature → Except ParseError (Option RunCommand)
  /-- `cranelift_reader::parse_heap_command` -/
  parseHeapCommand : Text → Except ParseError (Option HeapCommand)
  /-- `cranelift_codegen::verify_function`, the errors as pretty-printed -/
  verifyFunction : IrFunction Body → FlagsOrIsa Flags → Except String Unit
  /-- `lookup_by_name("riscv64gc")`, finished with default flags -/
  riscv64gc : TargetIsa Flags
  /-- `cranelift_codegen::Context::compile` -/
  codegen : IrFunction Body → TargetIsa Flags → Except CodegenError CompiledCode
  /-- `DataValue::write_value_to`, on a slot -/
  writeValueTo : DataValue → BitVec 128 → BitVec 128
  /-- `DataValue::read_value_from`, on a slot -/
  readValueFrom : BitVec 128 → IrType → Option DataValue
  /-- `rvemu::Emulator::test_run_end_at`: the memory when the end address is reached -/
  testRunEndAt : Emulator → BitVec 64 → Option Mem
  /-- `Interpreter::call_by_name`, over the functions of a `FunctionStore` -/
  callByName : List (Text × IrFunction Body) → Text → List DataValue → Except String ControlFlow
  placement : Placement

end CiRunner
