import CiRunner.FileUpdate

/-!
# `test compile` (`test_compile.rs`)

The subtest compiles the function for the native backend and compares the disassembly, line by
line, with the comments of the function.  On a mismatch it does not fail: `justUpdateTest` is
set, so the comments after the function are replaced by the disassembly.

The `precise-output` option of the command is parsed into `TestCompile.preciseOutput`, which
`TestCompile.run` does not read.
-/

namespace CiRunner

open TextLines

/-- `"; "`, which a line of expected output starts with. -/
def outputPrefix : Text := [';', ' ']

/-- `";"`, which a comment line starts with. -/
def commentPrefix : Text := [';']

/-- `";;"`, which a comment the check ignores starts with. -/
def ignoredPrefix : Text := [';', ';']

def justUpdateTest : Bool := true

/-- Drop all remaining commented lines, but after we hit a real line then push all remaining
lines. -/
def pushRemaining : Bool → List Text → Text → Text
  | _, [], newTest => newTest
  | inNextFunction, line :: lines, newTest =>
    if !inNextFunction && ((trim line).isEmpty || startsWith line commentPrefix) then
      pushRemaining inNextFunction lines newTest
    else
      pushRemaining true lines (pushLine newTest line)

section
variable {Flags Body : Type}

/-- The closure of `update_test`: splice the output in, between two empty lines, and drop the
comments that are there. -/
def spliceOutput (output : List Text) (newTest : Text) (oldTest : List Text) : Text :=
  let newTest := pushLine newTest []
  let newTest := output.foldl (fun t line => pushLine t (outputPrefix ++ line)) newTest
  let newTest := pushLine newTest []
  pushRemaining false oldTest newTest

/-- `update_test`. -/
def updateTest (output : List Text) (context : Context Flags) : Effect Unit :=
  updateAt context.details.location (spliceOutput output)

/-- The test expectation: the comments of the function that do not start with `;;`, without
their `; `. -/
def expectedOutput (comments : List Comment) : List Text :=
  (comments.filter fun c => !startsWith c.text ignoredPrefix).map fun c =>
    (stripPrefix c.text outputPrefix).getD c.text

/-- `check_precise_output`. -/
def checkPreciseOutput (text : Text) (context : Context Flags) : Effect Unit :=
  let actual := lines text
  let expected := expectedOutput context.details.comments
  if actual = expected then
    pure ()
  else if justUpdateTest then
    updateTest actual context
  else
    throw (.err (.preciseOutput context.details.location.lineNumber expected actual))

structure TestCompile where
  /-- Flag indicating that the text expectation, comments after the function, must be a precise
  100% match on the compiled output of the function. -/
  preciseOutput : Bool
  deriving DecidableEq, Repr

variable (tc : Toolchain Flags Body)

/-- The backend of every compilation, whatever the test file's targets are. -/
def buildBackend : TargetIsa Flags := tc.riscv64gc

/-- Compile the function and check the output. -/
def TestCompile.run (_self : TestCompile) (func : IrFunction Body) (context : Context Flags) :
    Effect Unit :=
  match tc.codegen func (buildBackend tc) with
  | .error _ => throw (.panic .compileUnwrap)
  | .ok result => checkPreciseOutput result.disasm context

def TestCompile.toSubTest (self : TestCompile) : SubTest Flags Body where
  name := "compile"
  isMutating := false
  needsIsa := false
  run := self.run tc

/-- The options of the command; `precise-output` is the only one there is. -/
def TestCompile.parseOptions (parsed : TestCommand) :
    TestCompile → List TestOption → Outcome TestCompile
  | test, [] => .ok test
  | test, option :: options =>
    if option = .flag "precise-output" then
      TestCompile.parseOptions parsed { test with preciseOutput := true } options
    else .error (.err (.unknownOption parsed))

def TestCompile.subtest (parsed : TestCommand) : Outcome (SubTest Flags Body) :=
  if parsed.command = "compile" then do
    let test ← TestCompile.parseOptions parsed { preciseOutput := false } parsed.options
    return test.toSubTest tc
  else .error (.panic .wrongSubtest)

end

end CiRunner
