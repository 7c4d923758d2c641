import CiRunner.Compiler
import CiRunner.RuntestEnvironment
import CiRunner.SubTest

/-!
# `test run` and `test interpret` (`test_run.rs`, `interpreter.rs`)

Both subtests go through the comments of a function in order and carry out each one that is a
run command, the first by compiling the function and running it in the emulator, the second
with the interpreter.  They stop at the first comment with a syntax error and at the first
command that is not satisfied.

Neither touches the test file, so they are outcomes rather than effects.
-/

namespace CiRunner

open TextLines

/-- `RunCommand::run`: invoke the function and compare its results. -/
def RunCommand.run (command : RunCommand)
    (invoke : Text → List DataValue → Outcome (List DataValue)) : Outcome Unit := do
  let actual ← invoke command.func command.args
  if command.accepts actual then return () else .error (.err .runCommandFailed)

/-- The options of `test run` and `test interpret`: there are none. -/
def noOptions (command : String) (parsed : TestCommand) : Outcome Unit :=
  if parsed.command = command then
    if parsed.options.isEmpty then .ok () else .error (.err (.noOptionsAllowed parsed))
  else .error (.panic .wrongSubtest)

variable {Flags Body : Type} (tc : Toolchain Flags Body)

/-! ## `test run` -/

namespace TestRun

/-- Is the first parameter the hidden context argument? -/
def firstArgIsVmctx (signature : Signature) : Bool :=
  match signature.params.head? with
  | some p => p.purpose = .vmContext
  | none => false

/-- The arguments a call starts with: the pointer to the context struct, when the test asks for
heaps. -/
def vmctxArgs (testEnv : RuntestEnvironment) (context : Context Flags) :
    Outcome (List DataValue) :=
  if testEnv.isActive then
    match context.isa with
    | none => .error (.panic .isaUnwrap)
    | some isa =>
      ((testEnv.runtimeStruct tc.placement).pointer isa.pointerType).map fun ptr => [ptr]
  else .ok []

/-- The closure a run command invokes: the arguments of the command, with the pointer to the
context struct in front of them when the test asks for heaps.  The name in the command is not
looked at. -/
def invoke (testEnv : RuntestEnvironment) (func : IrFunction Body) (context : Context Flags)
    (compiledFn : CompiledFunction) (_funcName : Text) (runArgs : List DataValue) :
    Outcome (List DataValue) :=
  if !firstArgIsVmctx func.signature && testEnv.isActive then
    .error (.err .heapWithoutVmctx)
  else do
    let args ← vmctxArgs tc testEnv context
    compiledFn.call2 tc (args ++ runArgs)

/-- The loop over the comments.  The compiler is shared, so that a trampoline is built once. -/
def runComments (testEnv : RuntestEnvironment) (func : IrFunction Body)
    (context : Context Flags) : SingleFunctionCompiler Flags → List Comment → Outcome Unit
  | _, [] => .ok ()
  | compiler, comment :: comments =>
    match tc.parseRunCommand comment.text func.signature with
    | .error e => .error (.err (.parse e))
    | .ok none => runComments testEnv func context compiler comments
    | .ok (some command) =>
      match SingleFunctionCompiler.compile tc func compiler with
      | .error f _ => .error f
      | .ok compiledFn compiler => do
        command.run (invoke tc testEnv func context compiledFn)
        runComments testEnv func context compiler comments

def run (func : IrFunction Body) (context : Context Flags) : Outcome Unit := do
  let testEnv ← RuntestEnvironment.parse tc context.details.comments
  let compiler := SingleFunctionCompiler.new (buildBackend tc)
  runComments tc testEnv func context compiler context.details.comments

def toSubTest : SubTest Flags Body where
  name := "run"
  isMutating := false
  needsIsa := true
  run := fun func context => liftOutcome (run tc func context)

def subtest (parsed : TestCommand) : Outcome (SubTest Flags Body) := do
  noOptions "run" parsed
  return toSubTest tc

end TestRun

/-! ## `test interpret` -/

namespace TestInterpret

/-- The closure a run command invokes: the function of that name in a store that holds just
`func`. -/
def invoke (func : IrFunction Body) (funcName : Text) (args : List DataValue) :
    Outcome (List DataValue) :=
  let env := [(func.name.display, func)]
  -- Function names are stored with a leading %, which has to be added again.
  match tc.callByName env ('%' :: funcName) args with
  | .ok (.return_ results) => .ok results
  | .ok .other => .error (.panic .controlFlow)
  | .error t => .error (.err (.trap t))

def runComments (func : IrFunction Body) : List Comment → Outcome Unit
  | [] => .ok ()
  | comment :: comments =>
    match tc.parseRunCommand comment.text func.signature with
    | .error e => .error (.err (.parse e))
    | .ok none => runComments func comments
    | .ok (some command) => do
      command.run (invoke tc func)
      runComments func comments

def run (func : IrFunction Body) (context : Context Flags) : Outcome Unit :=
  runComments tc func context.details.comments

def toSubTest : SubTest Flags Body where
  name := "interpret"
  isMutating := false
  needsIsa := false
  run := fun func context => liftOutcome (run tc func context)

def subtest (parsed : TestCommand) : Outcome (SubTest Flags Body) := do
  noOptions "interpret" parsed
  return toSubTest tc

end TestInterpret

end CiRunner
