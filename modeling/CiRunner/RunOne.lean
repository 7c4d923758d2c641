import CiRunner.Library.StableSort
import CiRunner.Library.Replay
import CiRunner.TestRun

/-!
# Running one test file (`main.rs`, `runone.rs`)

`run` reads the test file, turns its commands into subtests, sorts them, expands them over the
targets and then takes the functions one after the other: each is put through all the tuples,
the verifier being called in front of the first subtest of a function that needs it.

The model keeps a *trace* beside the world: the verifier and subtest invocations in the order
they are made.  Nothing reads it but the theorems.
-/

namespace CiRunner

open TextLines StableSort

variable {Flags Body : Type}

/-! ## From commands to subtests -/

/-- The subtest of every command that is not supported. -/
def testSkip : SubTest Flags Body where
  name := "false test"
  isMutating := false
  needsIsa := false
  run := fun _ _ => pure ()

def subskip (_parsed : TestCommand) : Outcome (SubTest Flags Body) := .ok testSkip

/-- Create a new subtest to match `parsed.command`. -/
def newSubtest (tc : Toolchain Flags Body) (parsed : TestCommand) :
    Outcome (SubTest Flags Body) :=
  match parsed.command with
  | "run" => TestRun.subtest tc parsed
  | "compile" => TestCompile.subtest tc parsed
  | "interpret" => TestInterpret.subtest tc parsed
  | _ => subskip parsed

/-! ## Tuples -/

/-- A `(test, flags, isa)` tuple. -/
structure TestTuple (Flags Body : Type) where
  test : SubTest Flags Body
  flags : Flags
  isa : Option (TargetIsa Flags)

def TestTuple.target (tuple : TestTuple Flags Body) : FlagsOrIsa Flags :=
  { flags := tuple.flags, isa := tuple.isa }

/-- The tuples of one test. -/
def tuplesFor (isaSpec : IsaSpec Flags) (noIsaFlags : Flags) (test : SubTest Flags Body) :
    Outcome (List (TestTuple Flags Body)) :=
  if test.needsIsa then
    match isaSpec with
    | .none _ => .error (.err (.requiresIsa test.name))
    | .some isas => .ok (isas.map fun isa => { test, flags := isa.flags, isa := some isa })
  else
    -- This test doesn't require an ISA; it is given the unique one if there is one.
    .ok [{ test, flags := noIsaFlags, isa := isaSpec.uniqueIsa }]

/-- Given a list of tests, generate a list of (test, flags, isa) tuples. -/
def testTuples (isaSpec : IsaSpec Flags) (noIsaFlags : Flags) :
    List (SubTest Flags Body) → Outcome (List (TestTuple Flags Body))
  | [] => .ok []
  | test :: tests => do
    let out ← tuplesFor isaSpec noIsaFlags test
    let rest ← testTuples isaSpec noIsaFlags tests
    return out ++ rest

/-! ## Invocations -/

/-- An invocation made by a run: of the verifier on a function for a pair of flags and target,
or of a subtest, which is also told whether the function has been verified. -/
inductive Event (Flags Body : Type)
  | verify (func : IrFunction Body) (details : Details) (target : FlagsOrIsa Flags)
  | test (test : SubTest Flags Body) (func : IrFunction Body) (details : Details)
      (target : FlagsOrIsa Flags) (verified : Bool)

structure RunState (Flags Body : Type) where
  world : World
  trace : List (Event Flags Body)

/-- A computation of a run. -/
abbrev RunM (Flags Body : Type) := EStateM Fault (RunState Flags Body)

def record (e : Event Flags Body) : RunM Flags Body Unit :=
  modify fun s => { s with trace := s.trace ++ [e] }

/-- An effect on the world, as a computation of a run. -/
def onWorld {α : Type} (x : Effect α) : RunM Flags Body α := fun s =>
  match x.run s.world with
  | .ok a w => .ok a { s with world := w }
  | .error f w => .error f { s with world := w }

/-- `verify_function`, with its errors printed. -/
def verify (tc : Toolchain Flags Body) (func : IrFunction Body) (target : FlagsOrIsa Flags) :
    Outcome Unit :=
  match tc.verifyFunction func target with
  | .error errors => .error (.err (.verifier errors))
  | .ok () => .ok ()

/-- `test.run(func, context).context(test.name())`. -/
def SubTest.runNamed (test : SubTest Flags Body) (func : IrFunction Body)
    (context : Context Flags) : Effect Unit := fun w =>
  match (test.run func context).run w with
  | .ok _ w => .ok () w
  | .error f w => .error (f.withContext test.name) w

section
variable (tc : Toolchain Flags Body)

/-- Run the verifier before this test, if it should be and has not been. -/
def verifyIfNeeded (test : SubTest Flags Body) (func : IrFunction Body)
    (context : Context Flags) : RunM Flags Body (Context Flags) :=
  if !context.verified && test.needsVerifier then do
    record (.verify func context.details context.flagsOrIsa)
    onWorld (liftOutcome (verify tc func context.flagsOrIsa))
    return { context with verified := true }
  else return context

/-- `run_one_test`. -/
def runOneTest (tuple : TestTuple Flags Body) (func : IrFunction Body)
    (context : Context Flags) : RunM Flags Body (Context Flags) := do
  let context := { context with flags := tuple.flags, isa := tuple.isa }
  let context ← verifyIfNeeded tc tuple.test func context
  record (.test tuple.test func context.details context.flagsOrIsa context.verified)
  onWorld (tuple.test.runNamed func context)
  return context

/-- The tuples of one function, one after the other. -/
def runTuples (func : IrFunction Body) :
    List (TestTuple Flags Body) → Context Flags → RunM Flags Body (Context Flags)
  | [], context => pure context
  | tuple :: tuples, context => do
    let context ← runOneTest tc tuple func context
    runTuples func tuples context

/-- The loop of `run` over the functions.  The last tuple is kept apart, since it is given the
function itself and not a copy. -/
def runFunctions (preambleComments : List Comment) (flags : Flags)
    (tuples : List (TestTuple Flags Body)) (lastTuple : TestTuple Flags Body) :
    List (IrFunction Body × Details) → RunM Flags Body Unit
  | [] => pure ()
  | (func, details) :: functions => do
    let context : Context Flags :=
      { preambleComments, details, verified := false, flags, isa := none }
    let context ← runTuples tc func tuples context
    let _ ← runOneTest tc lastTuple func context
    runFunctions preambleComments flags tuples lastTuple functions

/-- Flags to use for those tests that don't need an ISA. -/
def noIsaFlags : IsaSpec Flags → Outcome Flags
  | .none flags => .ok flags
  | .some isas =>
    match isas.getLast? with
    | some isa => .ok isa.flags
    | none => .error (.panic .emptyIsaList)

/-- The key tests are sorted by: mutators at the end, and those that don't need the verifier at
the front. -/
def sortKey (st : SubTest Flags Body) : Bool ×ₗ Bool := toLex (st.isMutating, st.needsVerifier)

/-- `run`, from the list of subtests on. -/
def runTests (testfile : TestFile Flags Body) (tests : List (SubTest Flags Body)) :
    RunM Flags Body Unit := do
  let flags ← onWorld (liftOutcome (noIsaFlags testfile.isaSpec))
  let tests := sortByKey sortKey tests
  let tuples ← onWorld (liftOutcome (testTuples testfile.isaSpec flags tests))
  match tuples.getLast? with
  | none => throw (.err .noTestCommands)
  | some lastTuple =>
    modify fun s => { s with world := { s.world with fileUpdate := FileUpdate.new } }
    runFunctions tc testfile.preambleComments flags tuples.dropLast lastTuple testfile.functions

/-- `run`, once the file is parsed. -/
def runTestFile (testfile : TestFile Flags Body) : RunM Flags Body Unit := do
  if testfile.functions.isEmpty then
    throw (.err .noFunctions)
  let tests ← onWorld (liftOutcome (testfile.commands.mapM (newSubtest tc)))
  runTests tc testfile tests

/-- Load the test file and run the test in it. -/
def run (options : ParseOptions) : RunM Flags Body Unit := do
  let buffer := (← get).world.disk
  match tc.parseTest buffer options with
  | .error e =>
    -- A warning means that the test is skipped.
    if e.isWarning then pure ()
    else throw (.err (.context "failed to parse" (.parse e)))
  | .ok testfile => runTestFile tc testfile

end

end CiRunner
