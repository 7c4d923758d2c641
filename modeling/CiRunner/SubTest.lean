import CiRunner.Toolchain

/-!
# Subtests and what they act on (`sub_test.rs`)

A run acts on one file: the test file itself, which a subtest may rewrite in place.  `World` is
that file's content together with the two cells of the `FileUpdate` all functions of a run
share.  An effect keeps the world it reached when it fails, since a rewritten file stays
rewritten.

`SubTest` is the trait object behind a test command.  Its defaults are the trait's: a subtest
that does not say otherwise needs the verifier, does not mutate and needs no target.
-/

namespace CiRunner

open TextLines

/-- The cells of a `FileUpdate`: by how many lines the file has grown since the run began, and
the line of the last function updated. -/
structure FileUpdate where
  lineDiff : ℤ
  lastUpdate : ℕ
  deriving DecidableEq, Repr

def FileUpdate.new : FileUpdate := { lineDiff := 0, lastUpdate := 0 }

structure World where
  /-- The content of the test file. -/
  disk : Text
  fileUpdate : FileUpdate
  deriving DecidableEq, Repr

/-- A computation of the runner that may rewrite the test file. -/
abbrev Effect := EStateM Fault World

/-- `Context`: what a subtest is told about the function it runs on. -/
structure Context (Flags : Type) where
  /-- Comments from the preamble of the test file. -/
  preambleComments : List Comment
  details : Details
  /-- Was the function verified before running this test? -/
  verified : Bool
  flags : Flags
  isa : Option (TargetIsa Flags)

/-- The pair the verifier is given. -/
def Context.flagsOrIsa {Flags : Type} (context : Context Flags) : FlagsOrIsa Flags :=
  { flags := context.flags, isa := context.isa }

/-- Common interface for implementations of test commands. -/
structure SubTest (Flags Body : Type) where
  name : String
  /-- Should the verifier be run on the function before running the test? -/
  needsVerifier : Bool := true
  /-- Does this test mutate the function when it runs? -/
  isMutating : Bool := false
  /-- Does this test need a target? -/
  needsIsa : Bool := false
  run : IrFunction Body → Context Flags → Effect Unit

/-- A computation without effects, among those with effects. -/
def liftOutcome {α : Type} : Outcome α → Effect α
  | .ok a => pure a
  | .error f => throw f

@[simp] lemma liftOutcome_ok {α : Type} (a : α) (w : World) :
    (liftOutcome (.ok a)).run w = .ok a w := rfl

@[simp] lemma liftOutcome_error {α : Type} (f : Fault) (w : World) :
    (liftOutcome (.error f) : Effect α).run w = .error f w := rfl

/-- `anyhow`'s `.context(what)`: it wraps an error and lets a panic through. -/
def Fault.withContext (what : String) : Fault → Fault
  | .err e => .err (.context what e)
  | .panic p => .panic p

end CiRunner
