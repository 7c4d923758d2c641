import CiRunner.Toolchain

/-!
# The environment of a run test (`runtest_environment.rs`)

Heap annotations among the comments of a function ask for heaps and say where in a context
struct their bounds are to be found.  `RuntestEnvironment.parse` accepts only the one layout
that `RuntestContext.new` builds: for the heap of index `i`, the start at byte `16 * i` and the
end at byte `16 * i + 8`.
-/

namespace CiRunner

open TextLines

/-- Stores info about the expected environment for a test function. -/
structure RuntestEnvironment where
  heaps : List HeapCommand
  deriving DecidableEq, Repr

namespace RuntestEnvironment

section
variable {Flags Body : Type} (tc : Toolchain Flags Body)

/-- One comment of the parsing loop. -/
def parseComment (env : RuntestEnvironment) (comment : Comment) : Outcome RuntestEnvironment :=
  match tc.parseHeapCommand comment.text with
  | .error e => .error (.err (.parse e))
  | .ok none => .ok env
  | .ok (some heapCommand) =>
    let heapIndex := env.heaps.length
    let expectedPtr := heapIndex * 16
    let expectedBound := heapIndex * 16 + 8
    if some expectedPtr ≠ heapCommand.ptrOffset then
      .error (.err (.invalidPtrOffset expectedPtr))
    else if some expectedBound ≠ heapCommand.boundOffset then
      .error (.err (.invalidBoundOffset expectedBound))
    else .ok { heaps := env.heaps ++ [heapCommand] }

/-- Parse the environment from a set of comments. -/
def parse (comments : List Comment) : Outcome RuntestEnvironment :=
  comments.foldlM (parseComment tc) { heaps := [] }

end

def isActive (env : RuntestEnvironment) : Bool := !env.heaps.isEmpty

end RuntestEnvironment

/-- A struct that provides info about the environment to the test. -/
structure RuntestContext where
  /-- The heap memory, which the context info keeps alive. -/
  heaps : List (List UInt8)
  /-- The struct that gets passed into the `vmctx` argument of the tests: the start and the end
  of each heap. -/
  contextStruct : List (BitVec 64)
  /-- The host address of `contextStruct`. -/
  asPtr : BitVec 64
  deriving DecidableEq, Repr

namespace RuntestContext

def new (placement : Placement) (env : RuntestEnvironment) : RuntestContext :=
  let heaps := env.heaps.map fun cmd => List.replicate cmd.size (0 : UInt8)
  { heaps
    contextStruct := heaps.zipIdx.flatMap fun (heap, i) =>
      [placement.heapStart i, placement.heapStart i + BitVec.ofNat 64 heap.length]
    asPtr := placement.contextStruct }

/-- A value of a target's pointer type that points to the context struct. -/
def pointer (self : RuntestContext) (ty : IrType) : Outcome DataValue :=
  match DataValue.ofInt? ty self.asPtr.toNat with
  | some v => .ok v
  | none => .error (.panic .pointerCast)

end RuntestContext

/-- Allocates a struct to be injected into the test. -/
def RuntestEnvironment.runtimeStruct (placement : Placement) (env : RuntestEnvironment) :
    RuntestContext :=
  RuntestContext.new placement env

end CiRunner
