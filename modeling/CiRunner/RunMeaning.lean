import CiRunner.VmctxArguments

/-!
# What `test run` tests

Given a code generator and an emulator that compute a function `g` (`Computes`), `test run` comes
down to what one means by it: go through the comments, apply `g` to the arguments of each command,
and see whether the results satisfy the command (`judge`).  Compilation, the cache of trampolines,
slots and their bytes are gone.

What is left besides `g` is the pointer to the context struct, in front of the arguments of the
command (`intendedArgs`).  That a test has heaps just if its function takes the pointer is for the
test to see to.  Otherwise the first command that is reached ends the test: with an error when the
function does not take the pointer, and with a panic when it does, because the call then has one
argument too few.
-/

namespace CiRunner

open TextLines LittleEndian

variable {Flags Body : Type}

section
variable {tc : Toolchain Flags Body} {func : IrFunction Body}
  {g : List DataValue → List DataValue} {context : Context Flags}

section
variable {code trampoline : CompiledCode} {isa : TargetIsa Flags}

end

end

end CiRunner
