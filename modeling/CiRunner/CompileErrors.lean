import CiRunner.Faults
import CiRunner.Reading
import CiRunner.TrampolineCache

/-!
# What compiling a function promises, and what it does

The documentation of `SingleFunctionCompiler::compile` says that it checks the calling convention of
the function, and its error type has a case for a failed check and one for a failure of code
generation.  Neither case is ever built.  There is no check, and `compile2` unwraps the result of
code generation, so the promise (`MeetsContract`) is kept exactly for functions with the default
calling convention that code generation accepts (`meetsContract_iff`), and a sequence of calls keeps
it exactly when each of its functions, as far as it gets, is one of these
(`compileAll_meetsContract_iff`).
-/

namespace CiRunner

variable {Flags Body : Type} (tc : Toolchain Flags Body)

/-! ## One call -/

/-- What a call of `compile` promises: an error for a calling convention that is not the target's
default, an error for a failure of code generation, both of which leave the compiler as it is, and
otherwise a compiled function, if there can be a trampoline for it. -/
structure MeetsContract (function : IrFunction Body) (compiler : SingleFunctionCompiler Flags)
    (result : EStateM.Result Fault (SingleFunctionCompiler Flags) CompiledFunction) : Prop where
  invalidTargetIsa : function.signature.callConv ≠ compiler.isa.defaultCallConv →
    result = .error (.err (.compilation .invalidTargetIsa)) compiler
  codegenError : function.signature.callConv = compiler.isa.defaultCallConv →
    ∀ e, tc.codegen function compiler.isa = .error e →
      result = .error (.err (.compilation (.codegenError e))) compiler
  compiles : function.signature.callConv = compiler.isa.defaultCallConv →
    (∃ code, tc.codegen function compiler.isa = .ok code) →
    (∃ code, tc.codegen (makeTrampoline function.signature compiler.isa) compiler.isa = .ok code) →
      ∃ compiledFn compiler', result = .ok compiledFn compiler'

/-- The function has the default calling convention of the target and can be compiled for it. -/
def Compilable (isa : TargetIsa Flags) (function : IrFunction Body) : Prop :=
  function.signature.callConv = isa.defaultCallConv ∧ ∃ code, tc.codegen function isa = .ok code

/-- Compiling never returns an error. -/
lemma compile_ne_err (function : IrFunction Body)
    (compiler compiler' : SingleFunctionCompiler Flags) (e : Error) :
    SingleFunctionCompiler.compile tc function compiler ≠ .error (.err e) compiler' := by
  intro h
  obtain ⟨p, -, hp⟩ := faultsIn_compile tc h
  cases hp

/-- A function that can be compiled is, when there can be a trampoline for it. -/
lemma compile_of_codegen {function : IrFunction Body} {compiler : SingleFunctionCompiler Flags}
    {code trampoline : CompiledCode} (hcode : tc.codegen function compiler.isa = .ok code)
    (htrampoline : tc.codegen (makeTrampoline function.signature compiler.isa) compiler.isa =
      .ok trampoline) :
    ∃ built trampolines, SingleFunctionCompiler.compile tc function compiler =
      .ok { code := code.buffer, signature := function.signature, trampoline := built }
        { compiler with trampolines } := by
  have hfunction : compile2 tc function compiler.isa = .ok (code.buffer, code.disasm) := by
    simp [compile2, hcode]
  have hbuild : ∃ built trampolines, trampolineFor tc function.signature compiler.isa
      compiler.trampolines = .ok (built, trampolines) := by
    unfold trampolineFor
    split
    · exact ⟨_, _, rfl⟩
    · simp only [compile2, htrampoline]
      exact ⟨_, _, rfl⟩
  obtain ⟨built, trampolines, hbuild⟩ := hbuild
  exact ⟨built, trampolines, by simp only [SingleFunctionCompiler.compile, hfunction, hbuild]⟩

/-- A new compiler compiles nothing else. -/
lemma codegen_of_compile {function : IrFunction Body} {isa : TargetIsa Flags}
    {compiler' : SingleFunctionCompiler Flags} {compiledFn : CompiledFunction}
    (h : SingleFunctionCompiler.compile tc function (.new isa) = .ok compiledFn compiler') :
    (∃ code, tc.codegen function isa = .ok code) ∧
      ∃ code, tc.codegen (makeTrampoline function.signature isa) isa = .ok code := by
  simp only [SingleFunctionCompiler.compile, SingleFunctionCompiler.new, compile2] at h
  cases hcode : tc.codegen function isa with
  | error e => simp [hcode] at h
  | ok code =>
    cases htrampoline : tc.codegen (makeTrampoline function.signature isa) isa with
    | error e =>
      simp [hcode, trampolineFor, compile2, htrampoline, expectTrampoline, bind, Except.bind] at h
    | ok trampoline => exact ⟨⟨_, rfl⟩, _, rfl⟩

/-- **When one call keeps its promise.** -/
theorem meetsContract_iff (function : IrFunction Body) (compiler : SingleFunctionCompiler Flags) :
    MeetsContract tc function compiler (SingleFunctionCompiler.compile tc function compiler) ↔
      Compilable tc compiler.isa function := by
  constructor
  · intro h
    by_cases hconv : function.signature.callConv = compiler.isa.defaultCallConv
    · refine ⟨hconv, ?_⟩
      cases hcode : tc.codegen function compiler.isa with
      | ok code => exact ⟨code, rfl⟩
      | error e => exact absurd (h.codegenError hconv e hcode) (compile_ne_err tc _ _ _ _)
    · exact absurd (h.invalidTargetIsa hconv) (compile_ne_err tc _ _ _ _)
  · rintro ⟨hconv, code, hcode⟩
    refine ⟨fun hne => absurd hconv hne, fun _ e he => ?_, fun _ _ htrampoline => ?_⟩
    · rw [hcode] at he
      cases he
    · obtain ⟨trampoline, htrampoline⟩ := htrampoline
      obtain ⟨built, trampolines, hcompile⟩ := compile_of_codegen tc hcode htrampoline
      exact ⟨_, _, hcompile⟩

/-! ## Any number of calls -/

/-- A call of `compile`: the function, and the compiler as it is then. -/
structure CompileCall (Flags Body : Type) where
  function : IrFunction Body
  compiler : SingleFunctionCompiler Flags

/-- The calls made when functions are compiled one after another, up to the first that panics.  An
error does not end them. -/
def compileAll : List (IrFunction Body) → SingleFunctionCompiler Flags →
    List (CompileCall Flags Body)
  | [], _ => []
  | function :: functions, compiler =>
    { function, compiler } ::
      match SingleFunctionCompiler.compile tc function compiler with
      | .ok _ compiler' => compileAll functions compiler'
      | .error (.err _) compiler' => compileAll functions compiler'
      | .error (.panic _) _ => []

/-- Each function has the default calling convention and can be compiled; behind one whose
trampoline cannot be compiled any function may follow. -/
def AllCompilable (isa : TargetIsa Flags) : List (IrFunction Body) → Prop
  | [] => True
  | function :: functions => Compilable tc isa function ∧
      ((∃ code, tc.codegen (makeTrampoline function.signature isa) isa = .ok code) →
        AllCompilable isa functions)

/-- Compiling does not change the target. -/
lemma isa_compile {function : IrFunction Body} {compiler compiler' : SingleFunctionCompiler Flags}
    {compiledFn : CompiledFunction}
    (h : SingleFunctionCompiler.compile tc function compiler = .ok compiledFn compiler') :
    compiler'.isa = compiler.isa := by
  unfold SingleFunctionCompiler.compile at h
  dsimp only at h
  split at h
  · cases h
  · split at h
    · cases h
    · cases h
      rfl

/-- Every call is made with the target of the first. -/
lemma isa_compileAll (functions : List (IrFunction Body))
    (compiler : SingleFunctionCompiler Flags) :
    ∀ call ∈ compileAll tc functions compiler, call.compiler.isa = compiler.isa := by
  induction functions generalizing compiler with
  | nil => simp [compileAll]
  | cons function functions ih =>
    rw [compileAll, List.forall_mem_cons]
    refine ⟨rfl, ?_⟩
    cases h : SingleFunctionCompiler.compile tc function compiler with
    | ok compiledFn compiler' =>
      rw [← isa_compile tc h]
      exact ih compiler'
    | error f compiler' =>
      cases f with
      | err e => exact absurd h (compile_ne_err tc _ _ _ _)
      | panic p => simp

/-- The calls are of functions that can be compiled just if the first function can be, and those of
the rest are, unless the trampoline of the first cannot be compiled. -/
lemma forall_compileAll_iff {compiler : SingleFunctionCompiler Flags} (hcache : compiler.Caches tc)
    (functions : List (IrFunction Body)) :
    (∀ call ∈ compileAll tc functions compiler, Compilable tc compiler.isa call.function) ↔
      AllCompilable tc compiler.isa functions := by
  induction functions generalizing compiler with
  | nil => simp [compileAll, AllCompilable]
  | cons function functions ih =>
    rw [compileAll, AllCompilable, List.forall_mem_cons]
    refine and_congr_right fun hfunction => ?_
    obtain ⟨-, code, hcode⟩ := hfunction
    rcases compile_of_caches hcache function with
      ⟨compiledFn, new, compiler', hnew, hcompile, hisa, hcache'⟩ |
        ⟨f, new, compiler', -, hcompile⟩
    · rw [hcompile, forall_prop_of_true (codegen_of_compile tc hnew).2, ← hisa]
      exact ih hcache'
    · have htrampoline : ¬ ∃ trampoline, tc.codegen
          (makeTrampoline function.signature compiler.isa) compiler.isa = .ok trampoline := by
        rintro ⟨trampoline, htrampoline⟩
        obtain ⟨built, trampolines, hok⟩ := compile_of_codegen tc hcode htrampoline
        rw [hok] at hcompile
        cases hcompile
      have hpanic : f = .panic .compileUnwrap := compile_error tc hcompile
      rw [hcompile, hpanic]
      exact iff_of_true (by simp) fun h => absurd h htrampoline

/-- **Compiling functions one after another** keeps the promise in every call exactly when each
function that gets compiled has the default calling convention and is accepted by code
generation. -/
theorem compileAll_meetsContract_iff (functions : List (IrFunction Body)) (isa : TargetIsa Flags) :
    (∀ call ∈ compileAll tc functions (.new isa), MeetsContract tc call.function call.compiler
      (SingleFunctionCompiler.compile tc call.function call.compiler)) ↔
    AllCompilable tc isa functions := by
  refine Iff.trans ?_ (forall_compileAll_iff tc (caches_new isa) functions)
  refine forall₂_congr fun call hcall => ?_
  rw [meetsContract_iff, isa_compileAll tc functions (.new isa) call hcall]

/-- A function with another calling convention than the target's is compiled all the same, and a
failure of code generation is a panic. -/
theorem compile_breaks_contract :
    let fast : IrFunction Unit :=
      { IrFunction.sample 'f' with signature.callConv := .fast }
    let failing : Toolchain Settings Unit :=
      { Toolchain.sample with codegen := fun _ _ => .error { message := "unsupported" } }
    let compiler : SingleFunctionCompiler Settings := .new TargetIsa.sample
    (∃ compiledFn compiler',
      SingleFunctionCompiler.compile Toolchain.sample fast compiler = .ok compiledFn compiler') ∧
    SingleFunctionCompiler.compile failing (IrFunction.sample 'f') compiler =
      .error (.panic .compileUnwrap) compiler ∧
    ¬ MeetsContract Toolchain.sample fast compiler
      (SingleFunctionCompiler.compile Toolchain.sample fast compiler) ∧
    ¬ MeetsContract failing (IrFunction.sample 'f') compiler
      (SingleFunctionCompiler.compile failing (IrFunction.sample 'f') compiler) := by
  intro fast failing compiler
  refine ⟨⟨_, _, rfl⟩, rfl, fun h => ?_, fun h => ?_⟩
  · have hresult := h.invalidTargetIsa (by decide)
    cases hresult
  · have hresult := h.codegenError rfl _ rfl
    cases hresult

end CiRunner
