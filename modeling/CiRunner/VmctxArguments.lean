import CiRunner.Agreement
import CiRunner.CompileErrors
import CiRunner.RunCalls

/-!
# Does the argument list fit the signature?

The reader leaves a leading `vmctx` parameter out of the arguments of a run command, and
`TestRun.run` puts the pointer to the context struct in its place, but only when the test asks for
heaps.  The opposite mismatch, heaps without a `vmctx` parameter, is an error that is returned.  For
a `vmctx` parameter without heaps nothing is done: the call has one argument too few, and
`make_arguments` fails its assertion.

`TestRun.calls` lists the calls a run makes.  They all fit the signature exactly when there are
heaps, or no `vmctx` parameter, or no command is carried out at all (`fitsSignature_iff`).
-/

namespace CiRunner

open TextLines

variable {Flags Body : Type} (tc : Toolchain Flags Body)

namespace TestRun

/-! ## The number of arguments -/

/-- The one argument in front of those of the command, when there are heaps. -/
lemma length_vmctxArgs {testEnv : RuntestEnvironment} {context : Context Flags}
    {args : List DataValue} (h : vmctxArgs tc testEnv context = .ok args) :
    args.length = if testEnv.isActive then 1 else 0 := by
  rcases (vmctxArgs_eq_ok_iff tc).mp h with ⟨hactive, rfl⟩ | ⟨hactive, isa, ptr, -, -, rfl⟩
  · simp [hactive]
  · simp [hactive]

/-- **The arguments fit the signature** unless it has a `vmctx` parameter and there are no heaps;
then one is missing. -/
lemma length_callArguments {testEnv : RuntestEnvironment} {func : IrFunction Body}
    {context : Context Flags} {runArgs args : List DataValue}
    (hread : HasTypes runArgs (explicitParams func.signature))
    (h : callArguments tc testEnv func context runArgs = .ok args) :
    args.length + (if firstArgIsVmctx func.signature && !testEnv.isActive then 1 else 0) =
      func.signature.params.length := by
  have hlength := length_of_hasTypes hread
  unfold callArguments at h
  split at h
  · cases h
  · rename_i hheap
    cases hvmctx : vmctxArgs tc testEnv context with
    | error f =>
      rw [hvmctx] at h
      cases h
    | ok pointer =>
      rw [hvmctx] at h
      obtain rfl := Except.ok.inj h
      have hpointer := length_vmctxArgs tc hvmctx
      rw [List.length_append, hlength, hpointer]
      by_cases hfirst : firstArgIsVmctx func.signature
      · have hparams := length_explicitParams hfirst
        cases hactive : testEnv.isActive <;> simp [hfirst] <;> omega
      · have hactive : testEnv.isActive = false := by simpa [hfirst] using hheap
        simp [hfirst, hactive, explicitParams]

/-! ## When every call fits -/

/-- A run command is carried out: none in front of it is a command or has a syntax error, and the
function and its trampoline can be compiled. -/
def ReachesCommand (func : IrFunction Body) (comments : List Comment) : Prop :=
  (∃ before comment after command, comments = before ++ comment :: after ∧
    (∀ c ∈ before, tc.parseRunCommand c.text func.signature = .ok none) ∧
    tc.parseRunCommand comment.text func.signature = .ok (some command)) ∧
  (∃ code, tc.codegen func (buildBackend tc) = .ok code) ∧
  ∃ code, tc.codegen (makeTrampoline func.signature (buildBackend tc)) (buildBackend tc) = .ok code

/-- Every call has as many arguments as there are parameters, the assertion on that number never
fails, and for a target with a proper pointer type nothing panics while the arguments are put
together.  (That the function or its trampoline cannot be compiled is a panic before all that.) -/
structure FitsSignature (testEnv : RuntestEnvironment) (func : IrFunction Body)
    (context : Context Flags) : Prop where
  calls : ∀ call ∈ calls tc testEnv func context (.new (buildBackend tc)) context.details.comments,
    call.2.length = func.signature.params.length
  assertion : run tc func context ≠ .error (.panic .argumentCount)
  pointer : ∀ isa, context.isa = some isa → isa.pointerType.IsPointer →
    run tc func context ≠ .error (.panic .isaUnwrap) ∧
      run tc func context ≠ .error (.panic .pointerCast)

/-- A run whose calls all fit the signature keeps clear of the assertion. -/
lemma fitsSignature_of_calls {testEnv : RuntestEnvironment} {func : IrFunction Body}
    {context : Context Flags}
    (hparse : RuntestEnvironment.parse tc context.details.comments = .ok testEnv)
    (hcalls : ∀ call ∈ TestRun.calls tc testEnv func context (.new (buildBackend tc))
      context.details.comments, call.2.length = func.signature.params.length) :
    FitsSignature tc testEnv func context := by
  have hrun : run tc func context = runComments tc testEnv func context (.new (buildBackend tc))
      context.details.comments := by
    rw [run, hparse]
    rfl
  have hpanic {f : Fault} (h : run tc func context = .error f) (herr : ∀ e, f ≠ .err e) :
      f ≠ .panic .argumentCount ∧ (f.IsCallPanic ∨
        ∀ isa, context.isa = some isa → ¬ isa.pointerType.IsPointer) := by
    rw [hrun] at h
    rcases runComments_error tc h with ⟨e, rfl⟩ | rfl | ⟨runArgs, hargs⟩ | ⟨call, hmem, hcall⟩
    · exact absurd rfl (herr e)
    · exact ⟨by decide, Or.inl (by decide)⟩
    · rcases faultsIn_callArguments tc testEnv func context runArgs f hargs with rfl | ⟨hf, hisa⟩
      · exact absurd rfl (herr _)
      · exact ⟨by rcases hf with rfl | rfl <;> decide, Or.inr hisa⟩
    · have hlength := hcalls call hmem
      rw [← (of_mem_calls tc hmem).1] at hlength
      obtain ⟨hf, hne⟩ := faultsIn_call2_of_length tc hlength f hcall
      exact ⟨hne, Or.inl hf⟩
  refine ⟨hcalls, fun h => (hpanic h (by simp)).1 rfl, fun isa hisa hpointer => ?_⟩
  have hclear {p : Panic} (hp : ¬ (Fault.panic p).IsCallPanic) :
      run tc func context ≠ .error (.panic p) := by
    intro h
    rcases (hpanic h (by simp)).2 with hf | hf
    · exact hp hf
    · exact hf isa hisa hpointer
  exact ⟨hclear (by decide), hclear (by decide)⟩

/-- There is a call only when a command is carried out. -/
lemma reachesCommand_of_mem_calls {testEnv : RuntestEnvironment} {func : IrFunction Body}
    {context : Context Flags} {comments : List Comment}
    {call : CompiledFunction × List DataValue}
    (h : call ∈ calls tc testEnv func context (.new (buildBackend tc)) comments) :
    ReachesCommand tc func comments := by
  induction comments with
  | nil => cases h
  | cons comment comments ih =>
    rw [calls] at h
    cases hparse : tc.parseRunCommand comment.text func.signature with
    | error e => simp [hparse] at h
    | ok command =>
      simp only [hparse] at h
      cases command with
      | none =>
        obtain ⟨⟨before, c, after, command, rfl, hbefore, hcommand⟩, hcodegen⟩ := ih h
        refine ⟨⟨comment :: before, c, after, command, rfl, ?_, hcommand⟩, hcodegen⟩
        rw [List.forall_mem_cons]
        exact ⟨hparse, hbefore⟩
      | some command =>
        refine ⟨⟨[], comment, comments, command, rfl, by simp, hparse⟩, ?_⟩
        cases hcompile : SingleFunctionCompiler.compile tc func (.new (buildBackend tc)) with
        | error f compiler' => simp [hcompile] at h
        | ok compiledFn compiler' => exact codegen_of_compile tc hcompile

/-- The first command that is carried out makes a call, when its arguments are accepted. -/
lemma exists_call_of_reachesCommand {testEnv : RuntestEnvironment} {func : IrFunction Body}
    {context : Context Flags} {comments : List Comment} (h : ReachesCommand tc func comments)
    (hargs : ∀ runArgs, ∃ args, callArguments tc testEnv func context runArgs = .ok args) :
    ∃ call, call ∈ calls tc testEnv func context (.new (buildBackend tc)) comments := by
  obtain ⟨⟨before, comment, after, command, rfl, hbefore, hcommand⟩, ⟨code, hcode⟩, trampoline,
    htrampoline⟩ := h
  induction before with
  | nil =>
    obtain ⟨built, trampolines, hcompile⟩ :=
      @compile_of_codegen _ _ tc func (.new (buildBackend tc)) _ _ hcode htrampoline
    obtain ⟨args, hargs⟩ := hargs command.args
    rw [List.nil_append, calls]
    simp only [hcommand, hcompile, hargs]
    exact ⟨_, List.mem_cons_self⟩
  | cons c before ih =>
    rw [List.forall_mem_cons] at hbefore
    rw [List.cons_append, calls]
    simp only [hbefore.1]
    exact ih hbefore.2

/-- **When the argument list fits the signature.**  It does unless the function has a leading
`vmctx` parameter, there is no heap annotation, and a command is carried out. -/
theorem fitsSignature_iff {func : IrFunction Body} {context : Context Flags}
    {testEnv : RuntestEnvironment} (hread : ReadsArguments tc func.signature)
    (hparse : RuntestEnvironment.parse tc context.details.comments = .ok testEnv) :
    FitsSignature tc testEnv func context ↔
      ¬ (firstArgIsVmctx func.signature ∧ heapCommandsIn tc context.details.comments = [] ∧
        ReachesCommand tc func context.details.comments) := by
  have hheaps := ((parse_eq_ok_iff tc _ testEnv).mp hparse).2.2
  constructor
  · rintro hfits ⟨hfirst, hnone, hreach⟩
    have hactive : testEnv.isActive = false := by
      simp [RuntestEnvironment.isActive, hheaps, hnone]
    have hargs (runArgs : List DataValue) :
        callArguments tc testEnv func context runArgs = .ok runArgs := by
      simp [callArguments, vmctxArgs, hfirst, hactive, bind, Except.bind, pure, Except.pure]
    obtain ⟨call, hmem⟩ := exists_call_of_reachesCommand tc hreach fun runArgs => ⟨_, hargs runArgs⟩
    obtain ⟨-, text, command, hcommand, hcall⟩ := of_mem_calls tc hmem
    have hlength := length_callArguments tc (hread text command hcommand) hcall
    have hfit := hfits.calls call hmem
    rw [if_pos (by simp [hfirst, hactive])] at hlength
    omega
  · intro hcond
    refine fitsSignature_of_calls tc hparse fun call hmem => ?_
    obtain ⟨-, text, command, hcommand, hcall⟩ := of_mem_calls tc hmem
    have hlength := length_callArguments tc (hread text command hcommand) hcall
    have hreach := reachesCommand_of_mem_calls tc hmem
    rw [if_neg] at hlength
    · exact hlength
    · intro h
      rw [Bool.and_eq_true, Bool.not_eq_true'] at h
      refine hcond ⟨h.1, ?_, hreach⟩
      rw [← hheaps]
      simpa [RuntestEnvironment.isActive] using h.2

end TestRun

/-- The function `%f(i64 vmctx)`. -/
def IrFunction.takingVmctx : IrFunction Unit := functionOf "function %f(i64 vmctx) \x7b".toList

/-- A toolchain that also reads `; print: %f()`. -/
def Toolchain.readingRuns : Toolchain Settings Unit where
  __ := Toolchain.readingHeaps
  parseRunCommand text _ := .ok (if text = printF then some RunCommand.callF else none)

lemma readsArguments_takingVmctx :
    ReadsArguments Toolchain.readingRuns IrFunction.takingVmctx.signature := by
  intro text command h
  have hargs : command.args = [] := by
    simp only [Toolchain.readingRuns, Except.ok.injEq] at h
    split at h
    · cases h
      rfl
    · cases h
  rw [hargs]
  exact List.Forall₂.nil

/-- With a heap the arguments of `%f` fit. -/
theorem TestRun.fitsSignature_takingVmctx :
    TestRun.FitsSignature Toolchain.readingRuns { heaps := [⟨16, some 0, some 8⟩] }
      IrFunction.takingVmctx (contextOf [firstHeap, { text := printF }]) :=
  (TestRun.fitsSignature_iff Toolchain.readingRuns readsArguments_takingVmctx rfl).mpr
    fun h => absurd h.2.1 (by decide)

/-- **Without a heap** the pointer is missing, and the call fails the assertion. -/
theorem TestRun.run_misses_vmctx :
    RuntestEnvironment.parse Toolchain.readingRuns [{ text := printF }] = .ok { heaps := [] } ∧
      ReadsArguments Toolchain.readingRuns IrFunction.takingVmctx.signature ∧
      TestRun.run Toolchain.readingRuns IrFunction.takingVmctx
        (contextOf [{ text := printF }]) = .error (.panic .argumentCount) ∧
      ¬ TestRun.FitsSignature Toolchain.readingRuns { heaps := [] } IrFunction.takingVmctx
        (contextOf [{ text := printF }]) := by
  have hrun : TestRun.run Toolchain.readingRuns IrFunction.takingVmctx
      (contextOf [{ text := printF }]) = .error (.panic .argumentCount) := rfl
  exact ⟨rfl, readsArguments_takingVmctx, hrun, fun h => h.assertion hrun⟩

end CiRunner
