import CiRunner.Faults
import CiRunner.HeapLayout

/-!
# The calls of `test run`

A run command leads to a call of the compiled function, with the arguments of the command behind
the pointer to the context struct, if there is one (`TestRun.callArguments`).  `TestRun.calls` lists
the calls that a run makes, and `TestRun.runComments_error` says how a run ends early: with an
error that is returned, at compiling the function, at the arguments of a call, or in one of the
calls.
-/

namespace CiRunner

open TextLines

variable {Flags Body : Type} (tc : Toolchain Flags Body)

/-- The pointer types of targets. -/
def IrType.IsPointer (ty : IrType) : Prop :=
  ty = { laneType := .i16 } ∨ ty = { laneType := .i32 } ∨ ty = { laneType := .i64 }

lemma ofInt?_of_isPointer {ty : IrType} (h : ty.IsPointer) (n : ℤ) :
    ∃ v, DataValue.ofInt? ty n = some v := by
  rcases h with rfl | rfl | rfl <;> exact ⟨_, rfl⟩

namespace TestRun

/-! ## The arguments of a call -/

/-- The arguments of the call a run command leads to. -/
def callArguments (testEnv : RuntestEnvironment) (func : IrFunction Body) (context : Context Flags)
    (runArgs : List DataValue) : Outcome (List DataValue) :=
  if !firstArgIsVmctx func.signature && testEnv.isActive then
    .error (.err .heapWithoutVmctx)
  else do
    let args ← vmctxArgs tc testEnv context
    return args ++ runArgs

lemma invoke_eq (testEnv : RuntestEnvironment) (func : IrFunction Body) (context : Context Flags)
    (compiledFn : CompiledFunction) (name : Text) (runArgs : List DataValue) :
    invoke tc testEnv func context compiledFn name runArgs =
      callArguments tc testEnv func context runArgs >>= compiledFn.call2 tc := by
  unfold invoke callArguments
  split
  · rfl
  · cases vmctxArgs tc testEnv context <;> rfl

/-- The argument in front of those of the command is the pointer to the context struct, when there
are heaps. -/
lemma vmctxArgs_eq_ok_iff {testEnv : RuntestEnvironment} {context : Context Flags}
    {args : List DataValue} :
    vmctxArgs tc testEnv context = .ok args ↔
      (testEnv.isActive = false ∧ args = []) ∨
        testEnv.isActive ∧ ∃ isa ptr, context.isa = some isa ∧
          (testEnv.runtimeStruct tc.placement).pointer isa.pointerType = .ok ptr ∧
            args = [ptr] := by
  unfold vmctxArgs
  cases hactive : testEnv.isActive with
  | false => simp [eq_comm]
  | true =>
    cases hisa : context.isa with
    | none => simp
    | some isa =>
      cases hpointer : (testEnv.runtimeStruct tc.placement).pointer isa.pointerType with
      | error f => simp [hpointer, Except.map]
      | ok ptr => simp [hpointer, Except.map, eq_comm]

/-- Putting the pointer together panics only without a target or with an odd pointer type. -/
lemma faultsIn_vmctxArgs (testEnv : RuntestEnvironment) (context : Context Flags) :
    FaultsIn (fun f => (f = .panic .isaUnwrap ∨ f = .panic .pointerCast) ∧
        ∀ isa, context.isa = some isa → ¬ isa.pointerType.IsPointer)
      (vmctxArgs tc testEnv context) := by
  unfold vmctxArgs
  split
  · cases hisa : context.isa with
    | none => exact .error ⟨Or.inl rfl, by simp⟩
    | some isa =>
      dsimp only
      unfold RuntestContext.pointer
      split
      · exact .ok _
      · rename_i hnone
        refine .error ⟨Or.inr rfl, fun isa' hisa' hpointer => ?_⟩
        obtain rfl := Option.some.inj hisa'
        obtain ⟨v, hv⟩ := ofInt?_of_isPointer hpointer
          ((testEnv.runtimeStruct tc.placement).asPtr.toNat : ℤ)
        rw [hv] at hnone
        cases hnone
  · exact .ok _

/-- Without a call, the arguments of a command are refused with an error, or there is no target with
a proper pointer type. -/
lemma faultsIn_callArguments (testEnv : RuntestEnvironment) (func : IrFunction Body)
    (context : Context Flags) (runArgs : List DataValue) :
    FaultsIn (fun f => f = .err .heapWithoutVmctx ∨
        (f = .panic .isaUnwrap ∨ f = .panic .pointerCast) ∧
          ∀ isa, context.isa = some isa → ¬ isa.pointerType.IsPointer)
      (callArguments tc testEnv func context runArgs) := by
  unfold callArguments
  split
  · exact .error (Or.inl rfl)
  · exact ((faultsIn_vmctxArgs tc testEnv context).mono fun _ => Or.inr).bind fun _ => .ok _

/-! ## The calls of a run -/

/-- The calls of `call2` that the loop over the comments makes, in order: each with the compiled
function and the arguments. -/
def calls (testEnv : RuntestEnvironment) (func : IrFunction Body) (context : Context Flags) :
    SingleFunctionCompiler Flags → List Comment → List (CompiledFunction × List DataValue)
  | _, [] => []
  | compiler, comment :: comments =>
    match tc.parseRunCommand comment.text func.signature with
    | .error _ => []
    | .ok none => calls testEnv func context compiler comments
    | .ok (some command) =>
      match SingleFunctionCompiler.compile tc func compiler with
      | .error _ _ => []
      | .ok compiledFn compiler =>
        match callArguments tc testEnv func context command.args with
        | .error _ => []
        | .ok args =>
          (compiledFn, args) ::
            match command.run fun _ _ => compiledFn.call2 tc args with
            | .error _ => []
            | .ok () => calls testEnv func context compiler comments

/-- Every call is of the function, with the arguments of some command. -/
lemma of_mem_calls {testEnv : RuntestEnvironment} {func : IrFunction Body}
    {context : Context Flags} {compiler : SingleFunctionCompiler Flags} {comments : List Comment}
    {call : CompiledFunction × List DataValue}
    (h : call ∈ calls tc testEnv func context compiler comments) :
    call.1.signature = func.signature ∧
      ∃ text command, tc.parseRunCommand text func.signature = .ok (some command) ∧
        callArguments tc testEnv func context command.args = .ok call.2 := by
  fun_induction calls tc testEnv func context compiler comments with
  | case1 => cases h
  | case2 => cases h
  | case3 compiler comment comments hparse ih => exact ih h
  | case4 => cases h
  | case5 => cases h
  | case6 compiler comment comments command hparse compiledFn compiler' hcompile args hargs ih =>
    rcases List.mem_cons.mp h with rfl | h
    · exact ⟨signature_compile tc hcompile, _, command, hparse, hargs⟩
    · split at h
      · cases h
      · exact ih h

/-- A run command fails when the function does, and when the results do not satisfy it. -/
lemma commandRun_error {command : RunCommand}
    {invoke : Text → List DataValue → Outcome (List DataValue)} {f : Fault}
    (h : command.run invoke = .error f) :
    f = .err .runCommandFailed ∨ invoke command.func command.args = .error f := by
  unfold RunCommand.run at h
  cases hinvoke : invoke command.func command.args with
  | error g =>
    rw [hinvoke] at h
    obtain rfl := Except.error.inj h
    exact Or.inr rfl
  | ok actual =>
    rw [hinvoke] at h
    by_cases haccepts : command.accepts actual
    · simp [bind, Except.bind, haccepts, pure, Except.pure] at h
    · refine Or.inl ?_
      simpa [bind, Except.bind, haccepts, eq_comm] using h

/-- **How the loop ends early**: with an error, at compiling the function, at the arguments of a
call, or in one of the calls. -/
lemma runComments_error {testEnv : RuntestEnvironment} {func : IrFunction Body}
    {context : Context Flags} {compiler : SingleFunctionCompiler Flags} {comments : List Comment}
    {f : Fault} (h : runComments tc testEnv func context compiler comments = .error f) :
    (∃ e, f = .err e) ∨ f = .panic .compileUnwrap ∨
      (∃ runArgs, callArguments tc testEnv func context runArgs = .error f) ∨
      ∃ call ∈ calls tc testEnv func context compiler comments,
        call.1.call2 tc call.2 = .error f := by
  induction comments generalizing compiler with
  | nil => cases h
  | cons comment comments ih =>
    rw [runComments] at h
    rw [calls]
    cases hparse : tc.parseRunCommand comment.text func.signature with
    | error e =>
      simp only [hparse] at h
      obtain rfl := Except.error.inj h
      exact Or.inl ⟨_, rfl⟩
    | ok command =>
      cases command with
      | none =>
        simp only [hparse] at h
        exact ih h
      | some command =>
        simp only [hparse] at h
        cases hcompile : SingleFunctionCompiler.compile tc func compiler with
        | error g compiler' =>
          simp only [hcompile] at h
          obtain rfl := Except.error.inj h
          exact Or.inr (Or.inl (compile_error tc hcompile))
        | ok compiledFn compiler' =>
          simp only [hcompile] at h
          cases hargs : callArguments tc testEnv func context command.args with
          | error g =>
            have hrun : command.run (invoke tc testEnv func context compiledFn) = .error g := by
              simp only [RunCommand.run, invoke_eq, hargs]
              rfl
            rw [hrun] at h
            obtain rfl := Except.error.inj h
            exact Or.inr (Or.inr (Or.inl ⟨_, hargs⟩))
          | ok args =>
            have hrun : command.run (invoke tc testEnv func context compiledFn) =
                command.run fun _ _ => compiledFn.call2 tc args := by
              simp only [RunCommand.run, invoke_eq, hargs]
              rfl
            rw [hrun] at h
            cases hcall : command.run fun _ _ => compiledFn.call2 tc args with
            | error g =>
              rw [hcall] at h
              obtain rfl := Except.error.inj h
              rcases commandRun_error hcall with rfl | hcall2
              · exact Or.inl ⟨_, rfl⟩
              · refine Or.inr (Or.inr (Or.inr ⟨(compiledFn, args), ?_, hcall2⟩))
                simp only [hargs]
                exact List.mem_cons_self
            | ok =>
              rw [hcall] at h
              rcases ih h with he | he | he | ⟨call, hmem, he⟩
              · exact Or.inl he
              · exact Or.inr (Or.inl he)
              · exact Or.inr (Or.inr (Or.inl he))
              · refine Or.inr (Or.inr (Or.inr ⟨call, ?_, he⟩))
                simp only [hargs, hcall]
                exact List.mem_cons_of_mem _ hmem

end TestRun

end CiRunner
