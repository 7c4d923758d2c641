import CiRunner.TestRun

/-!
# Which faults a computation can end with

The panics of the runner are told apart by where they come from.  `FaultsIn P` says that every
fault a computation can end with is one of `P`; the laws below follow the shape of a computation.
Compiling a function and calling it fail in no other way than by one of the unwraps and assertions
of `compiler.rs`, none of which is an error that is returned (`faultsIn_compile`,
`faultsIn_call2`).
-/

namespace CiRunner

open TextLines

/-- Every fault of the outcome is one of `P`. -/
def FaultsIn (P : Fault → Prop) {α : Type} (x : Outcome α) : Prop := ∀ f, x = .error f → P f

namespace FaultsIn

variable {P Q : Fault → Prop} {α β : Type}

lemma ok (a : α) : FaultsIn P (.ok a) := fun _ h => by cases h

lemma error {f : Fault} (h : P f) : FaultsIn P (.error f : Outcome α) := by
  intro g hg
  obtain rfl := Except.error.inj hg
  exact h

lemma bind {x : Outcome α} {k : α → Outcome β} (hx : FaultsIn P x) (hk : ∀ a, FaultsIn P (k a)) :
    FaultsIn P (x >>= k) := by
  cases x with
  | ok a => exact hk a
  | error f =>
    intro g hg
    obtain rfl := Except.error.inj hg
    exact hx f rfl

lemma foldlM {k : β → α → Outcome β} (hk : ∀ b a, FaultsIn P (k b a)) (as : List α) (b : β) :
    FaultsIn P (as.foldlM k b) := by
  induction as generalizing b with
  | nil => exact ok b
  | cons a as ih => exact (hk b a).bind ih

lemma mapM {k : α → Outcome β} (hk : ∀ a, FaultsIn P (k a)) (as : List α) :
    FaultsIn P (as.mapM k) := by
  induction as with
  | nil => exact ok []
  | cons a as ih =>
    rw [List.mapM_cons]
    exact (hk a).bind fun _ => ih.bind fun _ => ok _

lemma mono {x : Outcome α} (hx : FaultsIn P x) (hPQ : ∀ f, P f → Q f) : FaultsIn Q x :=
  fun f hf => hPQ f (hx f hf)

end FaultsIn

/-! ## Compiling and calling a function -/

/-- The ways in which compiling and calling a function fail. -/
def Fault.IsCallPanic (f : Fault) : Prop :=
  ∃ p ∈ [Panic.compileUnwrap, .trampolineExpect, .argumentCount, .argumentType, .emulatorUnwrap,
    .returnCount, .returnType], f = .panic p

instance (f : Fault) : Decidable f.IsCallPanic := by
  unfold Fault.IsCallPanic
  infer_instance

section
variable {Flags Body : Type} (tc : Toolchain Flags Body)

lemma faultsIn_storeArguments (arguments : List DataValue) (slots : List (BitVec 128))
    (params : List AbiParam) :
    FaultsIn (· = .panic .argumentType)
      (UnboxedValues.storeArguments tc arguments slots params) := by
  fun_induction UnboxedValues.storeArguments tc arguments slots params with
  | case1 arg arguments slot slots param params _ ih => exact ih.bind fun _ => .ok _
  | case2 => exact .error rfl
  | case3 _ slots => exact .ok slots

lemma faultsIn_readSlots (slots : List (BitVec 128)) (params : List AbiParam) :
    FaultsIn (· = .panic .returnType) (UnboxedValues.readSlots tc slots params) := by
  fun_induction UnboxedValues.readSlots tc slots params with
  | case1 slot slots param params value _ ih => exact ih.bind fun _ => .ok _
  | case2 => exact .error rfl
  | case3 => exact .ok []

/-- **The assertion on the number of arguments** fails exactly when it should. -/
lemma call2_argumentCount {self : CompiledFunction} {arguments : List DataValue}
    (h : arguments.length ≠ self.signature.params.length) :
    self.call2 tc arguments = .error (.panic .argumentCount) := by
  simp [CompiledFunction.call2, UnboxedValues.makeArguments, h, bind, Except.bind]

/-- A call with as many arguments as there are parameters gets past that assertion. -/
lemma faultsIn_call2_of_length {self : CompiledFunction} {arguments : List DataValue}
    (h : arguments.length = self.signature.params.length) :
    FaultsIn (fun f => f.IsCallPanic ∧ f ≠ .panic .argumentCount) (self.call2 tc arguments) := by
  have hvalues : FaultsIn (· = .panic .argumentType)
      (UnboxedValues.makeArguments tc arguments self.signature) := by
    rw [UnboxedValues.makeArguments, if_pos h]
    exact (faultsIn_storeArguments tc _ _ _).bind fun _ => .ok _
  refine (hvalues.mono ?_).bind fun values => ?_
  · rintro f rfl
    decide
  dsimp only
  split
  · exact .error (by decide)
  · unfold UnboxedValues.collectReturns
    split
    · refine (faultsIn_readSlots tc _ _).mono ?_
      rintro f rfl
      decide
    · exact .error (by decide)

/-- A call either returns or panics. -/
lemma faultsIn_call2 (self : CompiledFunction) (arguments : List DataValue) :
    FaultsIn Fault.IsCallPanic (self.call2 tc arguments) := by
  by_cases h : arguments.length = self.signature.params.length
  · exact (faultsIn_call2_of_length tc h).mono fun _ hf => hf.1
  · rw [call2_argumentCount tc h]
    exact .error (by decide)

/-- The assertion on the number of arguments is the only one of its kind. -/
lemma call2_argumentCount_iff (self : CompiledFunction) (arguments : List DataValue) :
    self.call2 tc arguments = .error (.panic .argumentCount) ↔
      arguments.length ≠ self.signature.params.length := by
  constructor
  · intro h hlength
    exact (faultsIn_call2_of_length tc hlength _ h).2 rfl
  · exact call2_argumentCount tc

lemma faultsIn_compile2 (function : IrFunction Body) (isa : TargetIsa Flags) :
    FaultsIn (· = .panic .compileUnwrap) (compile2 tc function isa) := by
  unfold compile2
  split
  · exact .error rfl
  · exact .ok _

/-- The compiled function keeps the signature. -/
lemma signature_compile {func : IrFunction Body} {compiler compiler' : SingleFunctionCompiler Flags}
    {compiledFn : CompiledFunction}
    (h : SingleFunctionCompiler.compile tc func compiler = .ok compiledFn compiler') :
    compiledFn.signature = func.signature := by
  unfold SingleFunctionCompiler.compile at h
  dsimp only at h
  split at h
  · cases h
  · split at h
    · cases h
    · cases h
      rfl

lemma faultsIn_trampolineFor (signature : Signature) (isa : TargetIsa Flags)
    (trampolines : List (Signature × Trampoline)) :
    FaultsIn (· = .panic .compileUnwrap) (trampolineFor tc signature isa trampolines) := by
  unfold trampolineFor
  split
  · exact .ok _
  · -- the error that `expect` would report is never returned
    have hexpect : FaultsIn (· = .panic .compileUnwrap)
        (expectTrampoline (compile2 tc (makeTrampoline signature isa) isa)) := by
      have hcompile := faultsIn_compile2 tc (makeTrampoline signature isa) isa
      cases h : compile2 tc (makeTrampoline signature isa) isa with
      | ok code => exact .ok code
      | error f =>
        obtain rfl := hcompile f h
        exact .error rfl
    exact hexpect.bind fun _ => .ok _

/-- Compiling a function either succeeds or panics at the result of code generation. -/
lemma compile_error {function : IrFunction Body}
    {compiler compiler' : SingleFunctionCompiler Flags} {f : Fault}
    (h : SingleFunctionCompiler.compile tc function compiler = .error f compiler') :
    f = .panic .compileUnwrap := by
  unfold SingleFunctionCompiler.compile at h
  dsimp only at h
  split at h
  · rename_i g hg
    obtain ⟨rfl, -⟩ : g = f ∧ _ := by simpa using h
    exact faultsIn_compile2 tc _ _ g hg
  · split at h
    · rename_i g hg
      obtain ⟨rfl, -⟩ : g = f ∧ _ := by simpa using h
      exact faultsIn_trampolineFor tc _ _ _ g hg
    · cases h

/-- Compiling a function either succeeds or panics. -/
lemma faultsIn_compile {function : IrFunction Body}
    {compiler compiler' : SingleFunctionCompiler Flags} {f : Fault}
    (h : SingleFunctionCompiler.compile tc function compiler = .error f compiler') :
    f.IsCallPanic := by
  rw [compile_error tc h]
  decide

end

end CiRunner
