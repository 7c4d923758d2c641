import CiRunner.HeapLayout
import CiRunner.Marshalling

/-!
# Do `test run` and `test interpret` agree?

The two subtests walk over the same comments, one calling the compiled function and the other the
interpreter.  Given an engine and an interpreter with the same results on the function
(`SameResults`), they part in two places.

* `test run` does not look at the name in a run command, while `test interpret` looks the function
  up by that name and fails when it is another's.
* Where the engine has no results `test run` panics.  It has no errors to return for that, and so it
  agrees with nothing that `test interpret` may do.

Neither matters behind a comment at which both stop: one with a syntax error, or a command whose
results do not satisfy it.  `run_agrees_iff` says that this is all there is to it.

The results are the same on arguments that fit the signature.  That a run command has no others is
for the reader to see to (`ReadsArguments`); it leaves out a leading `vmctx`, and then the engine
has no results.
-/

namespace CiRunner

open TextLines

variable {Flags Body : Type} (tc : Toolchain Flags Body)

/-! ## What is assumed of the reader -/

/-- The parameters that a run command gives arguments for: all but a leading `vmctx`. -/
def explicitParams (signature : Signature) : List AbiParam :=
  if TestRun.firstArgIsVmctx signature then signature.params.tail else signature.params

/-- The arguments of a run command correspond to these parameters, in order and type. -/
def ReadsArguments (signature : Signature) : Prop :=
  ∀ text command, tc.parseRunCommand text signature = .ok (some command) →
    HasTypes command.args (explicitParams signature)

lemma length_of_hasTypes {values : List DataValue} {params : List AbiParam}
    (h : HasTypes values params) : values.length = params.length := List.Forall₂.length_eq h

lemma length_explicitParams {signature : Signature} (h : TestRun.firstArgIsVmctx signature) :
    (explicitParams signature).length + 1 = signature.params.length := by
  rw [explicitParams, if_pos h]
  cases hparams : signature.params with
  | nil => simp [TestRun.firstArgIsVmctx, hparams] at h
  | cons param params => rfl

/-! ## The engine -/

/-- Compile the function and call it. -/
def callCompiled (func : IrFunction Body) (args : List DataValue) : Outcome (List DataValue) :=
  match SingleFunctionCompiler.compile tc func (SingleFunctionCompiler.new (buildBackend tc)) with
  | .error f _ => .error f
  | .ok compiledFn _ => compiledFn.call2 tc args

/-- The call of a run command, whatever was compiled before. -/
lemma callCompiled_of_caches {compiler : SingleFunctionCompiler Flags} (hcache : compiler.Caches tc)
    (hisa : compiler.isa = buildBackend tc) (func : IrFunction Body) :
    (∃ compiledFn compiler',
      SingleFunctionCompiler.compile tc func compiler = .ok compiledFn compiler' ∧
        (∀ args, compiledFn.call2 tc args = callCompiled tc func args) ∧
        compiler'.Caches tc ∧ compiler'.isa = buildBackend tc) ∨
      ∃ f compiler', SingleFunctionCompiler.compile tc func compiler = .error f compiler' ∧
        ∀ args, callCompiled tc func args = .error f := by
  rcases compile_of_caches hcache func with
    ⟨compiledFn, new, compiler', hnew, h, hisa', hcache'⟩ | ⟨f, new, compiler', hnew, h⟩
  · rw [hisa] at hnew
    exact Or.inl ⟨compiledFn, compiler', h, fun args => by simp [callCompiled, hnew], hcache',
      hisa'.trans hisa⟩
  · rw [hisa] at hnew
    exact Or.inr ⟨f, compiler', h, fun args => by simp [callCompiled, hnew]⟩

/-- A call that does not return panics. -/
lemma callCompiled_error {func : IrFunction Body} {args : List DataValue} {f : Fault}
    (h : callCompiled tc func args = .error f) : ∃ p, f = .panic p := by
  have hpanic : f.IsCallPanic := by
    unfold callCompiled at h
    split at h
    · rename_i g compiler hcompile
      obtain rfl := Except.error.inj h
      exact faultsIn_compile tc hcompile
    · exact faultsIn_call2 tc _ args f h
  obtain ⟨p, -, rfl⟩ := hpanic
  exact ⟨p, rfl⟩

/-- Where the engine has results, the arguments of the command fit the signature. -/
lemma hasTypes_of_callCompiled {func : IrFunction Body} {args results : List DataValue}
    (hargs : HasTypes args (explicitParams func.signature))
    (h : callCompiled tc func args = .ok results) : HasTypes args func.signature.params := by
  by_cases hvmctx : TestRun.firstArgIsVmctx func.signature
  · have hshort : args.length ≠ func.signature.params.length := by
      rw [length_of_hasTypes hargs, ← length_explicitParams hvmctx]
      exact Nat.ne_of_lt (Nat.lt_succ_self _)
    unfold callCompiled at h
    split at h
    · cases h
    · rename_i compiledFn compiler hcompile
      have hsignature := signature_compile tc hcompile
      rw [← hsignature] at hshort
      rw [(call2_argumentCount_iff tc compiledFn args).mpr hshort] at h
      cases h
  · rwa [explicitParams, if_neg hvmctx] at hargs

/-- **`test run` without heaps** carries out each command by calling the compiled function. -/
def runCommands (func : IrFunction Body) : List Comment → Outcome Unit
  | [] => .ok ()
  | comment :: comments =>
    match tc.parseRunCommand comment.text func.signature with
    | .error e => .error (.err (.parse e))
    | .ok none => runCommands func comments
    | .ok (some command) => do
      command.run fun _ args => callCompiled tc func args
      runCommands func comments

lemma runComments_eq_runCommands {func : IrFunction Body} {context : Context Flags}
    {compiler : SingleFunctionCompiler Flags} (hcache : compiler.Caches tc)
    (hisa : compiler.isa = buildBackend tc) (comments : List Comment) :
    TestRun.runComments tc { heaps := [] } func context compiler comments =
      runCommands tc func comments := by
  induction comments generalizing compiler with
  | nil => rfl
  | cons comment comments ih =>
    rw [TestRun.runComments, runCommands]
    cases hparse : tc.parseRunCommand comment.text func.signature with
    | error e => rfl
    | ok command =>
      cases command with
      | none => exact ih hcache hisa
      | some command =>
        rcases callCompiled_of_caches tc hcache hisa func with
          ⟨compiledFn, compiler', hc, hcall, hcache', hisa'⟩ | ⟨f, compiler', hc, hcall⟩
        · have hinvoke : TestRun.invoke tc { heaps := [] } func context compiledFn =
              fun _ args => callCompiled tc func args := by
            funext name args
            simp [TestRun.invoke, TestRun.vmctxArgs, RuntestEnvironment.isActive, bind, Except.bind,
              ← hcall]
          simp only [hc, hinvoke]
          exact congrArg _ (funext fun _ => ih hcache' hisa')
        · simp only [hc, RunCommand.run, hcall]
          rfl

/-- Without heap annotations a test asks for no heaps. -/
lemma parse_of_no_heaps {comments : List Comment}
    (h : ∀ c ∈ comments, tc.parseHeapCommand c.text = .ok none) :
    RuntestEnvironment.parse tc comments = .ok { heaps := [] } := by
  have hcommands : heapCommandsIn tc comments = [] := by
    rw [heapCommandsIn, List.filterMap_eq_nil_iff]
    intro c hc
    rw [heapCommandOf, h c hc]
  rw [parse_eq_ok_iff, hcommands]
  exact ⟨fun c hc => ⟨none, h c hc⟩, fun i cmd hcmd => by simp at hcmd, rfl⟩

lemma testRun_eq_runCommands {func : IrFunction Body} {context : Context Flags}
    (h : ∀ c ∈ context.details.comments, tc.parseHeapCommand c.text = .ok none) :
    TestRun.run tc func context = runCommands tc func context.details.comments := by
  rw [TestRun.run, parse_of_no_heaps tc h]
  exact runComments_eq_runCommands tc (caches_new _) rfl _

/-! ## Engine and interpreter -/

/-- The engine and the interpreter return the same results of the function on arguments that fit its
signature, and the interpreter fails on every other name. -/
structure SameResults (func : IrFunction Body) : Prop where
  returns : ∀ args results, HasTypes args func.signature.params →
    (callCompiled tc func args = .ok results ↔
      tc.callByName [(func.name.display, func)] func.name.display args = .ok (.return_ results))
  absent : ∀ name args, name ≠ func.name.display →
    ∃ t, tc.callByName [(func.name.display, func)] name args = .error t

/-- Both return `Ok`, or both return an error. -/
def SameVerdict (x y : Outcome Unit) : Prop :=
  (x = .ok () ∧ y = .ok ()) ∨ ∃ e e', x = .error (.err e) ∧ y = .error (.err e')

/-- The command names the function it is attached to. -/
def RunCommand.Names (command : RunCommand) (func : IrFunction Body) : Prop :=
  '%' :: command.func = func.name.display

/-- The comment is no command of another function. -/
def NamesIt (func : IrFunction Body) (comment : Comment) : Prop :=
  ∀ command, tc.parseRunCommand comment.text func.signature = .ok (some command) →
    command.Names func

/-- The comment is no command whose call does not return. -/
def Returns (func : IrFunction Body) (comment : Comment) : Prop :=
  ∀ command, tc.parseRunCommand comment.text func.signature = .ok (some command) →
    ∃ results, callCompiled tc func command.args = .ok results

/-- The comment has a syntax error, or it is a command that the results of the function do not
satisfy. -/
def Fails (func : IrFunction Body) (comment : Comment) : Prop :=
  (∃ e, tc.parseRunCommand comment.text func.signature = .error e) ∨
    ∃ command results, tc.parseRunCommand comment.text func.signature = .ok (some command) ∧
      callCompiled tc func command.args = .ok results ∧ command.accepts results = false

/-- What `test run` does at a comment. -/
lemma runCommands_cons (func : IrFunction Body) (comment : Comment) (comments : List Comment) :
    (Returns tc func comment ∧ ¬ Fails tc func comment ∧
        runCommands tc func (comment :: comments) = runCommands tc func comments) ∨
      (Fails tc func comment ∧ ∃ e, runCommands tc func (comment :: comments) = .error (.err e)) ∨
      (¬ Returns tc func comment ∧ ¬ Fails tc func comment ∧
        ∃ p, runCommands tc func (comment :: comments) = .error (.panic p)) := by
  rw [runCommands]
  cases hparse : tc.parseRunCommand comment.text func.signature with
  | error e => exact Or.inr (Or.inl ⟨Or.inl ⟨e, hparse⟩, _, rfl⟩)
  | ok command =>
    cases command with
    | none => exact Or.inl ⟨by simp [Returns, hparse], by simp [Fails, hparse], rfl⟩
    | some command =>
      cases hcall : callCompiled tc func command.args with
      | error f =>
        obtain ⟨p, rfl⟩ := callCompiled_error tc hcall
        refine Or.inr (Or.inr
          ⟨by simp [Returns, hparse, hcall], by simp [Fails, hparse, hcall], p, ?_⟩)
        simp [RunCommand.run, hcall, bind, Except.bind]
      | ok results =>
        by_cases haccepts : command.accepts results = true
        · refine Or.inl
            ⟨by simp [Returns, hparse, hcall], by simp [Fails, hparse, hcall, haccepts], ?_⟩
          simp [RunCommand.run, hcall, haccepts, bind, Except.bind, pure, Except.pure]
        · refine Or.inr (Or.inl ⟨by simp [Fails, hparse, hcall, haccepts], .runCommandFailed, ?_⟩)
          simp [RunCommand.run, hcall, haccepts, bind, Except.bind]

variable {tc}

/-- What `test interpret` does at a comment whose call returns. -/
lemma interpretComments_cons {func : IrFunction Body} (hsame : SameResults tc func)
    (hread : ReadsArguments tc func.signature)
    {comment : Comment} (hreturns : Fails tc func comment ∨ Returns tc func comment)
    (comments : List Comment) :
    (NamesIt tc func comment ∧ ¬ Fails tc func comment ∧
        TestInterpret.runComments tc func (comment :: comments) =
          TestInterpret.runComments tc func comments) ∨
      ((Fails tc func comment ∨ ¬ NamesIt tc func comment) ∧
        ∃ e, TestInterpret.runComments tc func (comment :: comments) = .error (.err e)) := by
  rw [TestInterpret.runComments]
  cases hparse : tc.parseRunCommand comment.text func.signature with
  | error e => exact Or.inr ⟨Or.inl (Or.inl ⟨e, hparse⟩), _, rfl⟩
  | ok command =>
    cases command with
    | none => exact Or.inl ⟨by simp [NamesIt, hparse], by simp [Fails, hparse], rfl⟩
    | some command =>
      by_cases hname : command.Names func
      · obtain ⟨results, hcall⟩ : ∃ results, callCompiled tc func command.args = .ok results := by
          rcases hreturns with (⟨e, he⟩ | ⟨command', results, he, hcall, -⟩) | h
          · rw [hparse] at he
            cases he
          · obtain rfl : command = command' := by simpa [hparse] using he
            exact ⟨results, hcall⟩
          · exact h command hparse
        have hinvoke : TestInterpret.invoke tc func command.func command.args = .ok results := by
          have hname' : '%' :: command.func = func.name.display := hname
          have hargs := hasTypes_of_callCompiled tc (hread _ command hparse) hcall
          simp [TestInterpret.invoke, hname', (hsame.returns _ results hargs).mp hcall]
        by_cases haccepts : command.accepts results = true
        · refine Or.inl ⟨by simpa [NamesIt, hparse] using hname,
            by simp [Fails, hparse, hcall, haccepts], ?_⟩
          simp [RunCommand.run, hinvoke, haccepts, bind, Except.bind, pure, Except.pure]
        · refine Or.inr ⟨Or.inl (by simp [Fails, hparse, hcall, haccepts]), .runCommandFailed, ?_⟩
          simp [RunCommand.run, hinvoke, haccepts, bind, Except.bind]
      · obtain ⟨t, ht⟩ := hsame.absent ('%' :: command.func) command.args hname
        refine Or.inr ⟨Or.inr (by simpa [NamesIt, hparse] using hname), .trap t, ?_⟩
        simp [RunCommand.run, TestInterpret.invoke, ht, bind, Except.bind]

/-- There is a comment at which both subtests stop, and no call in front of it that does not
return. -/
def StopsBoth (tc : Toolchain Flags Body) (func : IrFunction Body) (comments : List Comment) :
    Prop :=
  ∃ before comment after, comments = before ++ comment :: after ∧
    (∀ c ∈ before, Returns tc func c) ∧ Fails tc func comment

lemma stopsBoth_cons_of_fails {func : IrFunction Body} {comment : Comment}
    (h : Fails tc func comment) (comments : List Comment) :
    StopsBoth tc func (comment :: comments) :=
  ⟨[], comment, comments, rfl, by simp, h⟩

lemma stopsBoth_cons {func : IrFunction Body} {comment : Comment} (h : ¬ Fails tc func comment)
    (comments : List Comment) :
    StopsBoth tc func (comment :: comments) ↔
      Returns tc func comment ∧ StopsBoth tc func comments := by
  constructor
  · rintro ⟨before, c, after, hsplit, hbefore, hc⟩
    cases before with
    | nil =>
      obtain ⟨rfl, -⟩ : comment = c ∧ comments = after := by simpa using hsplit
      exact absurd hc h
    | cons b before =>
      obtain ⟨rfl, rfl⟩ : comment = b ∧ comments = before ++ c :: after := by simpa using hsplit
      exact ⟨hbefore comment (by simp), before, c, after, rfl,
        fun c' hc' => hbefore c' (List.mem_cons_of_mem _ hc'), hc⟩
  · rintro ⟨hreturns, before, c, after, rfl, hbefore, hc⟩
    exact ⟨comment :: before, c, after, rfl, List.forall_mem_cons.mpr ⟨hreturns, hbefore⟩, hc⟩

lemma runCommands_error_iff (func : IrFunction Body) (comments : List Comment) :
    (∃ e, runCommands tc func comments = .error (.err e)) ↔ StopsBoth tc func comments := by
  induction comments with
  | nil => simp [runCommands, StopsBoth]
  | cons comment comments ih =>
    rcases runCommands_cons tc func comment comments with
      ⟨hreturns, hfails, hrun⟩ | ⟨hfails, hrun⟩ | ⟨hreturns, hfails, p, hrun⟩
    · rw [hrun, stopsBoth_cons hfails, ih, and_iff_right hreturns]
    · exact iff_of_true hrun (stopsBoth_cons_of_fails hfails comments)
    · rw [hrun, stopsBoth_cons hfails]
      simp [hreturns]

/-- **The two subtests agree** on a function exactly when both stop at some comment with no call in
front of it that does not return, or all calls return and all commands name the function. -/
theorem run_agrees_iff {func : IrFunction Body} {context : Context Flags}
    (hheaps : ∀ c ∈ context.details.comments, tc.parseHeapCommand c.text = .ok none)
    (hread : ReadsArguments tc func.signature) (hsame : SameResults tc func) :
    SameVerdict (TestRun.run tc func context) (TestInterpret.run tc func context) ↔
      StopsBoth tc func context.details.comments ∨
        ∀ c ∈ context.details.comments, Returns tc func c ∧ NamesIt tc func c := by
  rw [testRun_eq_runCommands tc hheaps, TestInterpret.run]
  clear hheaps
  induction context.details.comments with
  | nil => simp [SameVerdict, runCommands, TestInterpret.runComments]
  | cons comment comments ih =>
    rw [List.forall_mem_cons]
    rcases runCommands_cons tc func comment comments with
      ⟨hreturns, hfails, hrun⟩ | ⟨hfails, e, hrun⟩ | ⟨hreturns, hfails, p, hrun⟩
    · rw [stopsBoth_cons hfails, hrun, and_iff_right hreturns]
      rcases interpretComments_cons hsame hread (Or.inr hreturns) comments with
        ⟨hnames, -, hint⟩ | ⟨hor, e, hint⟩
      · rw [hint, ih, and_iff_right ⟨hreturns, hnames⟩]
      · have hnames : ¬ NamesIt tc func comment := hor.resolve_left hfails
        rw [hint, ← runCommands_error_iff]
        simp [SameVerdict, hnames]
    · refine iff_of_true ?_ (Or.inl (stopsBoth_cons_of_fails hfails comments))
      rcases interpretComments_cons hsame hread (Or.inl hfails) comments with
        ⟨-, hnot, -⟩ | ⟨-, e', hint⟩
      · exact absurd hfails hnot
      · exact Or.inr ⟨e, e', hrun, hint⟩
    · rw [hrun, stopsBoth_cons hfails]
      simp [SameVerdict, hreturns]

/-- A toolchain whose functions return nothing, and which knows these two comments. -/
def Toolchain.returningNothing : Toolchain Settings Unit :=
  { Toolchain.sample with
    parseRunCommand := fun text _ =>
      if text = printF then .ok (some .callF)
      else if text = printG then .ok (some { RunCommand.callF with func := ['g'] })
      else .ok none
    testRunEndAt := fun _ _ => some fun _ => 0
    callByName := fun env name _ =>
      if (env.lookup name).isSome then .ok (.return_ []) else .error "no such function" }

lemma readsArguments_returningNothing :
    ReadsArguments Toolchain.returningNothing (IrFunction.sample 'f').signature := by
  intro text command h
  have hargs : command.args = [] := by
    simp only [Toolchain.returningNothing] at h
    split at h
    · cases h
      rfl
    · split at h
      · cases h
        rfl
      · cases h
  rw [hargs]
  exact List.Forall₂.nil

lemma sameResults_returningNothing :
    SameResults Toolchain.returningNothing (IrFunction.sample 'f') where
  returns args results hargs := by
    obtain rfl : args = [] := List.forall₂_nil_right_iff.mp hargs
    have hengine : callCompiled Toolchain.returningNothing (IrFunction.sample 'f') [] = .ok [] :=
      rfl
    have hinterpreter : Toolchain.returningNothing.callByName
        [((IrFunction.sample 'f').name.display, IrFunction.sample 'f')]
        (IrFunction.sample 'f').name.display [] = .ok (.return_ []) := rfl
    simp [hengine, hinterpreter]
  absent name args hname := by
    refine ⟨"no such function", ?_⟩
    have hbeq : (name == (IrFunction.sample 'f').name.display) = false := by simpa using hname
    simp [Toolchain.returningNothing, List.lookup_cons, hbeq]

/-- What the two are told of a function with these comments. -/
def contextOf (comments : List Comment) : Context Settings where
  preambleComments := []
  details := { location := { lineNumber := 1 }, comments }
  verified := true
  flags := []
  isa := some TargetIsa.sample

theorem run_agrees_iff_returningNothing :
    SameVerdict
      (TestRun.run Toolchain.returningNothing (IrFunction.sample 'f')
        (contextOf [{ text := printF }]))
      (TestInterpret.run Toolchain.returningNothing (IrFunction.sample 'f')
        (contextOf [{ text := printF }])) := by
  refine (run_agrees_iff (fun c _ => rfl) readsArguments_returningNothing
    sameResults_returningNothing).mpr (Or.inr fun c hc => ?_)
  obtain rfl : c = { text := printF } := List.mem_singleton.mp hc
  have hparse : Toolchain.returningNothing.parseRunCommand printF
      (IrFunction.sample 'f').signature = .ok (some .callF) := rfl
  constructor
  · intro command h
    obtain rfl := Option.some.inj (Except.ok.inj (hparse.symm.trans h))
    exact ⟨[], rfl⟩
  · intro command h
    obtain rfl := Option.some.inj (Except.ok.inj (hparse.symm.trans h))
    rfl

/-- A command that names another function is carried out by `test run`. -/
theorem run_ignores_name :
    SameResults Toolchain.returningNothing (IrFunction.sample 'f') ∧
      ReadsArguments Toolchain.returningNothing (IrFunction.sample 'f').signature ∧
      (∀ c ∈ (contextOf [{ text := printG }]).details.comments,
        Toolchain.returningNothing.parseHeapCommand c.text = .ok none) ∧
      TestRun.run Toolchain.returningNothing (IrFunction.sample 'f')
        (contextOf [{ text := printG }]) = .ok () ∧
      TestInterpret.run Toolchain.returningNothing (IrFunction.sample 'f')
        (contextOf [{ text := printG }]) = .error (.err (.trap "no such function")) :=
  ⟨sameResults_returningNothing, readsArguments_returningNothing, fun _ _ => rfl, rfl, rfl⟩

end CiRunner
