import CiRunner.Schedule

/-!
# Comments that are no commands

`test run` acts on the comments of a function that are run commands or heap annotations, or have
a syntax error in one of these; `test interpret` on the run commands alone.  All other comments are
*plain* for the command, and its subtest does the same without them.
-/

namespace CiRunner

variable {Flags Body : Type} (tc : Toolchain Flags Body)

def isRunCommand (signature : Signature) (comment : Comment) : Bool :=
  match tc.parseRunCommand comment.text signature with
  | .ok none => false
  | _ => true

def isHeapCommand (comment : Comment) : Bool :=
  match tc.parseHeapCommand comment.text with
  | .ok none => false
  | _ => true

/-- The subtest of this `test` command has no use for the comment. -/
def isPlain (command : String) (signature : Signature) (comment : Comment) : Bool :=
  if command = "run" then !isRunCommand tc signature comment && !isHeapCommand tc comment
  else if command = "interpret" then !isRunCommand tc signature comment
  else true

/-- The comments that are not plain. -/
def commandsIn (command : String) (signature : Signature) (comments : List Comment) :
    List Comment :=
  comments.filter fun c => !isPlain tc command signature c

lemma isRunCommand_eq_false_iff {signature : Signature} {comment : Comment} :
    isRunCommand tc signature comment = false ↔
      tc.parseRunCommand comment.text signature = .ok none := by
  unfold isRunCommand
  split
  · rename_i h
    simp [h]
  · rename_i h
    simpa using h

lemma isHeapCommand_eq_false_iff {comment : Comment} :
    isHeapCommand tc comment = false ↔ tc.parseHeapCommand comment.text = .ok none := by
  unfold isHeapCommand
  split
  · rename_i h
    simp [h]
  · rename_i h
    simpa using h

lemma isPlain_run_iff {signature : Signature} {comment : Comment} :
    isPlain tc "run" signature comment ↔ tc.parseRunCommand comment.text signature = .ok none ∧
      tc.parseHeapCommand comment.text = .ok none := by
  simp [isPlain, ← isRunCommand_eq_false_iff, ← isHeapCommand_eq_false_iff]

lemma isPlain_interpret_iff {signature : Signature} {comment : Comment} :
    isPlain tc "interpret" signature comment ↔
      tc.parseRunCommand comment.text signature = .ok none := by
  simp [isPlain, ← isRunCommand_eq_false_iff]

/-- To the other subtests every comment is plain. -/
lemma isPlain_other {command : String} (hrun : command ≠ "run") (hinterpret : command ≠ "interpret")
    (signature : Signature) (comment : Comment) : isPlain tc command signature comment := by
  rw [isPlain, if_neg hrun, if_neg hinterpret]

section
variable {command : String} {signature : Signature}

lemma commandsIn_append (as bs : List Comment) :
    commandsIn tc command signature (as ++ bs) =
      commandsIn tc command signature as ++ commandsIn tc command signature bs :=
  List.filter_append ..

lemma commandsIn_of_forall {comments : List Comment}
    (h : ∀ c ∈ comments, isPlain tc command signature c) :
    commandsIn tc command signature comments = [] := by
  rw [commandsIn, List.filter_eq_nil_iff]
  intro c hc
  simp [h c hc]

lemma commandsIn_cons_plain {comment : Comment} {comments : List Comment}
    (h : isPlain tc command signature comment) :
    commandsIn tc command signature (comment :: comments) =
      commandsIn tc command signature comments := by
  simp [commandsIn, h]

lemma commandsIn_cons_command {comment : Comment} {comments : List Comment}
    (h : ¬ isPlain tc command signature comment) :
    commandsIn tc command signature (comment :: comments) =
      comment :: commandsIn tc command signature comments := by
  simp [commandsIn, h]

end

/-- Plain comments ask for no heaps. -/
lemma parse_commandsIn (signature : Signature) (comments : List Comment) :
    RuntestEnvironment.parse tc (commandsIn tc "run" signature comments) =
      RuntestEnvironment.parse tc comments := by
  unfold RuntestEnvironment.parse
  generalize ({ heaps := [] } : RuntestEnvironment) = env
  induction comments generalizing env with
  | nil => rfl
  | cons comment comments ih =>
    by_cases h : isPlain tc "run" signature comment
    · have hparse : RuntestEnvironment.parseComment tc env comment = .ok env := by
        simp [RuntestEnvironment.parseComment, ((isPlain_run_iff tc).mp h).2]
      rw [commandsIn_cons_plain tc h, ih, List.foldlM_cons, hparse]
      rfl
    · rw [commandsIn_cons_command tc h, List.foldlM_cons, List.foldlM_cons]
      exact congrArg _ (funext fun env => ih env)

/-- `test run` does nothing at plain comments. -/
lemma runComments_commandsIn (testEnv : RuntestEnvironment) (func : IrFunction Body)
    (context : Context Flags) (compiler : SingleFunctionCompiler Flags) (comments : List Comment) :
    TestRun.runComments tc testEnv func context compiler
        (commandsIn tc "run" func.signature comments) =
      TestRun.runComments tc testEnv func context compiler comments := by
  induction comments generalizing compiler with
  | nil => rfl
  | cons comment comments ih =>
    by_cases h : isPlain tc "run" func.signature comment
    · rw [commandsIn_cons_plain tc h, ih]
      conv_rhs => rw [TestRun.runComments]
      simp only [((isPlain_run_iff tc).mp h).1]
    · rw [commandsIn_cons_command tc h]
      simp only [TestRun.runComments, ih]

/-- So does `test interpret`. -/
lemma interpretComments_commandsIn (func : IrFunction Body) (comments : List Comment) :
    TestInterpret.runComments tc func (commandsIn tc "interpret" func.signature comments) =
      TestInterpret.runComments tc func comments := by
  induction comments with
  | nil => rfl
  | cons comment comments ih =>
    by_cases h : isPlain tc "interpret" func.signature comment
    · rw [commandsIn_cons_plain tc h, ih]
      conv_rhs => rw [TestInterpret.runComments]
      simp only [(isPlain_interpret_iff tc).mp h]
    · rw [commandsIn_cons_command tc h]
      simp only [TestInterpret.runComments, ih]

/-- Of the context, calls depend on the target alone. -/
lemma runComments_congr {context context' : Context Flags} (h : context.isa = context'.isa)
    (testEnv : RuntestEnvironment) (func : IrFunction Body)
    (compiler : SingleFunctionCompiler Flags) (comments : List Comment) :
    TestRun.runComments tc testEnv func context compiler comments =
      TestRun.runComments tc testEnv func context' compiler comments := by
  have hinvoke :
      TestRun.invoke tc testEnv func context = TestRun.invoke tc testEnv func context' := by
    funext compiledFn funcName runArgs
    simp only [TestRun.invoke, TestRun.vmctxArgs, h]
  induction comments generalizing compiler with
  | nil => rfl
  | cons comment comments ih => simp only [TestRun.runComments, hinvoke, ih]

/-- **Plain comments do not matter.**  Every subtest but `test compile` does the same on a function
whatever plain comments it has. -/
theorem run_eq_of_commandsIn_eq {c : TestCommand} {st : SubTest Flags Body}
    (hst : newSubtest tc c = .ok st) (hname : st.name ≠ "compile") {func : IrFunction Body}
    {details details' : Details}
    (h : commandsIn tc c.command func.signature details.comments =
      commandsIn tc c.command func.signature details'.comments)
    (preambleComments : List Comment) (target : FlagsOrIsa Flags) (verified : Bool) :
    st.run func (callContext preambleComments details target verified) =
      st.run func (callContext preambleComments details' target verified) := by
  rcases newSubtest_cases tc hst with ⟨hc, rfl⟩ | ⟨-, test, rfl⟩ | ⟨hc, rfl⟩ | ⟨-, rfl⟩
  · rw [hc] at h
    have hrun (d : Details) : TestRun.run tc func (callContext preambleComments d target verified) =
        (RuntestEnvironment.parse tc (commandsIn tc "run" func.signature d.comments)).bind
          fun testEnv =>
            TestRun.runComments tc testEnv func
              (callContext preambleComments details target verified)
              (SingleFunctionCompiler.new (buildBackend tc))
              (commandsIn tc "run" func.signature d.comments) := by
      rw [parse_commandsIn]
      refine congrArg _ (funext fun testEnv => ?_)
      rw [runComments_commandsIn]
      have hisa : (callContext preambleComments d target verified).isa =
          (callContext preambleComments details target verified).isa := rfl
      exact runComments_congr tc hisa _ _ _ _
    simp only [TestRun.toSubTest, hrun, h]
  · exact absurd rfl hname
  · rw [hc] at h
    have hrun (d : Details) :
        TestInterpret.run tc func (callContext preambleComments d target verified) =
          TestInterpret.runComments tc func
            (commandsIn tc "interpret" func.signature d.comments) :=
      (interpretComments_commandsIn tc func d.comments).symm
    simp only [TestInterpret.toSubTest, hrun, h]
  · rfl

end CiRunner
