import CiRunner.Rerun
import CiRunner.UpdateSafety

/-!
# Blessing converges exactly when it can

With `test compile` alone, a second run on the file the first left changes nothing.  Whether the
second run is content with a function the first one blessed depends on the comments the update
kept: those inside the function, and those from the first indented comment of its trailer on.
The check counts them, unless they start with `;;`, and it counts them in addition to the output
that was written.  So it succeeds exactly when all of them are ignored
(`eq_expectedOutput_bless_iff`).
-/

namespace CiRunner

open TextLines Replay

variable {Flags Body : Type}

/-! ## Expectations -/

lemma expectedOutput_append (as bs : List Comment) :
    expectedOutput (as ++ bs) = expectedOutput as ++ expectedOutput bs := by
  simp [expectedOutput]

/-- What was written as comments is read back. -/
lemma expectedOutput_written (output : List Text) :
    expectedOutput (output.map fun o => { text := outputPrefix ++ o }) = output := by
  induction output with
  | nil => rfl
  | cons o output ih =>
    have hcounted : startsWith (outputPrefix ++ o) ignoredPrefix = false := by
      simp [startsWith, outputPrefix, ignoredPrefix, List.isPrefixOf_cons_cons]
    have hcons : expectedOutput ((o :: output).map fun o => { text := outputPrefix ++ o }) =
        o :: expectedOutput (output.map fun o => { text := outputPrefix ++ o }) := by
      simp [expectedOutput, hcounted, stripPrefix_append]
    rw [hcons, ih]

/-- Nothing is expected exactly when all comments are ignored. -/
lemma expectedOutput_eq_nil_iff (comments : List Comment) :
    expectedOutput comments = [] ↔ ∀ c ∈ comments, startsWith c.text ignoredPrefix := by
  simp [expectedOutput, List.filter_eq_nil_iff]

/-- **The boundary of convergence.**  A blessed block expects the output it was blessed with
exactly when the check ignores all comments the update kept. -/
theorem eq_expectedOutput_bless_iff (b : Block) (output : List Text) :
    output = expectedOutput (b.bless output).comments ↔
      ∀ c ∈ b.keptComments, startsWith c.text ignoredPrefix := by
  rw [← expectedOutput_eq_nil_iff, Block.keptComments, commentsOf_append, Block.comments_bless,
    expectedOutput_append, expectedOutput_append, expectedOutput_append, expectedOutput_written]
  constructor
  · intro h
    have hlength := congrArg List.length h
    simp only [List.length_append] at hlength
    rw [List.append_eq_nil_iff]
    constructor <;> (apply List.eq_nil_of_length_eq_zero; omega)
  · intro h
    obtain ⟨hcode, hrest⟩ := List.append_eq_nil_iff.mp h
    rw [hcode, hrest, List.nil_append, List.append_nil]

/-- What a check of the edited block finds, when the block was blessed if it was a mismatch. -/
lemma eq_expectedOutput_edit (b : Block) (output : List Text) :
    let o := if output = expectedOutput b.comments then none else some output
    (output = expectedOutput b.comments → output = expectedOutput (b.edit o).comments) ∧
      (output ≠ expectedOutput b.comments →
        (output = expectedOutput (b.edit o).comments ↔
          ∀ c ∈ b.keptComments, startsWith c.text ignoredPrefix)) := by
  intro o
  constructor
  · intro h
    have ho : o = none := if_pos h
    rw [ho]
    exact h
  · intro h
    have ho : o = some output := if_neg h
    rw [ho]
    exact eq_expectedOutput_bless_iff b output

/-! ## Runs that pass -/

section
variable (tc : Toolchain Flags Body) (preambleComments : List Comment)

/-- When the invocations on a function pass, `test compile` among them, a mismatch is blessed. -/
lemma blessing_of_ok {tuples : List (TestTuple Flags Body)}
    (hcompile : ∃ t ∈ tuples, t.test.name = "compile") {fd : IrFunction Body × Details}
    (h : Replay.fault? (blessCalls tc preambleComments tuples fd).2 = none) :
    blessing tc preambleComments tuples fd = mismatch? tc fd.1 fd.2 := by
  obtain ⟨t, ht, hname⟩ := hcompile
  rcases play_cases (blessStep tc preambleComments) (functionCalls tuples fd.1 fd.2) false with
    ⟨blessed, hplay⟩ | ⟨f, blessed, hplay⟩
  · cases hmis : mismatch? tc fd.1 fd.2 with
    | none => simp [blessing, hmis]
    | some output =>
      obtain ⟨v, hcall⟩ := call_mem_functionCalls ht fd.1 fd.2
      have hup : ((t.call fd.1 fd.2 v).update? tc).isSome := by
        simp [TestTuple.call, Event.update?, hname, hmis]
      obtain rfl : blessed = true :=
        (play_blessStep_ok tc preambleComments hplay).2.mpr (Or.inr ⟨_, hcall, hup⟩)
      have hfinal : finalState (blessCalls tc preambleComments tuples fd).2 = true := by
        rw [blessCalls, hplay]
        rfl
      simp [blessing, hfinal, hmis]
  · rw [blessCalls, hplay] at h
    cases h

/-- When a run passes, its outputs are the mismatches. -/
lemma blessings_of_ok {tuples : List (TestTuple Flags Body)}
    (hcompile : ∃ t ∈ tuples, t.test.name = "compile") {fds : List (IrFunction Body × Details)}
    (h : (blessings tc preambleComments tuples fds).2 = none) :
    (blessings tc preambleComments tuples fds).1 = fds.map fun fd => mismatch? tc fd.1 fd.2 := by
  induction fds with
  | nil => rfl
  | cons fd fds ih =>
    rw [blessings] at h ⊢
    cases hfault : Replay.fault? (blessCalls tc preambleComments tuples fd).2 with
    | some f =>
      rw [hfault] at h
      cases h
    | none =>
      rw [hfault] at h
      rw [List.map_cons, ← ih h, ← blessing_of_ok tc preambleComments hcompile hfault]

end

section
variable {tc : Toolchain Flags Body} {options : ParseOptions} {L : Layout} {content : Text}
  {testfile : TestFile Flags Body}

/-- With one `test compile` command every tuple is of `test compile`. -/
lemma name_of_compile {c : TestCommand} (hcommands : testfile.commands = [c])
    (hc : c.command = "compile") {tuples : List (TestTuple Flags Body)}
    (hplan : plan tc testfile = .ok tuples) : ∀ t ∈ tuples, t.test.name = "compile" := by
  intro t ht
  obtain ⟨c', hmem, hc'⟩ := (plan_ok tc hplan).2 t ht
  obtain rfl : c' = c := by simpa [hcommands] using hmem
  rcases newSubtest_cases tc hc' with ⟨h, -⟩ | ⟨-, test, htest⟩ | ⟨h, -⟩ | ⟨⟨-, h, -⟩, -⟩
  · simp [hc] at h
  · rw [htest]
    rfl
  · simp [hc] at h
  · exact absurd hc h

/-- The file a passing run leaves passes again, and is left as it is. -/
lemma rerun_of_pass (hreads : Reads tc options L content testfile)
    (hclean : ∀ l ∈ L.lines, Clean l) (houtput : CleanOutput tc)
    {tuples : List (TestTuple Flags Body)} (hplan : plan tc testfile = .ok tuples)
    (hcommands : ∀ c ∈ testfile.commands, c.command = "compile") {s s₁ s' : RunState Flags Body}
    (hs : s.world.disk = content) (hpass : (run tc options).run s = .ok () s₁)
    (hs' : s'.world.disk = s₁.world.disk) :
    ∃ s₂, (run tc options).run s' = .ok () s₂ ∧ s₂.world.disk = s₁.world.disk := by
  have hdisk : (finalState ((run tc options).run s)).world.disk = s₁.world.disk := by
    rw [hpass]
    rfl
  have hnone : Replay.fault? ((run tc options).run s) = none := by
    rw [hpass]
    rfl
  have hsame : ∀ (i : ℕ) fd details', testfile.functions[i]? = some fd →
      (L.edit (outputsOf tc tuples testfile)).details[i]? = some details' →
        SameFor tc tuples fd.1 fd.2 details' := fun i fd details' hfd hdetails' =>
    sameFor_of_edit hreads hplan hfd hdetails' fun b output _ _ =>
      keepsCommands_of_forall (fun c hc => by simp [hcommands c hc]) fd.1 b output
  obtain ⟨hfault₂, hdisk₂⟩ := rerun_of_layout hreads hclean houtput hplan hs (hs'.trans hdisk.symm)
    (by rw [hnone]; exact fun h => by cases h) hsame
  rw [hnone] at hfault₂
  cases hrun₂ : (run tc options).run s' with
  | ok u s₂ =>
    rw [hrun₂] at hdisk₂
    exact ⟨s₂, rfl, hdisk₂.trans hs'⟩
  | error f s₂ =>
    rw [hrun₂] at hfault₂
    cases hfault₂

/-- The file a passing run leaves has the comments of each function as they were, or with the new
expectation if the function was a mismatch. -/
lemma comments_of_pass (hreads : Reads tc options L content testfile)
    (hclean : ∀ l ∈ L.lines, Clean l) (houtput : CleanOutput tc)
    {tuples : List (TestTuple Flags Body)} (hplan : plan tc testfile = .ok tuples)
    (hcompile : ∃ t ∈ tuples, t.test.name = "compile") {s s₁ : RunState Flags Body}
    (hs : s.world.disk = content) (hpass : (run tc options).run s = .ok () s₁) :
    ∃ testfile', tc.parseTest s₁.world.disk options = .ok testfile' ∧
      ∀ (i : ℕ) func details, testfile.functions[i]? = some (func, details) →
        ∃ details' b, testfile'.functions[i]? = some (func, details') ∧
          L.blocks[i]? = some b ∧ details.comments = b.comments ∧
          details'.comments = (b.edit (mismatch? tc func details)).comments := by
  have hparse : tc.parseTest s.world.disk options = .ok testfile := by rw [hs, hreads.parse]
  have hcontent : lines s.world.disk = L.lines := by rw [hs, hreads.content_lines]
  obtain ⟨-, -, hparse₁⟩ := hreads.of_run hclean houtput hplan hs
  obtain ⟨hfault, -⟩ := run_of_layout hcontent hparse hreads.details hclean houtput hplan
  rw [hpass] at hparse₁ hfault
  have houtputs : outputsOf tc tuples testfile =
      testfile.functions.map fun fd => mismatch? tc fd.1 fd.2 :=
    blessings_of_ok tc testfile.preambleComments hcompile hfault.symm
  refine ⟨_, hparse₁, fun i func details hfd => ?_⟩
  obtain ⟨b, o, details', hb, hcomments, ho, hdetails', hcomments'⟩ :=
    hreads.exists_block tuples hfd
  rw [houtputs, List.getElem?_map, hfd] at ho
  obtain rfl : mismatch? tc func details = o := Option.some.inj ho
  refine ⟨details', b, ?_, hb, hcomments, hcomments'⟩
  simp [TestFile.withDetails, redetail, List.getElem?_zipWith, hfd, hdetails']

/-- **Blessing is idempotent and converges exactly when it can.**  Let a file have one
`test compile` command, and a first run on it pass.  A second run on the file it left passes and
leaves it as it is.  A function that compiled to its expectation does so again; one that did not
compiles to the expectation it was blessed with exactly when every comment the update kept is
ignored. -/
theorem bless_converges (hreads : Reads tc options L content testfile)
    (hclean : ∀ l ∈ L.lines, Clean l) (houtput : CleanOutput tc) {c : TestCommand}
    (hcommands : testfile.commands = [c]) (hc : c.command = "compile")
    {s s₁ s' : RunState Flags Body} (hs : s.world.disk = content)
    (hpass : (run tc options).run s = .ok () s₁) (hs' : s'.world.disk = s₁.world.disk) :
    (∃ s₂, (run tc options).run s' = .ok () s₂ ∧ s₂.world.disk = s₁.world.disk) ∧
      ∃ testfile', tc.parseTest s₁.world.disk options = .ok testfile' ∧
        ∀ (i : ℕ) func details, testfile.functions[i]? = some (func, details) →
          ∃ details' b, testfile'.functions[i]? = some (func, details') ∧
            L.blocks[i]? = some b ∧
            ∀ compiled, tc.codegen func (buildBackend tc) = .ok compiled →
              (lines compiled.disasm = expectedOutput details.comments →
                lines compiled.disasm = expectedOutput details'.comments) ∧
              (lines compiled.disasm ≠ expectedOutput details.comments →
                (lines compiled.disasm = expectedOutput details'.comments ↔
                  ∀ k ∈ b.keptComments, startsWith k.text ignoredPrefix)) := by
  have hparse : tc.parseTest s.world.disk options = .ok testfile := by rw [hs, hreads.parse]
  obtain ⟨tuples, hplan⟩ : ∃ tuples, plan tc testfile = .ok tuples := by
    cases hplan : plan tc testfile with
    | ok tuples => exact ⟨tuples, rfl⟩
    | error f =>
      rw [run_of_parse tc hparse, runTestFile_eq_plan, hplan] at hpass
      cases hpass
  have hname := name_of_compile hcommands hc hplan
  have hcompile : ∃ t ∈ tuples, t.test.name = "compile" := by
    obtain ⟨t, ht⟩ := List.exists_mem_of_ne_nil tuples (plan_ne_nil tc hplan)
    exact ⟨t, ht, hname t ht⟩
  have hall : ∀ c' ∈ testfile.commands, c'.command = "compile" := by simp [hcommands, hc]
  refine ⟨rerun_of_pass hreads hclean houtput hplan hall hs hpass hs', ?_⟩
  obtain ⟨testfile', hparse', hfunctions⟩ :=
    comments_of_pass hreads hclean houtput hplan hcompile hs hpass
  refine ⟨testfile', hparse', fun i func details hfd => ?_⟩
  obtain ⟨details', b, hfd', hb, hcomments, hcomments'⟩ := hfunctions i func details hfd
  refine ⟨details', b, hfd', hb, fun compiled hcompiled => ?_⟩
  rw [hcomments', mismatch?_eq tc hcompiled, hcomments]
  exact eq_expectedOutput_edit b (lines compiled.disasm)

end

/-- A stale expectation is replaced once. -/
theorem bless_converges_stale :
    let L := Layout.testing ["test compile"] ["; stale".toList]
    let r := (run Toolchain.compiling {}).run { world := World.ofLayout L, trace := [] }
    (finalState r).world.disk ≠ unlines L.lines ∧
      ∃ s₂, (run Toolchain.compiling {}).run { world := (finalState r).world, trace := [] } =
          .ok () s₂ ∧ s₂.world.disk = (finalState r).world.disk := by
  intro L r
  have hnone : Replay.fault? r = none := by decide +kernel
  have hne : (finalState r).world.disk ≠ unlines L.lines := by decide +kernel
  have hclean : ∀ l ∈ L.lines, Clean l := by decide
  have hreads := reads_testing (by decide) _ _ hclean
  have hcommands : (readTest (unlines L.lines)).commands = [{ command := "compile" }] := rfl
  have hrun : (run Toolchain.compiling {}).run { world := World.ofLayout L, trace := [] } = r := rfl
  clear_value r
  cases r with
  | error f s => cases hnone
  | ok u s₁ =>
    have hsecond : ({ world := s₁.world, trace := [] } : RunState Settings Unit).world.disk =
        s₁.world.disk := rfl
    exact ⟨hne,
      (bless_converges hreads hclean cleanOutput_compiling hcommands rfl rfl hrun hsecond).1⟩

/-- A function whose body has a comment that ends in two `\r`s. -/
def crLayout : Layout where
  preamble := ["test compile".toList, []]
  blocks := [{ Block.returning 'f' [] Block.trailer_nil with
    body := ["block0:".toList, "    return ; k\r\r".toList]
    body_open := by decide }]

/-- The file of that layout. -/
def crFile : Text :=
  "test compile\n\nfunction %f() \x7b\nblock0:\n    return ; k\r\r\r\n\x7d\n".toList

/-- The comment of the body keeps the function from converging, and every update takes a `\r` off
its line. -/
theorem bless_loses_cr :
    let r := (run Toolchain.compiling {}).run
      { world := { disk := crFile, fileUpdate := FileUpdate.new }, trace := [] }
    let r' := (run Toolchain.compiling {}).run { world := (finalState r).world, trace := [] }
    lines crFile = crLayout.lines ∧ Replay.fault? r = none ∧ Replay.fault? r' = none ∧
      "    return ; k\r".toList ∈ lines (finalState r).world.disk ∧
      "    return ; k\r".toList ∉ lines (finalState r').world.disk := by
  intro r r'
  refine ⟨?_, ?_, ?_, ?_, ?_⟩
  all_goals decide +kernel

end CiRunner
