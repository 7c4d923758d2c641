import CiRunner.UpdateSafety
import CiRunner.Rereading

/-!
# Where a panic can come from

Each assertion and each unwrap of the runner belongs to a subtest, or to none (`Panic.origins`).
A run that panics does so in an invocation of a subtest the panic belongs to, which is the last that
it makes; the one panic in front of all invocations is that of an empty list of targets
(`run_panics`).  So four of the assertions never fail: the test of a subtest's own command, the
`expect` behind the compilation of a trampoline, the check that there are slots for all results, and
the unwrapping of the target in `test run`.
-/

namespace CiRunner

open TextLines LittleEndian Replay

variable {Flags Body : Type}

/-- The names of the subtests that can end in the panic. -/
def Panic.origins : Panic → List String
  | .updateNotAfterLast | .noLineToPreserve => ["compile"]
  | .compileUnwrap => ["compile", "run"]
  | .argumentCount | .argumentType | .emulatorUnwrap | .returnType | .pointerCast => ["run"]
  | .controlFlow => ["interpret"]
  | .emptyIsaList | .wrongSubtest | .trampolineExpect | .returnCount | .isaUnwrap => []

/-- The fault is an error, or a panic that belongs to subtests of the name. -/
def Fault.From (name : String) (f : Fault) : Prop := ∀ p, f = .panic p → name ∈ p.origins

lemma Fault.from_err (name : String) (e : Error) : (Fault.err e).From name :=
  fun _ h => by cases h

lemma Fault.from_panic {name : String} {p : Panic} (h : name ∈ p.origins) :
    (Fault.panic p).From name := by
  intro q hq
  obtain rfl := Fault.panic.inj hq
  exact h

lemma Fault.From.withContext {name : String} {f : Fault} (h : f.From name) (what : String) :
    (f.withContext what).From name := by
  cases f with
  | err e => exact from_err name _
  | panic p => exact h

/-! ## `test run` -/

section
variable (tc : Toolchain Flags Body)

lemma length_storeArguments {arguments : List DataValue} {slots slots' : List (BitVec 128)}
    {params : List AbiParam}
    (h : UnboxedValues.storeArguments tc arguments slots params = .ok slots') :
    slots'.length = slots.length := by
  fun_induction UnboxedValues.storeArguments tc arguments slots params generalizing slots' with
  | case1 arg arguments slot slots param params _ ih =>
    cases hrest : UnboxedValues.storeArguments tc arguments slots params with
    | error f => simp [hrest, bind, Except.bind] at h
    | ok rest =>
      simp only [hrest, bind, Except.bind, pure, Except.pure] at h
      obtain rfl := Except.ok.inj h
      rw [List.length_cons, List.length_cons, ih hrest]
  | case2 => cases h
  | case3 => rw [Except.ok.inj h]

lemma length_foldl_set {f : ℕ → BitVec 128} (ks : List ℕ) (slots : List (BitVec 128)) :
    (ks.foldl (fun slots k => slots.set k (f k)) slots).length = slots.length := by
  induction ks generalizing slots with
  | nil => rfl
  | cons k ks ih => rw [List.foldl_cons, ih, List.length_set]

/-- **There are slots for all results**, so the assertion on their number holds in every call. -/
lemma from_call2 (self : CompiledFunction) (arguments : List DataValue) :
    FaultsIn (Fault.From "run") (self.call2 tc arguments) := by
  unfold CompiledFunction.call2 UnboxedValues.makeArguments
  split
  · cases hstore : UnboxedValues.storeArguments tc arguments
        (List.replicate (max self.signature.params.length self.signature.returns.length) 0)
        self.signature.params with
    | error f =>
      obtain rfl := faultsIn_storeArguments tc _ _ _ f hstore
      simp only [hstore, bind, Except.bind]
      exact .error (Fault.from_panic (by decide))
    | ok slots =>
      have hslots := length_storeArguments tc hstore
      rw [List.length_replicate] at hslots
      simp only [hstore, bind, Except.bind, pure, Except.pure]
      split
      · exact .error (Fault.from_panic (by decide))
      · have hlength (mem : Mem) (area : ℕ) :
            self.signature.returns.length ≤
              (readBack mem area self.signature.returns.length slots).length := by
          rw [readBack, length_foldl_set, hslots]
          exact Nat.le_max_right _ _
        rw [UnboxedValues.collectReturns, if_pos (hlength _ _)]
        refine (faultsIn_readSlots tc _ _).mono ?_
        rintro f rfl
        exact Fault.from_panic (by decide)
  · exact .error (Fault.from_panic (by decide))

/-- With a target, its pointer type is all that the arguments of a call can fail at. -/
lemma from_callArguments (testEnv : RuntestEnvironment) (func : IrFunction Body)
    {context : Context Flags} {isa : TargetIsa Flags} (hisa : context.isa = some isa)
    (runArgs : List DataValue) :
    FaultsIn (Fault.From "run") (TestRun.callArguments tc testEnv func context runArgs) := by
  unfold TestRun.callArguments
  split
  · exact .error (Fault.from_err _ _)
  · refine FaultsIn.bind ?_ fun _ => .ok _
    simp only [TestRun.vmctxArgs, hisa]
    split
    · unfold RuntestContext.pointer
      split
      · exact .ok _
      · exact .error (Fault.from_panic (by decide))
    · exact .ok _

lemma from_testRun (func : IrFunction Body) {context : Context Flags} {isa : TargetIsa Flags}
    (hisa : context.isa = some isa) :
    FaultsIn (Fault.From "run") (TestRun.run tc func context) := by
  refine ((faultsIn_parse tc _).mono ?_).bind fun testEnv f h => ?_
  · rintro f ⟨e, rfl⟩
    exact Fault.from_err _ e
  · rcases TestRun.runComments_error tc h with ⟨e, rfl⟩ | rfl | ⟨runArgs, hargs⟩ | ⟨call, -, hcall⟩
    · exact Fault.from_err _ e
    · exact Fault.from_panic (by decide)
    · exact from_callArguments tc testEnv func hisa runArgs f hargs
    · exact from_call2 tc _ _ f hcall

/-! ## The other subtests -/

lemma from_testInterpret (func : IrFunction Body) (context : Context Flags) :
    FaultsIn (Fault.From "interpret") (TestInterpret.run tc func context) := by
  have hinvoke (funcName : Text) (args : List DataValue) :
      FaultsIn (Fault.From "interpret") (TestInterpret.invoke tc func funcName args) := by
    unfold TestInterpret.invoke
    dsimp only
    split
    · exact .ok _
    · exact .error (Fault.from_panic (by decide))
    · exact .error (Fault.from_err _ _)
  have hcommand (command : RunCommand) :
      FaultsIn (Fault.From "interpret") (command.run (TestInterpret.invoke tc func)) := by
    intro f hf
    rcases TestRun.commandRun_error hf with rfl | hf
    · exact Fault.from_err _ _
    · exact hinvoke _ _ f hf
  have hcomments (comments : List Comment) :
      FaultsIn (Fault.From "interpret") (TestInterpret.runComments tc func comments) := by
    induction comments with
    | nil => exact .ok ()
    | cons comment comments ih =>
      unfold TestInterpret.runComments
      split
      · exact .error (Fault.from_err _ _)
      · exact ih
      · exact (hcommand _).bind fun _ => ih
  exact hcomments _

/-- An update of the file panics at one of its two assertions, or fails with an error. -/
lemma from_updateAt {location : Location} {f : Text → List Text → Text} {w w' : World} {g : Fault}
    (h : (updateAt location f).run w = .error g w') : g.From "compile" := by
  by_cases hlast : w.fileUpdate.lastUpdate < location.lineNumber
  · cases hpreserve : pushPreserved
        (asUsize ((location.lineNumber - 1 : ℕ) + w.fileUpdate.lineDiff)) (lines w.disk) [] with
    | none =>
      simp only [updateAt, EStateM.run_bind, Replay.run_get, Replay.run_set, gt_iff_lt, hlast,
        if_true, hpreserve] at h
      cases h
      exact Fault.from_panic (by decide)
    | some p =>
      cases hfunction : pushFunction location true p.2 p.1 with
      | error e =>
        simp only [updateAt, EStateM.run_bind, Replay.run_get, Replay.run_set, gt_iff_lt, hlast,
          if_true, hpreserve, hfunction] at h
        cases h
        exact Fault.from_err _ e
      | ok q =>
        simp only [updateAt, EStateM.run_bind, Replay.run_get, Replay.run_set, gt_iff_lt, hlast,
          if_true, hpreserve, hfunction] at h
        cases h
  · rw [updateAt_of_le (by simpa using hlast)] at h
    cases h
    exact Fault.from_panic (by decide)

lemma from_testCompile (test : TestCompile) {func : IrFunction Body} {context : Context Flags}
    {w w' : World} {f : Fault} (h : (test.run tc func context).run w = .error f w') :
    f.From "compile" := by
  unfold TestCompile.run at h
  split at h
  · cases h
    exact Fault.from_panic (by decide)
  · unfold checkPreciseOutput at h
    dsimp only at h
    split at h
    · cases h
    · exact from_updateAt h

/-! ## The plan -/

/-- A tuple of a subtest that needs a target has one. -/
lemma isa_of_plan {testfile : TestFile Flags Body} {tuples : List (TestTuple Flags Body)}
    (h : plan tc testfile = .ok tuples) {t : TestTuple Flags Body} (ht : t ∈ tuples)
    (hneeds : t.test.needsIsa) : ∃ isa, t.isa = some isa := by
  rw [plan] at h
  split at h
  · cases h
  · cases htests : testfile.commands.mapM (newSubtest tc) with
    | error f => simp [htests, bind, Except.bind] at h
    | ok tests =>
      have hplan : planTests testfile tests = .ok tuples := by
        simpa [htests, bind, Except.bind] using h
      obtain ⟨flags, -, -, -, rfl⟩ := planTests_ok hplan
      obtain ⟨st, -, ht⟩ := List.mem_flatMap.mp ht
      rw [test_of_mem_expand ht] at hneeds
      simp only [expand, hneeds, if_true, List.mem_map] at ht
      obtain ⟨isa, -, rfl⟩ := ht
      exact ⟨isa, rfl⟩

/-- The fault is an error. -/
def Fault.IsErr (f : Fault) : Prop := ∃ e, f = .err e

/-- The test of a subtest's own command holds, the subtest having been picked by it. -/
lemma isErr_newSubtest (c : TestCommand) : FaultsIn Fault.IsErr (newSubtest tc c) := by
  have hoptions {name : String} (hname : c.command = name) :
      FaultsIn Fault.IsErr (noOptions name c) := by
    unfold noOptions
    rw [if_pos hname]
    split
    · exact .ok ()
    · exact .error ⟨_, rfl⟩
  unfold newSubtest
  split
  · rename_i hcommand
    exact (hoptions hcommand).bind fun _ => .ok _
  · rename_i hcommand
    rw [TestCompile.subtest, if_pos hcommand]
    refine FaultsIn.bind ?_ fun _ => .ok _
    fun_induction TestCompile.parseOptions c { preciseOutput := false } c.options with
    | case1 test => exact .ok test
    | case2 test options ih => exact ih
    | case3 => exact .error ⟨_, rfl⟩
  · rename_i hcommand
    exact (hoptions hcommand).bind fun _ => .ok _
  · exact .ok _

lemma isErr_testTuples (isaSpec : IsaSpec Flags) (flags : Flags)
    (tests : List (SubTest Flags Body)) :
    FaultsIn Fault.IsErr (testTuples isaSpec flags tests) := by
  induction tests with
  | nil => exact .ok []
  | cons test tests ih =>
    refine FaultsIn.bind ?_ fun _ => ih.bind fun _ => .ok _
    unfold tuplesFor
    split
    · split
      · exact .error ⟨_, rfl⟩
      · exact .ok _
    · exact .ok _

/-- The only panic in front of the invocations is that of an empty list of targets. -/
lemma faultsIn_plan (testfile : TestFile Flags Body) :
    FaultsIn (fun f => f.IsErr ∨ f = .panic .emptyIsaList ∧ testfile.isaSpec = .some [])
      (plan tc testfile) := by
  unfold plan
  split
  · exact .error (Or.inl ⟨_, rfl⟩)
  · have htests := FaultsIn.mapM (isErr_newSubtest tc) testfile.commands
    refine (htests.mono fun _ => Or.inl).bind fun tests => ?_
    refine FaultsIn.bind ?_ fun flags => ?_
    · unfold noIsaFlags
      split
      · exact .ok _
      · rename_i isas hisas
        split
        · exact .ok _
        · rename_i hlast
          obtain rfl := List.getLast?_eq_none_iff.mp hlast
          exact .error (Or.inr ⟨rfl, hisas⟩)
    · refine ((isErr_testTuples _ _ _).mono fun _ => Or.inl).bind fun tuples => ?_
      split
      · exact .error (Or.inl ⟨_, rfl⟩)
      · exact .ok _

/-! ## A whole run -/

/-- An invocation of a subtest panics in no way that does not belong to it. -/
lemma from_perform {testfile : TestFile Flags Body} {tuples : List (TestTuple Flags Body)}
    (hplan : plan tc testfile = .ok tuples) {t : TestTuple Flags Body} (ht : t ∈ tuples)
    {preambleComments : List Comment} {func : IrFunction Body} {details : Details}
    {verified : Bool} {w w' : World} {f : Fault}
    (h : (perform tc preambleComments (t.call func details verified)).run w = .error f w') :
    f.From t.test.name := by
  have hneeds := isa_of_plan tc hplan ht
  obtain ⟨c, -, hc⟩ := (plan_ok tc hplan).2 t ht
  rw [TestTuple.call, perform, SubTest.run_runNamed] at h
  cases hrun : (t.test.run func
      (callContext preambleComments details t.target verified)).run w with
  | ok u v =>
    rw [hrun] at h
    cases h
  | error g v =>
    rw [hrun] at h
    cases h
    refine Fault.From.withContext ?_ _
    have hlift {o : Outcome Unit} (ho : (liftOutcome o).run w = .error g w') : o = .error g := by
      cases o with
      | ok u => cases ho
      | error f =>
        cases ho
        rfl
    rcases newSubtest_cases tc hc with ⟨-, htest⟩ | ⟨-, test, htest⟩ | ⟨-, htest⟩ | ⟨-, htest⟩ <;>
      rw [htest] at hneeds hrun ⊢
    · obtain ⟨isa, hisa⟩ := hneeds rfl
      have hcontext : (callContext preambleComments details t.target verified).isa = some isa :=
        hisa
      exact from_testRun tc func hcontext g (hlift hrun)
    · exact from_testCompile tc test hrun
    · exact from_testInterpret tc func _ g (hlift hrun)
    · cases hrun

end

/-- **Every panic comes from where it belongs.**  A run panics only with an empty list of targets,
and then has invoked nothing, or in the last invocation that it makes, which is one of a subtest
that the panic belongs to. -/
theorem run_panics {tc : Toolchain Flags Body} {options : ParseOptions}
    {s s' : RunState Flags Body} {p : Panic}
    (h : (run tc options).run s = .error (.panic p) s') :
    (p = .emptyIsaList ∧ s' = s ∧ ∃ testfile, tc.parseTest s.world.disk options = .ok testfile ∧
      testfile.isaSpec = .some []) ∨
    ∃ before st func details target verified,
      s'.trace = s.trace ++ before ++ [.test st func details target verified] ∧
        st.name ∈ p.origins := by
  cases hparse : tc.parseTest s.world.disk options with
  | error e =>
    rw [run_of_parse_error tc hparse] at h
    split at h <;> cases h
  | ok testfile =>
    rw [run_of_parse tc hparse, runTestFile_eq_plan] at h
    cases hplan : plan tc testfile with
    | error f =>
      rw [hplan] at h
      obtain ⟨rfl, rfl⟩ : f = .panic p ∧ s = s' := by simpa using h
      left
      rcases faultsIn_plan tc testfile _ hplan with ⟨e, he⟩ | ⟨hp, hspec⟩
      · cases he
      · exact ⟨Fault.panic.inj hp, rfl, testfile, rfl, hspec⟩
    | ok tuples =>
      right
      rw [hplan] at h
      have hstate := congrArg finalState h
      have hfault := congrArg fault? h
      simp only [finalState_after, fault?_after, finalState_error, fault?_error] at hstate hfault
      -- the run ends at the first invocation that fails
      rcases play_ends (perform tc testfile.preambleComments) (schedule tuples testfile.functions)
        s.start.world with ⟨w, hplay⟩ | ⟨pre, e, post, v, f, w, hes, -, he, hplay⟩
      · rw [hplay] at hfault
        cases hfault
      · rw [hplay] at hfault hstate
        obtain rfl : f = .panic p := Option.some.inj hfault
        have hmem : e ∈ schedule tuples testfile.functions := by
          rw [hes]
          simp
        obtain ⟨fd, -, hmem⟩ := List.mem_flatMap.mp hmem
        rcases mem_functionCalls hmem with ⟨target, rfl⟩ | ⟨t, ht, verified, rfl⟩
        · obtain ⟨m, -, hm, -⟩ := perform_error_iff.mp he
          cases hm
        · refine ⟨pre, t.test, fd.1, fd.2, t.target, verified, ?_,
            from_perform tc hplan ht he p rfl⟩
          rw [← hstate, List.append_assoc]
          rfl

/-- A toolchain whose interpreter stops at a trap. -/
def Toolchain.trapping : Toolchain Settings Unit :=
  { Toolchain.sample with
    parseRunCommand := fun text _ => .ok (if text = printF then some RunCommand.callF else none)
    callByName := fun _ _ _ => .ok .other }

theorem run_panics_trapping :
    let r := (run Toolchain.trapping {}).run
      { world := World.ofLayout (.testing ["test interpret"] [printF]), trace := [] }
    ∃ before st func details target verified,
      (finalState r).trace = before ++ [.test st func details target verified] ∧
        st.name = "interpret" := by
  intro r
  have hfault : fault? r = some (.panic .controlFlow) := by decide +kernel
  have hrun : (run Toolchain.trapping {}).run
      { world := World.ofLayout (.testing ["test interpret"] [printF]), trace := [] } = r := rfl
  clear_value r
  cases r with
  | ok u s => cases hfault
  | error f s =>
    obtain rfl : f = .panic .controlFlow := Option.some.inj hfault
    rcases run_panics hrun with
      ⟨h, -⟩ | ⟨before, st, func, details, target, verified, htrace, hname⟩
    · cases h
    · exact ⟨before, st, func, details, target, verified, htrace, List.mem_singleton.mp hname⟩

end CiRunner
