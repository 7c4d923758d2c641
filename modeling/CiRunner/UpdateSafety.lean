import CiRunner.Blessing
import CiRunner.RunCalls
import CiRunner.Reading
import CiRunner.Verification

/-!
# When the test file is rewritten, and when rewriting panics

Two results about every run.

A run leaves the test file alone as long as every function `test compile` gets to compiles to
what its comments expect (`disk_unchanged`).  Whether the file asks for `precise-output` plays no
part in it: the option is parsed and never read.

`update_at` panics exactly when two `test compile` commands get to the same function and its
disassembly is not what its comments expect (`update_panics_iff`), since the comments of a function
are not read again after an update.  For this the panics of `update_at` have to be told from those
of every other function of the runner: an outcome is `Clear` when it is none of them.
-/

namespace CiRunner

open TextLines Replay

variable {Flags Body : Type}

/-! ## The panics of `update_at` -/

/-- The two ways in which `update_at` panics. -/
def Fault.isUpdatePanic : Fault → Bool
  | .panic .updateNotAfterLast | .panic .noLineToPreserve => true
  | _ => false

lemma Fault.isUpdatePanic_withContext (what : String) (f : Fault) :
    (f.withContext what).isUpdatePanic = f.isUpdatePanic := by
  cases f <;> rfl

/-- The outcome is not a panic of `update_at`. -/
def Clear {α : Type} : Outcome α → Prop := FaultsIn fun f => f.isUpdatePanic = false

lemma Fault.IsCallPanic.isUpdatePanic {f : Fault} (h : f.IsCallPanic) :
    f.isUpdatePanic = false := by
  obtain ⟨p, hp, rfl⟩ := h
  simp only [List.mem_cons, List.not_mem_nil, or_false] at hp
  rcases hp with rfl | rfl | rfl | rfl | rfl | rfl | rfl <;> rfl

section
variable (tc : Toolchain Flags Body)

lemma clear_commandRun (command : RunCommand)
    {invoke : Text → List DataValue → Outcome (List DataValue)}
    (h : ∀ func args, Clear (invoke func args)) : Clear (command.run invoke) := by
  refine (h _ _).bind fun actual => ?_
  split
  · exact FaultsIn.ok ()
  · exact .error rfl

lemma clear_testRun (func : IrFunction Body) (context : Context Flags) :
    Clear (TestRun.run tc func context) := by
  refine ((faultsIn_parse tc _).mono ?_).bind fun testEnv f h => ?_
  · rintro f ⟨e, rfl⟩
    rfl
  · rcases TestRun.runComments_error tc h with ⟨e, rfl⟩ | rfl | ⟨runArgs, hargs⟩ | ⟨call, -, hcall⟩
    · rfl
    · rfl
    · rcases TestRun.faultsIn_callArguments tc _ _ _ runArgs f hargs with rfl | ⟨rfl | rfl, -⟩
      · rfl
      · rfl
      · rfl
    · exact (faultsIn_call2 tc _ _ f hcall).isUpdatePanic

lemma clear_testInterpret (func : IrFunction Body) (context : Context Flags) :
    Clear (TestInterpret.run tc func context) := by
  have hinvoke (funcName : Text) (args : List DataValue) :
      Clear (TestInterpret.invoke tc func funcName args) := by
    unfold TestInterpret.invoke
    dsimp only
    split
    · exact FaultsIn.ok _
    · exact .error rfl
    · exact .error rfl
  have hcomments (comments : List Comment) :
      Clear (TestInterpret.runComments tc func comments) := by
    induction comments with
    | nil => exact FaultsIn.ok ()
    | cons comment comments ih =>
      unfold TestInterpret.runComments
      split
      · exact .error rfl
      · exact ih
      · exact (clear_commandRun _ hinvoke).bind fun _ => ih
  exact hcomments _

end

/-! ## The file is left alone -/

section
variable (tc : Toolchain Flags Body)

/-- Every invocation of a schedule is of a known subtest, on one of the functions. -/
lemma of_mem_schedule {tuples : List (TestTuple Flags Body)}
    (hknown : ∀ t ∈ tuples, t.test.Known tc) {fds : List (IrFunction Body × Details)}
    {e : Event Flags Body} (he : e ∈ schedule tuples fds) : e.Known tc := by
  obtain ⟨fd, -, he⟩ := List.mem_flatMap.mp he
  exact (of_mem_functionCalls tc hknown he).1

/-- Steps that do not update the file leave it alone. -/
lemma disk_play {preambleComments : List Comment} {es : List (Event Flags Body)}
    (hknown : ∀ e ∈ es, e.Known tc) {w : World}
    (h : ∀ e ∈ (play (perform tc preambleComments) es w).1, e.update? tc = none) :
    (finalState (play (perform tc preambleComments) es w).2).disk = w.disk := by
  refine play_invariant (I := fun v : World => v.disk = w.disk) (fun e he v hv => ?_) rfl
  have hmem : e ∈ es := (executed_initial _ _ _).subset he
  rw [perform_of_pure tc preambleComments (hknown e hmem) (h e he)]
  cases e.fault? tc preambleComments <;> exact hv

/-- **The file is left alone** by every run in which each function that `test compile` is invoked
on compiles to what its comments expect. -/
theorem disk_unchanged (options : ParseOptions) (s : RunState Flags Body)
    (h : ∀ e ∈ (finalState ((run tc options).run s)).trace, e.update? tc = none) :
    (finalState ((run tc options).run s)).world.disk = s.world.disk := by
  cases hparse : tc.parseTest s.world.disk options with
  | error e => rw [finalState_of_parse_error tc hparse]
  | ok testfile =>
    rw [run_of_parse tc hparse, runTestFile_eq_plan] at h ⊢
    cases hplan : plan tc testfile with
    | error f => rfl
    | ok tuples =>
      rw [hplan] at h
      simp only [finalState_after] at h ⊢
      exact disk_play tc (fun e he => of_mem_schedule tc (plan_known tc hplan) he)
        fun e he => h e (List.mem_append_right _ he)

end

/-- The file with a plain `test compile`, where `%f` has these lines behind it. -/
abbrev Layout.compileTest (trailer : List Text)
    (h : ∀ l ∈ trailer, isTrailerLine l := by decide) : Layout :=
  .testing ["test compile"] trailer h

theorem disk_unchanged_compiling :
    let L := Layout.compileTest ["; ret".toList]
    (finalState ((run Toolchain.compiling {}).run
      { world := World.ofLayout L, trace := [] })).world.disk = unlines L.lines := by
  intro L
  have hread : readTest (unlines L.lines) =
      { commands := [{ command := "compile" }]
        isaSpec := .none []
        preambleComments := []
        functions := [(IrFunction.sample 'f',
          { location := { lineNumber := 3 }, comments := [{ text := "; ret".toList }] })] } := rfl
  refine disk_unchanged Toolchain.compiling {} { world := World.ofLayout L, trace := [] } ?_
  rw [run_of_parse Toolchain.compiling (congrArg Except.ok hread)]
  decide +kernel

/-- A plain `test compile` rewrites the file. -/
theorem compile_rewrites :
    let L := Layout.compileTest []
    (readTest (unlines L.lines)).commands = [{ command := "compile" }] ∧
      (finalState ((run Toolchain.compiling {}).run
        { world := World.ofLayout L, trace := [] })).world.disk =
        unlines (Layout.compileTest [[], "; ret".toList, []]).lines ∧
      unlines (Layout.compileTest [[], "; ret".toList, []]).lines ≠ unlines L.lines := by
  refine ⟨rfl, ?_, ?_⟩
  · decide +kernel
  · decide +kernel

/-! ## When an update panics -/

section
variable (tc : Toolchain Flags Body) (preambleComments : List Comment)

/-- The invocation does not fail by itself: it updates the file, or does nothing and succeeds. -/
def Event.Advances (e : Event Flags Body) : Prop :=
  (e.update? tc).isSome ∨ e.fault? tc preambleComments = none

/-- Two invocations of `test compile` on one function whose disassembly is not what its comments
expect, with nothing that fails in front of the second. -/
def UpdatedTwice (tuples : List (TestTuple Flags Body)) (fds : List (IrFunction Body × Details)) :
    Prop :=
  ∃ fds₁ fd fds₂ calls₁ e calls₂ e' calls₃, fds = fds₁ ++ fd :: fds₂ ∧
    functionCalls tuples fd.1 fd.2 = calls₁ ++ e :: (calls₂ ++ e' :: calls₃) ∧
    (e.update? tc).isSome ∧ (e'.update? tc).isSome ∧
    ∀ x ∈ schedule tuples fds₁ ++ (calls₁ ++ calls₂), x.Advances tc preambleComments

/-- The faults of an invocation that does not update the file are not those of `update_at`. -/
def Event.Clear (e : Event Flags Body) : Prop :=
  e.update? tc = none → ∀ f, e.fault? tc preambleComments = some f → f.isUpdatePanic = false

lemma blessStep_ok {e : Event Flags Body} {blessed blessed' : Bool}
    (h : (blessStep tc preambleComments e).run blessed = .ok () blessed') :
    e.Advances tc preambleComments ∧
      (blessed' = true ↔ blessed = true ∨ (e.update? tc).isSome) := by
  cases hup : e.update? tc with
  | none =>
    rw [blessStep_of_pure tc preambleComments hup] at h
    cases hf : e.fault? tc preambleComments with
    | none =>
      obtain rfl : blessed = blessed' := by simpa [hf] using h
      exact ⟨Or.inr hf, by simp⟩
    | some f => simp [hf] at h
  | some output =>
    rw [blessStep_of_update tc preambleComments hup] at h
    cases blessed
    · obtain rfl : true = blessed' := by simpa using h
      exact ⟨Or.inl (by simp [hup]), by simp⟩
    · simp at h

/-- After a run of the abstract machine that passed, the function has been blessed exactly when
an invocation updated it. -/
lemma play_blessStep_ok {es : List (Event Flags Body)} {blessed blessed' : Bool}
    (h : (play (blessStep tc preambleComments) es blessed).2 = .ok () blessed') :
    (∀ e ∈ es, e.Advances tc preambleComments) ∧
      (blessed' = true ↔ blessed = true ∨ ∃ e ∈ es, (e.update? tc).isSome) := by
  induction es generalizing blessed with
  | nil =>
    obtain rfl : blessed = blessed' := by simpa using h
    simp
  | cons e es ih =>
    rcases step_cases (blessStep tc preambleComments) e blessed with ⟨b, hb⟩ | ⟨f, b, hb⟩
    · rw [play_cons_of_ok hb] at h
      obtain ⟨hadv, hiff⟩ := ih h
      obtain ⟨hadv', hiff'⟩ := blessStep_ok tc preambleComments hb
      refine ⟨List.forall_mem_cons.mpr ⟨hadv', hadv⟩, ?_⟩
      rw [hiff, hiff', List.exists_mem_cons_iff, or_assoc]
    · rw [play_cons_of_error hb] at h
      cases h

/-- How an invocation that is clear fails in the abstract machine. -/
lemma blessStep_error {e : Event Flags Body} {blessed blessed' : Bool} {f : Fault}
    (h : (blessStep tc preambleComments e).run blessed = .error f blessed') :
    (f = .panic .updateNotAfterLast ∧ blessed = true ∧ (e.update? tc).isSome) ∨
      (e.update? tc = none ∧ e.fault? tc preambleComments = some f) := by
  cases hup : e.update? tc with
  | none =>
    rw [blessStep_of_pure tc preambleComments hup] at h
    cases hf : e.fault? tc preambleComments with
    | none => simp [hf] at h
    | some g =>
      obtain ⟨rfl, -⟩ : g = f ∧ blessed = blessed' := by simpa [hf] using h
      exact Or.inr ⟨rfl, rfl⟩
  | some output =>
    rw [blessStep_of_update tc preambleComments hup] at h
    cases blessed
    · simp at h
    · obtain ⟨rfl, -⟩ : _ = f ∧ true = blessed' := by simpa using h
      exact Or.inl ⟨rfl, rfl, rfl⟩

/-- A run of invocations that all advance passes or fails the assertion of `update_at`. -/
lemma fault?_of_advances {es : List (Event Flags Body)}
    (h : ∀ e ∈ es, e.Advances tc preambleComments) (blessed : Bool) :
    Replay.fault? (play (blessStep tc preambleComments) es blessed).2 = none ∨
      Replay.fault? (play (blessStep tc preambleComments) es blessed).2 =
        some (.panic .updateNotAfterLast) := by
  rcases play_ends (blessStep tc preambleComments) es blessed with
    ⟨b, hb⟩ | ⟨pre, e, post, b, f, b', rfl, -, he, hplay⟩
  · exact Or.inl (by rw [hb]; rfl)
  · rcases blessStep_error tc preambleComments he with ⟨rfl, -⟩ | ⟨hup, hf⟩
    · exact Or.inr (by rw [hplay]; rfl)
    · have hadv := h e (by simp)
      simp [Event.Advances, hup, hf] at hadv

/-- **One function fails the assertion** exactly when it is updated twice. -/
lemma blessCalls_panics_iff {tuples : List (TestTuple Flags Body)}
    {fd : IrFunction Body × Details}
    (hclear : ∀ e ∈ functionCalls tuples fd.1 fd.2, e.Clear tc preambleComments) :
    Replay.fault? (blessCalls tc preambleComments tuples fd).2 =
        some (.panic .updateNotAfterLast) ↔
      ∃ calls₁ e calls₂ e' calls₃,
        functionCalls tuples fd.1 fd.2 = calls₁ ++ e :: (calls₂ ++ e' :: calls₃) ∧
        (e.update? tc).isSome ∧ (e'.update? tc).isSome ∧
        ∀ x ∈ calls₁ ++ calls₂, x.Advances tc preambleComments := by
  rw [blessCalls]
  constructor
  · intro hfault
    rcases play_ends (blessStep tc preambleComments) (functionCalls tuples fd.1 fd.2) false with
      ⟨b, hb⟩ | ⟨pre, e', post, b, f, b', hcalls, hpre, he', hplay⟩
    · rw [hb] at hfault
      cases hfault
    · rw [hplay] at hfault
      obtain rfl : f = .panic .updateNotAfterLast := by simpa using hfault
      rcases blessStep_error tc preambleComments he' with ⟨-, rfl, hup'⟩ | ⟨hup, hf⟩
      · -- the function was blessed by then, so an earlier invocation updated it
        obtain ⟨hadv, hiff⟩ := play_blessStep_ok tc preambleComments (congrArg Prod.snd hpre)
        obtain ⟨e, he, hup⟩ : ∃ e ∈ pre, (e.update? tc).isSome := by simpa using hiff.mp rfl
        obtain ⟨calls₁, calls₂, rfl⟩ := List.append_of_mem he
        refine ⟨calls₁, e, calls₂, e', post, by rw [hcalls]; simp, hup, hup', fun x hx => ?_⟩
        refine hadv x ?_
        rcases List.mem_append.mp hx with hx | hx <;> simp [hx]
      · have := hclear e' (by rw [hcalls]; simp) hup _ hf
        cases this
  · rintro ⟨calls₁, e, calls₂, e', calls₃, hcalls, hup, hup', hadv⟩
    have hprefix : ∀ x ∈ calls₁ ++ e :: calls₂, x.Advances tc preambleComments := by
      intro x hx
      rcases List.mem_append.mp hx with hx | hx
      · exact hadv x (List.mem_append_left _ hx)
      · rcases List.mem_cons.mp hx with rfl | hx
        · exact Or.inl hup
        · exact hadv x (List.mem_append_right _ hx)
    have hsplit : functionCalls tuples fd.1 fd.2 = (calls₁ ++ e :: calls₂) ++ e' :: calls₃ := by
      rw [hcalls]
      simp
    rw [hsplit]
    rcases play_cases (blessStep tc preambleComments) (calls₁ ++ e :: calls₂) false with
      ⟨b, hb⟩ | ⟨f, b, hb⟩
    · obtain rfl : b = true :=
        (play_blessStep_ok tc preambleComments hb).2.mpr (Or.inr ⟨e, by simp, hup⟩)
      obtain ⟨output, houtput⟩ := Option.isSome_iff_exists.mp hup'
      have he' : (blessStep tc preambleComments e').run true =
          .error (.panic .updateNotAfterLast) true :=
        blessStep_of_update tc preambleComments houtput true
      rw [play_append_of_ok hb, play_cons_of_error he']
      rfl
    · rw [play_append_of_error hb]
      rcases fault?_of_advances tc preambleComments hprefix false with h | h
      · rw [hb] at h
        cases h
      · exact h

/-- **A run fails the assertion** exactly when a function is updated twice. -/
lemma blessings_panics_iff {tuples : List (TestTuple Flags Body)}
    {fds : List (IrFunction Body × Details)}
    (hclear : ∀ e ∈ schedule tuples fds, e.Clear tc preambleComments) :
    (blessings tc preambleComments tuples fds).2 = some (.panic .updateNotAfterLast) ↔
      UpdatedTwice tc preambleComments tuples fds := by
  induction fds with
  | nil => simp [blessings, UpdatedTwice]
  | cons fd fds ih =>
    have hclear' : ∀ e ∈ functionCalls tuples fd.1 fd.2, e.Clear tc preambleComments :=
      fun e he => hclear e (List.mem_append_left _ he)
    have ih' := ih fun e he => hclear e (List.mem_append_right _ he)
    have hone := blessCalls_panics_iff tc preambleComments hclear'
    have hadvances : Replay.fault? (blessCalls tc preambleComments tuples fd).2 = none →
        ∀ e ∈ functionCalls tuples fd.1 fd.2, e.Advances tc preambleComments := by
      intro hnone
      rcases play_cases (blessStep tc preambleComments) (functionCalls tuples fd.1 fd.2) false with
        ⟨b, hb⟩ | ⟨f, b, hb⟩
      · exact (play_blessStep_ok tc preambleComments hb).1
      · rw [blessCalls, hb] at hnone
        cases hnone
    rw [blessings]
    constructor
    · intro h
      split at h
      · rename_i f hf
        obtain rfl : f = .panic .updateNotAfterLast := by simpa using h
        obtain ⟨calls₁, e, calls₂, e', calls₃, hcalls, hup, hup', hadv⟩ := hone.mp hf
        exact ⟨[], fd, fds, calls₁, e, calls₂, e', calls₃, rfl, hcalls, hup, hup',
          by simpa using hadv⟩
      · rename_i hnone
        obtain ⟨fds₁, fd', fds₂, calls₁, e, calls₂, e', calls₃, rfl, hcalls, hup, hup', hadv⟩ :=
          ih'.mp h
        refine ⟨fd :: fds₁, fd', fds₂, calls₁, e, calls₂, e', calls₃, rfl, hcalls, hup, hup', ?_⟩
        intro x hx
        rw [schedule_cons, List.append_assoc] at hx
        rcases List.mem_append.mp hx with hx | hx
        · exact hadvances hnone x hx
        · exact hadv x hx
    · rintro ⟨fds₁, fd', fds₂, calls₁, e, calls₂, e', calls₃, hsplit, hcalls, hup, hup', hadv⟩
      cases fds₁ with
      | nil =>
        obtain ⟨rfl, rfl⟩ : fd = fd' ∧ fds = fds₂ := by simpa using hsplit
        have hfault := hone.mpr
          ⟨calls₁, e, calls₂, e', calls₃, hcalls, hup, hup', by simpa using hadv⟩
        rw [hfault]
      | cons fd₁ fds₁ =>
        obtain ⟨rfl, rfl⟩ : fd = fd₁ ∧ fds = fds₁ ++ fd' :: fds₂ := by simpa using hsplit
        rw [schedule_cons, List.append_assoc] at hadv
        have hfirst := fault?_of_advances tc preambleComments
          (fun x hx => hadv x (List.mem_append_left _ hx)) false
        rcases hfirst with hnone | hpanic
        · have hnone' : Replay.fault? (blessCalls tc preambleComments tuples fd).2 = none := hnone
          rw [hnone']
          exact ih'.mpr ⟨fds₁, fd', fds₂, calls₁, e, calls₂, e', calls₃, rfl, hcalls, hup, hup',
            fun x hx => hadv x (List.mem_append_right _ hx)⟩
        · have hpanic' : Replay.fault? (blessCalls tc preambleComments tuples fd).2 =
              some (.panic .updateNotAfterLast) := hpanic
          rw [hpanic']

/-- A run fails with the assertion of `update_at` or with a fault that is none of its panics. -/
lemma blessings_fault {tuples : List (TestTuple Flags Body)}
    {fds : List (IrFunction Body × Details)}
    (hclear : ∀ e ∈ schedule tuples fds, e.Clear tc preambleComments) {f : Fault}
    (h : (blessings tc preambleComments tuples fds).2 = some f) :
    f = .panic .updateNotAfterLast ∨ f.isUpdatePanic = false := by
  induction fds with
  | nil => cases h
  | cons fd fds ih =>
    rw [blessings] at h
    split at h
    · rename_i g hg
      obtain rfl : g = f := by simpa using h
      rcases play_ends (blessStep tc preambleComments) (functionCalls tuples fd.1 fd.2) false with
        ⟨b, hb⟩ | ⟨pre, e, post, b, g', b', hcalls, -, he, hplay⟩
      · rw [blessCalls, hb] at hg
        cases hg
      · rw [blessCalls, hplay] at hg
        obtain rfl : g' = g := by simpa using hg
        rcases blessStep_error tc preambleComments he with ⟨rfl, -⟩ | ⟨hup, hf⟩
        · exact Or.inl rfl
        · have hmem : e ∈ functionCalls tuples fd.1 fd.2 := by
            rw [hcalls]
            simp
          exact Or.inr (hclear e (List.mem_append_left _ hmem) hup _ hf)
    · exact ih (fun e he => hclear e (List.mem_append_right _ he)) h

/-- A subtest that leaves the file alone never fails with a panic of `update_at`. -/
lemma newSubtest_clear {c : TestCommand} {st : SubTest Flags Body}
    (h : newSubtest tc c = .ok st) (hname : st.name ≠ "compile") (func : IrFunction Body)
    (context : Context Flags) : ∃ o : Outcome Unit, st.run func context = liftOutcome o ∧
      CiRunner.Clear o := by
  rcases newSubtest_cases tc h with ⟨-, rfl⟩ | ⟨-, test, rfl⟩ | ⟨-, rfl⟩ | ⟨-, rfl⟩
  · exact ⟨_, rfl, clear_testRun tc func context⟩
  · exact absurd rfl hname
  · exact ⟨_, rfl, clear_testInterpret tc func context⟩
  · exact ⟨.ok (), rfl, FaultsIn.ok ()⟩

/-- The invocations of a plan are clear. -/
lemma clear_of_mem_schedule {testfile : TestFile Flags Body}
    {tuples : List (TestTuple Flags Body)} (hplan : plan tc testfile = .ok tuples)
    (fds : List (IrFunction Body × Details)) :
    ∀ e ∈ schedule tuples fds, e.Clear tc preambleComments := by
  intro e he hup f hf
  obtain ⟨fd, -, he⟩ := List.mem_flatMap.mp he
  rcases mem_functionCalls he with ⟨target, rfl⟩ | ⟨t, ht, v, rfl⟩
  · rw [Event.fault?] at hf
    cases hw : (perform tc preambleComments (.verify fd.1 fd.2 target)).run World.blank with
    | ok u w =>
      rw [hw] at hf
      cases hf
    | error g w =>
      obtain ⟨m, -, rfl, -⟩ := perform_error_iff.mp hw
      rw [hw] at hf
      obtain rfl := Option.some.inj hf
      rfl
  · obtain ⟨c, -, hc⟩ := (plan_ok tc hplan).2 t ht
    have hrun : ∃ o : Outcome Unit,
        t.test.run fd.1 (callContext preambleComments fd.2 t.target v) = liftOutcome o ∧
          CiRunner.Clear o := by
      by_cases hname : t.test.name = "compile"
      · rcases newSubtest_known tc hc with ⟨test, htest⟩ | ⟨hne, -⟩
        · have hmis : mismatch? tc fd.1 fd.2 = none := by
            simpa [TestTuple.call, Event.update?, hname] using hup
          rw [htest]
          refine ⟨_, TestCompile.run_of_no_mismatch tc test hmis, ?_⟩
          split
          · exact .error rfl
          · exact FaultsIn.ok ()
        · exact absurd hname hne
      · exact newSubtest_clear tc hc hname _ _
    obtain ⟨o, ho, hclear⟩ := hrun
    rw [Event.fault?, TestTuple.call, perform, SubTest.run_runNamed, ho] at hf
    cases o with
    | ok u => cases hf
    | error g =>
      obtain rfl : g.withContext t.test.name = f := Option.some.inj hf
      rw [Fault.isUpdatePanic_withContext]
      exact hclear g rfl

lemma clear_newSubtest (c : TestCommand) : CiRunner.Clear (newSubtest tc c) := by
  have hoptions (name : String) : CiRunner.Clear (noOptions name c) := by
    unfold noOptions
    split
    · split
      · exact FaultsIn.ok ()
      · exact .error rfl
    · exact .error rfl
  unfold newSubtest
  split
  · exact (hoptions "run").bind fun _ => FaultsIn.ok _
  · rename_i hcommand
    rw [TestCompile.subtest, if_pos hcommand]
    refine FaultsIn.bind ?_ fun _ => FaultsIn.ok _
    fun_induction TestCompile.parseOptions c { preciseOutput := false } c.options with
    | case1 test => exact FaultsIn.ok test
    | case2 test options ih => exact ih
    | case3 => exact .error rfl
  · exact (hoptions "interpret").bind fun _ => FaultsIn.ok _
  · exact FaultsIn.ok _

/-- A function is updated at most as often as there are tuples of `test compile`. -/
lemma countP_functionCalls_le (tuples : List (TestTuple Flags Body)) (func : IrFunction Body)
    (details : Details) :
    (functionCalls tuples func details).countP (fun e => (e.update? tc).isSome) ≤
      tuples.countP fun t => t.test.name = "compile" := by
  have hcalls (ts : List (TestTuple Flags Body)) (verified : Bool) :
      (ts.map (·.call func details verified)).countP (fun e => (e.update? tc).isSome) ≤
        ts.countP fun t => t.test.name = "compile" := by
    rw [List.countP_map]
    apply List.countP_mono_left
    intro t _ h
    by_cases hname : t.test.name = "compile"
    · simpa using hname
    · simp [TestTuple.call, Event.update?, hname] at h
  conv_rhs => rw [← List.takeWhile_append_dropWhile (p := fun t => !t.test.needsVerifier)
    (l := tuples), List.countP_append]
  rw [functionCalls, List.countP_append]
  refine Nat.add_le_add (hcalls _ _) ?_
  cases tuples.dropWhile fun t => !t.test.needsVerifier with
  | nil => simp
  | cons t ts =>
    rw [List.countP_cons]
    exact hcalls (t :: ts) true

/-- With at most one tuple of `test compile` no function is updated twice. -/
lemma not_updatedTwice {tuples : List (TestTuple Flags Body)}
    (h : tuples.countP (fun t => t.test.name = "compile") ≤ 1)
    (fds : List (IrFunction Body × Details)) :
    ¬ UpdatedTwice tc preambleComments tuples fds := by
  rintro ⟨-, fd, -, calls₁, e, calls₂, e', calls₃, -, hcalls, he, he', -⟩
  have hcount := countP_functionCalls_le tc tuples fd.1 fd.2
  rw [hcalls] at hcount
  simp only [List.countP_append, List.countP_cons, he, he', if_true] at hcount
  omega

/-- What keeps a run from making any invocation is not a panic of `update_at`. -/
lemma clear_plan (testfile : TestFile Flags Body) : CiRunner.Clear (plan tc testfile) := by
  have htuples (isaSpec : IsaSpec Flags) (flags : Flags) (tests : List (SubTest Flags Body)) :
      CiRunner.Clear (testTuples isaSpec flags tests) := by
    induction tests with
    | nil => exact FaultsIn.ok []
    | cons test tests ih =>
      refine FaultsIn.bind ?_ fun _ => ih.bind fun _ => FaultsIn.ok _
      unfold tuplesFor
      split
      · split
        · exact .error rfl
        · exact FaultsIn.ok _
      · exact FaultsIn.ok _
  unfold plan
  split
  · exact .error rfl
  · refine (FaultsIn.mapM (clear_newSubtest tc) testfile.commands).bind fun tests =>
      FaultsIn.bind ?_ fun flags => (htuples _ _ _).bind fun tuples => ?_
    · unfold noIsaFlags
      split
      · exact FaultsIn.ok _
      · split
        · exact FaultsIn.ok _
        · exact .error rfl
    · split
      · exact .error rfl
      · exact FaultsIn.ok _

/-- **When `update_at` panics.**  On a file in column-0 layout a run makes no call of `update_at`
that panics exactly when no function is updated twice. -/
theorem update_panics_iff (options : ParseOptions) (L : Layout) {s : RunState Flags Body}
    (hcontent : lines s.world.disk = L.lines) {testfile : TestFile Flags Body}
    (hparse : tc.parseTest s.world.disk options = .ok testfile)
    (hlines : testfile.functions.map (·.2.location.lineNumber) = L.headerLines) :
    (∀ p s', (run tc options).run s = .error (.panic p) s' →
      p ≠ .updateNotAfterLast ∧ p ≠ .noLineToPreserve) ↔
    ∀ tuples, plan tc testfile = .ok tuples →
      ¬ UpdatedTwice tc testfile.preambleComments tuples testfile.functions := by
  rw [run_of_parse tc hparse, runTestFile_eq_plan]
  cases hplan : plan tc testfile with
  | error f =>
    refine iff_of_true (fun p s' h => ?_) fun tuples h => by cases h
    obtain ⟨rfl, -⟩ : f = .panic p ∧ s = s' := by simpa using h
    have hclear := clear_plan tc testfile _ hplan
    constructor <;> rintro rfl <;> cases hclear
  | ok tuples =>
    have hfront : Front L.preamble.length L.preamble L.blocks s.start.world := Front.start hcontent
    obtain ⟨hfault, -⟩ := play_schedule tc testfile.preambleComments (plan_known tc hplan) hfront
      hlines
    have hclear := clear_of_mem_schedule tc testfile.preambleComments hplan testfile.functions
    have hiff := blessings_panics_iff tc testfile.preambleComments hclear
    simp only
    constructor
    · rintro h tuples' htuples htwice
      obtain rfl := Except.ok.inj htuples
      rw [← hiff, ← hfault] at htwice
      rcases play_cases (perform tc testfile.preambleComments)
        (schedule tuples testfile.functions) s.start.world with ⟨w, hw⟩ | ⟨f, w, hw⟩
      · rw [hw] at htwice
        cases htwice
      · rw [hw] at htwice
        obtain rfl := Option.some.inj htwice
        have hafter : s.start.after (play (perform tc testfile.preambleComments)
            (schedule tuples testfile.functions) s.start.world) () =
              .error (.panic .updateNotAfterLast)
                { world := w, trace := s.start.trace ++ (play (perform tc testfile.preambleComments)
                    (schedule tuples testfile.functions) s.start.world).1 } := by
          rw [RunState.after, hw]
        exact (h .updateNotAfterLast _ hafter).1 rfl
    · intro h p s' hrun
      have hp : (blessings tc testfile.preambleComments tuples testfile.functions).2 =
          some (.panic p) := by
        rw [← hfault, ← fault?_after s.start _ (), hrun]
        rfl
      constructor
      · rintro rfl
        exact h tuples rfl (hiff.mp hp)
      · rintro rfl
        rcases blessings_fault tc testfile.preambleComments hclear hp with h' | h' <;> cases h'

end

theorem update_panics_iff_compiling :
    let r := (run Toolchain.compiling {}).run
      { world := World.ofLayout (Layout.compileTest []), trace := [] }
    Replay.fault? r ≠ some (.panic .updateNotAfterLast) ∧
      Replay.fault? r ≠ some (.panic .noLineToPreserve) := by
  intro r
  have hread : readTest (unlines (Layout.compileTest []).lines) =
      { commands := [{ command := "compile" }]
        isaSpec := .none []
        preambleComments := []
        functions := [(IrFunction.sample 'f',
          { location := { lineNumber := 3 }, comments := [] })] } := rfl
  have hsafe : ∀ p s', r = .error (.panic p) s' →
      p ≠ .updateNotAfterLast ∧ p ≠ .noLineToPreserve := by
    refine (update_panics_iff Toolchain.compiling {} (Layout.compileTest [])
      (s := { world := World.ofLayout (Layout.compileTest []), trace := [] }) rfl
      (congrArg Except.ok hread) rfl).mpr ?_
    intro tuples htuples
    obtain rfl := Except.ok.inj (htuples.symm.trans
      (rfl : plan Toolchain.compiling _ = .ok
        [{ test := TestCompile.toSubTest Toolchain.compiling { preciseOutput := false }
           flags := [], isa := none }]))
    exact not_updatedTwice _ _ (by decide) _
  cases hr : r with
  | ok _ s' => constructor <;> exact fun h => by cases h
  | error f s' =>
    constructor
    · intro h
      obtain rfl := Option.some.inj h
      exact (hsafe _ s' hr).1 rfl
    · intro h
      obtain rfl := Option.some.inj h
      exact (hsafe _ s' hr).2 rfl

/-- With two `test compile` commands, a function that does not compile to its comments is updated
twice. -/
theorem update_panics_twice :
    let L := Layout.testing ["test compile", "test compile"] []
    lines (unlines L.lines) = L.lines ∧
      Replay.fault? ((run Toolchain.compiling {}).run { world := World.ofLayout L, trace := [] }) =
        some (.panic .updateNotAfterLast) := by
  intro L
  constructor
  · decide +kernel
  · decide +kernel

end CiRunner
