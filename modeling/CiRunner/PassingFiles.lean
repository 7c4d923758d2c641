import CiRunner.UpdateSafety
import CiRunner.Rereading

/-!
# When a test file passes

A run passes without updating the file exactly when the file is one that can be run and each
function passes each command by itself (`passes_iff`): no command has an influence on another, the
order of the functions does not matter, and neither does that of the commands, but for the target
that the functions are verified for, which is that of the first.  A file that the reader wants
skipped passes, too.
-/

namespace CiRunner

open TextLines StableSort Replay

variable {Flags Body : Type} (tc : Toolchain Flags Body)

/-! ## One command on one function -/

/-- The options of the command are those its subtest takes. -/
def TestCommand.Accepted (c : TestCommand) : Prop :=
  ((c.command = "run" ∨ c.command = "interpret") → c.options = []) ∧
    (c.command = "compile" → ∀ option ∈ c.options, option = .flag "precise-output")

/-- The function passes the command by itself, and `test compile` has nothing to write. -/
def PassesCommand (testfile : TestFile Flags Body) (flags : Flags)
    (fd : IrFunction Body × Details) (c : TestCommand) : Prop :=
  let context := fun isa flags =>
    callContext testfile.preambleComments fd.2 { flags, isa } true
  match c.command with
  | "run" => ∀ isa ∈ testfile.isaSpec.isas,
      TestRun.run tc fd.1 (context (some isa) isa.flags) = .ok ()
  | "compile" => ∃ compiled, tc.codegen fd.1 (buildBackend tc) = .ok compiled ∧
      lines compiled.disasm = expectedOutput fd.2.comments
  | "interpret" => TestInterpret.run tc fd.1 (context testfile.isaSpec.uniqueIsa flags) = .ok ()
  | _ => True

/-- The target that functions are verified for. -/
def TestFile.verifiedFor (testfile : TestFile Flags Body) (flags : Flags) :
    Option (FlagsOrIsa Flags) :=
  match testfile.commands with
  | [] => none
  | c :: _ =>
    if c.command = "run" then
      testfile.isaSpec.isas.head?.map fun isa => { flags := isa.flags, isa := some isa }
    else some { flags, isa := testfile.isaSpec.uniqueIsa }

/-- There is a subtest for every command whose options it takes. -/
lemma exists_newSubtest_iff (c : TestCommand) :
    (∃ st, newSubtest tc c = .ok st) ↔ c.Accepted := by
  have hoptions {name : String} (hname : c.command = name) :
      (∃ u, noOptions name c = .ok u) ↔ c.options = [] := by
    unfold noOptions
    rw [if_pos hname]
    by_cases h : c.options = [] <;> simp [h]
  have hcompile (test : TestCompile) (options : List TestOption) :
      (∃ test', TestCompile.parseOptions c test options = .ok test') ↔
        ∀ option ∈ options, option = .flag "precise-output" := by
    induction options generalizing test with
    | nil => simp [TestCompile.parseOptions]
    | cons option options ih =>
      rw [List.forall_mem_cons, TestCompile.parseOptions]
      by_cases h : option = .flag "precise-output"
      · rw [if_pos h, ih, and_iff_right h]
      · simp [h]
  unfold newSubtest TestCommand.Accepted
  split
  · rename_i h
    have hopts := hoptions h
    cases ho : noOptions "run" c with
    | ok u => simpa [TestRun.subtest, ho, h, bind, Except.bind, pure, Except.pure] using hopts
    | error f => simpa [TestRun.subtest, ho, h, bind, Except.bind] using hopts
  · rename_i h
    have hopts := hcompile { preciseOutput := false } c.options
    cases ho : TestCompile.parseOptions c { preciseOutput := false } c.options with
    | ok u => simpa [TestCompile.subtest, ho, h, bind, Except.bind, pure, Except.pure] using hopts
    | error f => simpa [TestCompile.subtest, ho, h, bind, Except.bind] using hopts
  · rename_i h
    have hopts := hoptions h
    cases ho : noOptions "interpret" c with
    | ok u => simpa [TestInterpret.subtest, ho, h, bind, Except.bind, pure, Except.pure] using hopts
    | error f => simpa [TestInterpret.subtest, ho, h, bind, Except.bind] using hopts
  · rename_i hrun hcompile hinterpret
    exact iff_of_true ⟨_, rfl⟩
      ⟨fun h => (h.elim hrun hinterpret).elim, fun h => (hcompile h).elim⟩

/-- An invocation that leaves the file alone has no fault when its subtest has none. -/
lemma fault?_call_iff {preambleComments : List Comment} {t : TestTuple Flags Body}
    {func : IrFunction Body} {details : Details} {verified : Bool} {o : Outcome Unit}
    (h : t.test.run func (callContext preambleComments details t.target verified) =
      liftOutcome o) :
    (t.call func details verified).fault? tc preambleComments = none ↔ o = .ok () := by
  rw [Event.fault?, TestTuple.call, perform, SubTest.run_runNamed, h]
  cases o with
  | ok u => exact iff_of_true rfl rfl
  | error f => exact iff_of_false (fun h => by cases h) fun h => by cases h

/-- A subtest that needs no target is run once. -/
lemma expand_once {isaSpec : IsaSpec Flags} {flags : Flags} {st : SubTest Flags Body}
    (h : st.needsIsa = false) :
    expand isaSpec flags st = [{ test := st, flags, isa := isaSpec.uniqueIsa }] := by
  simp [expand, h]

/-- The invocations that a command leads to all pass when the function passes the command. -/
lemma forall_expand_iff {testfile : TestFile Flags Body} {flags : Flags} {c : TestCommand}
    {st : SubTest Flags Body} (hst : newSubtest tc c = .ok st)
    (fd : IrFunction Body × Details) :
    (∀ t ∈ expand testfile.isaSpec flags st,
      (t.call fd.1 fd.2 true).update? tc = none ∧
        (t.call fd.1 fd.2 true).fault? tc testfile.preambleComments = none) ↔
      PassesCommand tc testfile flags fd c := by
  unfold PassesCommand
  dsimp only
  rcases newSubtest_cases tc hst with
    ⟨hc, rfl⟩ | ⟨hc, test, rfl⟩ | ⟨hc, rfl⟩ | ⟨⟨hrun, hcompile, hinterpret⟩, rfl⟩
  · have hexpand : expand testfile.isaSpec flags (TestRun.toSubTest tc) =
        testfile.isaSpec.isas.map fun isa =>
          { test := TestRun.toSubTest tc, flags := isa.flags, isa := some isa } := rfl
    rw [hexpand, List.forall_mem_map]
    simp only [hc]
    refine forall₂_congr fun isa _ => ?_
    rw [fault?_call_iff tc rfl, and_iff_right]
    · rfl
    · rfl
  · rw [expand_once rfl, List.forall_mem_singleton]
    simp only [hc]
    have hupdate {t : TestTuple Flags Body} (ht : t.test = test.toSubTest tc) :
        (t.call fd.1 fd.2 true).update? tc = mismatch? tc fd.1 fd.2 := by
      rw [TestTuple.call, ht]
      rfl
    rw [hupdate rfl]
    cases hcodegen : tc.codegen fd.1 (buildBackend tc) with
    | error e =>
      have hnone : mismatch? tc fd.1 fd.2 = none := by rw [mismatch?, hcodegen]
      rw [fault?_call_iff tc (TestCompile.run_of_no_mismatch tc test hnone), hcodegen]
      simp
    | ok compiled =>
      by_cases heq : lines compiled.disasm = expectedOutput fd.2.comments
      · have hnone : mismatch? tc fd.1 fd.2 = none := by
          simp only [mismatch?, hcodegen, heq, if_true]
        rw [fault?_call_iff tc (TestCompile.run_of_no_mismatch tc test hnone), hcodegen]
        simp [hnone, heq]
      · have hsome : mismatch? tc fd.1 fd.2 = some (lines compiled.disasm) := by
          simp only [mismatch?, hcodegen, heq, if_false]
        simp [hsome, heq]
  · rw [expand_once rfl, List.forall_mem_singleton]
    simp only [hc]
    rw [fault?_call_iff tc rfl, and_iff_right]
    · rfl
    · rfl
  · rw [expand_once rfl, List.forall_mem_singleton]
    refine iff_of_true ⟨rfl, rfl⟩ ?_
    split
    · exact absurd ‹_› hrun
    · exact absurd ‹_› hcompile
    · exact absurd ‹_› hinterpret
    · trivial

/-! ## The plan of a file -/

/-- Every subtest wants its functions verified, and none mutates them. -/
lemma key_newSubtest {c : TestCommand} {st : SubTest Flags Body} (h : newSubtest tc c = .ok st) :
    st.needsVerifier = true ∧ st.isMutating = false := by
  rcases newSubtest_cases tc h with ⟨-, rfl⟩ | ⟨-, test, rfl⟩ | ⟨-, rfl⟩ | ⟨-, rfl⟩ <;>
    exact ⟨rfl, rfl⟩

/-- Only `test run` needs a target. -/
lemma needsIsa_newSubtest {c : TestCommand} {st : SubTest Flags Body}
    (h : newSubtest tc c = .ok st) : st.needsIsa = true ↔ c.command = "run" := by
  rcases newSubtest_cases tc h with
    ⟨hc, rfl⟩ | ⟨hc, test, rfl⟩ | ⟨hc, rfl⟩ | ⟨⟨hc, -, -⟩, rfl⟩
  · exact iff_of_true rfl hc
  · exact iff_of_false nofun (by simp [hc])
  · exact iff_of_false nofun (by simp [hc])
  · exact iff_of_false nofun hc

/-- The subtests of a file are in the order of its commands. -/
lemma stableOrder_of_key {tests : List (SubTest Flags Body)}
    (h : ∀ st ∈ tests, st.needsVerifier = true ∧ st.isMutating = false) :
    stableOrder tests = tests := by
  have hall : ∀ st ∈ tests, (decide (st.isMutating = false) && decide (st.needsVerifier = true)) =
      true := fun st hst => by simp [h st hst]
  have hnone {p : SubTest Flags Body → Bool} (hp : ∀ st ∈ tests, p st = false) :
      tests.filter p = [] := List.filter_eq_nil_iff.mpr fun st hst => by simp [hp st hst]
  unfold stableOrder
  dsimp only
  rw [List.filter_eq_self.mpr hall, hnone fun st hst => by simp [h st hst],
    hnone fun st hst => by simp [h st hst], hnone fun st hst => by simp [h st hst]]
  simp

lemma exists_of_forall₂ {α β : Type} {R : α → β → Prop} {as : List α} {bs : List β}
    (h : List.Forall₂ R as bs) {a : α} (ha : a ∈ as) : ∃ b ∈ bs, R a b := by
  induction h with
  | nil => cases ha
  | cons hab _ ih =>
    rcases List.mem_cons.mp ha with rfl | ha
    · exact ⟨_, List.mem_cons_self, hab⟩
    · obtain ⟨b, hb, hr⟩ := ih ha
      exact ⟨b, List.mem_cons_of_mem _ hb, hr⟩

lemma mapM_newSubtest_iff {cs : List TestCommand} {tests : List (SubTest Flags Body)} :
    cs.mapM (newSubtest tc) = .ok tests ↔
      List.Forall₂ (fun c st => newSubtest tc c = .ok st) cs tests := by
  refine ⟨forall₂_newSubtest tc, fun h => ?_⟩
  induction h with
  | nil => rfl
  | cons hc _ ih =>
    rw [List.mapM_cons, hc, ih]
    rfl

/-- There is a plan exactly for a file with functions and commands, whose commands have the options
they take, and a target where one is needed. -/
def TestFile.Runnable (testfile : TestFile Flags Body) (flags : Flags) : Prop :=
  noIsaFlags testfile.isaSpec = .ok flags ∧ testfile.functions ≠ [] ∧ testfile.commands ≠ [] ∧
    ∀ c ∈ testfile.commands, c.Accepted ∧
      (c.command = "run" → ∃ isas, testfile.isaSpec = .some isas)

/-- The plan takes the commands in their order. -/
lemma plan_eq_ok_iff {testfile : TestFile Flags Body} {tuples : List (TestTuple Flags Body)} :
    plan tc testfile = .ok tuples ↔ ∃ flags tests, testfile.Runnable flags ∧
      List.Forall₂ (fun c st => newSubtest tc c = .ok st) testfile.commands tests ∧
      tuples = tests.flatMap (expand testfile.isaSpec flags) := by
  have horder {tests : List (SubTest Flags Body)}
      (h : List.Forall₂ (fun c st => newSubtest tc c = .ok st) testfile.commands tests) :
      stableOrder tests = tests := by
    refine stableOrder_of_key fun st hst => ?_
    obtain ⟨c, -, hc⟩ := exists_newSubtest tc ((mapM_newSubtest_iff tc).mpr h) hst
    exact key_newSubtest tc hc
  rw [plan]
  constructor
  · intro h
    split at h
    · cases h
    · rename_i hfunctions
      cases htests : testfile.commands.mapM (newSubtest tc) with
      | error f => simp [htests, bind, Except.bind] at h
      | ok tests =>
        have hplan : planTests testfile tests = .ok tuples := by
          simpa [htests, bind, Except.bind] using h
        have hforall := (mapM_newSubtest_iff tc).mp htests
        obtain ⟨flags, hflags, hne, hneeds, rfl⟩ := planTests_ok hplan
        refine ⟨flags, tests, ⟨hflags, by simpa using hfunctions, ?_, fun c hc => ?_⟩, hforall, ?_⟩
        · rintro hnil
          rw [hnil] at hforall
          cases hforall
          exact hne rfl
        · obtain ⟨st, hst, hcst⟩ := exists_of_forall₂ hforall hc
          exact ⟨(exists_newSubtest_iff tc c).mp ⟨st, hcst⟩,
            fun hrun => hneeds st hst ((needsIsa_newSubtest tc hcst).mpr hrun)⟩
        · rw [tuplesOf, horder hforall]
  · rintro ⟨flags, tests, ⟨hflags, hfunctions, hcommands, hall⟩, hforall, rfl⟩
    have hne : tests ≠ [] := by
      rintro rfl
      exact hcommands (List.forall₂_nil_right_iff.mp hforall)
    have hneeds : ∀ st ∈ tests, st.needsIsa → ∃ isas, testfile.isaSpec = .some isas := by
      intro st hst hn
      obtain ⟨c, hmem, hc⟩ := exists_newSubtest tc ((mapM_newSubtest_iff tc).mpr hforall) hst
      exact (hall c hmem).2 ((needsIsa_newSubtest tc hc).mp hn)
    have hplan := planTests_eq testfile hflags hne hneeds
    rw [tuplesOf, horder hforall] at hplan
    rw [if_neg (by simpa using hfunctions), (mapM_newSubtest_iff tc).mpr hforall]
    exact hplan

/-! ## A whole run -/

/-- The invocations on a function, when every subtest wants it verified. -/
lemma functionCalls_of_needsVerifier {t : TestTuple Flags Body} {ts : List (TestTuple Flags Body)}
    (h : ∀ t' ∈ t :: ts, t'.test.needsVerifier = true) (func : IrFunction Body)
    (details : Details) :
    functionCalls (t :: ts) func details =
      .verify func details t.target :: (t :: ts).map (·.call func details true) := by
  have hhead : t.test.needsVerifier = true := h t List.mem_cons_self
  simp [functionCalls, hhead]

/-- The first tuple has the target that functions are verified for. -/
lemma head?_tuples {testfile : TestFile Flags Body} {flags : Flags}
    (hrunnable : testfile.Runnable flags) {tests : List (SubTest Flags Body)}
    (htests : List.Forall₂ (fun c st => newSubtest tc c = .ok st) testfile.commands tests) :
    ∃ t ts, tests.flatMap (expand testfile.isaSpec flags) = t :: ts ∧
      testfile.verifiedFor flags = some t.target := by
  obtain ⟨hflags, -, hcommands, hall⟩ := hrunnable
  cases hcs : testfile.commands with
  | nil => exact absurd hcs hcommands
  | cons c cs =>
    rw [hcs] at htests hall
    cases htests with
    | cons hc hrest =>
      rename_i st sts
      have hneeds := needsIsa_newSubtest tc hc
      rw [List.flatMap_cons, TestFile.verifiedFor, hcs]
      by_cases hrun : c.command = "run"
      · obtain ⟨isas, hspec⟩ := (hall c List.mem_cons_self).2 hrun
        cases isas with
        | nil => exact absurd hspec (noIsaFlags_ne_nil hflags)
        | cons isa isas =>
          have hexpand : expand testfile.isaSpec flags st =
              (isa :: isas).map fun isa => { test := st, flags := isa.flags, isa := some isa } := by
            simp [expand, hneeds.mpr hrun, hspec, IsaSpec.isas]
          rw [hexpand]
          refine ⟨_, _, rfl, ?_⟩
          simp only [hrun, if_true, hspec, IsaSpec.isas]
          rfl
      · have honce : st.needsIsa = false := by
          rw [← Bool.not_eq_true]
          exact fun h => hrun (hneeds.mp h)
        rw [expand_once honce]
        refine ⟨_, _, rfl, ?_⟩
        simp only [hrun, if_false]
        rfl

lemma fault?_verify_iff {preambleComments : List Comment} (func : IrFunction Body)
    (details : Details) (target : FlagsOrIsa Flags) :
    (Event.verify func details target).fault? tc preambleComments = none ↔
      tc.verifyFunction func target = .ok () := by
  rw [Event.fault?, perform, verify]
  cases tc.verifyFunction func target with
  | ok u => exact iff_of_true rfl rfl
  | error m => exact iff_of_false (fun h => by cases h) fun h => by cases h

/-- The invocations of the commands on a function all pass when it passes the commands. -/
lemma forall_tuples_iff {testfile : TestFile Flags Body} {flags : Flags} {cs : List TestCommand}
    {tests : List (SubTest Flags Body)}
    (htests : List.Forall₂ (fun c st => newSubtest tc c = .ok st) cs tests)
    (fd : IrFunction Body × Details) :
    (∀ t ∈ tests.flatMap (expand testfile.isaSpec flags),
      (t.call fd.1 fd.2 true).update? tc = none ∧
        (t.call fd.1 fd.2 true).fault? tc testfile.preambleComments = none) ↔
      ∀ c ∈ cs, PassesCommand tc testfile flags fd c := by
  induction htests with
  | nil => simp
  | cons hc _ ih =>
    rw [List.flatMap_cons, List.forall_mem_append, List.forall_mem_cons,
      forall_expand_iff tc hc fd, ih]

/-- The invocations of a plan all pass when the functions pass the commands. -/
lemma forall_schedule_iff {testfile : TestFile Flags Body} {flags : Flags}
    (hrunnable : testfile.Runnable flags) {tests : List (SubTest Flags Body)}
    (htests : List.Forall₂ (fun c st => newSubtest tc c = .ok st) testfile.commands tests) :
    (∀ e ∈ schedule (tests.flatMap (expand testfile.isaSpec flags)) testfile.functions,
      e.update? tc = none ∧ e.fault? tc testfile.preambleComments = none) ↔
    ∀ fd ∈ testfile.functions,
      (∀ target ∈ testfile.verifiedFor flags, tc.verifyFunction fd.1 target = .ok ()) ∧
        ∀ c ∈ testfile.commands, PassesCommand tc testfile flags fd c := by
  obtain ⟨t, ts, htuples, hverified⟩ := head?_tuples tc hrunnable htests
  have hneeds : ∀ t' ∈ t :: ts, t'.test.needsVerifier = true := by
    intro t' ht'
    rw [← htuples, List.mem_flatMap] at ht'
    obtain ⟨st, hst, ht'⟩ := ht'
    obtain ⟨c, -, hc⟩ := exists_newSubtest tc ((mapM_newSubtest_iff tc).mpr htests) hst
    rw [test_of_mem_expand ht']
    exact (key_newSubtest tc hc).1
  simp only [schedule, List.forall_mem_flatMap]
  refine forall₂_congr fun fd _ => ?_
  rw [htuples, functionCalls_of_needsVerifier hneeds, List.forall_mem_cons, List.forall_mem_map,
    ← forall_tuples_iff tc htests fd, htuples, hverified, fault?_verify_iff]
  simp [Event.update?]

/-- There is a subtest for each command of a file that can be run. -/
lemma TestFile.Runnable.exists_tests {testfile : TestFile Flags Body} {flags : Flags}
    (h : testfile.Runnable flags) : ∃ tests : List (SubTest Flags Body),
      List.Forall₂ (fun c st => newSubtest tc c = .ok st) testfile.commands tests := by
  obtain ⟨-, -, -, hall⟩ := h
  generalize testfile.commands = cs at hall
  induction cs with
  | nil => exact ⟨[], .nil⟩
  | cons c cs ih =>
    rw [List.forall_mem_cons] at hall
    obtain ⟨st, hst⟩ := (exists_newSubtest_iff tc c).mpr hall.1.1
    obtain ⟨sts, hsts⟩ := ih hall.2
    exact ⟨st :: sts, .cons hst hsts⟩

/-- The run ended well, and none of its invocations updated the file. -/
def Passes (result : EStateM.Result Fault (RunState Flags Body) Unit) : Prop :=
  Replay.fault? result = none ∧ ∀ e ∈ (finalState result).trace, e.update? tc = none

section
variable {options : ParseOptions} {w : World}

/-- The run of a file that can be read passes exactly when the file can be run and none of the
invocations planned for it has a fault or updates the file. -/
lemma passes_iff_of_parse {testfile : TestFile Flags Body}
    (hparse : tc.parseTest w.disk options = .ok testfile) :
    Passes tc ((run tc options).run { world := w, trace := [] }) ↔
      ∃ flags tests, testfile.Runnable flags ∧
        List.Forall₂ (fun c st => newSubtest tc c = .ok st) testfile.commands tests ∧
        ∀ e ∈ schedule (tests.flatMap (expand testfile.isaSpec flags)) testfile.functions,
          e.update? tc = none ∧ e.fault? tc testfile.preambleComments = none := by
  rw [run_of_parse tc (s := { world := w, trace := [] }) hparse, runTestFile_eq_plan, Passes]
  cases hplan : plan tc testfile with
  | error f =>
    refine iff_of_false (fun h => nomatch h.1) ?_
    rintro ⟨flags, tests, hrunnable, htests, -⟩
    have hok := (plan_eq_ok_iff tc).mpr ⟨flags, tests, hrunnable, htests, rfl⟩
    rw [hplan] at hok
    cases hok
  | ok tuples =>
    have hknown := plan_known tc hplan
    let es := schedule tuples testfile.functions
    let pc := testfile.preambleComments
    have hok : ∀ e ∈ es, e.update? tc = none → e.fault? tc pc = none →
        ∀ v, (perform tc pc e).run v = .ok () v := by
      intro e he hup hfault v
      rw [perform_of_pure tc pc (of_mem_schedule tc hknown he) hup, hfault]
    have herror : ∀ e ∈ es, e.update? tc = none → ∀ f, e.fault? tc pc = some f →
        ∀ v, (perform tc pc e).run v = .error f v := by
      intro e he hup f hfault v
      rw [perform_of_pure tc pc (of_mem_schedule tc hknown he) hup, hfault]
    have hplay := play_ok_iff hok herror
      ({ world := w, trace := [] } : RunState Flags Body).start.world
    simp only [finalState_after, fault?_after, RunState.start, List.nil_append] at hplay ⊢
    rw [hplay]
    constructor
    · intro h
      obtain ⟨flags, tests, hrunnable, htests, rfl⟩ := (plan_eq_ok_iff tc).mp hplan
      exact ⟨flags, tests, hrunnable, htests, h⟩
    · rintro ⟨flags, tests, hrunnable, htests, h⟩
      have hplan' := (plan_eq_ok_iff tc).mpr ⟨flags, tests, hrunnable, htests, rfl⟩
      obtain rfl := Except.ok.inj (hplan.symm.trans hplan')
      exact h

/-- A run passes when the file is skipped, or is read as one whose run passes. -/
lemma passes_iff_exists {P : TestFile Flags Body → Prop}
    (h : ∀ testfile, tc.parseTest w.disk options = .ok testfile →
      (Passes tc ((run tc options).run { world := w, trace := [] }) ↔ P testfile)) :
    Passes tc ((run tc options).run { world := w, trace := [] }) ↔
      Skipped tc options w.disk ∨
        ∃ testfile, tc.parseTest w.disk options = .ok testfile ∧ P testfile := by
  cases hparse : tc.parseTest w.disk options with
  | ok testfile =>
    have hskipped : ¬ Skipped tc options w.disk := by
      rintro ⟨e, he, -⟩
      rw [hparse] at he
      cases he
    rw [h testfile hparse, or_iff_right hskipped]
    simp
  | error e =>
    rw [run_of_parse_error tc (s := { world := w, trace := [] }) hparse, Passes]
    by_cases hwarning : e.isWarning
    · rw [if_pos hwarning]
      exact iff_of_true ⟨rfl, fun e he => by cases he⟩ (Or.inl ⟨e, hparse, hwarning⟩)
    · rw [if_neg hwarning]
      refine iff_of_false (fun h => by cases h.1) ?_
      rintro (⟨e', he', hwarning'⟩ | ⟨testfile, hok, -⟩)
      · obtain rfl := Except.error.inj (hparse.symm.trans he')
        exact hwarning hwarning'
      · cases hok

/-- **When a test file passes.**  A run passes without updating the file exactly when the reader
wants the file skipped, or the file can be run, the verifier accepts each function for the target of
the first command, and each function passes each command by itself. -/
theorem passes_iff :
    Passes tc ((run tc options).run { world := w, trace := [] }) ↔
      Skipped tc options w.disk ∨
      ∃ testfile, tc.parseTest w.disk options = .ok testfile ∧
        ∃ flags, testfile.Runnable flags ∧ ∀ fd ∈ testfile.functions,
          (∀ target ∈ testfile.verifiedFor flags, tc.verifyFunction fd.1 target = .ok ()) ∧
            ∀ c ∈ testfile.commands, PassesCommand tc testfile flags fd c := by
  refine passes_iff_exists tc fun testfile hparse => ?_
  refine (passes_iff_of_parse tc hparse).trans (exists_congr fun flags => ?_)
  constructor
  · rintro ⟨tests, hrunnable, htests, h⟩
    exact ⟨hrunnable, (forall_schedule_iff tc hrunnable htests).mp h⟩
  · rintro ⟨hrunnable, h⟩
    obtain ⟨tests, htests⟩ := hrunnable.exists_tests tc
    exact ⟨tests, hrunnable, htests, (forall_schedule_iff tc hrunnable htests).mpr h⟩

end

end CiRunner
