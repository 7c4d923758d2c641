import CiRunner.Reading
import CiRunner.Schedule

/-!
# What a run invokes, and what was verified before

Two facts about every run, for arbitrary subtests, targets, functions and verifier.

`runTests_follows_schedule` compares the invocations with the reference: they are those of the
schedule, cut off right after the first that fails.  What it is for an invocation to succeed or to
fail is said in terms of the verifier and of the subtest alone (`Event.Succeeds`, `Event.Fails`).

`verified_before_test` is about the single `verified` flag that all tuples of a function share.
When a subtest that needs the verifier is invoked, the function has passed the verifier, but for
the target of the *first* tuple that needed it.  That is the target of the subtest itself as
long as the file names at most one.
-/

namespace CiRunner

open TextLines StableSort Replay

variable {Flags Body : Type}

/-! ## The invocations -/

lemma finalState_after {α : Type} (s : RunState Flags Body)
    (p : List (Event Flags Body) × EStateM.Result Fault World Unit) (a : α) :
    finalState (s.after p a) = { world := finalState p.2, trace := s.trace ++ p.1 } := by
  obtain ⟨es, r⟩ := p
  cases r <;> rfl

lemma fault?_after {α : Type} (s : RunState Flags Body)
    (p : List (Event Flags Body) × EStateM.Result Fault World Unit) (a : α) :
    fault? (s.after p a) = fault? p.2 := by
  obtain ⟨es, r⟩ := p
  cases r <;> rfl

section
variable (tc : Toolchain Flags Body) (preambleComments : List Comment)

/-- The invocation succeeds: the verifier accepts the function, or the subtest ends well. -/
def Event.Succeeds (w w' : World) : Event Flags Body → Prop
  | .verify func _ target => tc.verifyFunction func target = .ok () ∧ w' = w
  | .test st func details target verified =>
    (st.run func (callContext preambleComments details target verified)).run w = .ok () w'

/-- The invocation fails with a fault: the verifier rejects the function, or the subtest fails, in
which case its error is put in the context of its name. -/
def Event.Fails (w : World) (f : Fault) (w' : World) : Event Flags Body → Prop
  | .verify func _ target =>
    ∃ errors, tc.verifyFunction func target = .error errors ∧
      f = .err (.verifier errors) ∧ w' = w
  | .test st func details target verified =>
    ∃ cause, (st.run func (callContext preambleComments details target verified)).run w =
      .error cause w' ∧ f = cause.withContext st.name

/-- The invocations succeed one after the other. -/
def Succeed : List (Event Flags Body) → World → World → Prop
  | [], w, w' => w' = w
  | e :: es, w, w'' => ∃ w', e.Succeeds tc preambleComments w w' ∧ Succeed es w' w''

variable {tc preambleComments} {e : Event Flags Body} {w w' : World} {f : Fault}

lemma perform_ok_iff :
    (perform tc preambleComments e).run w = .ok () w' ↔ e.Succeeds tc preambleComments w w' := by
  cases e with
  | verify func details target =>
    cases hv : tc.verifyFunction func target with
    | error m => simp [perform, verify, hv, Event.Succeeds]
    | ok u => simp [perform, verify, hv, Event.Succeeds, eq_comm]
  | test test func details target verified =>
    simp only [perform, SubTest.run_runNamed, Event.Succeeds]
    cases (test.run func (callContext preambleComments details target verified)).run w <;> simp

lemma perform_error_iff :
    (perform tc preambleComments e).run w = .error f w' ↔ e.Fails tc preambleComments w f w' := by
  cases e with
  | verify func details target =>
    cases hv : tc.verifyFunction func target with
    | error m => simp [perform, verify, hv, Event.Fails, eq_comm]
    | ok u => simp [perform, verify, hv, Event.Fails]
  | test test func details target verified =>
    simp only [perform, SubTest.run_runNamed, Event.Fails]
    cases h : (test.run func (callContext preambleComments details target verified)).run w with
    | ok u w'' => simp
    | error cause w'' =>
      simp only [EStateM.Result.error.injEq]
      constructor
      · rintro ⟨rfl, rfl⟩
        exact ⟨cause, ⟨rfl, rfl⟩, rfl⟩
      · rintro ⟨_, ⟨rfl, rfl⟩, rfl⟩
        exact ⟨rfl, rfl⟩

/-- Invocations that are played to their end have all succeeded. -/
lemma succeed_of_play {es : List (Event Flags Body)}
    (h : play (perform tc preambleComments) es w = (es, .ok () w')) :
    Succeed tc preambleComments es w w' := by
  induction es generalizing w with
  | nil =>
    have hw := congrArg Prod.snd h
    simp only [play, EStateM.Result.ok.injEq, true_and] at hw
    exact hw.symm
  | cons e es ih =>
    rcases step_cases (perform tc preambleComments) e w with ⟨t, ht⟩ | ⟨f, t, ht⟩
    · rw [play_cons_of_ok ht, Prod.mk.injEq, List.cons.injEq] at h
      exact ⟨t, perform_ok_iff.mp ht, ih (Prod.ext h.1.2 h.2)⟩
    · rw [play_cons_of_error ht] at h
      cases congrArg Prod.snd h

variable (tc)

/-- The flags of a file for subtests without a target: those of its `set` lines, or those of its
last target. -/
def IsaSpec.HasDefaultFlags (isaSpec : IsaSpec Flags) (flags : Flags) : Prop :=
  match isaSpec with
  | .none f => f = flags
  | .some isas => ∃ isa, isas.getLast? = Option.some isa ∧ isa.flags = flags

/-- **Scheduling loses, duplicates and reorders nothing.**  Without a subtest, or without a target
for a subtest that needs one, a run returns an error and invokes nothing.  Otherwise its
invocations are those of the schedule: all of them, when every one succeeds, and else those up
to and including the first that fails, with whose fault the run ends. -/
theorem runTests_follows_schedule (testfile : TestFile Flags Body)
    (hspec : testfile.isaSpec ≠ .some []) (tests : List (SubTest Flags Body))
    (s : RunState Flags Body) :
    ((tests = [] ∨ ∃ f, testfile.isaSpec = .none f ∧ ∃ t ∈ tests, t.needsIsa) →
      ∃ e, (runTests tc testfile tests).run s = .error (.err e) s) ∧
    (¬ (tests = [] ∨ ∃ f, testfile.isaSpec = .none f ∧ ∃ t ∈ tests, t.needsIsa) →
      ∃ flags, testfile.isaSpec.HasDefaultFlags flags ∧
        let calls := schedule (tuplesOf testfile.isaSpec flags tests) testfile.functions
        let w₀ : World := { s.world with fileUpdate := FileUpdate.new }
        (∃ w, Succeed tc testfile.preambleComments calls w₀ w ∧
          (runTests tc testfile tests).run s = .ok () { world := w, trace := s.trace ++ calls }) ∨
        ∃ before e after t f w, calls = before ++ e :: after ∧
          Succeed tc testfile.preambleComments before w₀ t ∧
          e.Fails tc testfile.preambleComments t f w ∧
          (runTests tc testfile tests).run s =
            .error f { world := w, trace := s.trace ++ (before ++ [e]) }) := by
  obtain ⟨flags, hflags⟩ := exists_noIsaFlags hspec
  have hdefault : testfile.isaSpec.HasDefaultFlags flags := by
    cases hs : testfile.isaSpec with
    | none f =>
      rw [hs] at hflags
      exact Except.ok.inj hflags
    | some isas =>
      rw [hs, noIsaFlags] at hflags
      cases hlast : isas.getLast? with
      | none => simp [hlast] at hflags
      | some isa => exact ⟨isa, hlast, by simpa [hlast] using hflags⟩
  refine ⟨fun h => ?_, fun h => ⟨flags, hdefault, ?_⟩⟩
  · obtain ⟨e, he⟩ := planTests_error testfile hflags h
    exact ⟨e, by rw [runTests_eq_plan, he]⟩
  · push Not at h
    have hneeds : ∀ t ∈ tests, t.needsIsa → ∃ isas, testfile.isaSpec = .some isas := by
      intro t ht hn
      cases hs : testfile.isaSpec with
      | none f => exact absurd hn (by simpa using h.2 f hs t ht)
      | some isas => exact ⟨isas, rfl⟩
    have hplan := planTests_eq testfile hflags h.1 hneeds
    have hrun := runTests_eq_plan tc testfile tests s
    rw [hplan] at hrun
    simp only at hrun
    rcases play_ends (perform tc testfile.preambleComments)
      (schedule (tuplesOf testfile.isaSpec flags tests) testfile.functions) s.start.world with
      ⟨w, hplay⟩ | ⟨before, e, after, t, f, w, hcalls, hbefore, he, hplay⟩
    · refine Or.inl ⟨w, succeed_of_play hplay, ?_⟩
      rw [hrun, hplay]
      rfl
    · refine Or.inr ⟨before, e, after, t, f, w, hcalls, succeed_of_play hbefore,
        perform_error_iff.mp he, ?_⟩
      rw [hrun, hplay]
      rfl

/-- A file with these `test` lines and functions, and two targets with different settings. -/
def twoTargets (tests : List String) (names : List Char) : Layout where
  preamble := tests.map String.toList ++ ["set opt_level=speed".toList, "target riscv64gc".toList,
    "set enable_simd=true".toList, "target aarch64".toList]
  blocks := names.map fun name => Block.returning name [] Block.trailer_nil

def TestFile.twoTargets (tests : List String) (names : List Char) : TestFile Settings Unit :=
  readTest (unlines (CiRunner.twoTargets tests names).lines)

/-- The targets of the file. -/
def TargetIsa.riscv64gc : TargetIsa Settings :=
  { TargetIsa.sample with flags := ["opt_level=speed".toList] }

def TargetIsa.aarch64 : TargetIsa Settings :=
  { TargetIsa.sample with
    name := "aarch64", flags := ["opt_level=speed".toList, "enable_simd=true".toList] }

/-- A target, as the verifier gets it. -/
def FlagsOrIsa.ofIsa (isa : TargetIsa Settings) : FlagsOrIsa Settings where
  flags := isa.flags
  isa := some isa

/-- What a subtest that needs no target is given. -/
def FlagsOrIsa.noIsa : FlagsOrIsa Settings where
  flags := TargetIsa.aarch64.flags
  isa := none

/-- The details of a function without comments. -/
def Details.atLine (line : ℕ) : Details where
  location := { lineNumber := line }
  comments := []

/-- A subtest that does nothing. -/
def SubTest.probe (name : String) (isMutating needsVerifier needsIsa : Bool) :
    SubTest Settings Unit where
  name := name
  isMutating := isMutating
  needsVerifier := needsVerifier
  needsIsa := needsIsa
  run _ _ := pure ()

/-- Four of them, out of order. -/
def SubTest.probes : List (SubTest Settings Unit) :=
  [.probe "legalize" true true true, .probe "run" false true true, .probe "cat" false false false,
    .probe "domtree" false true false]

/-- A file with these subtests and three functions. -/
def TestFile.probing : TestFile Settings Unit :=
  .twoTargets ["test legalize", "test run", "test cat", "test domtree"] ['f', 'g', 'h']

lemma probing_eq : TestFile.probing =
    { commands := [{ command := "legalize" }, { command := "run" }, { command := "cat" },
        { command := "domtree" }]
      isaSpec := .some [.riscv64gc, .aarch64]
      preambleComments := []
      functions := [(IrFunction.sample 'f', .atLine 9), (IrFunction.sample 'g', .atLine 13),
        (IrFunction.sample 'h', .atLine 17)] } := by
  rfl

/-- The start of a run, on a file that is not looked at. -/
def RunState.sample : RunState Settings Unit where
  world := { disk := [], fileUpdate := FileUpdate.new }
  trace := []

/-- The invocations on a function that the verifier accepts: it is verified once, for the first
target. -/
def probeCalls (func : IrFunction Unit) (details : Details) : List (Event Settings Unit) :=
  [.test (.probe "cat" false false false) func details .noIsa false,
    .verify func details (.ofIsa .riscv64gc),
    .test (.probe "run" false true true) func details (.ofIsa .riscv64gc) true,
    .test (.probe "run" false true true) func details (.ofIsa .aarch64) true,
    .test (.probe "domtree" false true false) func details .noIsa true,
    .test (.probe "legalize" true true true) func details (.ofIsa .riscv64gc) true,
    .test (.probe "legalize" true true true) func details (.ofIsa .aarch64) true]

lemma plan_probing : planTests .probing SubTest.probes =
    .ok (tuplesOf (.some [.riscv64gc, .aarch64]) FlagsOrIsa.noIsa.flags SubTest.probes) :=
  planTests_eq .probing (by rw [probing_eq]; rfl) (by simp [SubTest.probes]) fun _ _ _ => by
    rw [probing_eq]
    exact ⟨_, rfl⟩

/-- A run on this file plays its schedule. -/
lemma runTests_probing (tc : Toolchain Settings Unit) :
    (runTests tc .probing SubTest.probes).run RunState.sample =
      RunState.sample.after (play (perform tc [])
        (probeCalls (IrFunction.sample 'f') (.atLine 9) ++
          (probeCalls (IrFunction.sample 'g') (.atLine 13) ++
            probeCalls (IrFunction.sample 'h') (.atLine 17))) RunState.sample.world) () := by
  rw [runTests_eq_plan, plan_probing, probing_eq]
  rfl

/-- A verifier that rejects `%g`. -/
def Toolchain.rejecting : Toolchain Settings Unit :=
  { Toolchain.sample with
    verifyFunction := fun func _ =>
      if func.name = .testcase ['g'] then .error "no terminator" else .ok () }

/-- A verifier that accepts nothing but the first target. -/
def Toolchain.oneTarget : Toolchain Settings Unit :=
  { Toolchain.sample with
    verifyFunction := fun _ target =>
      if target.isa = some .riscv64gc then .ok () else .error "not for this target" }

/-- All invocations on `%f` succeed, and the run ends with the verification of `%g`. -/
theorem runTests_follows_schedule_rejecting :
    let before := probeCalls (IrFunction.sample 'f') (.atLine 9) ++
      [.test (.probe "cat" false false false) (IrFunction.sample 'g') (.atLine 13) .noIsa false]
    let e := Event.verify (IrFunction.sample 'g') (.atLine 13) (.ofIsa .riscv64gc)
    ∃ t w, Succeed Toolchain.rejecting [] before RunState.sample.world t ∧
      e.Fails Toolchain.rejecting [] t (.err (.verifier "no terminator")) w ∧
      (runTests Toolchain.rejecting .probing SubTest.probes).run RunState.sample =
        .error (.err (.verifier "no terminator")) { world := w, trace := before ++ [e] } := by
  intro before e
  have hrun : (runTests Toolchain.rejecting .probing SubTest.probes).run RunState.sample =
      .error (.err (.verifier "no terminator"))
        { world := RunState.sample.world, trace := before ++ [e] } := by
    rw [runTests_probing]
    rfl
  have hspec : TestFile.probing.isaSpec = .some [.riscv64gc, .aarch64] := by rw [probing_eq]
  have hneeds : ¬ (SubTest.probes = [] ∨
      ∃ f, TestFile.probing.isaSpec = .none f ∧ ∃ t ∈ SubTest.probes, t.needsIsa) := by
    rw [hspec]
    rintro (h | ⟨f, h, -⟩) <;> cases h
  obtain ⟨flags, -, ⟨w, -, hok⟩ | ⟨before', e', after, t, f, w, -, hbefore, he, herror⟩⟩ :=
    (runTests_follows_schedule Toolchain.rejecting .probing (by rw [hspec]; simp) SubTest.probes
      RunState.sample).2 hneeds
  · rw [hrun] at hok
    cases hok
  · have hsame := hrun.symm.trans herror
    rw [EStateM.Result.error.injEq, RunState.mk.injEq] at hsame
    obtain ⟨rfl, rfl, htrace⟩ := hsame
    have htrace : before ++ [e] = before' ++ [e'] := htrace
    obtain ⟨rfl, he'⟩ := List.append_inj' htrace rfl
    obtain rfl : e = e' := (List.cons.inj he').1
    rw [show TestFile.probing.preambleComments = [] by rw [probing_eq]] at hbefore he
    exact ⟨t, _, hbefore, he, hrun⟩

/-! ## The verified flag -/

/-- The calls on a function, by whether a tuple needs the verifier. -/
lemma functionCalls_cases (tuples : List (TestTuple Flags Body)) (func : IrFunction Body)
    (details : Details) :
    ((∀ t ∈ tuples, t.test.needsVerifier = false) ∧
      functionCalls tuples func details = tuples.map (·.call func details false)) ∨
    ∃ before first after, tuples = before ++ first :: after ∧
      (∀ t ∈ before, t.test.needsVerifier = false) ∧ first.test.needsVerifier = true ∧
      functionCalls tuples func details = before.map (·.call func details false) ++
        .verify func details first.target :: (first :: after).map (·.call func details true) := by
  induction tuples with
  | nil => exact Or.inl ⟨by simp, rfl⟩
  | cons t ts ih =>
    by_cases hneeds : t.test.needsVerifier
    · refine Or.inr ⟨[], t, ts, rfl, by simp, hneeds, ?_⟩
      simp [functionCalls, hneeds]
    · have hcons : functionCalls (t :: ts) func details =
          t.call func details false :: functionCalls ts func details := by
        simp [functionCalls, hneeds]
      have ht : t.test.needsVerifier = false := by simpa using hneeds
      rcases ih with ⟨hall, hcalls⟩ | ⟨before, first, after, rfl, hbefore, hfirst, hcalls⟩
      · exact Or.inl ⟨by simpa [ht] using hall, by rw [hcons, hcalls, List.map_cons]⟩
      · refine Or.inr ⟨t :: before, first, after, rfl, by simpa [ht] using hbefore, hfirst, ?_⟩
        rw [hcons, hcalls]
        rfl

/-- A call of a subtest among those of some tuples is the call of one of them. -/
lemma exists_of_mem_map_call {ts : List (TestTuple Flags Body)} {func f : IrFunction Body}
    {details d : Details} {st : SubTest Flags Body} {target : FlagsOrIsa Flags} {v verified : Bool}
    (h : .test st f d target v ∈ ts.map (·.call func details verified)) :
    f = func ∧ d = details ∧ ∃ t ∈ ts, st = t.test ∧ target = t.target := by
  obtain ⟨t, ht, he⟩ := List.mem_map.mp h
  simp only [TestTuple.call, Event.test.injEq] at he
  obtain ⟨rfl, rfl, rfl, rfl, -⟩ := he
  exact ⟨rfl, rfl, t, ht, rfl, rfl⟩

/-- In front of the call of a subtest that needs the verifier there is, among the calls on the
same function, one of the verifier for the first tuple that needs it. -/
lemma functionCalls_verify_before {tuples : List (TestTuple Flags Body)}
    {func f : IrFunction Body} {details d : Details} {st : SubTest Flags Body}
    {target : FlagsOrIsa Flags} {v : Bool} {c₁ c₂ : List (Event Flags Body)}
    (h : functionCalls tuples func details = c₁ ++ .test st f d target v :: c₂)
    (hneeds : st.needsVerifier = true) :
    f = func ∧ d = details ∧ (∃ t ∈ tuples, st = t.test ∧ target = t.target) ∧
      ∃ first, tuples.find? (fun t => t.test.needsVerifier) = some first ∧
        ∃ pre mid, c₁ = pre ++ .verify func details first.target :: mid ∧
          ∀ e ∈ mid, ∃ t : TestTuple Flags Body, e = t.call func details true := by
  have hmem : (.test st f d target v : Event Flags Body) ∈ functionCalls tuples func details := by
    rw [h]
    simp
  rcases functionCalls_cases tuples func details with
    ⟨hall, hcalls⟩ | ⟨before, first, after, rfl, hbefore, hfirst, hcalls⟩
  · rw [hcalls] at hmem
    obtain ⟨-, -, t, ht, rfl, -⟩ := exists_of_mem_map_call hmem
    exact absurd hneeds (by simp [hall t ht])
  · have hfind : (before ++ first :: after).find? (fun t => t.test.needsVerifier) = some first := by
      rw [List.find?_append, List.find?_eq_none.mpr (by simpa using hbefore)]
      simp [hfirst]
    rw [h, List.append_eq_append_iff] at hcalls
    -- the call stands behind the verifier: those in front of it do not need it
    have hbehind : ∃ mid, c₁ = before.map (·.call func details false) ++
        .verify func details first.target :: mid ∧
        mid ++ .test st f d target v :: c₂ = (first :: after).map (·.call func details true) := by
      rcases hcalls with ⟨as, has, hrest⟩ | ⟨cs, hcs, hrest⟩
      · cases as with
        | nil => simp at hrest
        | cons a as =>
          have ha : (.test st f d target v : Event Flags Body) ∈
              before.map (·.call func details false) := by
            obtain ⟨rfl, -⟩ : .test st f d target v = a ∧ _ := by simpa using hrest
            rw [has]
            simp
          obtain ⟨-, -, t, ht, rfl, -⟩ := exists_of_mem_map_call ha
          exact absurd hneeds (by simp [hbefore t ht])
      · cases cs with
        | nil => simp at hrest
        | cons c cs =>
          obtain ⟨rfl, hcs'⟩ : .verify func details first.target = c ∧
              (first :: after).map (·.call func details true) =
                cs ++ .test st f d target v :: c₂ := by simpa using hrest
          exact ⟨cs, hcs, hcs'.symm⟩
    obtain ⟨mid, hc₁, hmid⟩ := hbehind
    have hcall : (.test st f d target v : Event Flags Body) ∈
        (first :: after).map (·.call func details true) := by
      rw [← hmid]
      simp
    obtain ⟨rfl, rfl, t, ht, rfl, rfl⟩ := exists_of_mem_map_call hcall
    refine ⟨rfl, rfl, ⟨t, List.mem_append_right before ht, rfl, rfl⟩, first, hfind, _, mid, hc₁, ?_⟩
    intro e hemid
    obtain ⟨t', -, rfl⟩ := List.mem_map.mp (hmid ▸ List.mem_append_left _ hemid)
    exact ⟨t', rfl⟩

/-- **The verifier comes first.**  Whenever a run invokes a subtest that needs the verifier, the
verifier has accepted the function, with nothing but subtests of the same function invoked in
between.  It did so for the target of the first tuple that needs it; with at most one target in
the file, that is the target the subtest is invoked with. -/
theorem verified_before_test (testfile : TestFile Flags Body) (tests : List (SubTest Flags Body))
    {s : RunState Flags Body} {pre post : List (Event Flags Body)} {st : SubTest Flags Body}
    {func : IrFunction Body} {details : Details} {target : FlagsOrIsa Flags} {verified : Bool}
    (htrace : (finalState ((runTests tc testfile tests).run s)).trace =
      s.trace ++ (pre ++ .test st func details target verified :: post))
    (hneeds : st.needsVerifier = true) :
    ∃ tuples first, planTests testfile tests = .ok tuples ∧
      tuples.find? (fun t => t.test.needsVerifier) = some first ∧
      tc.verifyFunction func first.target = .ok () ∧
      (testfile.isaSpec.isas.length ≤ 1 → first.target = target) ∧
      ∃ pre₁ mid, pre = pre₁ ++ .verify func details first.target :: mid ∧
        ∀ e ∈ mid, ∃ t : TestTuple Flags Body, e = t.call func details true := by
  rw [runTests_eq_plan] at htrace
  cases hplan : planTests testfile tests with
  | error f => simp [hplan] at htrace
  | ok tuples =>
    rw [hplan] at htrace
    simp only [finalState_after] at htrace
    have hplay := List.append_cancel_left htrace
    -- the trace is a prefix of the schedule, and the call one of the calls on its function
    obtain ⟨rest, hrest⟩ := executed_initial (perform tc testfile.preambleComments)
      (schedule tuples testfile.functions) s.start.world
    rw [hplay, List.append_assoc, List.cons_append] at hrest
    obtain ⟨fs₁, ⟨f, d⟩, fs₂, c₁, c₂, -, hcalls, hpre⟩ := flatMap_eq_append_cons hrest.symm
    obtain ⟨rfl, rfl, ⟨t, ht, -, rfl⟩, first, hfirst, pre₀, mid, hc₁, hmid⟩ :=
      functionCalls_verify_before hcalls hneeds
    have hpre' : pre = (schedule tuples fs₁ ++ pre₀) ++
        .verify func details first.target :: mid := by
      rw [hpre, hc₁, List.append_assoc]
      rfl
    refine ⟨tuples, first, rfl, hfirst, ?_, fun hone => ?_, _, mid, hpre', hmid⟩
    · obtain ⟨e', post', hpost⟩ : ∃ e' post', mid ++ .test st func details t.target verified ::
          post = e' :: post' := by
        cases mid with
        | nil => exact ⟨_, _, rfl⟩
        | cons e mid => exact ⟨_, _, rfl⟩
      rw [hpre', List.append_assoc, List.cons_append, hpost] at hplay
      obtain ⟨_, _, -, hstep⟩ := step_ok_of_executed hplay
      exact (perform_ok_iff.mp hstep).1
    · obtain ⟨flags, hflags, -, -, rfl⟩ := planTests_ok hplan
      rw [target_of_mem_tuplesOf hflags hone ht,
        target_of_mem_tuplesOf hflags hone (List.mem_of_find?_eq_some hfirst)]

/-- With a verifier that accepts `riscv64gc` only, the second `legalize` on `%g` is preceded by the
verification of `%g`, for the other target. -/
theorem verified_before_test_oneTarget :
    let pre := probeCalls (IrFunction.sample 'f') (.atLine 9) ++
      (probeCalls (IrFunction.sample 'g') (.atLine 13)).dropLast
    ∃ pre₁ mid, pre = pre₁ ++
        .verify (IrFunction.sample 'g') (.atLine 13) (.ofIsa .riscv64gc) :: mid ∧
      (∀ e ∈ mid, ∃ t : TestTuple Settings Unit,
        e = t.call (IrFunction.sample 'g') (.atLine 13) true) ∧
      Toolchain.oneTarget.verifyFunction (IrFunction.sample 'g') (.ofIsa .riscv64gc) = .ok () := by
  intro pre
  have htrace : (finalState ((runTests Toolchain.oneTarget .probing SubTest.probes).run
      RunState.sample)).trace = RunState.sample.trace ++ (pre ++
        .test (.probe "legalize" true true true) (IrFunction.sample 'g') (.atLine 13)
          (.ofIsa .aarch64) true :: probeCalls (IrFunction.sample 'h') (.atLine 17)) := by
    rw [runTests_probing]
    rfl
  obtain ⟨tuples, first, hplan, hfirst, hverified, -, pre₁, mid, hpre, hmid⟩ :=
    verified_before_test Toolchain.oneTarget .probing SubTest.probes htrace rfl
  obtain rfl := Except.ok.inj (hplan.symm.trans plan_probing)
  obtain rfl := Option.some.inj (hfirst.symm.trans
    (rfl : _ = some (⟨.probe "run" false true true, _, some .riscv64gc⟩ : TestTuple Settings Unit)))
  exact ⟨pre₁, mid, hpre, hmid, hverified⟩

/-- With two targets `test run` runs for the second one too, which the verifier was never called
with and rejects. -/
theorem runs_on_unverified_target :
    let testfile := TestFile.twoTargets ["test run"] ['f']
    ∃ (run : SubTest Settings Unit) (w : World),
      (runTestFile Toolchain.oneTarget testfile).run RunState.sample =
        .ok () { world := w, trace := [
          .verify (IrFunction.sample 'f') (.atLine 6) (.ofIsa .riscv64gc),
          .test run (IrFunction.sample 'f') (.atLine 6) (.ofIsa .riscv64gc) true,
          .test run (IrFunction.sample 'f') (.atLine 6) (.ofIsa .aarch64) true] } ∧
      run.needsVerifier = true ∧
      Toolchain.oneTarget.verifyFunction (IrFunction.sample 'f') (.ofIsa .aarch64) =
        .error "not for this target" := by
  intro testfile
  have hread : testfile =
      { commands := [{ command := "run" }]
        isaSpec := .some [.riscv64gc, .aarch64]
        preambleComments := []
        functions := [(IrFunction.sample 'f', .atLine 6)] } := by
    rfl
  rw [hread]
  exact ⟨_, _, rfl, rfl, rfl⟩

end

end CiRunner
