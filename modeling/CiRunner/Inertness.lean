import CiRunner.Verification

/-!
# Unsupported commands (`TestSkip` in `main.rs`)

A command the runner does not know becomes a `TestSkip`, which does nothing.  It does not say
that it needs no verifier either, so it takes the trait's default and the verifier is run in
front of it.  `unsupported_inert_iff` says exactly when this shows.

The subtests of a test file agree in the sort key, so a file and the file without its
unsupported commands run the same subtests in the same order, the skips apart
(`plan_dropUnsupported`).  What is left to compare is the target of the one call of the
verifier on each function: it is that of the first tuple, and the first tuple may be a skip's.
-/

namespace CiRunner

open TextLines StableSort Replay

variable {Flags Body : Type}

/-! ## What is compared -/

/-- A command `new_subtest` knows. -/
def TestCommand.isSupported (c : TestCommand) : Bool :=
  c.command = "run" || c.command = "compile" || c.command = "interpret"

/-- The test file without its unsupported commands. -/
def TestFile.dropUnsupported (testfile : TestFile Flags Body) : TestFile Flags Body :=
  { testfile with commands := testfile.commands.filter TestCommand.isSupported }

/-- How a run ended. -/
inductive Verdict
  | ok
  | err
  | panic (p : Panic)
  deriving DecidableEq, Repr

def verdict {σ α : Type} : EStateM.Result Fault σ α → Verdict
  | .ok _ _ => .ok
  | .error (.err _) _ => .err
  | .error (.panic p) _ => .panic p

/-- Is this the subtest of a supported command? -/
def SubTest.isReal (st : SubTest Flags Body) : Bool := st.name ≠ "false test"

/-- Is this an execution of a supported command? -/
def Event.isExecution : Event Flags Body → Bool
  | .verify .. => false
  | .test st .. => st.isReal

/-- Two runs end alike and execute the same supported commands, on the same functions and
targets, in the same order. -/
def SameRuns (r r' : EStateM.Result Fault (RunState Flags Body) Unit) : Prop :=
  verdict r = verdict r' ∧
    (finalState r).trace.filter Event.isExecution = (finalState r').trace.filter Event.isExecution

lemma verdict_after (s : RunState Flags Body)
    (p : List (Event Flags Body) × EStateM.Result Fault World Unit) :
    verdict (s.after p ()) = verdict p.2 := by
  obtain ⟨es, r⟩ := p
  rcases r with ⟨u, w⟩ | ⟨f | p, w⟩ <;> rfl

/-! ## The subtests of a file -/

section
variable (tc : Toolchain Flags Body)

/-- What a command's subtest says of itself. -/
lemma newSubtest_ok {c : TestCommand} {st : SubTest Flags Body} (h : newSubtest tc c = .ok st) :
    st.isMutating = false ∧ st.needsVerifier = true ∧ (st.needsIsa = decide (c.command = "run")) ∧
      st.isReal = c.isSupported := by
  rcases newSubtest_cases tc h with
    ⟨hc, rfl⟩ | ⟨hc, test, rfl⟩ | ⟨hc, rfl⟩ | ⟨⟨hrun, hcompile, hinterpret⟩, rfl⟩
  · simp [SubTest.isReal, TestCommand.isSupported, TestRun.toSubTest, hc]
  · simp [SubTest.isReal, TestCommand.isSupported, TestCompile.toSubTest, hc]
  · simp [SubTest.isReal, TestCommand.isSupported, TestInterpret.toSubTest, hc]
  · simp [SubTest.isReal, TestCommand.isSupported, testSkip, hrun, hcompile, hinterpret]

lemma newSubtest_of_unsupported {c : TestCommand} (h : c.isSupported = false) :
    newSubtest tc c = .ok testSkip := by
  simp only [TestCommand.isSupported, Bool.or_eq_false_iff, decide_eq_false_iff_not] at h
  unfold newSubtest
  split
  · exact absurd ‹_› h.1.1
  · exact absurd ‹_› h.1.2
  · exact absurd ‹_› h.2
  · rfl

/-- The subtests of the supported commands. -/
lemma mapM_newSubtest_filter (cs : List TestCommand) :
    (cs.filter TestCommand.isSupported).mapM (newSubtest tc) =
      (cs.mapM (newSubtest tc)).map (·.filter SubTest.isReal) := by
  induction cs with
  | nil => rfl
  | cons c cs ih =>
    by_cases hc : c.isSupported
    · rw [List.filter_cons_of_pos hc, List.mapM_cons, List.mapM_cons, ih]
      cases hst : newSubtest tc c with
      | error f => rfl
      | ok st =>
        have hreal : st.isReal = true := (newSubtest_ok tc hst).2.2.2.trans hc
        cases cs.mapM (newSubtest tc) with
        | error f => rfl
        | ok sts => simp [bind, Except.bind, Except.map, pure, Except.pure, hreal]
    · have hc' : c.isSupported = false := by simpa using hc
      have hskip : (testSkip : SubTest Flags Body).isReal = false := by
        simp [SubTest.isReal, testSkip]
      rw [List.filter_cons_of_neg hc, List.mapM_cons, newSubtest_of_unsupported tc hc', ih]
      cases cs.mapM (newSubtest tc) with
      | error f => rfl
      | ok sts => simp [bind, Except.bind, Except.map, pure, Except.pure, hskip]

/-- What all subtests of a file have in common. -/
lemma of_mem_tests {cs : List TestCommand} {tests : List (SubTest Flags Body)}
    (h : cs.mapM (newSubtest tc) = .ok tests) {st : SubTest Flags Body} (hst : st ∈ tests) :
    st.isMutating = false ∧ st.needsVerifier = true ∧ (st.isReal = false → st = testSkip) := by
  obtain ⟨c, -, hc⟩ := exists_newSubtest tc h hst
  obtain ⟨hmut, hver, -, hreal⟩ := newSubtest_ok tc hc
  refine ⟨hmut, hver, fun hn => ?_⟩
  rw [newSubtest_of_unsupported tc (hreal.symm.trans hn)] at hc
  exact (Except.ok.inj hc).symm

end

/-! ## The plan without the skips -/

/-- Subtests that agree in the sort key keep their order. -/
lemma stableOrder_of_forall {tests : List (SubTest Flags Body)}
    (h : ∀ st ∈ tests, st.isMutating = false ∧ st.needsVerifier = true) :
    stableOrder tests = tests := by
  rw [← sortByKey_sortKey]
  exact sortByKey_of_forall_eq sortKey (k := toLex (false, true)) fun st hst => by
    simp [sortKey, h st hst]

lemma filter_expand (isaSpec : IsaSpec Flags) (flags : Flags) (st : SubTest Flags Body) :
    (expand isaSpec flags st).filter (fun t => t.test.isReal) =
      if st.isReal then expand isaSpec flags st else [] := by
  have htest : ∀ t ∈ expand isaSpec flags st, t.test = st := fun t ht => test_of_mem_expand ht
  split
  · rename_i hreal
    exact List.filter_eq_self.mpr fun t ht => by rw [htest t ht, hreal]
  · rename_i hreal
    exact List.filter_eq_nil_iff.mpr fun t ht => by rw [htest t ht]; exact hreal

/-- Leaving subtests out leaves their tuples out. -/
lemma tuplesOf_filter (isaSpec : IsaSpec Flags) (flags : Flags)
    {tests : List (SubTest Flags Body)}
    (h : ∀ st ∈ tests, st.isMutating = false ∧ st.needsVerifier = true) :
    tuplesOf isaSpec flags (tests.filter SubTest.isReal) =
      (tuplesOf isaSpec flags tests).filter fun t => t.test.isReal := by
  rw [tuplesOf, tuplesOf, stableOrder_of_forall h,
    stableOrder_of_forall fun st hst => h st (List.mem_of_mem_filter hst), List.filter_flatMap]
  simp only [filter_expand]
  clear h
  induction tests with
  | nil => rfl
  | cons st tests ih =>
    by_cases hreal : st.isReal
    · simp [hreal, ih]
    · simp [hreal, ih]

/-! ## One call of the verifier on each function -/

/-- The calls on the functions, where each is verified for `first`. -/
def callsAfter (first : FlagsOrIsa Flags) (tuples : List (TestTuple Flags Body))
    (functions : List (IrFunction Body × Details)) : List (Event Flags Body) :=
  functions.flatMap fun fd =>
    .verify fd.1 fd.2 first :: tuples.map (·.call fd.1 fd.2 true)

/-- When the first tuple needs the verifier, the verifier is called for its target. -/
lemma schedule_eq_callsAfter {t : TestTuple Flags Body} (ht : t.test.needsVerifier = true)
    (ts : List (TestTuple Flags Body)) (functions : List (IrFunction Body × Details)) :
    schedule (t :: ts) functions = callsAfter t.target (t :: ts) functions := by
  apply List.flatMap_congr
  intro fd _
  simp [functionCalls, ht]

/-- Is this a call of the verifier or an execution? -/
def Event.isCounted : Event Flags Body → Bool
  | .verify .. => true
  | .test st .. => st.isReal

lemma callsAfter_filter (first : FlagsOrIsa Flags) (tuples : List (TestTuple Flags Body))
    (functions : List (IrFunction Body × Details)) :
    (callsAfter first tuples functions).filter Event.isCounted =
      callsAfter first (tuples.filter fun t => t.test.isReal) functions := by
  rw [callsAfter, callsAfter, List.filter_flatMap]
  apply List.flatMap_congr
  intro fd _
  rw [List.filter_cons_of_pos (by rfl), List.filter_map]
  rfl

/-- Two plays end alike with the same executions. -/
def SamePlays (p p' : List (Event Flags Body) × EStateM.Result Fault World Unit) : Prop :=
  verdict p.2 = verdict p'.2 ∧ p.1.filter Event.isExecution = p'.1.filter Event.isExecution

lemma sameRuns_after (s : RunState Flags Body)
    (p p' : List (Event Flags Body) × EStateM.Result Fault World Unit) :
    SameRuns (s.after p ()) (s.after p' ()) ↔ SamePlays p p' := by
  rw [SameRuns, SamePlays, verdict_after, verdict_after, finalState_after, finalState_after]
  simp only [List.filter_append, List.append_cancel_left_eq]

section
variable (tc : Toolchain Flags Body) (preambleComments : List Comment)

/-- The skips do not show. -/
lemma samePlays_filter (first : FlagsOrIsa Flags) {tuples : List (TestTuple Flags Body)}
    (hskip : ∀ t ∈ tuples, t.test.isReal = false → t.test = testSkip)
    (functions : List (IrFunction Body × Details)) (w : World) :
    SamePlays (play (perform tc preambleComments) (callsAfter first tuples functions) w)
      (play (perform tc preambleComments)
        (callsAfter first (tuples.filter fun t => t.test.isReal) functions) w) := by
  rw [← callsAfter_filter, play_filter]
  · refine ⟨rfl, ?_⟩
    rw [List.filter_filter]
    apply List.filter_congr
    intro e _
    cases e <;> simp [Event.isExecution, Event.isCounted]
  · intro e he hcount w
    obtain ⟨fd, -, he⟩ := List.mem_flatMap.mp he
    rcases List.mem_cons.mp he with rfl | he
    · cases hcount
    · obtain ⟨t, ht, rfl⟩ := List.mem_map.mp he
      simp only [TestTuple.call, Event.isCounted] at hcount ⊢
      rw [hskip t ht hcount]
      rfl

lemma perform_verify_of_isOk {func : IrFunction Body} {details : Details}
    {target : FlagsOrIsa Flags} (h : (tc.verifyFunction func target).isOk = true) (w : World) :
    (perform tc preambleComments (.verify func details target)).run w = .ok () w := by
  cases hv : tc.verifyFunction func target with
  | error m => simp [hv, Except.isOk, Except.toBool] at h
  | ok u => simp [perform, verify, hv]

lemma perform_verify_of_not_isOk {func : IrFunction Body} {d : Details}
    {target : FlagsOrIsa Flags} (h : (tc.verifyFunction func target).isOk = false) (w : World) :
    ∃ m, (perform tc preambleComments (.verify func d target)).run w =
      .error (.err (.verifier m)) w := by
  cases hv : tc.verifyFunction func target with
  | error m => exact ⟨m, by simp [perform, verify, hv]⟩
  | ok u => simp [hv, Except.isOk, Except.toBool] at h

variable {first : FlagsOrIsa Flags} (tuples : List (TestTuple Flags Body))
  {fd : IrFunction Body × Details} {w : World}

/-- A rejected function ends the run before anything is executed. -/
lemma play_callsAfter_of_reject (h : (tc.verifyFunction fd.1 first).isOk = false)
    (functions : List (IrFunction Body × Details)) :
    ∃ m, play (perform tc preambleComments) (callsAfter first tuples (fd :: functions)) w =
      ([.verify fd.1 fd.2 first], .error (.err (.verifier m)) w) := by
  obtain ⟨m, hm⟩ := perform_verify_of_not_isOk tc preambleComments (d := fd.2) h w
  exact ⟨m, play_cons_of_error hm⟩

/-- A failing subtest ends the run. -/
lemma play_callsAfter_of_error (h : (tc.verifyFunction fd.1 first).isOk = true) {f : Fault}
    {w' : World} (hcalls : (play (perform tc preambleComments)
      (tuples.map (·.call fd.1 fd.2 true)) w).2 = .error f w')
    (functions : List (IrFunction Body × Details)) :
    play (perform tc preambleComments) (callsAfter first tuples (fd :: functions)) w =
      (.verify fd.1 fd.2 first :: (play (perform tc preambleComments)
        (tuples.map (·.call fd.1 fd.2 true)) w).1, .error f w') := by
  rw [callsAfter, List.flatMap_cons, List.cons_append,
    play_cons_of_ok (perform_verify_of_isOk tc preambleComments h w), play_append_of_error hcalls,
    hcalls]

/-- A function that passes hands on to the next. -/
lemma play_callsAfter_of_ok (h : (tc.verifyFunction fd.1 first).isOk = true) {u : World}
    (hcalls : (play (perform tc preambleComments)
      (tuples.map (·.call fd.1 fd.2 true)) w).2 = .ok () u)
    (functions : List (IrFunction Body × Details)) :
    play (perform tc preambleComments) (callsAfter first tuples (fd :: functions)) w =
      (.verify fd.1 fd.2 first :: (tuples.map (·.call fd.1 fd.2 true) ++
        (play (perform tc preambleComments) (callsAfter first tuples functions) u).1),
        (play (perform tc preambleComments) (callsAfter first tuples functions) u).2) := by
  rw [callsAfter, List.flatMap_cons, List.cons_append,
    play_cons_of_ok (perform_verify_of_isOk tc preambleComments h w), play_append_of_ok hcalls]
  rfl

/-- A run that gets past the verifier executes something. -/
lemma executions_ne_nil (h : (tc.verifyFunction fd.1 first).isOk = true) (hne : tuples ≠ [])
    (hreal : ∀ t ∈ tuples, t.test.isReal) (functions : List (IrFunction Body × Details)) :
    (play (perform tc preambleComments) (callsAfter first tuples (fd :: functions)) w).1.filter
      Event.isExecution ≠ [] := by
  obtain ⟨t, ts, rfl⟩ := List.exists_cons_of_ne_nil hne
  have hexec : Event.isExecution (t.call fd.1 fd.2 true) = true := hreal t (by simp)
  refine List.ne_nil_of_mem (a := t.call fd.1 fd.2 true) (List.mem_filter.mpr ⟨?_, hexec⟩)
  rw [callsAfter, List.flatMap_cons, List.cons_append,
    play_cons_of_ok (perform_verify_of_isOk tc preambleComments h w), List.map_cons,
    List.cons_append]
  rcases step_cases (perform tc preambleComments) (t.call fd.1 fd.2 true) w with
    ⟨w', hw⟩ | ⟨f, w', hw⟩
  · rw [play_cons_of_ok hw]
    simp
  · rw [play_cons_of_error hw]
    simp

/-- The verifier judges a function alike for two targets. -/
def Agrees (tc : Toolchain Flags Body) (a b : FlagsOrIsa Flags) (func : IrFunction Body) : Prop :=
  (tc.verifyFunction func a).isOk = (tc.verifyFunction func b).isOk

/-- **For which target a function is verified** makes no difference exactly when the verifier
agrees on the two targets for every function that is reached. -/
theorem samePlays_iff (a b : FlagsOrIsa Flags) (hne : tuples ≠ [])
    (hreal : ∀ t ∈ tuples, t.test.isReal) (functions : List (IrFunction Body × Details))
    (w : World) :
    SamePlays (play (perform tc preambleComments) (callsAfter a tuples functions) w)
        (play (perform tc preambleComments) (callsAfter b tuples functions) w) ↔
      ∀ pre fd post w', functions = pre ++ fd :: post →
        (play (perform tc preambleComments) (callsAfter b tuples pre) w).2 = .ok () w' →
        Agrees tc a b fd.1 := by
  induction functions generalizing w with
  | nil => simp [SamePlays, callsAfter]
  | cons fd fs ih =>
    let calls := fun fd : IrFunction Body × Details =>
      Event.verify fd.1 fd.2 b :: tuples.map (·.call fd.1 fd.2 true)
    refine Iff.trans ?_ (forall_reached_cons (perform tc preambleComments) calls
      (fun fd => Agrees tc a b fd.1) fd fs w).symm
    cases ha : (tc.verifyFunction fd.1 a).isOk <;> cases hb : (tc.verifyFunction fd.1 b).isOk
    · -- both reject the first function
      obtain ⟨m, hm⟩ := play_callsAfter_of_reject tc preambleComments tuples (w := w) ha fs
      obtain ⟨m', hm'⟩ := play_callsAfter_of_reject tc preambleComments tuples (w := w) hb fs
      rw [hm, hm']
      refine iff_of_true ⟨rfl, rfl⟩ ⟨ha.trans hb.symm, fun t ht => ?_⟩
      obtain ⟨m'', hm''⟩ := perform_verify_of_not_isOk tc preambleComments (d := fd.2) hb w
      rw [play_cons_of_error hm''] at ht
      cases ht
    · -- only the second target passes, and something is executed for it
      obtain ⟨m, hm⟩ := play_callsAfter_of_reject tc preambleComments tuples (w := w) ha fs
      refine iff_of_false (fun h => ?_) fun h => ?_
      · exact executions_ne_nil tc preambleComments tuples hb hne hreal fs (by rw [← h.2, hm]; rfl)
      · have hagree := ha.symm.trans (h.1.trans hb)
        cases hagree
    · obtain ⟨m, hm⟩ := play_callsAfter_of_reject tc preambleComments tuples (w := w) hb fs
      refine iff_of_false (fun h => ?_) fun h => ?_
      · exact executions_ne_nil tc preambleComments tuples ha hne hreal fs (by rw [h.2, hm]; rfl)
      · have hagree := ha.symm.trans (h.1.trans hb)
        cases hagree
    · have hagree : Agrees tc a b fd.1 := ha.trans hb.symm
      have hcalls : (play (perform tc preambleComments) (calls fd) w).2 =
          (play (perform tc preambleComments) (tuples.map (·.call fd.1 fd.2 true)) w).2 := by
        rw [play_cons_of_ok (perform_verify_of_isOk tc preambleComments hb w)]
      rw [hcalls]
      rcases play_cases (perform tc preambleComments)
        (tuples.map (·.call fd.1 fd.2 true)) w with ⟨w₁, hw⟩ | ⟨f, w₁, hw⟩
      · -- both pass it and go on with the next function
        rw [play_callsAfter_of_ok tc preambleComments tuples ha hw,
          play_callsAfter_of_ok tc preambleComments tuples hb hw, hw]
        have hrest : SamePlays
            (.verify fd.1 fd.2 a :: (tuples.map (·.call fd.1 fd.2 true) ++
              (play (perform tc preambleComments) (callsAfter a tuples fs) w₁).1),
              (play (perform tc preambleComments) (callsAfter a tuples fs) w₁).2)
            (.verify fd.1 fd.2 b :: (tuples.map (·.call fd.1 fd.2 true) ++
              (play (perform tc preambleComments) (callsAfter b tuples fs) w₁).1),
              (play (perform tc preambleComments) (callsAfter b tuples fs) w₁).2) ↔
            SamePlays (play (perform tc preambleComments) (callsAfter a tuples fs) w₁)
              (play (perform tc preambleComments) (callsAfter b tuples fs) w₁) := by
          simp [SamePlays, Event.isExecution]
        rw [hrest, ih w₁]
        refine ⟨fun h => ⟨hagree, fun t ht => ?_⟩, fun h => h.2 w₁ rfl⟩
        obtain rfl : w₁ = t := by simpa using ht
        exact h
      · -- both end the run at it
        rw [play_callsAfter_of_error tc preambleComments tuples ha hw,
          play_callsAfter_of_error tc preambleComments tuples hb hw, hw]
        exact iff_of_true ⟨rfl, rfl⟩ ⟨hagree, fun t ht => by cases ht⟩

end

/-! ## Whole files -/

section
variable (tc : Toolchain Flags Body)

/-- The target the first of the commands is run for. -/
def firstTarget (isaSpec : IsaSpec Flags) (flags : Flags) (commands : List TestCommand) :
    FlagsOrIsa Flags :=
  match commands.head?, isaSpec.isas.head? with
  | some c, some isa =>
    if c.command = "run" then { flags := isa.flags, isa := some isa }
    else { flags, isa := isaSpec.uniqueIsa }
  | _, _ => { flags, isa := isaSpec.uniqueIsa }

/-- A command other than `run` is run for no particular target. -/
lemma firstTarget_of_ne_run (isaSpec : IsaSpec Flags) (flags : Flags) {c : TestCommand}
    (hc : c.command ≠ "run") (cs : List TestCommand) :
    firstTarget isaSpec flags (c :: cs) = { flags, isa := isaSpec.uniqueIsa } := by
  cases h : isaSpec.isas.head? <;> simp [firstTarget, h, hc]

/-- With at most one target there is nothing to choose. -/
lemma firstTarget_of_le_one {isaSpec : IsaSpec Flags} {flags : Flags}
    (hflags : noIsaFlags isaSpec = .ok flags) (hone : isaSpec.isas.length ≤ 1)
    (cs : List TestCommand) :
    firstTarget isaSpec flags cs = { flags, isa := isaSpec.uniqueIsa } := by
  cases isaSpec with
  | none f => cases cs <;> rfl
  | some isas =>
    match isas, hone with
    | [], _ => cases cs <;> rfl
    | [isa], _ =>
      obtain rfl : isa.flags = flags := by simpa [noIsaFlags] using hflags
      cases cs <;> simp [firstTarget, IsaSpec.isas, IsaSpec.uniqueIsa]

/-- The first tuple has the first target. -/
lemma head?_tuplesOf {isaSpec : IsaSpec Flags} (flags : Flags)
    {cs : List TestCommand} {tests : List (SubTest Flags Body)} (hspec : isaSpec ≠ .some [])
    (htests : cs.mapM (newSubtest tc) = .ok tests) (hne : tests ≠ [])
    (hneeds : ∀ t ∈ tests, t.needsIsa → ∃ isas, isaSpec = .some isas) :
    (tuplesOf isaSpec flags tests).head?.map TestTuple.target =
      some (firstTarget isaSpec flags cs) := by
  have horder : stableOrder tests = tests :=
    stableOrder_of_forall fun st hst =>
      ⟨(of_mem_tests tc htests hst).1, (of_mem_tests tc htests hst).2.1⟩
  rw [tuplesOf, horder]
  cases forall₂_newSubtest tc htests with
  | nil => exact absurd rfl hne
  | @cons c st cs tests hc _ =>
    have hisa : st.needsIsa = decide (c.command = "run") := (newSubtest_ok tc hc).2.2.1
    by_cases hrun : c.command = "run"
    · have hst : st.needsIsa = true := by simp [hisa, hrun]
      obtain ⟨isas, rfl⟩ := hneeds st (by simp) hst
      have hisas : isas ≠ [] := fun h => hspec (by rw [h])
      obtain ⟨isa, isas, rfl⟩ := List.exists_cons_of_ne_nil hisas
      simp [expand, hst, IsaSpec.isas, firstTarget, hrun, TestTuple.target]
    · have hst : st.needsIsa = false := by simp [hisa, hrun]
      rw [firstTarget_of_ne_run isaSpec flags hrun]
      simp [expand, hst, TestTuple.target]

/-- A supported command leaves a subtest. -/
lemma tests_ne_nil {cs : List TestCommand} {tests : List (SubTest Flags Body)}
    (htests : (cs.filter TestCommand.isSupported).mapM (newSubtest tc) = .ok tests)
    (hsupported : ∃ c ∈ cs, c.isSupported = true) : tests ≠ [] := by
  rintro rfl
  obtain ⟨c, hc, hsup⟩ := hsupported
  have hmem : c ∈ cs.filter TestCommand.isSupported := List.mem_filter.mpr ⟨hc, hsup⟩
  have hnil : cs.filter TestCommand.isSupported = [] :=
    List.length_eq_zero_iff.mp (forall₂_newSubtest tc htests).length_eq
  rw [hnil] at hmem
  cases hmem

/-- The skips among the tests do not decide whether there is a plan, if there is another test. -/
lemma planTests_filter_isReal {testfile : TestFile Flags Body} {flags : Flags}
    (hflags : noIsaFlags testfile.isaSpec = .ok flags) {tests : List (SubTest Flags Body)}
    (hskip : ∀ st ∈ tests, st.isReal = false → st = testSkip)
    (hne : tests.filter SubTest.isReal ≠ []) :
    (∃ e e', planTests testfile tests = .error (.err e) ∧
      planTests testfile (tests.filter SubTest.isReal) = .error (.err e')) ∨
    (∀ t ∈ tests, t.needsIsa → ∃ isas, testfile.isaSpec = .some isas) ∧
      planTests testfile tests = .ok (tuplesOf testfile.isaSpec flags tests) ∧
      planTests testfile (tests.filter SubTest.isReal) =
        .ok (tuplesOf testfile.isaSpec flags (tests.filter SubTest.isReal)) := by
  by_cases hbad : ∃ f, testfile.isaSpec = .none f ∧ ∃ t ∈ tests, t.needsIsa = true
  · obtain ⟨f, hspec, t, ht, hn⟩ := hbad
    have hreal : t.isReal = true := by
      by_contra hfalse
      rw [hskip t ht (by simpa using hfalse)] at hn
      cases hn
    obtain ⟨e, he⟩ := planTests_error testfile hflags (Or.inr ⟨f, hspec, t, ht, hn⟩)
    obtain ⟨e', he'⟩ := planTests_error testfile hflags
      (Or.inr ⟨f, hspec, t, List.mem_filter.mpr ⟨ht, hreal⟩, hn⟩)
    exact Or.inl ⟨e, e', he, he'⟩
  · have hneeds : ∀ t ∈ tests, t.needsIsa → ∃ isas, testfile.isaSpec = .some isas := by
      intro t ht hn
      cases hs : testfile.isaSpec with
      | none f => exact absurd ⟨f, hs, t, ht, hn⟩ hbad
      | some isas => exact ⟨isas, rfl⟩
    have hneeds' := fun t ht => hneeds t (List.mem_of_mem_filter (p := SubTest.isReal) ht)
    have hne' : tests ≠ [] := fun h => hne (by rw [h]; rfl)
    exact Or.inr ⟨hneeds, planTests_eq testfile hflags hne' hneeds,
      planTests_eq testfile hflags hne hneeds'⟩

/-- **The plan without the skips.**  Of a file with a supported command and of the file without
its unsupported ones, either neither has a plan, or the second has the plan of the first
without the skips. -/
lemma plan_dropUnsupported {testfile : TestFile Flags Body} {flags : Flags}
    (hflags : noIsaFlags testfile.isaSpec = .ok flags) (hfunctions : testfile.functions ≠ [])
    (hsupported : ∃ c ∈ testfile.commands, c.isSupported = true) :
    (∃ f f', plan tc testfile = .error f ∧ plan tc testfile.dropUnsupported = .error f' ∧
      (f = f' ∨ ∃ e e', f = .err e ∧ f' = .err e')) ∨
    ∃ tests : List (SubTest Flags Body), (∀ st ∈ tests, st.isMutating = false ∧
        st.needsVerifier = true ∧ (st.isReal = false → st = testSkip)) ∧
      plan tc testfile = .ok (tuplesOf testfile.isaSpec flags tests) ∧
      plan tc testfile.dropUnsupported =
        .ok (tuplesOf testfile.isaSpec flags (tests.filter SubTest.isReal)) ∧
      (tuplesOf testfile.isaSpec flags tests).head?.map TestTuple.target =
        some (firstTarget testfile.isaSpec flags testfile.commands) ∧
      (tuplesOf testfile.isaSpec flags (tests.filter SubTest.isReal)).head?.map
          TestTuple.target =
        some (firstTarget testfile.isaSpec flags testfile.dropUnsupported.commands) := by
  have hempty : testfile.functions.isEmpty = false := by simpa using hfunctions
  have hplan : plan tc testfile =
      testfile.commands.mapM (newSubtest tc) >>= planTests testfile := by
    rw [plan, hempty]
    rfl
  have hplan' : plan tc testfile.dropUnsupported =
      (testfile.commands.mapM (newSubtest tc)).map (·.filter SubTest.isReal) >>=
        planTests testfile := by
    rw [← mapM_newSubtest_filter]
    have : testfile.dropUnsupported.functions.isEmpty = false := hempty
    rw [plan, this]
    rfl
  cases htests : testfile.commands.mapM (newSubtest tc) with
  | error f =>
    rw [htests] at hplan hplan'
    exact Or.inl ⟨f, f, hplan, hplan', Or.inl rfl⟩
  | ok tests =>
    rw [htests] at hplan hplan'
    have htests' : testfile.dropUnsupported.commands.mapM (newSubtest tc) =
        .ok (tests.filter SubTest.isReal) := by
      rw [TestFile.dropUnsupported, mapM_newSubtest_filter, htests]
      rfl
    change _ = planTests testfile tests at hplan
    change _ = planTests testfile (tests.filter SubTest.isReal) at hplan'
    have hmem : ∀ st ∈ tests, st.isMutating = false ∧ st.needsVerifier = true ∧
        (st.isReal = false → st = testSkip) := fun st hst => of_mem_tests tc htests hst
    have hne : tests.filter SubTest.isReal ≠ [] := tests_ne_nil tc htests' hsupported
    rcases planTests_filter_isReal hflags (fun st hst => (hmem st hst).2.2) hne with
      ⟨e, e', he, he'⟩ | ⟨hneeds, he, he'⟩
    · exact Or.inl ⟨_, _, hplan.trans he, hplan'.trans he', Or.inr ⟨e, e', rfl, rfl⟩⟩
    · have hneeds' := fun t ht => hneeds t (List.mem_of_mem_filter (p := SubTest.isReal) ht)
      have hne' : tests ≠ [] := fun h => hne (by rw [h]; rfl)
      have hspec := noIsaFlags_ne_nil hflags
      exact Or.inr ⟨tests, hmem, hplan.trans he, hplan'.trans he',
        head?_tuplesOf tc flags hspec htests hne' hneeds,
        head?_tuplesOf tc flags hspec htests' hne hneeds'⟩

/-- The skips of a file and a verifier call that passes have no effect. -/
lemma verdict_callsAfter_nil (preambleComments : List Comment) (first : FlagsOrIsa Flags)
    (functions : List (IrFunction Body × Details)) (w : World) :
    verdict (play (perform tc preambleComments) (callsAfter first [] functions) w).2 ≠ .err ↔
      ∀ fd ∈ functions, (tc.verifyFunction fd.1 first).isOk = true := by
  induction functions with
  | nil => simp [callsAfter, verdict]
  | cons fd fs ih =>
    rw [List.forall_mem_cons]
    cases h : (tc.verifyFunction fd.1 first).isOk
    · obtain ⟨m, hm⟩ := play_callsAfter_of_reject tc preambleComments [] (w := w) h fs
      simp [hm, verdict]
    · rw [play_callsAfter_of_ok tc preambleComments [] h (u := w) rfl]
      simpa using ih

/-- When no command is supported, all subtests are skips. -/
lemma exists_skips {cs : List TestCommand} (h : ∀ c ∈ cs, c.isSupported = false) :
    ∃ skips : List (SubTest Flags Body), cs.mapM (newSubtest tc) = .ok skips ∧
      (∀ st ∈ skips, st = testSkip) ∧ (skips = [] ↔ cs = []) := by
  induction cs with
  | nil => exact ⟨[], rfl, by simp, by simp⟩
  | cons c cs ih =>
    obtain ⟨skips, hskips, hall, -⟩ := ih fun c' hc' => h c' (List.mem_cons_of_mem _ hc')
    refine ⟨testSkip :: skips, ?_, by simpa using hall, by simp⟩
    rw [List.mapM_cons, newSubtest_of_unsupported tc (h c (by simp)), hskips]
    rfl

/-- The calls of a schedule, by the target of the first tuple. -/
lemma schedule_eq_of_head? {tuples : List (TestTuple Flags Body)} {first : FlagsOrIsa Flags}
    (hver : ∀ t ∈ tuples, t.test.needsVerifier = true)
    (hhead : tuples.head?.map TestTuple.target = some first)
    (functions : List (IrFunction Body × Details)) :
    schedule tuples functions = callsAfter first tuples functions := by
  cases tuples with
  | nil => simp at hhead
  | cons t ts =>
    obtain rfl : t.target = first := by simpa using hhead
    exact schedule_eq_callsAfter (hver t (by simp)) ts functions

/-- A file of skips only is not an error exactly when it has a skip at all and the verifier
accepts every function. -/
lemma verdict_of_unsupported {testfile : TestFile Flags Body} {flags : Flags}
    (hflags : noIsaFlags testfile.isaSpec = .ok flags) (hfunctions : testfile.functions ≠ [])
    (hall : ∀ c ∈ testfile.commands, c.isSupported = false) (s : RunState Flags Body) :
    verdict ((runTestFile tc testfile).run s) ≠ .err ↔
      testfile.commands ≠ [] ∧ ∀ fd ∈ testfile.functions,
        (tc.verifyFunction fd.1 { flags, isa := testfile.isaSpec.uniqueIsa }).isOk = true := by
  obtain ⟨skips, htests, hskips, hnil⟩ := exists_skips tc hall
  have hempty : testfile.functions.isEmpty = false := by simpa using hfunctions
  have hplan : plan tc testfile = planTests testfile skips := by
    rw [plan, hempty, htests]
    rfl
  rw [runTestFile_eq_plan, hplan]
  by_cases hne : skips = []
  · obtain ⟨e, he⟩ := planTests_error testfile hflags (Or.inl hne)
    rw [he]
    simp [verdict, hnil.mp hne]
  · have hcommands : testfile.commands ≠ [] := fun h => hne (hnil.mpr h)
    have hneeds : ∀ st ∈ skips, st.needsIsa → ∃ isas, testfile.isaSpec = .some isas := by
      intro st hst hn
      rw [hskips st hst] at hn
      cases hn
    have hmem : ∀ t ∈ tuplesOf testfile.isaSpec flags skips, t.test = testSkip :=
      fun t ht => hskips _ (test_mem_of_mem_tuplesOf ht)
    have hhead := head?_tuplesOf tc flags (noIsaFlags_ne_nil hflags) htests hne hneeds
    have hfirst : firstTarget testfile.isaSpec flags testfile.commands =
        { flags, isa := testfile.isaSpec.uniqueIsa } := by
      obtain ⟨c, cs, hc⟩ := List.exists_cons_of_ne_nil hcommands
      rw [hc]
      refine firstTarget_of_ne_run _ _ (fun hrun => ?_) cs
      simpa [TestCommand.isSupported, hrun] using hall c (by simp [hc])
    have hreal : (tuplesOf testfile.isaSpec flags skips).filter (fun t => t.test.isReal) = [] := by
      apply List.filter_eq_nil_iff.mpr
      intro t ht
      rw [hmem t ht]
      simp [SubTest.isReal, testSkip]
    have hfilter := samePlays_filter tc testfile.preambleComments
      { flags, isa := testfile.isaSpec.uniqueIsa } (fun t ht _ => hmem t ht) testfile.functions
      s.start.world
    rw [hfirst] at hhead
    rw [planTests_eq testfile hflags hne hneeds]
    simp only
    rw [verdict_after, schedule_eq_of_head? (fun t ht => by rw [hmem t ht]; rfl) hhead,
      hfilter.1, hreal, verdict_callsAfter_nil]
    simp [hcommands]

/-- The verifier agrees on the first targets of a file and of the file without its unsupported
commands, for every function that the supported commands get to. -/
def AgreesOnReached (testfile : TestFile Flags Body) (flags : Flags) (w : World) : Prop :=
  ∀ tuples pre fd post w', plan tc testfile.dropUnsupported = .ok tuples →
    testfile.functions = pre ++ fd :: post →
    (play (perform tc testfile.preambleComments) (schedule tuples pre) w).2 = .ok () w' →
    Agrees tc (firstTarget testfile.isaSpec flags testfile.commands)
      (firstTarget testfile.isaSpec flags testfile.dropUnsupported.commands) fd.1

/-- The run of a file and the run without the unsupported commands are the same exactly when the
verifier agrees on the two first targets for every function reached. -/
theorem sameRuns_iff {testfile : TestFile Flags Body} {flags : Flags}
    (hflags : noIsaFlags testfile.isaSpec = .ok flags) (hfunctions : testfile.functions ≠ [])
    (hsupported : ∃ c ∈ testfile.commands, c.isSupported = true) (s : RunState Flags Body) :
    SameRuns ((runTestFile tc testfile).run s) ((runTestFile tc testfile.dropUnsupported).run s) ↔
      AgreesOnReached tc testfile flags s.start.world := by
  rw [runTestFile_eq_plan, runTestFile_eq_plan]
  rcases plan_dropUnsupported tc hflags hfunctions hsupported with
    ⟨f, f', hplan, hplan', hsame⟩ | ⟨tests, htests, hplan, hplan', hhead, hhead'⟩
  · rw [hplan, hplan']
    refine iff_of_true ⟨?_, rfl⟩ fun tuples _ _ _ _ h => ?_
    · rcases hsame with rfl | ⟨e, e', rfl, rfl⟩ <;> rfl
    · rw [hplan'] at h
      cases h
  · have hkeys : ∀ st ∈ tests, st.isMutating = false ∧ st.needsVerifier = true :=
      fun st hst => ⟨(htests st hst).1, (htests st hst).2.1⟩
    have hver : ∀ t ∈ tuplesOf testfile.isaSpec flags tests, t.test.needsVerifier = true :=
      fun t ht => (hkeys _ (test_mem_of_mem_tuplesOf ht)).2
    have hskip : ∀ t ∈ tuplesOf testfile.isaSpec flags tests,
        t.test.isReal = false → t.test = testSkip :=
      fun t ht => (htests _ (test_mem_of_mem_tuplesOf ht)).2.2
    rw [tuplesOf_filter _ _ hkeys] at hplan' hhead'
    have hver' := fun t ht => hver t (List.mem_of_mem_filter (p := fun t => t.test.isReal) ht)
    have hne : (tuplesOf testfile.isaSpec flags tests).filter (fun t => t.test.isReal) ≠ [] := by
      intro h
      simp [h] at hhead'
    rw [hplan, hplan', AgreesOnReached]
    simp only [schedule_eq_of_head? hver hhead, TestFile.dropUnsupported,
      schedule_eq_of_head? hver' hhead']
    rw [sameRuns_after]
    have hfilter := samePlays_filter tc testfile.preambleComments
      (firstTarget testfile.isaSpec flags testfile.commands) hskip testfile.functions
      s.start.world
    have hiff := samePlays_iff tc testfile.preambleComments _
      (firstTarget testfile.isaSpec flags testfile.commands)
      (firstTarget testfile.isaSpec flags testfile.dropUnsupported.commands) hne
      (fun t ht => by simpa using (List.mem_filter.mp ht).2) testfile.functions s.start.world
    rw [SamePlays, hfilter.1, hfilter.2]
    refine hiff.trans ⟨?_, ?_⟩
    · intro h tuples pre fd post w' htuples hsplit hreach
      obtain rfl := Except.ok.inj (hplan'.symm.trans htuples)
      rw [schedule_eq_of_head? hver' hhead'] at hreach
      exact h pre fd post w' hsplit hreach
    · intro h pre fd post w' hsplit hreach
      refine h _ pre fd post w' hplan' hsplit ?_
      rw [schedule_eq_of_head? hver' hhead']
      exact hreach

/-- With at most one target, unsupported commands beside a supported one never show. -/
theorem sameRuns_of_le_one {testfile : TestFile Flags Body} {flags : Flags}
    (hflags : noIsaFlags testfile.isaSpec = .ok flags) (hfunctions : testfile.functions ≠ [])
    (hsupported : ∃ c ∈ testfile.commands, c.isSupported = true)
    (hone : testfile.isaSpec.isas.length ≤ 1) (s : RunState Flags Body) :
    SameRuns ((runTestFile tc testfile).run s)
      ((runTestFile tc testfile.dropUnsupported).run s) := by
  refine (sameRuns_iff tc hflags hfunctions hsupported s).mpr fun _ _ _ _ _ _ _ _ => ?_
  rw [firstTarget_of_le_one hflags hone, firstTarget_of_le_one hflags hone, Agrees]

/-- **When unsupported commands are inert.**  If a file has a supported command, its run and the
run without the unsupported commands are the same exactly when the verifier agrees on the two
first targets for every function reached.  If it has none, it is not reported as an error
exactly when it has a command at all and the verifier accepts every function. -/
theorem unsupported_inert_iff (testfile : TestFile Flags Body) {f : Flags}
    (hflags : noIsaFlags testfile.isaSpec = .ok f) (hfunctions : testfile.functions ≠ [])
    (s : RunState Flags Body) :
    ((∃ c ∈ testfile.commands, c.isSupported = true) →
      (SameRuns ((runTestFile tc testfile).run s) ((runTestFile tc testfile.dropUnsupported).run s)
        ↔ AgreesOnReached tc testfile f s.start.world)) ∧
    ((∀ c ∈ testfile.commands, c.isSupported = false) →
      (verdict ((runTestFile tc testfile).run s) ≠ .err ↔
        testfile.commands ≠ [] ∧ ∀ fd ∈ testfile.functions,
          (tc.verifyFunction fd.1
            { flags := f, isa := testfile.isaSpec.uniqueIsa }).isOk = true)) :=
  ⟨fun hsupported => sameRuns_iff tc hflags hfunctions hsupported s,
    fun hall => verdict_of_unsupported tc hflags hfunctions hall s⟩

/-- A file with an unsupported command and `test run`, for two targets. -/
def TestFile.catAndRun : TestFile Settings Unit := .twoTargets ["test cat", "test run"] ['f']

lemma catAndRun_eq : TestFile.catAndRun =
    { commands := [{ command := "cat" }, { command := "run" }]
      isaSpec := .some [.riscv64gc, .aarch64]
      preambleComments := []
      functions := [(IrFunction.sample 'f', .atLine 7)] } := by
  rfl

theorem unsupported_inert_iff_catAndRun :
    SameRuns ((runTestFile Toolchain.sample TestFile.catAndRun).run RunState.sample)
      ((runTestFile Toolchain.sample TestFile.catAndRun.dropUnsupported).run RunState.sample) := by
  rw [catAndRun_eq]
  exact ((unsupported_inert_iff Toolchain.sample _ rfl (by simp) RunState.sample).1
    ⟨{ command := "run" }, by simp, by decide⟩).mpr fun _ _ _ _ _ _ _ _ => rfl

/-- With the verifier of `Toolchain.oneTarget`, an unsupported command turns a passing file into
an error, and a file with nothing else is an error too. -/
theorem unsupported_not_inert :
    TestFile.catAndRun.dropUnsupported.commands = [{ command := "run" }] ∧
      verdict ((runTestFile Toolchain.oneTarget TestFile.catAndRun).run RunState.sample) = .err ∧
      verdict ((runTestFile Toolchain.oneTarget TestFile.catAndRun.dropUnsupported).run
        RunState.sample) = .ok ∧
      verdict ((runTestFile Toolchain.oneTarget
        { TestFile.catAndRun with commands := [{ command := "cat" }] }).run RunState.sample) =
          .err := by
  rw [catAndRun_eq]
  exact ⟨rfl, rfl, rfl, rfl⟩

end

end CiRunner
