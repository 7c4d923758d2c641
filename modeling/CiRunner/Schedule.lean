import CiRunner.RunOne

/-!
# The schedule of a run

What a run does is one flat list of invocations, played up to the first that fails.  `schedule`
is that list: the functions in file order, and for each of them every tuple in order, with one
call of the verifier in front of the first tuple whose subtest needs it.  `perform` is the
effect of one invocation.

`runTests_eq_plan` says that the loops of `run`, with their popped last tuple and their
`verified` flag, do just that with the tuples of `planTests`, and that they do nothing at all
when there are none.  Every later result about whole runs goes through it.
-/

namespace CiRunner

open TextLines StableSort Replay

variable {Flags Body : Type}

/-! ## The reference -/

/-- The subtests, ordered by whether they mutate and then by whether they need the verifier;
subtests that agree in both keep their order. -/
def stableOrder (tests : List (SubTest Flags Body)) : List (SubTest Flags Body) :=
  let part (isMutating needsVerifier : Bool) :=
    tests.filter fun st => st.isMutating = isMutating && st.needsVerifier = needsVerifier
  part false false ++ part false true ++ part true false ++ part true true

/-- The targets of a file. -/
def IsaSpec.isas : IsaSpec Flags → List (TargetIsa Flags)
  | .none _ => []
  | .some isas => isas

/-- A subtest once per target in order if it needs a target, and exactly once otherwise. -/
def expand (isaSpec : IsaSpec Flags) (noIsaFlags : Flags) (test : SubTest Flags Body) :
    List (TestTuple Flags Body) :=
  if test.needsIsa then
    isaSpec.isas.map fun isa => { test, flags := isa.flags, isa := some isa }
  else
    [{ test, flags := noIsaFlags, isa := isaSpec.uniqueIsa }]

/-- The invocation of the subtest of a tuple. -/
def TestTuple.call (tuple : TestTuple Flags Body) (func : IrFunction Body) (details : Details)
    (verified : Bool) : Event Flags Body :=
  .test tuple.test func details tuple.target verified

/-- The invocations on one function: the tuples up to the first that needs the verifier, one
call of the verifier for that tuple's target, and the rest. -/
def functionCalls (tuples : List (TestTuple Flags Body)) (func : IrFunction Body)
    (details : Details) : List (Event Flags Body) :=
  let before := tuples.takeWhile fun t => !t.test.needsVerifier
  let after := tuples.dropWhile fun t => !t.test.needsVerifier
  before.map (·.call func details false) ++
    match after with
    | [] => []
    | t :: _ => .verify func details t.target :: after.map (·.call func details true)

/-- The invocations on all functions, in file order. -/
def schedule (tuples : List (TestTuple Flags Body))
    (functions : List (IrFunction Body × Details)) : List (Event Flags Body) :=
  functions.flatMap fun fd => functionCalls tuples fd.1 fd.2

/-- The context a subtest is invoked in. -/
def callContext (preambleComments : List Comment) (details : Details) (target : FlagsOrIsa Flags)
    (verified : Bool) : Context Flags :=
  { preambleComments, details, verified, flags := target.flags, isa := target.isa }

/-- The effect of one invocation. -/
def perform (tc : Toolchain Flags Body) (preambleComments : List Comment) :
    Event Flags Body → Effect Unit
  | .verify func _ target => liftOutcome (verify tc func target)
  | .test test func details target verified =>
    test.runNamed func (callContext preambleComments details target verified)

@[simp] lemma schedule_nil (tuples : List (TestTuple Flags Body)) :
    schedule tuples [] = [] := rfl

@[simp] lemma schedule_cons (tuples : List (TestTuple Flags Body)) (fd : IrFunction Body × Details)
    (functions : List (IrFunction Body × Details)) :
    schedule tuples (fd :: functions) =
      functionCalls tuples fd.1 fd.2 ++ schedule tuples functions :=
  rfl

/-- The invocations on a function are calls of the verifier and of the tuples' subtests. -/
lemma mem_functionCalls {tuples : List (TestTuple Flags Body)} {func : IrFunction Body}
    {details : Details} {e : Event Flags Body} (he : e ∈ functionCalls tuples func details) :
    (∃ target, e = .verify func details target) ∨
      ∃ t ∈ tuples, ∃ verified, e = t.call func details verified := by
  have hsub := List.takeWhile_append_dropWhile (p := fun t => !t.test.needsVerifier) (l := tuples)
  simp only [functionCalls, List.mem_append, List.mem_map] at he
  rcases he with ⟨t, ht, rfl⟩ | he
  · exact Or.inr ⟨t, by rw [← hsub]; exact List.mem_append_left _ ht, false, rfl⟩
  · split at he
    · simp at he
    · rename_i t ts hafter
      rcases List.mem_cons.mp he with rfl | he
      · exact Or.inl ⟨_, rfl⟩
      · obtain ⟨t', ht', rfl⟩ := List.mem_map.mp he
        exact Or.inr ⟨t', by rw [← hsub]; exact List.mem_append_right _ ht', true, rfl⟩

/-- Every tuple is invoked. -/
lemma call_mem_functionCalls {tuples : List (TestTuple Flags Body)} {t : TestTuple Flags Body}
    (ht : t ∈ tuples) (func : IrFunction Body) (details : Details) :
    ∃ verified, t.call func details verified ∈ functionCalls tuples func details := by
  rw [← List.takeWhile_append_dropWhile (p := fun t => !t.test.needsVerifier) (l := tuples)] at ht
  rcases List.mem_append.mp ht with ht | ht
  · exact ⟨false, List.mem_append_left _ (List.mem_map_of_mem ht)⟩
  · refine ⟨true, List.mem_append_right _ ?_⟩
    split
    · rename_i hnil
      rw [hnil] at ht
      cases ht
    · exact List.mem_cons_of_mem _ (List.mem_map_of_mem ht)

/-! ## Sorting and expanding -/

/-- Sorting by the key is the stable order. -/
lemma sortByKey_sortKey (tests : List (SubTest Flags Body)) :
    sortByKey sortKey tests = stableOrder tests := by
  have hkeys : [toLex (false, false), toLex (false, true), toLex (true, false),
      toLex (true, true)].Pairwise (α := Bool ×ₗ Bool) (· < ·) := by decide
  rw [sortByKey_eq_fibers sortKey hkeys]
  · have hfilter (a b : Bool) :
        (tests.filter fun x => sortKey x = toLex (a, b)) =
          tests.filter fun st => st.isMutating = a && st.needsVerifier = b :=
      List.filter_congr fun x _ => by simp [sortKey]
    simp [fibers, stableOrder, hfilter]
  · intro st _
    cases hm : st.isMutating <;> cases hv : st.needsVerifier <;> simp [sortKey, hm, hv]

lemma tuplesFor_eq {isaSpec : IsaSpec Flags} (noIsaFlags : Flags) {test : SubTest Flags Body}
    (h : test.needsIsa → ∃ isas, isaSpec = .some isas) :
    tuplesFor isaSpec noIsaFlags test = .ok (expand isaSpec noIsaFlags test) := by
  by_cases hneeds : test.needsIsa
  · obtain ⟨isas, rfl⟩ := h hneeds
    simp [tuplesFor, hneeds, expand, IsaSpec.isas]
  · simp [tuplesFor, hneeds, expand]

/-- Expansion concatenates the tuples of the tests, when each test that needs a target can have
one. -/
lemma testTuples_eq {isaSpec : IsaSpec Flags} (noIsaFlags : Flags)
    {tests : List (SubTest Flags Body)}
    (h : ∀ t ∈ tests, t.needsIsa → ∃ isas, isaSpec = .some isas) :
    testTuples isaSpec noIsaFlags tests = .ok (tests.flatMap (expand isaSpec noIsaFlags)) := by
  induction tests with
  | nil => rfl
  | cons test tests ih =>
    rw [testTuples, tuplesFor_eq _ (h test (by simp)),
      ih fun t ht => h t (List.mem_cons_of_mem _ ht)]
    rfl

/-- Without targets, expansion fails on the first test that needs one. -/
lemma testTuples_error (flags noIsaFlags : Flags) {tests : List (SubTest Flags Body)}
    (h : ∃ t ∈ tests, t.needsIsa) :
    ∃ name, testTuples (.none flags) noIsaFlags tests = .error (.err (.requiresIsa name)) := by
  induction tests with
  | nil => simp at h
  | cons test tests ih =>
    by_cases hneeds : test.needsIsa
    · exact ⟨test.name, by simp [testTuples, tuplesFor, hneeds, bind, Except.bind]⟩
    · obtain ⟨name, hname⟩ := ih (by simpa [hneeds] using h)
      exact ⟨name, by simp [testTuples, tuplesFor, hneeds, hname, bind, Except.bind]⟩

/-! ## One function -/

/-- The state of a run after playing invocations from its world. -/
def RunState.after {α : Type} (s : RunState Flags Body)
    (p : List (Event Flags Body) × EStateM.Result Fault World Unit) (a : α) :
    EStateM.Result Fault (RunState Flags Body) α :=
  match p.2 with
  | .ok _ w => .ok a { world := w, trace := s.trace ++ p.1 }
  | .error f w => .error f { world := w, trace := s.trace ++ p.1 }

/-- The invocations of the tuples that are left, given whether the function was verified. -/
def callsFrom (func : IrFunction Body) (details : Details) :
    Bool → List (TestTuple Flags Body) → List (Event Flags Body)
  | _, [] => []
  | verified, t :: ts =>
    if !verified && t.test.needsVerifier then
      .verify func details t.target :: t.call func details true :: callsFrom func details true ts
    else t.call func details verified :: callsFrom func details verified ts

lemma callsFrom_true (func : IrFunction Body) (details : Details)
    (tuples : List (TestTuple Flags Body)) :
    callsFrom func details true tuples = tuples.map (·.call func details true) := by
  induction tuples with
  | nil => rfl
  | cons t ts ih => simp [callsFrom, ih]

/-- The flag puts the verifier in front of the first tuple that needs it, and nowhere else. -/
lemma callsFrom_false (func : IrFunction Body) (details : Details)
    (tuples : List (TestTuple Flags Body)) :
    callsFrom func details false tuples = functionCalls tuples func details := by
  induction tuples with
  | nil => rfl
  | cons t ts ih =>
    by_cases hneeds : t.test.needsVerifier
    · simp [callsFrom, functionCalls, hneeds, callsFrom_true]
    · simp [callsFrom, functionCalls, hneeds] at ih ⊢
      exact ih

section
variable (tc : Toolchain Flags Body)

@[simp] lemma record_apply (e : Event Flags Body) (s : RunState Flags Body) :
    (record e).run s = .ok () { s with trace := s.trace ++ [e] } := rfl

lemma onWorld_of_ok {α : Type} {x : Effect α} {w w' : World} {a : α}
    (h : x.run w = .ok a w') (trace : List (Event Flags Body)) :
    (onWorld x).run ⟨w, trace⟩ = .ok a ⟨w', trace⟩ := by
  simp only [onWorld, EStateM.run] at h ⊢
  simp [h]

lemma onWorld_of_error {α : Type} {x : Effect α} {w w' : World} {f : Fault}
    (h : x.run w = .error f w') (trace : List (Event Flags Body)) :
    (onWorld x).run ⟨w, trace⟩ = .error f ⟨w', trace⟩ := by
  simp only [onWorld, EStateM.run] at h ⊢
  simp [h]

lemma SubTest.run_runNamed (test : SubTest Flags Body) (func : IrFunction Body)
    (context : Context Flags) (w : World) :
    (test.runNamed func context).run w = match (test.run func context).run w with
      | .ok _ w => .ok () w
      | .error f w => .error (f.withContext test.name) w := rfl

lemma SubTest.runNamed_cases (test : SubTest Flags Body) (func : IrFunction Body)
    (context : Context Flags) (w : World) :
    (∃ w', (test.runNamed func context).run w = .ok () w') ∨
      ∃ f w', (test.runNamed func context).run w = .error f w' := by
  cases h : (test.runNamed func context).run w with
  | ok a w' => exact Or.inl ⟨w', rfl⟩
  | error f w' => exact Or.inr ⟨f, w', rfl⟩

/-- The context a tuple hands on. -/
def Context.next (context : Context Flags) (tuple : TestTuple Flags Body) : Context Flags :=
  { context with
    flags := tuple.flags
    isa := tuple.isa
    verified := context.verified || tuple.test.needsVerifier }

/-- Running the subtest of a tuple plays one call. -/
lemma runTest_eq (test : SubTest Flags Body) (func : IrFunction Body) (context : Context Flags)
    (s : RunState Flags Body) :
    (do record (.test test func context.details context.flagsOrIsa context.verified)
        onWorld (test.runNamed func context)
        return context : RunM Flags Body (Context Flags)).run s =
      s.after (play (perform tc context.preambleComments)
        [.test test func context.details context.flagsOrIsa context.verified] s.world)
        context := by
  rw [bind_of_ok (record_apply _ _)]
  rcases test.runNamed_cases func context s.world with ⟨w, hw⟩ | ⟨f, w, hw⟩
  · have hp : (perform tc context.preambleComments
        (.test test func context.details context.flagsOrIsa context.verified)).run s.world =
          .ok () w := hw
    rw [bind_of_ok (onWorld_of_ok hw _), play_cons_of_ok hp]
    rfl
  · have hp : (perform tc context.preambleComments
        (.test test func context.details context.flagsOrIsa context.verified)).run s.world =
          .error f w := hw
    rw [bind_of_error (onWorld_of_error hw _), play_cons_of_error hp]
    rfl

/-- Verifying plays one call, when it is due. -/
lemma verifyIfNeeded_eq (test : SubTest Flags Body) (func : IrFunction Body)
    (context : Context Flags) (s : RunState Flags Body) :
    (verifyIfNeeded tc test func context).run s =
      s.after (play (perform tc context.preambleComments)
        (if !context.verified && test.needsVerifier then
          [.verify func context.details context.flagsOrIsa] else []) s.world)
        { context with verified := context.verified || test.needsVerifier } := by
  unfold verifyIfNeeded
  split
  · rename_i hneeds
    obtain ⟨hv, hn⟩ : context.verified = false ∧ test.needsVerifier = true := by
      simpa using hneeds
    rw [bind_of_ok (record_apply _ _)]
    cases hver : verify tc func context.flagsOrIsa with
    | ok u =>
      have hp : (perform tc context.preambleComments
          (.verify func context.details context.flagsOrIsa)).run s.world = .ok () s.world := by
        simp [perform, hver]
      rw [play_cons_of_ok hp, hv, hn]
      rfl
    | error f =>
      have hp : (perform tc context.preambleComments
          (.verify func context.details context.flagsOrIsa)).run s.world = .error f s.world := by
        simp [perform, hver]
      rw [play_cons_of_error hp]
      rfl
  · rename_i hneeds
    have hv : (context.verified || test.needsVerifier) = context.verified := by
      cases h : context.verified <;> simp_all
    simp [hv, RunState.after]

/-- Playing on from where a run has got to. -/
lemma after_bind {α β : Type} {s : RunState Flags Body} {step : Event Flags Body → Effect Unit}
    {as bs : List (Event Flags Body)} {x : RunM Flags Body α} {a : α}
    {f : α → RunM Flags Body β} {b : β} (hx : x.run s = s.after (play step as s.world) a)
    (hf : ∀ s', (f a).run s' = s'.after (play step bs s'.world) b) :
    (x >>= f).run s = s.after (play step (as ++ bs) s.world) b := by
  rcases play_cases step as s.world with ⟨w, hw⟩ | ⟨g, w, hw⟩
  · have hx' : x.run s = .ok a { world := w, trace := s.trace ++ as } := by
      rw [hx, play_eq_of_ok hw]
      rfl
    rw [bind_of_ok hx', hf, play_append_of_ok hw]
    simp only [RunState.after, List.append_assoc]
  · have hx' : x.run s = .error g { world := w, trace := s.trace ++ (play step as s.world).1 } := by
      rw [hx, RunState.after, hw]
    rw [bind_of_error hx', play_append_of_error hw, RunState.after, hw]

/-- One tuple plays its calls. -/
lemma runOneTest_eq (tuple : TestTuple Flags Body) (func : IrFunction Body)
    (context : Context Flags) (s : RunState Flags Body) :
    (runOneTest tc tuple func context).run s =
      s.after (play (perform tc context.preambleComments)
        (callsFrom func context.details context.verified [tuple]) s.world)
        (context.next tuple) := by
  have hcalls : callsFrom func context.details context.verified [tuple] =
      (if !context.verified && tuple.test.needsVerifier then
        [.verify func context.details tuple.target] else []) ++
      [.test tuple.test func context.details tuple.target
        (context.verified || tuple.test.needsVerifier)] := by
    cases hv : context.verified <;> cases hn : tuple.test.needsVerifier <;>
      simp [callsFrom, TestTuple.call, hn]
  rw [hcalls]
  exact after_bind (verifyIfNeeded_eq tc tuple.test func
    { context with flags := tuple.flags, isa := tuple.isa } s)
    (runTest_eq tc tuple.test func (context.next tuple))

lemma callsFrom_cons (func : IrFunction Body) (details : Details) (verified : Bool)
    (t : TestTuple Flags Body) (ts : List (TestTuple Flags Body)) :
    callsFrom func details verified (t :: ts) =
      callsFrom func details verified [t] ++
        callsFrom func details (verified || t.test.needsVerifier) ts := by
  cases verified <;> cases hn : t.test.needsVerifier <;> simp [callsFrom, hn]

/-- The tuples of a function play their calls, and leave the preamble and the details alone. -/
lemma runTuples_eq (func : IrFunction Body) (tuples : List (TestTuple Flags Body))
    (context : Context Flags) :
    ∃ context' : Context Flags, context'.preambleComments = context.preambleComments ∧
      context'.details = context.details ∧
      ∀ s, (runTuples tc func tuples context).run s =
        s.after (play (perform tc context.preambleComments)
          (callsFrom func context.details context.verified tuples) s.world) context' ∧
      ∀ t, callsFrom func context.details context.verified (tuples ++ [t]) =
        callsFrom func context.details context.verified tuples ++
          callsFrom func context.details context'.verified [t] := by
  induction tuples generalizing context with
  | nil =>
    refine ⟨context, rfl, rfl, fun s => ⟨?_, fun t => rfl⟩⟩
    simp [runTuples, callsFrom, RunState.after]
  | cons tuple tuples ih =>
    obtain ⟨context', hcomments, hdetails, hrun⟩ := ih (context.next tuple)
    refine ⟨context', hcomments, hdetails, fun s => ⟨?_, fun t => ?_⟩⟩
    · rw [callsFrom_cons]
      exact after_bind (runOneTest_eq tc tuple func context s) fun s' => (hrun s').1
    · rw [List.cons_append, callsFrom_cons, callsFrom_cons _ _ _ tuple tuples,
        List.append_assoc]
      exact congrArg _ ((hrun s).2 t)

/-- The loop over the functions plays the schedule. -/
lemma runFunctions_eq (preambleComments : List Comment) (flags : Flags)
    (tuples : List (TestTuple Flags Body)) (lastTuple : TestTuple Flags Body)
    (functions : List (IrFunction Body × Details)) (s : RunState Flags Body) :
    (runFunctions tc preambleComments flags tuples lastTuple functions).run s =
      s.after (play (perform tc preambleComments)
        (schedule (tuples ++ [lastTuple]) functions) s.world) () := by
  induction functions generalizing s with
  | nil => simp [runFunctions, RunState.after]
  | cons fd functions ih =>
    obtain ⟨func, details⟩ := fd
    let context : Context Flags :=
      { preambleComments, details, verified := false, flags, isa := none }
    obtain ⟨context', hcomments, hdetails, hrun⟩ := runTuples_eq tc func tuples context
    rw [schedule_cons, ← callsFrom_false, (hrun s).2 lastTuple, List.append_assoc]
    refine after_bind (hrun s).1 fun s' => ?_
    have hlast := runOneTest_eq tc lastTuple func context' s'
    rw [hcomments, hdetails] at hlast
    exact after_bind hlast ih

end

/-! ## The whole run -/

section
variable (tc : Toolchain Flags Body)

/-- The tuples a file's subtests are expanded to. -/
def tuplesOf (isaSpec : IsaSpec Flags) (flags : Flags) (tests : List (SubTest Flags Body)) :
    List (TestTuple Flags Body) :=
  (stableOrder tests).flatMap (expand isaSpec flags)

lemma mem_stableOrder {tests : List (SubTest Flags Body)} {st : SubTest Flags Body} :
    st ∈ stableOrder tests ↔ st ∈ tests := by
  rw [← sortByKey_sortKey]
  exact mem_sortByKey _

lemma noIsaFlags_ne_nil {isaSpec : IsaSpec Flags} {flags : Flags}
    (h : noIsaFlags isaSpec = .ok flags) : isaSpec ≠ .some [] := by
  rintro rfl
  simp [noIsaFlags] at h

/-- The flags are there unless the list of targets is empty. -/
lemma exists_noIsaFlags {isaSpec : IsaSpec Flags} (h : isaSpec ≠ .some []) :
    ∃ flags, noIsaFlags isaSpec = .ok flags := by
  cases isaSpec with
  | none flags => exact ⟨flags, rfl⟩
  | some isas =>
    have hne : isas ≠ [] := fun hnil => h (by rw [hnil])
    exact ⟨(isas.getLast hne).flags, by simp [noIsaFlags, List.getLast?_eq_some_getLast hne]⟩

lemma expand_ne_nil {isaSpec : IsaSpec Flags} (h : isaSpec ≠ .some []) (flags : Flags)
    {test : SubTest Flags Body} (hneeds : test.needsIsa → ∃ isas, isaSpec = .some isas) :
    expand isaSpec flags test ≠ [] := by
  by_cases hn : test.needsIsa
  · obtain ⟨isas, rfl⟩ := hneeds hn
    have hne : isas ≠ [] := fun hnil => h (by rw [hnil])
    simpa [expand, hn, IsaSpec.isas] using hne
  · simp [expand, hn]

lemma tuplesOf_ne_nil {isaSpec : IsaSpec Flags} (h : isaSpec ≠ .some []) (flags : Flags)
    {tests : List (SubTest Flags Body)} (htests : tests ≠ [])
    (hneeds : ∀ t ∈ tests, t.needsIsa → ∃ isas, isaSpec = .some isas) :
    tuplesOf isaSpec flags tests ≠ [] := by
  obtain ⟨t, ht⟩ := List.exists_mem_of_ne_nil tests htests
  obtain ⟨u, hu⟩ := List.exists_mem_of_ne_nil _ (expand_ne_nil h flags (hneeds t ht))
  exact List.ne_nil_of_mem (List.mem_flatMap.mpr ⟨t, mem_stableOrder.mpr ht, hu⟩)

/-- The state in which a run begins to make invocations. -/
def RunState.start (s : RunState Flags Body) : RunState Flags Body :=
  { s with world := { s.world with fileUpdate := FileUpdate.new } }

/-- What a run sets out to do with given subtests: its tuples, if there are any. -/
def planTests (testfile : TestFile Flags Body) (tests : List (SubTest Flags Body)) :
    Outcome (List (TestTuple Flags Body)) := do
  let flags ← noIsaFlags testfile.isaSpec
  let tuples ← testTuples testfile.isaSpec flags (sortByKey sortKey tests)
  if tuples.isEmpty then .error (.err .noTestCommands) else return tuples

/-- What a run sets out to do with a test file. -/
def plan (testfile : TestFile Flags Body) : Outcome (List (TestTuple Flags Body)) :=
  if testfile.functions.isEmpty then .error (.err .noFunctions)
  else testfile.commands.mapM (newSubtest tc) >>= planTests testfile

lemma onWorld_outcome_of_ok {α : Type} {x : Outcome α} {a : α} (h : x = .ok a)
    (s : RunState Flags Body) :
    (onWorld (liftOutcome x)).run s =
      (.ok a s : EStateM.Result Fault (RunState Flags Body) α) := by
  rw [h]
  rfl

lemma onWorld_outcome_of_error {α : Type} {x : Outcome α} {f : Fault} (h : x = .error f)
    (s : RunState Flags Body) :
    (onWorld (liftOutcome x)).run s =
      (.error f s : EStateM.Result Fault (RunState Flags Body) α) := by
  rw [h]
  rfl

/-- **A run plays its plan.**  When the setup fails, nothing is invoked; otherwise the run starts
a fresh `FileUpdate` and plays the schedule. -/
theorem runTests_eq_plan (testfile : TestFile Flags Body) (tests : List (SubTest Flags Body))
    (s : RunState Flags Body) :
    (runTests tc testfile tests).run s = match planTests testfile tests with
      | .ok tuples =>
        s.start.after (play (perform tc testfile.preambleComments)
          (schedule tuples testfile.functions) s.start.world) ()
      | .error f => .error f s := by
  rw [runTests, planTests]
  cases hfl : noIsaFlags testfile.isaSpec with
  | error f => exact bind_of_error (onWorld_outcome_of_error rfl s)
  | ok flags =>
    rw [bind_of_ok (onWorld_outcome_of_ok rfl s)]
    cases htup : testTuples testfile.isaSpec flags (sortByKey sortKey tests) with
    | error f =>
      refine (bind_of_error (onWorld_outcome_of_error htup s)).trans ?_
      simp only [bind, Except.bind, htup]
    | ok tuples =>
      refine (bind_of_ok (onWorld_outcome_of_ok htup s)).trans ?_
      cases hlast : tuples.getLast? with
      | none =>
        obtain rfl := List.getLast?_eq_none_iff.mp hlast
        simp only [bind, Except.bind, htup]
        rfl
      | some lastTuple =>
        have hne : tuples.isEmpty = false := by
          cases tuples with
          | nil => simp at hlast
          | cons t ts => rfl
        have hmod : (modify fun s : RunState Flags Body =>
            { s with world := { s.world with fileUpdate := FileUpdate.new } } :
              RunM Flags Body Unit).run s = .ok () s.start := rfl
        simp only [bind, Except.bind, htup, hne]
        refine (bind_of_ok hmod).trans ?_
        rw [runFunctions_eq, List.dropLast_append_getLast? lastTuple hlast]
        rfl

/-- The same for a whole test file. -/
theorem runTestFile_eq_plan (testfile : TestFile Flags Body) (s : RunState Flags Body) :
    (runTestFile tc testfile).run s = match plan tc testfile with
      | .ok tuples =>
        s.start.after (play (perform tc testfile.preambleComments)
          (schedule tuples testfile.functions) s.start.world) ()
      | .error f => .error f s := by
  unfold runTestFile plan
  split
  · rfl
  · cases htests : testfile.commands.mapM (newSubtest tc) with
    | error f => rfl
    | ok tests =>
      exact runTests_eq_plan tc testfile tests s

/-- When there is a subtest and every subtest that needs a target has one, the plan is to run
them all. -/
theorem planTests_eq (testfile : TestFile Flags Body) {flags : Flags}
    (hflags : noIsaFlags testfile.isaSpec = .ok flags) {tests : List (SubTest Flags Body)}
    (htests : tests ≠ [])
    (hneeds : ∀ t ∈ tests, t.needsIsa → ∃ isas, testfile.isaSpec = .some isas) :
    planTests testfile tests = .ok (tuplesOf testfile.isaSpec flags tests) := by
  have htup : testTuples testfile.isaSpec flags (sortByKey sortKey tests) =
      .ok (tuplesOf testfile.isaSpec flags tests) := by
    rw [sortByKey_sortKey, testTuples_eq _ fun t ht => hneeds t (mem_stableOrder.mp ht)]
    rfl
  have hne := tuplesOf_ne_nil (noIsaFlags_ne_nil hflags) flags htests hneeds
  simp [planTests, hflags, htup, hne, bind, Except.bind, pure, Except.pure]

/-- Without a subtest, or without a target for a subtest that needs one, there is no plan. -/
theorem planTests_error (testfile : TestFile Flags Body) {flags : Flags}
    (hflags : noIsaFlags testfile.isaSpec = .ok flags) {tests : List (SubTest Flags Body)}
    (h : tests = [] ∨ ∃ f, testfile.isaSpec = .none f ∧ ∃ t ∈ tests, t.needsIsa) :
    ∃ e, planTests testfile tests = .error (.err e) := by
  rcases h with rfl | ⟨f, hspec, t, ht, hneeds⟩
  · exact ⟨.noTestCommands, by simp [planTests, hflags, testTuples, bind, Except.bind]⟩
  · obtain ⟨name, hname⟩ := testTuples_error f flags
      ⟨t, (mem_sortByKey sortKey).mpr ht, hneeds⟩
    rw [← hspec] at hname
    exact ⟨.requiresIsa name, by simp [planTests, hflags, hname, bind, Except.bind]⟩

/-- A plan consists of the tuples of all subtests. -/
lemma planTests_ok {testfile : TestFile Flags Body} {tests : List (SubTest Flags Body)}
    {tuples : List (TestTuple Flags Body)} (h : planTests testfile tests = .ok tuples) :
    ∃ flags, noIsaFlags testfile.isaSpec = .ok flags ∧ tests ≠ [] ∧
      (∀ t ∈ tests, t.needsIsa → ∃ isas, testfile.isaSpec = .some isas) ∧
      tuples = tuplesOf testfile.isaSpec flags tests := by
  cases hfl : noIsaFlags testfile.isaSpec with
  | error f => simp [planTests, hfl, bind, Except.bind] at h
  | ok flags =>
    by_cases hbad : tests = [] ∨ ∃ f, testfile.isaSpec = .none f ∧ ∃ t ∈ tests, t.needsIsa
    · obtain ⟨e, he⟩ := planTests_error testfile hfl hbad
      rw [he] at h
      cases h
    · push Not at hbad
      have hneeds : ∀ t ∈ tests, t.needsIsa → ∃ isas, testfile.isaSpec = .some isas := by
        intro t ht hn
        cases hs : testfile.isaSpec with
        | none f => exact absurd hn (by simpa using hbad.2 f hs t ht)
        | some isas => exact ⟨isas, rfl⟩
      rw [planTests_eq testfile hfl hbad.1 hneeds] at h
      exact ⟨flags, rfl, hbad.1, hneeds, (Except.ok.inj h).symm⟩

/-- With at most one target, all tuples have the same one. -/
lemma target_of_mem_tuplesOf {isaSpec : IsaSpec Flags} {flags : Flags}
    (hflags : noIsaFlags isaSpec = .ok flags) (hone : isaSpec.isas.length ≤ 1)
    {tests : List (SubTest Flags Body)} {t : TestTuple Flags Body}
    (ht : t ∈ tuplesOf isaSpec flags tests) :
    t.target = { flags, isa := isaSpec.uniqueIsa } := by
  obtain ⟨st, -, ht⟩ := List.mem_flatMap.mp ht
  by_cases hneeds : st.needsIsa
  · cases isaSpec with
    | none f => simp [expand, hneeds, IsaSpec.isas] at ht
    | some isas =>
      match isas, hone with
      | [], _ => simp [expand, hneeds, IsaSpec.isas] at ht
      | [isa], _ =>
        obtain rfl : isa.flags = flags := by simpa [noIsaFlags] using hflags
        simp only [expand, hneeds, IsaSpec.isas, if_true, List.map_cons, List.map_nil,
          List.mem_singleton] at ht
        rw [ht]
        rfl
  · simp only [expand, hneeds, Bool.false_eq_true, if_false, List.mem_singleton] at ht
    rw [ht]
    rfl

lemma test_of_mem_expand {isaSpec : IsaSpec Flags} {flags : Flags} {st : SubTest Flags Body}
    {t : TestTuple Flags Body} (ht : t ∈ expand isaSpec flags st) : t.test = st := by
  by_cases hneeds : st.needsIsa
  · simp only [expand, hneeds, if_true, List.mem_map] at ht
    obtain ⟨isa, -, rfl⟩ := ht
    rfl
  · simp only [expand, hneeds, Bool.false_eq_true, if_false, List.mem_singleton] at ht
    rw [ht]

lemma test_mem_of_mem_tuplesOf {isaSpec : IsaSpec Flags} {flags : Flags}
    {tests : List (SubTest Flags Body)} {t : TestTuple Flags Body}
    (ht : t ∈ tuplesOf isaSpec flags tests) : t.test ∈ tests := by
  obtain ⟨st, hst, ht⟩ := List.mem_flatMap.mp ht
  rw [test_of_mem_expand ht]
  exact mem_stableOrder.mp hst

/-- The subtests there are. -/
lemma newSubtest_cases {c : TestCommand} {st : SubTest Flags Body}
    (h : newSubtest tc c = .ok st) :
    (c.command = "run" ∧ st = TestRun.toSubTest tc) ∨
      (c.command = "compile" ∧ ∃ test : TestCompile, st = test.toSubTest tc) ∨
      (c.command = "interpret" ∧ st = TestInterpret.toSubTest tc) ∨
      ((c.command ≠ "run" ∧ c.command ≠ "compile" ∧ c.command ≠ "interpret") ∧ st = testSkip) := by
  unfold newSubtest at h
  split at h
  · rename_i hc
    cases ho : noOptions "run" c with
    | error f => simp [TestRun.subtest, ho, bind, Except.bind] at h
    | ok u =>
      simp only [TestRun.subtest, ho, bind, Except.bind, pure, Except.pure] at h
      exact Or.inl ⟨hc, (Except.ok.inj h).symm⟩
  · rename_i hc
    cases ho : TestCompile.parseOptions c { preciseOutput := false } c.options with
    | error f => simp [TestCompile.subtest, hc, ho, bind, Except.bind] at h
    | ok test =>
      simp only [TestCompile.subtest, hc, ho, bind, Except.bind, pure, Except.pure, if_true] at h
      exact Or.inr (Or.inl ⟨hc, test, (Except.ok.inj h).symm⟩)
  · rename_i hc
    cases ho : noOptions "interpret" c with
    | error f => simp [TestInterpret.subtest, ho, bind, Except.bind] at h
    | ok u =>
      simp only [TestInterpret.subtest, ho, bind, Except.bind, pure, Except.pure] at h
      exact Or.inr (Or.inr (Or.inl ⟨hc, (Except.ok.inj h).symm⟩))
  · rename_i hrun hcompile hinterpret
    exact Or.inr (Or.inr (Or.inr ⟨⟨hrun, hcompile, hinterpret⟩, (Except.ok.inj h).symm⟩))

/-- The subtests of a file, in order, are those of its commands. -/
lemma forall₂_newSubtest {cs : List TestCommand} {tests : List (SubTest Flags Body)}
    (h : cs.mapM (newSubtest tc) = .ok tests) :
    List.Forall₂ (fun c st => newSubtest tc c = .ok st) cs tests := by
  induction cs generalizing tests with
  | nil =>
    obtain rfl := Except.ok.inj h
    exact List.Forall₂.nil
  | cons c cs ih =>
    rw [List.mapM_cons] at h
    cases hst : newSubtest tc c with
    | error f => simp [hst, bind, Except.bind] at h
    | ok st =>
      cases hsts : cs.mapM (newSubtest tc) with
      | error f => simp [hst, hsts, bind, Except.bind] at h
      | ok sts =>
        simp only [hst, hsts, bind, Except.bind, pure, Except.pure] at h
        obtain rfl := Except.ok.inj h
        exact List.Forall₂.cons hst (ih hsts)

lemma exists_newSubtest {cs : List TestCommand} {tests : List (SubTest Flags Body)}
    (h : cs.mapM (newSubtest tc) = .ok tests) {st : SubTest Flags Body} (hst : st ∈ tests) :
    ∃ c ∈ cs, newSubtest tc c = .ok st := by
  have h' := forall₂_newSubtest tc h
  clear h
  induction h' with
  | nil => simp at hst
  | cons hc _ ih =>
    rcases List.mem_cons.mp hst with rfl | hst
    · exact ⟨_, by simp, hc⟩
    · obtain ⟨c, hmem, hc'⟩ := ih hst
      exact ⟨c, List.mem_cons_of_mem _ hmem, hc'⟩

/-- The tuples of a plan run the subtests of the file's commands. -/
lemma plan_ok {testfile : TestFile Flags Body} {tuples : List (TestTuple Flags Body)}
    (h : plan tc testfile = .ok tuples) :
    testfile.functions ≠ [] ∧ ∀ t ∈ tuples, ∃ c ∈ testfile.commands,
      newSubtest tc c = .ok t.test := by
  rw [plan] at h
  split at h
  · cases h
  · rename_i hfunctions
    cases htests : testfile.commands.mapM (newSubtest tc) with
    | error f => simp [htests, bind, Except.bind] at h
    | ok tests =>
      have hplan : planTests testfile tests = .ok tuples := by
        simpa [htests, bind, Except.bind] using h
      obtain ⟨flags, -, -, -, rfl⟩ := planTests_ok hplan
      exact ⟨by simpa using hfunctions,
        fun t ht => exists_newSubtest tc htests (test_mem_of_mem_tuplesOf ht)⟩

lemma plan_ne_nil {testfile : TestFile Flags Body} {tuples : List (TestTuple Flags Body)}
    (h : plan tc testfile = .ok tuples) : tuples ≠ [] := by
  rw [plan] at h
  split at h
  · cases h
  · cases htests : testfile.commands.mapM (newSubtest tc) with
    | error f => simp [htests, bind, Except.bind] at h
    | ok tests =>
      have hplan : planTests testfile tests = .ok tuples := by
        simpa [htests, bind, Except.bind] using h
      obtain ⟨flags, hflags, hne, hneeds, rfl⟩ := planTests_ok hplan
      exact tuplesOf_ne_nil (noIsaFlags_ne_nil hflags) flags hne hneeds

/-- A run on a file that parses runs the parsed file. -/
lemma run_of_parse {options : ParseOptions} {testfile : TestFile Flags Body}
    {s : RunState Flags Body} (h : tc.parseTest s.world.disk options = .ok testfile) :
    (run tc options).run s = (runTestFile tc testfile).run s := by
  have hget : (get : RunM Flags Body (RunState Flags Body)).run s = .ok s s := rfl
  rw [run, bind_of_ok hget]
  simp only [h]

/-- A file that does not parse is an error, unless that is only a warning. -/
lemma run_of_parse_error {options : ParseOptions} {e : ParseError} {s : RunState Flags Body}
    (h : tc.parseTest s.world.disk options = .error e) :
    (run tc options).run s =
      if e.isWarning then .ok () s
      else .error (.err (.context "failed to parse" (.parse e))) s := by
  have hget : (get : RunM Flags Body (RunState Flags Body)).run s = .ok s s := rfl
  rw [run, bind_of_ok hget]
  simp only [h]
  split <;> rfl

/-- Nothing changes then. -/
lemma finalState_of_parse_error {options : ParseOptions} {e : ParseError}
    {s : RunState Flags Body} (h : tc.parseTest s.world.disk options = .error e) :
    finalState ((run tc options).run s) = s := by
  rw [run_of_parse_error tc h]
  split <;> rfl

/-- The reader takes the file for one that is to be skipped. -/
def Skipped (options : ParseOptions) (content : Text) : Prop :=
  ∃ e, tc.parseTest content options = .error e ∧ e.isWarning

end

end CiRunner
