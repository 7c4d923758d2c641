import CiRunner.FrontToBack
import CiRunner.Schedule

/-!
# What a run does to the test file

Of the invocations of a run only those of `test compile` can touch the test file, and those only
when the disassembly of a function differs from its comments.  All others are the same whatever
the file is by then.

So a run is described without the file.  `blessStep` is the abstract machine of one function:
its state is whether the function has been blessed, and a second update is the failed assertion
of `update_at`.  `blessings` runs it function after function.  `play_schedule` says that on a
file in column-0 layout the schedule does exactly that: it ends with the fault the abstract
machine ends with, and in the world that the updates of the blessed functions lead to.
-/

namespace CiRunner

open TextLines Replay

variable {Flags Body : Type} (tc : Toolchain Flags Body)

/-! ## Subtests that leave the file alone -/

/-- The disassembly of a function, when it is not what the comments expect. -/
def mismatch? (func : IrFunction Body) (details : Details) : Option (List Text) :=
  match tc.codegen func (buildBackend tc) with
  | .error _ => none
  | .ok result =>
    if lines result.disasm = expectedOutput details.comments then none
    else some (lines result.disasm)

/-- A subtest whose result does not depend on the file, and which leaves the file alone. -/
def SubTest.Pure (st : SubTest Flags Body) : Prop :=
  ∀ func context, ∃ o : Outcome Unit, st.run func context = liftOutcome o

/-- A subtest a test file can ask for: `test compile` or one that leaves the file alone. -/
def SubTest.Known (st : SubTest Flags Body) : Prop :=
  (∃ test : TestCompile, st = test.toSubTest tc) ∨ (st.name ≠ "compile" ∧ st.Pure)

lemma newSubtest_known {c : TestCommand} {st : SubTest Flags Body}
    (h : newSubtest tc c = .ok st) : st.Known tc := by
  rcases newSubtest_cases tc h with ⟨-, rfl⟩ | ⟨-, test, rfl⟩ | ⟨-, rfl⟩ | ⟨-, rfl⟩
  · exact Or.inr ⟨by simp [TestRun.toSubTest], fun func context => ⟨_, rfl⟩⟩
  · exact Or.inl ⟨test, rfl⟩
  · exact Or.inr ⟨by simp [TestInterpret.toSubTest], fun func context => ⟨_, rfl⟩⟩
  · exact Or.inr ⟨by simp [testSkip], fun func context => ⟨.ok (), rfl⟩⟩

/-- The subtests of a plan are known. -/
lemma plan_known {testfile : TestFile Flags Body} {tuples : List (TestTuple Flags Body)}
    (h : plan tc testfile = .ok tuples) : ∀ t ∈ tuples, t.test.Known tc := by
  intro t ht
  obtain ⟨c, -, hc⟩ := (plan_ok tc h).2 t ht
  exact newSubtest_known tc hc

/-- `TestCompile::run`, by whether there is a mismatch. -/
lemma TestCompile.run_of_mismatch (test : TestCompile) {func : IrFunction Body}
    {context : Context Flags} {output : List Text}
    (h : mismatch? tc func context.details = some output) :
    test.run tc func context = updateTest output context := by
  cases hc : tc.codegen func (buildBackend tc) with
  | error e => simp [mismatch?, hc] at h
  | ok result =>
    simp only [mismatch?, hc] at h
    split at h
    · cases h
    · rename_i hne
      obtain rfl := Option.some.inj h
      simp [TestCompile.run, hc, checkPreciseOutput, hne, justUpdateTest]

lemma TestCompile.run_of_no_mismatch (test : TestCompile) {func : IrFunction Body}
    {context : Context Flags} (h : mismatch? tc func context.details = none) :
    test.run tc func context = liftOutcome (match tc.codegen func (buildBackend tc) with
      | .error _ => .error (.panic .compileUnwrap)
      | .ok _ => .ok ()) := by
  cases hc : tc.codegen func (buildBackend tc) with
  | error e =>
    simp only [TestCompile.run, hc]
    rfl
  | ok result =>
    simp only [mismatch?, hc] at h
    split at h
    · rename_i heq
      simp only [TestCompile.run, hc, checkPreciseOutput, heq, if_true]
      rfl
    · cases h

/-! ## Invocations -/

/-- The output with which an invocation updates the file, if it does. -/
def Event.update? : Event Flags Body → Option (List Text)
  | .verify .. => none
  | .test st func details _ _ => if st.name = "compile" then mismatch? tc func details else none

/-- The subtest of the invocation is one a test file can ask for. -/
def Event.Known : Event Flags Body → Prop
  | .verify .. => True
  | .test st .. => st.Known tc

/-- The function the invocation is about. -/
def Event.details : Event Flags Body → Details
  | .verify _ details _ => details
  | .test _ _ details _ _ => details

def Event.func : Event Flags Body → IrFunction Body
  | .verify func _ _ => func
  | .test _ func _ _ _ => func

/-- An invocation that updates the file does so because of a mismatch. -/
lemma mismatch_of_update {e : Event Flags Body} {output : List Text}
    (h : e.update? tc = some output) : mismatch? tc e.func e.details = some output := by
  cases e with
  | verify => cases h
  | test st func details target verified =>
    simp only [Event.update?] at h
    split at h
    · exact h
    · cases h

variable (preambleComments : List Comment)

/-- A world to try an invocation in that does not depend on it. -/
def World.blank : World := { disk := [], fileUpdate := FileUpdate.new }

/-- The fault of an invocation that does not update the file, if it fails. -/
def Event.fault? (e : Event Flags Body) : Option Fault :=
  Replay.fault? ((perform tc preambleComments e).run World.blank)

/-- An invocation that does not update the file does the same in every world. -/
lemma perform_of_pure {e : Event Flags Body} (hknown : e.Known tc) (h : e.update? tc = none)
    (w : World) :
    (perform tc preambleComments e).run w = match e.fault? tc preambleComments with
      | none => .ok () w
      | some f => .error f w := by
  have hpure : ∃ o : Outcome Unit, ∀ w, (perform tc preambleComments e).run w =
      (liftOutcome o).run w := by
    cases e with
    | verify func details target => exact ⟨verify tc func target, fun w => rfl⟩
    | test st func details target verified =>
      have hrun : ∃ o : Outcome Unit,
          st.run func (callContext preambleComments details target verified) = liftOutcome o := by
        rcases hknown with ⟨test, rfl⟩ | ⟨-, hpure⟩
        · have hmis : mismatch? tc func details = none := by
            simpa [Event.update?, TestCompile.toSubTest] using h
          exact ⟨_, TestCompile.run_of_no_mismatch tc test hmis⟩
        · exact hpure func _
      obtain ⟨o, ho⟩ := hrun
      refine ⟨o.mapError (Fault.withContext st.name), fun w => ?_⟩
      rw [perform, SubTest.run_runNamed, ho]
      cases o <;> rfl
  obtain ⟨o, ho⟩ := hpure
  rw [Event.fault?, ho, ho]
  cases o <;> rfl

/-- An invocation that updates the file updates it at the function it is about. -/
lemma perform_of_update {e : Event Flags Body} (hknown : e.Known tc) {output : List Text}
    (h : e.update? tc = some output) (w : World) :
    (perform tc preambleComments e).run w =
      match (updateAt e.details.location (spliceOutput output)).run w with
      | .ok _ w => .ok () w
      | .error f w => .error (f.withContext "compile") w := by
  cases e with
  | verify func details target => cases h
  | test st func details target verified =>
    rcases hknown with ⟨test, rfl⟩ | ⟨hname, -⟩
    · have hmis : mismatch? tc func details = some output := by
        simpa [Event.update?, TestCompile.toSubTest] using h
      have hrun : (test.toSubTest tc).run func
          (callContext preambleComments details target verified) =
            updateAt details.location (spliceOutput output) :=
        TestCompile.run_of_mismatch tc test hmis
      rw [perform, SubTest.run_runNamed, hrun]
      rfl
    · simp [Event.update?, hname] at h

/-! ## The abstract machine -/

/-- One invocation on a function, the state being whether the function has been blessed.  The
second update of a function fails the assertion of `update_at`. -/
def blessStep (e : Event Flags Body) : EStateM Fault Bool Unit := fun blessed =>
  match e.update? tc with
  | some _ => if blessed then .error (.panic .updateNotAfterLast) true else .ok () true
  | none =>
    match e.fault? tc preambleComments with
    | none => .ok () blessed
    | some f => .error f blessed

lemma blessStep_of_pure {e : Event Flags Body} (h : e.update? tc = none) (blessed : Bool) :
    (blessStep tc preambleComments e).run blessed = match e.fault? tc preambleComments with
      | none => .ok () blessed
      | some f => .error f blessed := by
  simp [blessStep, EStateM.run, h]

lemma blessStep_of_update {e : Event Flags Body} {output : List Text}
    (h : e.update? tc = some output) (blessed : Bool) :
    (blessStep tc preambleComments e).run blessed =
      if blessed then .error (.panic .updateNotAfterLast) true else .ok () true := by
  simp [blessStep, EStateM.run, h]

/-- The invocations on one function, by the abstract machine. -/
def blessCalls (tuples : List (TestTuple Flags Body)) (fd : IrFunction Body × Details) :
    List (Event Flags Body) × EStateM.Result Fault Bool Unit :=
  play (blessStep tc preambleComments) (functionCalls tuples fd.1 fd.2) false

/-- The output a function is blessed with, if it is. -/
def blessing (tuples : List (TestTuple Flags Body)) (fd : IrFunction Body × Details) :
    Option (List Text) :=
  if finalState (blessCalls tc preambleComments tuples fd).2 then mismatch? tc fd.1 fd.2 else none

/-- The output each function is blessed with, if it is, and the fault the run ends with, if it
fails. -/
def blessings (tuples : List (TestTuple Flags Body)) :
    List (IrFunction Body × Details) → List (Option (List Text)) × Option Fault
  | [] => ([], none)
  | fd :: fds =>
    match Replay.fault? (blessCalls tc preambleComments tuples fd).2 with
    | some f => (blessing tc preambleComments tuples fd :: fds.map fun _ => none, some f)
    | none => (blessing tc preambleComments tuples fd :: (blessings tuples fds).1,
        (blessings tuples fds).2)

lemma length_blessings (tuples : List (TestTuple Flags Body))
    (fds : List (IrFunction Body × Details)) :
    (blessings tc preambleComments tuples fds).1.length = fds.length := by
  induction fds with
  | nil => rfl
  | cons fd fds ih =>
    rw [blessings]
    split <;> simp [ih]

lemma blessing_eq_some {tuples : List (TestTuple Flags Body)} {fd : IrFunction Body × Details}
    {output : List Text} (h : blessing tc preambleComments tuples fd = some output) :
    mismatch? tc fd.1 fd.2 = some output := by
  rw [blessing] at h
  split at h
  · exact h
  · cases h

/-- An output holds no newlines, being cut into lines. -/
lemma newline_notMem_mismatch {func : IrFunction Body} {details : Details} {output : List Text}
    (h : mismatch? tc func details = some output) : ∀ o ∈ output, '\n' ∉ o := by
  cases hc : tc.codegen func (buildBackend tc) with
  | error e => simp [mismatch?, hc] at h
  | ok result =>
    simp only [mismatch?, hc] at h
    split at h
    · cases h
    · obtain rfl := Option.some.inj h
      exact fun o ho => newline_notMem_of_mem_lines ho

/-- The outputs of a run are outputs of the compiler. -/
lemma mismatch_of_mem_blessings {tuples : List (TestTuple Flags Body)}
    {fds : List (IrFunction Body × Details)}
    {output : List Text} (h : some output ∈ (blessings tc preambleComments tuples fds).1) :
    ∃ fd ∈ fds, mismatch? tc fd.1 fd.2 = some output := by
  induction fds with
  | nil => simp [blessings] at h
  | cons fd fds ih =>
    have hhead : blessing tc preambleComments tuples fd = some output →
        ∃ fd' ∈ fd :: fds, mismatch? tc fd'.1 fd'.2 = some output :=
      fun h => ⟨fd, by simp, blessing_eq_some tc preambleComments h⟩
    rw [blessings] at h
    split at h
    · rcases List.mem_cons.mp h with h | h
      · exact hhead h.symm
      · simp at h
    · rcases List.mem_cons.mp h with h | h
      · exact hhead h.symm
      · obtain ⟨fd', hmem, hfd'⟩ := ih h
        exact ⟨fd', List.mem_cons_of_mem _ hmem, hfd'⟩

lemma newline_notMem_blessings {tuples : List (TestTuple Flags Body)}
    {fds : List (IrFunction Body × Details)} {output : List Text}
    (h : some output ∈ (blessings tc preambleComments tuples fds).1) : ∀ o ∈ output, '\n' ∉ o := by
  obtain ⟨fd, -, hfd⟩ := mismatch_of_mem_blessings tc preambleComments h
  exact newline_notMem_mismatch tc hfd

/-- The output a function is blessed with is that of its mismatch. -/
lemma mismatch_of_getElem? {tuples : List (TestTuple Flags Body)}
    {fds : List (IrFunction Body × Details)} {i : ℕ} {fd : IrFunction Body × Details}
    {output : List Text} (hfd : fds[i]? = some fd)
    (h : (blessings tc preambleComments tuples fds).1[i]? = some (some output)) :
    mismatch? tc fd.1 fd.2 = some output := by
  induction fds generalizing i with
  | nil => simp at hfd
  | cons fd' fds ih =>
    rw [blessings] at h
    cases i with
    | zero =>
      obtain rfl : fd' = fd := by simpa using hfd
      have hblessing : blessing tc preambleComments tuples fd' = some output := by
        split at h <;> simpa using h
      exact blessing_eq_some tc preambleComments hblessing
    | succ i =>
      split at h
      · cases List.eq_of_mem_replicate (List.mem_of_getElem? (by simpa using h))
      · exact ih (by simpa using hfd) (by simpa using h)

/-! ## A run on a file in column-0 layout -/

/-- The invocations of a function, all of them known subtests on that function. -/
lemma of_mem_functionCalls {tuples : List (TestTuple Flags Body)}
    (hknown : ∀ t ∈ tuples, t.test.Known tc) {func : IrFunction Body} {details : Details}
    {e : Event Flags Body} (he : e ∈ functionCalls tuples func details) :
    e.Known tc ∧ e.func = func ∧ e.details = details := by
  rcases mem_functionCalls he with ⟨target, rfl⟩ | ⟨t, ht, v, rfl⟩
  · exact ⟨trivial, rfl, rfl⟩
  · exact ⟨hknown t ht, rfl, rfl⟩

/-- **One function.**  Playing the invocations of a function runs the abstract machine; the world
is left alone until the function is blessed, and then it is the updated one. -/
lemma play_functionCalls {tuples : List (TestTuple Flags Body)}
    (hknown : ∀ t ∈ tuples, t.test.Known tc) {fd : IrFunction Body × Details} {w w' : World}
    (hupdate : ∀ output, mismatch? tc fd.1 fd.2 = some output →
      (updateAt fd.2.location (spliceOutput output)).run w = .ok () w' ∧
        fd.2.location.lineNumber ≤ w'.fileUpdate.lastUpdate) :
    let p := play (perform tc preambleComments) (functionCalls tuples fd.1 fd.2) w
    let q := blessCalls tc preambleComments tuples fd
    p.1 = q.1 ∧ Replay.fault? p.2 = Replay.fault? q.2 ∧
      finalState p.2 = if finalState q.2 then w' else w := by
  refine play_simulates (R := fun (v : World) (blessed : Bool) => v = if blessed then w' else w)
    (fun e he v blessed hv => ?_) rfl
  obtain ⟨he', hfunc, hdetails⟩ := of_mem_functionCalls tc hknown he
  cases hup : e.update? tc with
  | none =>
    rw [perform_of_pure tc preambleComments he' hup, blessStep_of_pure tc preambleComments hup]
    cases e.fault? tc preambleComments <;> exact ⟨rfl, hv⟩
  | some output =>
    have hmis := mismatch_of_update tc hup
    rw [hfunc, hdetails] at hmis
    obtain ⟨hrun, hlast⟩ := hupdate output hmis
    rw [perform_of_update tc preambleComments he' hup, blessStep_of_update tc preambleComments hup,
      hdetails, hv]
    cases blessed
    · simp only [Bool.false_eq_true, if_false, hrun]
      exact ⟨rfl, rfl⟩
    · simp only [if_true, updateAt_of_le hlast]
      exact ⟨rfl, rfl⟩

/-- What has been blessed was blessed by an invocation that was made. -/
lemma exists_update {es : List (Event Flags Body)} {blessed : Bool}
    (h : finalState (play (blessStep tc preambleComments) es blessed).2 = true) :
    blessed = true ∨
      ∃ e ∈ (play (blessStep tc preambleComments) es blessed).1, (e.update? tc).isSome := by
  induction es generalizing blessed with
  | nil => exact Or.inl h
  | cons e es ih =>
    cases hup : e.update? tc with
    | none =>
      have hstep := blessStep_of_pure tc preambleComments hup blessed
      cases hf : e.fault? tc preambleComments with
      | none =>
        rw [hf] at hstep
        rw [play_cons_of_ok hstep] at h ⊢
        rcases ih h with hb | ⟨e', he', hup'⟩
        · exact Or.inl hb
        · exact Or.inr ⟨e', List.mem_cons_of_mem _ he', hup'⟩
      | some f =>
        rw [hf] at hstep
        rw [play_cons_of_error hstep] at h
        exact Or.inl h
    | some output =>
      refine Or.inr ⟨e, ?_, by simp [hup]⟩
      rcases step_cases (blessStep tc preambleComments) e blessed with ⟨b, hb⟩ | ⟨f, b, hb⟩
      · rw [play_cons_of_ok hb]
        simp
      · rw [play_cons_of_error hb]
        simp

/-- An invocation that blesses a function with its output. -/
def Event.Blesses (fd : IrFunction Body × Details) (output : List Text)
    (e : Event Flags Body) : Prop :=
  e.func = fd.1 ∧ e.details = fd.2 ∧ e.update? tc = some output

/-- A function is blessed when the abstract machine says so, and then its output is not what the
comments expect and an invocation was made that blesses it. -/
lemma blessing_cases {tuples : List (TestTuple Flags Body)}
    (hknown : ∀ t ∈ tuples, t.test.Known tc) (fd : IrFunction Body × Details) :
    (finalState (blessCalls tc preambleComments tuples fd).2 = false ∧
      blessing tc preambleComments tuples fd = none) ∨
    (finalState (blessCalls tc preambleComments tuples fd).2 = true ∧ ∃ output,
      blessing tc preambleComments tuples fd = some output ∧
        mismatch? tc fd.1 fd.2 = some output ∧
        ∃ e ∈ (blessCalls tc preambleComments tuples fd).1, e.Blesses tc fd output) := by
  cases hfinal : finalState (blessCalls tc preambleComments tuples fd).2 with
  | false => exact Or.inl ⟨rfl, by simp [blessing, hfinal]⟩
  | true =>
    obtain ⟨e, he, hup⟩ : ∃ e ∈ (blessCalls tc preambleComments tuples fd).1,
        (e.update? tc).isSome := by
      rcases exists_update tc preambleComments hfinal with h | h
      · cases h
      · exact h
    obtain ⟨output, houtput⟩ := Option.isSome_iff_exists.mp hup
    have hmem := (executed_initial _ _ _).subset he
    obtain ⟨-, hfunc, hdetails⟩ := of_mem_functionCalls tc hknown hmem
    have hmis := mismatch_of_update tc houtput
    rw [hfunc, hdetails] at hmis
    exact Or.inr ⟨rfl, output, by simp [blessing, hfinal, hmis], hmis, e, he, hfunc, hdetails,
      houtput⟩

/-- **One function at the front.**  It ends with the fault of the abstract machine, in the world
that its blessing leads to, with the front moved past it; and if it is blessed, by an invocation
that was made. -/
lemma play_functionCalls_front {tuples : List (TestTuple Flags Body)}
    (hknown : ∀ t ∈ tuples, t.test.Known tc) {base : ℕ} {pre : List Text} {b : Block}
    {bs : List Block} {w : World} (hfront : Front base pre (b :: bs) w)
    {fd : IrFunction Body × Details} (hline : fd.2.location.lineNumber = base + 1) :
    let p := play (perform tc preambleComments) (functionCalls tuples fd.1 fd.2) w
    Replay.fault? p.2 = Replay.fault? (blessCalls tc preambleComments tuples fd).2 ∧
      (∀ locations outputs, (updateAll (fd.2.location :: locations)
        (blessing tc preambleComments tuples fd :: outputs)).run w =
          (updateAll locations outputs).run (finalState p.2)) ∧
      (∃ pre' bs', Front (base + b.lines.length) pre' bs' (finalState p.2) ∧
        headerLines (base + b.lines.length) bs' = headerLines (base + b.lines.length) bs) ∧
      ∀ output, blessing tc preambleComments tuples fd = some output →
        ∃ e ∈ p.1, e.Blesses tc fd output := by
  intro p
  -- an update of this function leads to a world where the front has passed it
  obtain ⟨w', pre', bs', hupdate, hfront', hlines'⟩ : ∃ w' pre' bs',
      (∀ output, mismatch? tc fd.1 fd.2 = some output →
        (updateAt fd.2.location (spliceOutput output)).run w = .ok () w' ∧
          fd.2.location.lineNumber ≤ w'.fileUpdate.lastUpdate) ∧
      Front (base + b.lines.length) pre' bs' w' ∧
      headerLines (base + b.lines.length) bs' = headerLines (base + b.lines.length) bs := by
    cases hmis : mismatch? tc fd.1 fd.2 with
    | none => exact ⟨w, _, _, by simp, hfront.skip, rfl⟩
    | some output =>
      obtain ⟨w', hrun, -, hlast, hfront'⟩ :=
        hfront.update hline (newline_notMem_mismatch tc hmis)
      refine ⟨w', _, _, ?_, hfront', headerLines_chomped _ _⟩
      rintro output' houtput
      obtain rfl := Option.some.inj houtput
      exact ⟨hrun, hlast.ge⟩
  obtain ⟨htrace, hfault, hfinal⟩ : p.1 = (blessCalls tc preambleComments tuples fd).1 ∧
      Replay.fault? p.2 = Replay.fault? (blessCalls tc preambleComments tuples fd).2 ∧
      finalState p.2 = if finalState (blessCalls tc preambleComments tuples fd).2 then w' else w :=
    play_functionCalls tc preambleComments hknown hupdate
  rw [htrace, hfinal]
  refine ⟨hfault, ?_⟩
  rcases blessing_cases tc preambleComments hknown fd with
    ⟨hfalse, hnone⟩ | ⟨htrue, output, hsome, hmis, hmade⟩
  · rw [hfalse, hnone]
    exact ⟨fun _ _ => rfl, ⟨_, _, hfront.skip, rfl⟩, fun output houtput => by cases houtput⟩
  · rw [htrue, hsome]
    refine ⟨fun _ _ => bind_of_ok (hupdate output hmis).1, ⟨_, _, hfront', hlines'⟩, ?_⟩
    rintro output' houtput
    obtain rfl := Option.some.inj houtput
    exact hmade

/-- **A whole run.**  From a front on, the schedule ends with the fault of the abstract machine,
in the world the updates of the blessed functions lead to; and every blessed function was blessed
by an invocation that was made. -/
theorem play_schedule {tuples : List (TestTuple Flags Body)}
    (hknown : ∀ t ∈ tuples, t.test.Known tc) {base : ℕ} {pre : List Text} {blocks : List Block}
    {w : World} (hfront : Front base pre blocks w) {fds : List (IrFunction Body × Details)}
    (hlines : fds.map (·.2.location.lineNumber) = headerLines base blocks) :
    Replay.fault? (play (perform tc preambleComments) (schedule tuples fds) w).2 =
        (blessings tc preambleComments tuples fds).2 ∧
      (updateAll (fds.map (·.2.location)) (blessings tc preambleComments tuples fds).1).run w =
        .ok () (finalState (play (perform tc preambleComments) (schedule tuples fds) w).2) ∧
      ∀ (i : ℕ) fd output, fds[i]? = some fd →
        (blessings tc preambleComments tuples fds).1[i]? = some (some output) →
        ∃ e ∈ (play (perform tc preambleComments) (schedule tuples fds) w).1,
          e.Blesses tc fd output := by
  induction fds generalizing base pre blocks w with
  | nil => exact ⟨rfl, rfl, by simp⟩
  | cons fd fds ih =>
    obtain ⟨b, bs, rfl⟩ : ∃ b bs, blocks = b :: bs := by
      cases blocks with
      | nil => simp [headerLines] at hlines
      | cons b bs => exact ⟨b, bs, rfl⟩
    simp only [List.map_cons, headerLines, List.cons.injEq] at hlines
    obtain ⟨hline, hlines⟩ := hlines
    obtain ⟨hfault, hblessing, ⟨pre', bs', hfront', hlines'⟩, hhead⟩ :=
      play_functionCalls_front tc preambleComments hknown hfront hline
    rw [blessings, schedule_cons, List.map_cons]
    rcases play_cases (perform tc preambleComments) (functionCalls tuples fd.1 fd.2) w with
      ⟨v, hv⟩ | ⟨f, v, hv⟩
    · -- the run goes on with the next function
      rw [hv] at hfault hfront' hblessing
      rw [← hfault, play_append_of_ok hv]
      obtain ⟨hrest, hworld, htail⟩ := ih hfront' (hlines.trans hlines'.symm)
      refine ⟨hrest, (hblessing _ _).trans hworld, fun i fd' output hfd' houtput => ?_⟩
      cases i with
      | zero =>
        obtain rfl : fd = fd' := by simpa using hfd'
        obtain ⟨e, he, hblesses⟩ := hhead output (by simpa using houtput)
        refine ⟨e, List.mem_append_left _ ?_, hblesses⟩
        rwa [play_eq_of_ok hv] at he
      | succ i =>
        obtain ⟨e, he, hblesses⟩ :=
          htail i fd' output (by simpa using hfd') (by simpa using houtput)
        exact ⟨e, List.mem_append_right _ he, hblesses⟩
    · -- the run ends here
      rw [hv] at hfault hblessing
      rw [← hfault, play_append_of_error hv, hv]
      refine ⟨rfl, (hblessing _ _).trans (updateAll_none _ _ _),
        fun i fd' output hfd' houtput => ?_⟩
      cases i with
      | zero =>
        obtain rfl : fd = fd' := by simpa using hfd'
        obtain ⟨e, he, hblesses⟩ := hhead output (by simpa using houtput)
        exact ⟨e, he, hblesses⟩
      | succ i => cases List.eq_of_mem_replicate (List.mem_of_getElem? (by simpa using houtput))

end CiRunner
