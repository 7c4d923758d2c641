import CiRunner.PlainComments
import CiRunner.Rereading

/-!
# Running twice

A second run on the file the first one left makes the same invocations on the same functions;
only the comments of the functions blessed by the first run are new.  As long as these do not
change what the other subtests do, the second run ends as the first (`blessings_reruns`), unless
the first failed the assertion of `update_at`.  Nothing new is blessed: an invocation of
`test compile` that updates a function again updates it with the output it was blessed with.
So the second run leaves the file as it is (`rerun_of_layout`).

So the verdict of the second run is that of the first when no update drops or writes a command
that a subtest of the file acts on (`rerun_same_verdict`).
-/

namespace CiRunner

open TextLines Replay

variable {Flags Body : Type}

/-! ## One invocation -/

section
variable (tc : Toolchain Flags Body)

/-- Which of two outcomes a function has is a matter of its comments. -/
lemma mismatch?_eq {func : IrFunction Body} {compiled : CompiledCode}
    (h : tc.codegen func (buildBackend tc) = .ok compiled) (details : Details) :
    mismatch? tc func details =
      if lines compiled.disasm = expectedOutput details.comments then none
      else some (lines compiled.disasm) := by
  simp only [mismatch?, h]

lemma exists_compiled {func : IrFunction Body} {details : Details} {output : List Text}
    (h : mismatch? tc func details = some output) :
    ∃ compiled, tc.codegen func (buildBackend tc) = .ok compiled ∧ lines compiled.disasm = output ∧
      output ≠ expectedOutput details.comments := by
  cases hc : tc.codegen func (buildBackend tc) with
  | error e => simp [mismatch?, hc] at h
  | ok compiled =>
    rw [mismatch?_eq tc hc] at h
    split at h
    · cases h
    · rename_i hne
      obtain rfl := Option.some.inj h
      exact ⟨compiled, rfl, rfl, hne⟩

/-- Whatever the comments, the output of a mismatch is the same. -/
lemma mismatch?_of_mismatch {func : IrFunction Body} {details : Details} {output : List Text}
    (h : mismatch? tc func details = some output) (details' : Details) :
    mismatch? tc func details' = none ∨ mismatch? tc func details' = mismatch? tc func details := by
  obtain ⟨compiled, hc, rfl, -⟩ := exists_compiled tc h
  rw [h, mismatch?_eq tc hc]
  split
  · exact Or.inl rfl
  · exact Or.inr rfl

/-- The function behaves with other details as it does with its own: it is no mismatch that was
none, and every subtest but `test compile` does the same. -/
structure SameFor (tuples : List (TestTuple Flags Body)) (func : IrFunction Body)
    (details details' : Details) : Prop where
  mismatch : mismatch? tc func details' = none ∨
    mismatch? tc func details' = mismatch? tc func details
  run : ∀ t ∈ tuples, t.test.name ≠ "compile" → ∀ preambleComments target verified,
    t.test.run func (callContext preambleComments details target verified) =
      t.test.run func (callContext preambleComments details' target verified)

variable (preambleComments : List Comment)

/-- The invocation on the same function with other details. -/
def Event.withDetails (details : Details) : Event Flags Body → Event Flags Body
  | .verify func _ target => .verify func details target
  | .test st func _ target verified => .test st func details target verified

lemma functionCalls_withDetails (tuples : List (TestTuple Flags Body)) (func : IrFunction Body)
    (details details' : Details) :
    functionCalls tuples func details' =
      (functionCalls tuples func details).map (Event.withDetails details') := by
  have hcalls (ts : List (TestTuple Flags Body)) (v : Bool) :
      ts.map (·.call func details' v) =
        (ts.map (·.call func details v)).map (Event.withDetails details') := by
    rw [List.map_map]
    rfl
  rw [functionCalls, functionCalls, List.map_append, ← hcalls]
  congr 1
  cases tuples.dropWhile fun t => !t.test.needsVerifier with
  | nil => rfl
  | cons t ts =>
    simp only [List.map_cons, ← hcalls]
    rfl

/-- What an invocation of the first run is in the second: when it did not update the file it does
the same again, and when it did it does that again or nothing at all. -/
structure Event.Reruns (e e' : Event Flags Body) : Prop where
  pure : e.update? tc = none →
    e'.update? tc = none ∧ e'.fault? tc preambleComments = e.fault? tc preambleComments
  update : ∀ output, e.update? tc = some output →
    e'.update? tc = some output ∨ e'.update? tc = none ∧ e'.fault? tc preambleComments = none

/-- `test compile` again. -/
lemma TestCompile.reruns (test : TestCompile) {func : IrFunction Body} {details details' : Details}
    (h : mismatch? tc func details' = none ∨ mismatch? tc func details' = mismatch? tc func details)
    (target : FlagsOrIsa Flags) (verified : Bool) :
    Event.Reruns tc preambleComments (.test (test.toSubTest tc) func details target verified)
      (.test (test.toSubTest tc) func details' target verified) := by
  have hup (d : Details) :
      (Event.test (test.toSubTest tc) func d target verified).update? tc = mismatch? tc func d := by
    simp [Event.update?, TestCompile.toSubTest]
  have hrun {d d' : Details} (hd : mismatch? tc func d = none)
      (hd' : mismatch? tc func d' = none) :
      (test.toSubTest tc).run func (callContext preambleComments d target verified) =
        (test.toSubTest tc).run func (callContext preambleComments d' target verified) :=
    (TestCompile.run_of_no_mismatch tc test hd).trans
      (TestCompile.run_of_no_mismatch tc test hd').symm
  constructor
  · intro hnone
    rw [hup] at hnone
    have hnone' : mismatch? tc func details' = none := by
      rcases h with h | h
      · exact h
      · rw [h, hnone]
    refine ⟨by rw [hup, hnone'], ?_⟩
    simp only [Event.fault?, perform, SubTest.run_runNamed, hrun hnone' hnone]
  · intro output houtput
    rw [hup] at houtput
    rcases h with h | h
    · obtain ⟨compiled, hc, -⟩ := exists_compiled tc houtput
      have hok : (test.toSubTest tc).run func
          (callContext preambleComments details' target verified) = liftOutcome (.ok ()) := by
        refine (TestCompile.run_of_no_mismatch tc test h).trans ?_
        rw [hc]
      refine Or.inr ⟨by rw [hup, h], ?_⟩
      rw [Event.fault?, perform, SubTest.run_runNamed, hok]
      rfl
    · exact Or.inl (by rw [hup, h, houtput])

/-- Any invocation again. -/
lemma reruns_of_mem {tuples : List (TestTuple Flags Body)}
    (hnew : ∀ t ∈ tuples, ∃ c, newSubtest tc c = .ok t.test) {func : IrFunction Body}
    {details details' : Details} (h : SameFor tc tuples func details details')
    {e : Event Flags Body} (he : e ∈ functionCalls tuples func details) :
    e.Reruns tc preambleComments (e.withDetails details') := by
  rcases mem_functionCalls he with ⟨target, rfl⟩ | ⟨t, ht, v, rfl⟩
  · exact ⟨fun _ => ⟨rfl, rfl⟩, fun output houtput => by cases houtput⟩
  · obtain ⟨c, hc⟩ := hnew t ht
    by_cases hname : t.test.name = "compile"
    · rcases newSubtest_known tc hc with ⟨test, htest⟩ | ⟨hne, -⟩
      · rw [TestTuple.call, htest]
        exact test.reruns tc preambleComments h.mismatch t.target v
      · exact absurd hname hne
    · have hup (d : Details) : (Event.test t.test func d t.target v).update? tc = none := by
        simp [Event.update?, hname]
      refine ⟨fun _ => ⟨hup details', ?_⟩, fun output houtput => ?_⟩
      · simp only [TestTuple.call, Event.withDetails, Event.fault?, perform, SubTest.run_runNamed,
          h.run t ht hname]
      · rw [TestTuple.call, hup] at houtput
        cases houtput

/-! ## One function -/

/-- A second run of the abstract machine ends as the first, unless the first failed the assertion
of `update_at`, and blesses nothing the first did not. -/
lemma play_reruns {es es' : List (Event Flags Body)}
    (h : List.Forall₂ (Event.Reruns tc preambleComments) es es') {blessed blessed' : Bool}
    (hblessed : blessed' = true → blessed = true)
    (hpanic : Replay.fault? (play (blessStep tc preambleComments) es blessed).2 ≠
      some (.panic .updateNotAfterLast)) :
    let p := play (blessStep tc preambleComments) es blessed
    let p' := play (blessStep tc preambleComments) es' blessed'
    Replay.fault? p'.2 = Replay.fault? p.2 ∧ (finalState p'.2 = true → finalState p.2 = true) := by
  induction h generalizing blessed blessed' with
  | nil => exact ⟨rfl, hblessed⟩
  | @cons e e' es es' he _ ih =>
    cases hup : e.update? tc with
    | none =>
      obtain ⟨hup', hfault⟩ := he.pure hup
      have hstep := blessStep_of_pure tc preambleComments hup blessed
      have hstep' := blessStep_of_pure tc preambleComments hup' blessed'
      rw [hfault] at hstep'
      cases hf : e.fault? tc preambleComments with
      | none =>
        rw [hf] at hstep hstep'
        rw [play_cons_of_ok hstep] at hpanic
        rw [play_cons_of_ok hstep, play_cons_of_ok hstep']
        exact ih hblessed hpanic
      | some f =>
        rw [hf] at hstep hstep'
        rw [play_cons_of_error hstep, play_cons_of_error hstep']
        exact ⟨rfl, hblessed⟩
    | some output =>
      have hstep := blessStep_of_update tc preambleComments hup blessed
      cases blessed with
      | true =>
        -- the first run failed the assertion here
        rw [play_cons_of_error hstep] at hpanic
        exact absurd rfl hpanic
      | false =>
        obtain rfl : blessed' = false := by simpa using hblessed
        rw [play_cons_of_ok hstep] at hpanic
        rw [play_cons_of_ok hstep]
        rcases he.update output hup with hup' | ⟨hup', hfault⟩
        · have hstep' := blessStep_of_update tc preambleComments hup' false
          rw [play_cons_of_ok hstep']
          exact ih (fun _ => rfl) hpanic
        · have hstep' := blessStep_of_pure tc preambleComments hup' false
          rw [hfault] at hstep'
          rw [play_cons_of_ok hstep']
          exact ih (fun _ => rfl) hpanic

lemma blessing_reruns {tuples : List (TestTuple Flags Body)}
    (hnew : ∀ t ∈ tuples, ∃ c, newSubtest tc c = .ok t.test) {func : IrFunction Body}
    {details details' : Details} (h : SameFor tc tuples func details details')
    (hpanic : Replay.fault? (blessCalls tc preambleComments tuples (func, details)).2 ≠
      some (.panic .updateNotAfterLast)) :
    Replay.fault? (blessCalls tc preambleComments tuples (func, details')).2 =
        Replay.fault? (blessCalls tc preambleComments tuples (func, details)).2 ∧
      (blessing tc preambleComments tuples (func, details') = none ∨
        blessing tc preambleComments tuples (func, details') =
          blessing tc preambleComments tuples (func, details)) := by
  have hes : List.Forall₂ (Event.Reruns tc preambleComments) (functionCalls tuples func details)
      (functionCalls tuples func details') := by
    rw [functionCalls_withDetails tuples func details details', List.forall₂_map_right_iff,
      List.forall₂_same]
    exact fun e he => reruns_of_mem tc preambleComments hnew h he
  obtain ⟨hfault, hfinal⟩ := play_reruns tc preambleComments hes (fun h : false = true => h) hpanic
  refine ⟨hfault, ?_⟩
  by_cases hblessed' : finalState (blessCalls tc preambleComments tuples (func, details')).2 = true
  · have hblessed : finalState (blessCalls tc preambleComments tuples (func, details)).2 = true :=
      hfinal hblessed'
    simp only [blessing, hblessed, hblessed', if_true]
    exact h.mismatch
  · exact Or.inl (by simp [blessing, hblessed'])

/-! ## All functions -/

/-- **The second run of a schedule** ends as the first, and blesses nothing but functions the first
blessed, with the same output. -/
theorem blessings_reruns {tuples : List (TestTuple Flags Body)}
    (hnew : ∀ t ∈ tuples, ∃ c, newSubtest tc c = .ok t.test)
    {fds : List (IrFunction Body × Details)} {ds : List Details} (hlength : ds.length = fds.length)
    (h : ∀ (i : ℕ) fd details', fds[i]? = some fd → ds[i]? = some details' →
      SameFor tc tuples fd.1 fd.2 details')
    (hpanic : (blessings tc preambleComments tuples fds).2 ≠ some (.panic .updateNotAfterLast)) :
    (blessings tc preambleComments tuples (redetail fds ds)).2 =
        (blessings tc preambleComments tuples fds).2 ∧
      List.Forall₂ (fun o' o => o' = none ∨ o' = o)
        (blessings tc preambleComments tuples (redetail fds ds)).1
        (blessings tc preambleComments tuples fds).1 := by
  induction fds generalizing ds with
  | nil => exact ⟨rfl, List.Forall₂.nil⟩
  | cons fd fds ih =>
    obtain ⟨details', ds, rfl⟩ : ∃ d ds', ds = d :: ds' := by
      cases ds with
      | nil => simp at hlength
      | cons d ds => exact ⟨d, ds, rfl⟩
    have hlength' : ds.length = fds.length := by simpa using hlength
    have htail : ∀ (i : ℕ) fd details', fds[i]? = some fd → ds[i]? = some details' →
        SameFor tc tuples fd.1 fd.2 details' := fun i fd d hfd hd =>
      h (i + 1) fd d (by simpa using hfd) (by simpa using hd)
    have hhead : Replay.fault? (blessCalls tc preambleComments tuples fd).2 ≠
        some (.panic .updateNotAfterLast) := by
      intro hfault
      rw [blessings, hfault] at hpanic
      exact hpanic rfl
    obtain ⟨hfault, hblessing⟩ := blessing_reruns tc preambleComments hnew
      (h 0 fd details' rfl rfl) hhead
    have hfault' : Replay.fault? (blessCalls tc preambleComments tuples (fd.1, details')).2 =
        Replay.fault? (blessCalls tc preambleComments tuples fd).2 := hfault
    rw [redetail, List.zipWith_cons_cons, ← redetail, blessings, blessings, hfault']
    cases hq : Replay.fault? (blessCalls tc preambleComments tuples fd).2 with
    | some f =>
      refine ⟨rfl, List.Forall₂.cons hblessing ?_⟩
      rw [List.forall₂_map_left_iff, List.forall₂_map_right_iff, List.forall₂_iff_zip]
      exact ⟨by simp [redetail, hlength'], fun _ => Or.inl rfl⟩
    | none =>
      rw [blessings, hq] at hpanic
      obtain ⟨hrest, hrel⟩ := ih hlength' htail hpanic
      exact ⟨hrest, List.Forall₂.cons hblessing hrel⟩

end

/-! ## The whole file -/

lemma Block.edit_edit (b : Block) {o o' : Option (List Text)} (h : o' = none ∨ o' = o) :
    (b.edit o).edit o' = b.edit o := by
  rcases h with rfl | rfl
  · rfl
  · cases o' with
    | none => rfl
    | some output => exact b.bless_bless output output

/-- Editing once more with some of the same outputs changes nothing. -/
lemma editBlocks_editBlocks (bs : List Block) {os os' : List (Option (List Text))}
    (h : List.Forall₂ (fun o' o => o' = none ∨ o' = o) os' os) :
    editBlocks (editBlocks bs os) os' = editBlocks bs os := by
  induction h generalizing bs with
  | nil => rw [editBlocks_nil]
  | cons ho _ ih =>
    cases bs with
    | nil => rfl
    | cons b bs => rw [editBlocks, editBlocks, ih, b.edit_edit ho]

/-- What is blessed again was blessed before. -/
lemma exists_output_before {os os' : List (Option (List Text))}
    (h : List.Forall₂ (fun o' o => o' = none ∨ o' = o) os' os)
    (hos' : ∃ output, some output ∈ os') : ∃ output, some output ∈ os := by
  obtain ⟨output, hmem⟩ := hos'
  refine ⟨output, ?_⟩
  induction h with
  | nil => exact hmem
  | cons ho _ ih =>
    rcases List.mem_cons.mp hmem with rfl | hmem
    · rcases ho with ho | rfl
      · cases ho
      · exact List.mem_cons_self
    · exact List.mem_cons_of_mem _ (ih hmem)

section
variable {tc : Toolchain Flags Body} {options : ParseOptions} {L : Layout} {content : Text}
  {testfile : TestFile Flags Body} {tuples : List (TestTuple Flags Body)}

lemma Reads.length (hreads : Reads tc options L content testfile)
    (os : List (Option (List Text))) : (L.edit os).details.length = testfile.functions.length := by
  have hlength : testfile.functions.length = L.details.length := by
    rw [← hreads.details, List.length_map]
  rw [hlength, Layout.details, Layout.details, length_blockDetails, length_blockDetails]
  exact length_editBlocks L.blocks os

/-- The block of a function, and what becomes of its comments. -/
lemma Reads.exists_block (hreads : Reads tc options L content testfile)
    (tuples : List (TestTuple Flags Body)) {i : ℕ} {fd : IrFunction Body × Details}
    (hfd : testfile.functions[i]? = some fd) :
    ∃ b o details', L.blocks[i]? = some b ∧ fd.2.comments = b.comments ∧
      (outputsOf tc tuples testfile)[i]? = some o ∧
      (L.edit (outputsOf tc tuples testfile)).details[i]? = some details' ∧
      details'.comments = (b.edit o).comments := by
  have hlength : (outputsOf tc tuples testfile).length = L.blocks.length := by
    rw [outputsOf, length_blessings, ← List.length_map (·.2), hreads.details, Layout.details,
      length_blockDetails]
  have hdetails : L.details[i]? = some fd.2 := by
    rw [← hreads.details, List.getElem?_map, hfd]
    rfl
  obtain ⟨b, hb, hcomments⟩ := exists_block_of_details hdetails
  have hlt : i < (L.edit (outputsOf tc tuples testfile)).details.length := by
    rw [hreads.length]
    exact (List.getElem?_eq_some_iff.mp hfd).1
  obtain ⟨b', hb', hcomments'⟩ := exists_block_of_details (List.getElem?_eq_getElem hlt)
  obtain ⟨b₁, o, hb₁, ho, rfl⟩ := exists_of_getElem?_editBlocks hlength hb'
  obtain rfl := Option.some.inj (hb.symm.trans hb₁)
  exact ⟨b, o, _, hb, hcomments, ho, List.getElem?_eq_getElem hlt, hcomments'⟩

/-- The file a run leaves is read as the edited layout. -/
lemma Reads.of_run (hreads : Reads tc options L content testfile)
    (hclean : ∀ l ∈ L.lines, Clean l) (houtput : CleanOutput tc)
    (hplan : plan tc testfile = .ok tuples) {s : RunState Flags Body}
    (hs : s.world.disk = content) :
    let L' := L.edit (outputsOf tc tuples testfile)
    let disk := (finalState ((run tc options).run s)).world.disk
    lines disk = L'.lines ∧ (∀ l ∈ L'.lines, Clean l) ∧
      tc.parseTest disk options = .ok (testfile.withDetails L'.details) := by
  intro L' disk
  have hcontent : lines s.world.disk = L.lines := by rw [hs, hreads.content_lines]
  have hparse : tc.parseTest s.world.disk options = .ok testfile := by rw [hs, hreads.parse]
  obtain ⟨-, hsame, hwrite, -⟩ :=
    run_of_layout hcontent hparse hreads.details hclean houtput hplan
  have hclean' : ∀ l ∈ L'.lines, Clean l := by
    apply Layout.clean_edit hclean
    intro output ho
    obtain ⟨fd, -, hfd⟩ := mismatch_of_mem_blessings tc testfile.preambleComments ho
    exact clean_mismatch houtput hfd
  by_cases hnone : ∀ o ∈ outputsOf tc tuples testfile, o = none
  · have hdisk : disk = s.world.disk := hsame hnone
    have hL : L' = L := by
      rw [show L' = L.edit _ from rfl, Layout.edit, editBlocks_of_forall_none _ hnone]
    have hself : testfile.withDetails L.details = testfile := by
      rw [TestFile.withDetails, ← hreads.details, redetail_self]
    rw [hdisk, hL, hself]
    exact ⟨hcontent, hclean, hparse⟩
  · have hdisk : disk = unlines L'.lines := hwrite (exists_output hnone)
    rw [hdisk]
    exact ⟨lines_unlines_of_clean hclean', hclean',
      hreads.reparse L' rfl (code_editBlocks L.blocks _) hclean'⟩

/-- **A second run** on the file the first run left ends as the first and leaves that file alone,
when the functions behave with their new details as with the old ones. -/
theorem rerun_of_layout (hreads : Reads tc options L content testfile)
    (hclean : ∀ l ∈ L.lines, Clean l) (houtput : CleanOutput tc)
    (hplan : plan tc testfile = .ok tuples) {s s' : RunState Flags Body}
    (hs : s.world.disk = content)
    (hs' : s'.world.disk = (finalState ((run tc options).run s)).world.disk)
    (hpanic : Replay.fault? ((run tc options).run s) ≠ some (.panic .updateNotAfterLast))
    (h : ∀ (i : ℕ) fd details', testfile.functions[i]? = some fd →
      (L.edit (outputsOf tc tuples testfile)).details[i]? = some details' →
        SameFor tc tuples fd.1 fd.2 details') :
    Replay.fault? ((run tc options).run s') = Replay.fault? ((run tc options).run s) ∧
      (finalState ((run tc options).run s')).world.disk = s'.world.disk := by
  obtain ⟨hcontent', hclean', hparse'⟩ := hreads.of_run hclean houtput hplan hs
  rw [← hs'] at hcontent' hparse'
  have hlength := hreads.length (outputsOf tc tuples testfile)
  have hcontent : lines s.world.disk = L.lines := by rw [hs, hreads.content_lines]
  have hparse : tc.parseTest s.world.disk options = .ok testfile := by rw [hs, hreads.parse]
  obtain ⟨hfault, -, hwrite, -⟩ :=
    run_of_layout hcontent hparse hreads.details hclean houtput hplan
  obtain ⟨hfault', hsame', hwrite', -⟩ := run_of_layout hcontent' hparse' (map_redetail hlength)
    hclean' houtput ((plan_withDetails tc testfile hlength).trans hplan)
  have hnew : ∀ t ∈ tuples, ∃ c, newSubtest tc c = .ok t.test := fun t ht => by
    obtain ⟨c, -, hc⟩ := (plan_ok tc hplan).2 t ht
    exact ⟨c, hc⟩
  rw [hfault] at hpanic ⊢
  obtain ⟨hagain, hrel⟩ := blessings_reruns tc testfile.preambleComments hnew hlength h hpanic
  refine ⟨hfault'.trans hagain, ?_⟩
  by_cases hnone : ∀ o ∈ outputsOf tc tuples (testfile.withDetails
      (L.edit (outputsOf tc tuples testfile)).details), o = none
  · exact hsame' hnone
  · -- the first run has written what the second writes
    have hsome := exists_output hnone
    rw [hwrite' hsome, hs', hwrite (exists_output_before hrel hsome), Layout.edit, Layout.edit,
      Layout.lines, Layout.lines]
    exact congrArg (fun bs => unlines (L.preamble ++ blockLines bs)) (editBlocks_editBlocks _ hrel)

/-- An update of the block with the output neither drops nor writes a comment that one of the
`test` commands acts on. -/
def KeepsCommands (tc : Toolchain Flags Body) (commands : List TestCommand) (func : IrFunction Body)
    (b : Block) (output : List Text) : Prop :=
  ∀ c ∈ commands, (∀ comment ∈ b.droppedComments, isPlain tc c.command func.signature comment) ∧
    ∀ o ∈ output, isPlain tc c.command func.signature { text := outputPrefix ++ o }

/-- Without `test run` and `test interpret` every update does. -/
lemma keepsCommands_of_forall {commands : List TestCommand}
    (h : ∀ c ∈ commands, c.command ≠ "run" ∧ c.command ≠ "interpret") (func : IrFunction Body)
    (b : Block) (output : List Text) : KeepsCommands tc commands func b output := by
  intro c hc
  obtain ⟨hrun, hinterpret⟩ := h c hc
  exact ⟨fun _ _ => isPlain_other tc hrun hinterpret _ _,
    fun _ _ => isPlain_other tc hrun hinterpret _ _⟩

lemma KeepsCommands.commandsIn_eq {commands : List TestCommand} {func : IrFunction Body} {b : Block}
    {output : List Text} (h : KeepsCommands tc commands func b output) {c : TestCommand}
    (hc : c ∈ commands) :
    commandsIn tc c.command func.signature b.comments =
      commandsIn tc c.command func.signature (b.bless output).comments := by
  obtain ⟨hdropped, houtput⟩ := h c hc
  have hwritten : ∀ comment ∈ output.map fun o => ({ text := outputPrefix ++ o } : Comment),
      isPlain tc c.command func.signature comment := by
    intro comment hcomment
    obtain ⟨o, ho, rfl⟩ := List.mem_map.mp hcomment
    exact houtput o ho
  rw [Block.comments_eq, Block.comments_bless]
  simp only [commandsIn_append, commandsIn_of_forall tc hdropped, commandsIn_of_forall tc hwritten,
    List.nil_append]

/-- A function behaves with the comments of an edited block as with its own, when the edit is an
update that neither dropped nor wrote a command. -/
lemma SameFor.of_edit {commands : List TestCommand}
    (hnew : ∀ t ∈ tuples, ∃ c ∈ commands, newSubtest tc c = .ok t.test)
    {fd : IrFunction Body × Details} {details' : Details} {b : Block} {o : Option (List Text)}
    (hcomments : fd.2.comments = b.comments) (hcomments' : details'.comments = (b.edit o).comments)
    (hmis : ∀ output, o = some output → mismatch? tc fd.1 fd.2 = some output)
    (hkeeps : ∀ output, o = some output → KeepsCommands tc commands fd.1 b output) :
    SameFor tc tuples fd.1 fd.2 details' := by
  constructor
  · cases o with
    | none => exact Or.inr (by rw [mismatch?, mismatch?, hcomments', hcomments, Block.edit])
    | some output => exact mismatch?_of_mismatch tc (hmis output rfl) details'
  · intro t ht hname preambleComments target verified
    obtain ⟨c, hmem, hc⟩ := hnew t ht
    refine run_eq_of_commandsIn_eq tc hc hname ?_ preambleComments target verified
    rw [hcomments', hcomments]
    cases o with
    | none => rfl
    | some output => exact (hkeeps output rfl).commandsIn_eq hmem

/-- So it behaves with the details that it has in the edited layout. -/
lemma sameFor_of_edit (hreads : Reads tc options L content testfile)
    (hplan : plan tc testfile = .ok tuples) {i : ℕ} {fd : IrFunction Body × Details}
    {details' : Details} (hfd : testfile.functions[i]? = some fd)
    (hdetails' : (L.edit (outputsOf tc tuples testfile)).details[i]? = some details')
    (hkeeps : ∀ b output, L.blocks[i]? = some b →
      (outputsOf tc tuples testfile)[i]? = some (some output) →
      KeepsCommands tc testfile.commands fd.1 b output) :
    SameFor tc tuples fd.1 fd.2 details' := by
  obtain ⟨b, o, details₁, hb, hcomments, ho, hdetails₁, hcomments'⟩ :=
    hreads.exists_block tuples hfd
  obtain rfl := Option.some.inj (hdetails'.symm.trans hdetails₁)
  refine SameFor.of_edit (plan_ok tc hplan).2 hcomments hcomments' ?_ ?_
  · rintro output rfl
    exact mismatch_of_getElem? tc testfile.preambleComments hfd ho
  · rintro output rfl
    exact hkeeps b output hb ho

/-! ## The verdict of the second run -/

/-- **A second run ends as the first** when no update of the first run drops or writes a comment
that a command of the file acts on, and the first run did not fail the assertion of `update_at`. -/
theorem rerun_same_verdict (hreads : Reads tc options L content testfile)
    (hclean : ∀ l ∈ L.lines, Clean l) (houtput : CleanOutput tc) {w w' : World}
    (hw : w.disk = content)
    (hkeeps : ∀ e ∈ (finalState ((run tc options).run { world := w, trace := [] })).trace,
      ∀ (i : ℕ) b output, testfile.functions[i]? = some (e.func, e.details) →
        L.blocks[i]? = some b → e.update? tc = some output →
        KeepsCommands tc testfile.commands e.func b output)
    (hpanic : Replay.fault? ((run tc options).run { world := w, trace := [] }) ≠
      some (.panic .updateNotAfterLast))
    (hw' : w'.disk = (finalState ((run tc options).run { world := w, trace := [] })).world.disk) :
    Replay.fault? ((run tc options).run { world := w', trace := [] }) =
      Replay.fault? ((run tc options).run { world := w, trace := [] }) := by
  have hparse : tc.parseTest w.disk options = .ok testfile := by rw [hw, hreads.parse]
  cases hplan : plan tc testfile with
  | error f =>
    have hrun {v : World} (hv : tc.parseTest v.disk options = .ok testfile) :
        (run tc options).run { world := v, trace := [] } =
          .error f { world := v, trace := [] } := by
      rw [run_of_parse tc hv, runTestFile_eq_plan, hplan]
    rw [hrun hparse] at hw'
    have hdisk : w'.disk = w.disk := hw'
    rw [hrun hparse, hrun (by rw [hdisk, hparse])]
    rfl
  | ok tuples =>
    have hcontent : lines w.disk = L.lines := by rw [hw, hreads.content_lines]
    obtain ⟨-, -, -, hblessed⟩ :=
      run_of_layout (s := { world := w, trace := [] }) hcontent hparse hreads.details hclean houtput
        hplan
    refine (rerun_of_layout hreads hclean houtput hplan hw hw' hpanic ?_).1
    intro i fd details' hfd hdetails'
    refine sameFor_of_edit hreads hplan hfd hdetails' fun b output hb ho => ?_
    obtain ⟨e, he, hfunc, hdetails, hup⟩ := hblessed i fd output hfd ho
    have hfd' : testfile.functions[i]? = some (e.func, e.details) := by rw [hfd, hfunc, hdetails]
    rw [← hfunc]
    exact hkeeps e he i b output hfd' hb hup

end

/-- The function `%f` that returns one, with these lines behind it. -/
def Block.one (trailer : List Text) (h : ∀ l ∈ trailer, isTrailerLine l) : Block where
  header := "function %f() -> i32 \x7b".toList
  body := ["block0:".toList, "    v0 = iconst.i32 1".toList, "    return v0".toList]
  closing := closingBrace
  trailer := trailer
  header_function := by decide
  body_open := by decide
  closing_brace := Block.startsWith_closingBrace
  trailer_comments := h

/-- A file with `test compile precise-output` and `test interpret`, where `%f` has these lines
behind it. -/
def Layout.compileInterpret (trailer : List Text)
    (h : ∀ l ∈ trailer, isTrailerLine l := by decide) : Layout where
  preamble := ["test compile precise-output".toList, "test interpret".toList, []]
  blocks := [Block.one trailer h]

/-- A run command that calls `%f` and expects two. -/
def runF : Text := "; run: %f() == 2".toList

/-- A toolchain that compiles every function to `ret` and interprets it as returning one. -/
def Toolchain.interpreting : Toolchain Settings Unit :=
  { Toolchain.compiling with
    parseRunCommand := fun text _ =>
      if text = runF then
        .ok (some { func := ['f'], args := [], accepts := fun results => results = [.i32 2] })
      else .ok none
    callByName := fun _ _ _ => .ok (.return_ [.i32 1]) }

lemma isPlain_interpreting {comment : Comment} (h : comment.text ≠ runF) (command : String)
    (signature : Signature) : isPlain Toolchain.interpreting command signature comment := by
  have hrun : isRunCommand Toolchain.interpreting signature comment = false :=
    (isRunCommand_eq_false_iff _).mpr (if_neg h)
  have hheap : isHeapCommand Toolchain.interpreting comment = false :=
    (isHeapCommand_eq_false_iff _).mpr rfl
  unfold isPlain
  split
  · simp [hrun, hheap]
  · split
    · simp [hrun]
    · rfl

/-- The update of a stale expectation keeps the commands, and the second run passes as the first. -/
theorem rerun_same_verdict_interpreting :
    let r := (run Toolchain.interpreting {}).run
      { world := World.ofLayout (.compileInterpret ["; stale".toList]), trace := [] }
    Replay.fault? r = none ∧
      Replay.fault? ((run Toolchain.interpreting {}).run
        { world := (finalState r).world, trace := [] }) = none := by
  intro r
  have hnone : Replay.fault? r = none := by decide +kernel
  have hplain : Layout.Plain (.compileInterpret ["; stale".toList]) := ⟨by decide, by decide⟩
  have hclean : ∀ l ∈ (Layout.compileInterpret ["; stale".toList]).lines, Clean l := by decide
  have hreads := @reads_of_plain Toolchain.interpreting (fun _ _ => rfl) _ hplain hclean {}
  have houtput : CleanOutput Toolchain.interpreting :=
    fun func compiled h => cleanOutput_compiling func compiled h
  have hpanic : Replay.fault? r ≠ some (.panic .updateNotAfterLast) := by
    rw [hnone]
    intro h
    cases h
  refine ⟨hnone, (rerun_same_verdict hreads hclean houtput rfl ?_ hpanic rfl).trans hnone⟩
  intro e _ i b output _ hb hup c _
  obtain rfl := List.mem_singleton.mp (List.mem_of_getElem? hb)
  constructor
  · intro comment hcomment
    obtain rfl := List.mem_singleton.mp hcomment
    exact isPlain_interpreting (by decide) _ _
  · intro o ho
    obtain ⟨compiled, hc, rfl, -⟩ := exists_compiled _ (mismatch_of_update _ hup)
    obtain rfl := Except.ok.inj hc
    obtain rfl := List.mem_singleton.mp ho
    exact isPlain_interpreting (by decide) _ _

/-- The update drops the run command that made the first run fail, and the second run passes. -/
theorem update_drops_run_command :
    let L := Layout.compileInterpret [runF]
    let r := (run Toolchain.interpreting {}).run { world := World.ofLayout L, trace := [] }
    (readTest (unlines L.lines)).commands =
        [{ command := "compile", options := [.flag "precise-output"] },
          { command := "interpret" }] ∧
      lines (unlines L.lines) = L.lines ∧
      Replay.fault? r = some (.err (.context "interpret" .runCommandFailed)) ∧
      Replay.fault? ((run Toolchain.interpreting {}).run
        { world := (finalState r).world, trace := [] }) = none := by
  intro L r
  refine ⟨rfl, ?_, ?_, ?_⟩
  · decide +kernel
  · decide +kernel
  · decide +kernel

end CiRunner
