import CiRunner.ReachedWorlds
import CiRunner.Rerun

/-!
# Runs that are interrupted

A run may be stopped between any two invocations, or fail at any of them.  On a file in column-0
layout the test file is then never left half updated (`interrupted_run`): but for `\r`s at the ends
of lines, each block is as it was before the run, or is blessed with the disassembly of its
function, by an invocation that was made.  (Reading and writing the file succeed, so a run is not
stopped in the middle of a write.)

The invocations on one function move the front past its block, however many of them are made and
however they end (`play_about_front`); by induction a prefix of the schedule makes some of the
updates, from front to back, and no others.
-/

namespace CiRunner

open TextLines Replay

variable {Flags Body : Type} (tc : Toolchain Flags Body) (preambleComments : List Comment)

/-- The invocations are of known subtests, on the one function. -/
def About (fd : IrFunction Body × Details) (es : List (Event Flags Body)) : Prop :=
  ∀ e ∈ es, e.Known tc ∧ e.func = fd.1 ∧ e.details = fd.2

/-- The front, with `b` and then `bs`, has moved past `b`: the function there was updated with `o`,
if that is an output. -/
structure Passed (base : ℕ) (b : Block) (bs : List Block) (location : Location)
    (o : Option (List Text)) (w w' : World) : Prop where
  front : ∃ pre bs', Front (base + b.lines.length) pre bs' w' ∧
    headerLines (base + b.lines.length) bs' = headerLines (base + b.lines.length) bs
  updates : ∀ locations outputs, (updateAll (location :: locations) (o :: outputs)).run w =
    (updateAll locations outputs).run w'

/-- **Invocations on the function at the front.**  They leave the file alone or bless the block
there, and the front moves past it. -/
lemma play_about_front {base : ℕ} {pre : List Text} {b : Block} {bs : List Block} {w : World}
    (hfront : Front base pre (b :: bs) w) {fd : IrFunction Body × Details}
    (hline : fd.2.location.lineNumber = base + 1) {es : List (Event Flags Body)}
    (hes : About tc fd es) :
    let p := play (perform tc preambleComments) es w
    ∃ o, Passed base b bs fd.2.location o w (finalState p.2) ∧
      ∀ output, o = some output → ∃ e ∈ p.1, e.Blesses tc fd output := by
  intro p
  have hskip : Passed base b bs fd.2.location none w w :=
    ⟨⟨_, _, hfront.skip, rfl⟩, fun _ _ => rfl⟩
  cases hmis : mismatch? tc fd.1 fd.2 with
  | none =>
    have hfinal : finalState p.2 = w := by
      refine play_invariant (I := fun v => v = w) (fun e he v hv => ?_) rfl
      obtain ⟨hknown, hfunc, hdetails⟩ := hes e ((executed_initial _ _ _).subset he)
      have hup : e.update? tc = none := by
        by_contra hne
        obtain ⟨output, houtput⟩ := Option.ne_none_iff_exists'.mp hne
        have h := mismatch_of_update tc houtput
        rw [hfunc, hdetails, hmis] at h
        cases h
      rw [perform_of_pure tc preambleComments hknown hup]
      split <;> exact hv
    exact ⟨none, by rwa [hfinal], by simp⟩
  | some output =>
    obtain ⟨w', hrun, -, hlast, hfront'⟩ := hfront.update hline (newline_notMem_mismatch tc hmis)
    have hfinal : finalState p.2 = w ∨
        finalState p.2 = w' ∧ ∃ e ∈ p.1, e.Blesses tc fd output := by
      refine play_invariant (I := fun v => v = w ∨ v = w' ∧ ∃ e ∈ p.1, e.Blesses tc fd output)
        (fun e he v hv => ?_) (Or.inl rfl)
      obtain ⟨hknown, hfunc, hdetails⟩ := hes e ((executed_initial _ _ _).subset he)
      cases hup : e.update? tc with
      | none =>
        rw [perform_of_pure tc preambleComments hknown hup]
        split <;> exact hv
      | some output' =>
        have h := mismatch_of_update tc hup
        rw [hfunc, hdetails, hmis] at h
        obtain rfl := Option.some.inj h
        rw [perform_of_update tc preambleComments hknown hup, hdetails]
        refine Or.inr ⟨?_, e, he, hfunc, hdetails, hup⟩
        rcases hv with rfl | ⟨rfl, -⟩
        · rw [hrun]
          rfl
        · -- a second update fails the assertion, and leaves the world alone
          rw [updateAt_of_le hlast.ge]
          rfl
    rcases hfinal with hfinal | ⟨hfinal, hmade⟩
    · exact ⟨none, by rwa [hfinal], by simp⟩
    · refine ⟨some output, ?_, ?_⟩
      · rw [hfinal]
        exact ⟨⟨_, _, hfront', headerLines_chomped _ _⟩, fun _ _ => bind_of_ok hrun⟩
      · rintro output' houtput
        obtain rfl := Option.some.inj houtput
        exact hmade

/-- A function that an executed invocation updated is blessed in the end. -/
lemma finalState_of_update {es : List (Event Flags Body)} {blessed : Bool} {e : Event Flags Body}
    (he : e ∈ (play (blessStep tc preambleComments) es blessed).1) {output : List Text}
    (hup : e.update? tc = some output) :
    finalState (play (blessStep tc preambleComments) es blessed).2 = true := by
  have hblessed (b : Bool) : finalState ((blessStep tc preambleComments e).run b) = true := by
    rw [blessStep_of_update tc preambleComments hup]
    cases b <;> rfl
  have hstays (es : List (Event Flags Body)) :
      finalState (play (blessStep tc preambleComments) es true).2 = true := by
    refine play_invariant (I := fun b => b = true) (fun e' _ b hb => ?_) rfl
    cases hup' : e'.update? tc with
    | none =>
      rw [blessStep_of_pure tc preambleComments hup']
      split <;> exact hb
    | some output' =>
      rw [blessStep_of_update tc preambleComments hup']
      cases b <;> rfl
  induction es generalizing blessed with
  | nil => cases he
  | cons e' es ih =>
    rcases step_cases (blessStep tc preambleComments) e' blessed with ⟨b, hb⟩ | ⟨f, b, hb⟩
    · rw [play_cons_of_ok hb] at he ⊢
      rcases List.mem_cons.mp he with rfl | he
      · have h := hblessed blessed
        rw [hb] at h
        obtain rfl : b = true := h
        exact hstays es
      · exact ih he
    · rw [play_cons_of_error hb] at he ⊢
      obtain rfl : e = e' := by simpa using he
      have h := hblessed blessed
      rwa [hb] at h

/-- What part of the invocations on a function blesses it with, all of them do. -/
lemma blessing_of_executed {tuples : List (TestTuple Flags Body)}
    (hknown : ∀ t ∈ tuples, t.test.Known tc) {base : ℕ} {pre : List Text} {b : Block}
    {bs : List Block} {w : World} (hfront : Front base pre (b :: bs) w)
    {fd : IrFunction Body × Details} (hline : fd.2.location.lineNumber = base + 1)
    {cs : List (Event Flags Body)} (hcs : cs <+: functionCalls tuples fd.1 fd.2)
    {e : Event Flags Body} {output : List Text}
    (he : e ∈ (play (perform tc preambleComments) cs w).1) (hblesses : e.Blesses tc fd output) :
    blessing tc preambleComments tuples fd = some output := by
  obtain ⟨hfunc, hdetails, hup⟩ := hblesses
  have hmis : mismatch? tc fd.1 fd.2 = some output := by
    rw [← hfunc, ← hdetails]
    exact mismatch_of_update tc hup
  obtain ⟨w', hrun, -, hlast, -⟩ := hfront.update hline (newline_notMem_mismatch tc hmis)
  have hupdate : ∀ output', mismatch? tc fd.1 fd.2 = some output' →
      (updateAt fd.2.location (spliceOutput output')).run w = .ok () w' ∧
        fd.2.location.lineNumber ≤ w'.fileUpdate.lastUpdate := by
    intro output' houtput'
    obtain rfl := Option.some.inj (hmis.symm.trans houtput')
    exact ⟨hrun, hlast.ge⟩
  have htrace := (play_functionCalls tc preambleComments hknown hupdate).1
  obtain ⟨rest, hrest⟩ := hcs
  have hmem : e ∈ (blessCalls tc preambleComments tuples fd).1 := by
    rw [← htrace, ← hrest]
    exact (executed_append _ cs rest w).subset he
  rw [blessing, blessCalls, finalState_of_update tc preambleComments hmem hup, if_pos rfl, hmis]

/-! ## Part of a run -/

lemma length_headerLines (base : ℕ) (bs : List Block) :
    (headerLines base bs).length = bs.length := by
  induction bs generalizing base with
  | nil => rfl
  | cons b bs ih => simp [headerLines, ih]

/-- Some of the outputs, and none in place of the others. -/
def Among (os os' : List (Option (List Text))) : Prop :=
  List.Forall₂ (fun o o' => o = none ∨ o = o') os os'

lemma among_none {α : Type} {xs : List α} {os : List (Option (List Text))}
    (h : xs.length = os.length) : Among (xs.map fun _ => none) os := by
  rw [Among, List.forall₂_map_left_iff, List.forall₂_iff_zip]
  exact ⟨h, fun _ => Or.inl rfl⟩

lemma Among.mem {os os' : List (Option (List Text))} (h : Among os os') {output : List Text}
    (houtput : some output ∈ os) : some output ∈ os' := by
  induction h with
  | nil => cases houtput
  | cons ho _ ih =>
    rcases List.mem_cons.mp houtput with rfl | houtput
    · rcases ho with ho | rfl
      · cases ho
      · exact List.mem_cons_self
    · exact List.mem_cons_of_mem _ (ih houtput)

/-- Each output was written by one of the invocations, on the function it belongs to. -/
def MadeBy (es : List (Event Flags Body)) (fds : List (IrFunction Body × Details))
    (outputs : List (Option (List Text))) : Prop :=
  ∀ (i : ℕ) fd output, fds[i]? = some fd → outputs[i]? = some (some output) →
    ∃ e ∈ es, e.Blesses tc fd output

lemma madeBy_none (es : List (Event Flags Body)) (fds fds' : List (IrFunction Body × Details)) :
    MadeBy tc es fds (fds'.map fun _ => none) := by
  intro i fd output _ houtput
  cases List.eq_of_mem_replicate (List.mem_of_getElem? (by simpa using houtput))

variable {tc} in
lemma MadeBy.cons {es : List (Event Flags Body)} {fds : List (IrFunction Body × Details)}
    {outputs : List (Option (List Text))} (h : MadeBy tc es fds outputs)
    {fd : IrFunction Body × Details} {o : Option (List Text)}
    (ho : ∀ output, o = some output → ∃ e ∈ es, e.Blesses tc fd output) :
    MadeBy tc es (fd :: fds) (o :: outputs) := by
  intro i fd' output hfd' houtput
  cases i with
  | zero =>
    obtain rfl : fd = fd' := by simpa using hfd'
    exact ho output (by simpa using houtput)
  | succ i => exact h i fd' output (by simpa using hfd') (by simpa using houtput)

variable {tc} in
lemma MadeBy.mono {es es' : List (Event Flags Body)} {fds : List (IrFunction Body × Details)}
    {outputs : List (Option (List Text))} (h : MadeBy tc es fds outputs) (hsub : es ⊆ es') :
    MadeBy tc es' fds outputs := by
  intro i fd output hfd houtput
  obtain ⟨e, he, hblesses⟩ := h i fd output hfd houtput
  exact ⟨e, hsub he, hblesses⟩

/-- The outputs are some of those of the whole schedule, lead from `w` to `w'`, and were written by
the invocations. -/
structure Written (tuples : List (TestTuple Flags Body)) (fds : List (IrFunction Body × Details))
    (es : List (Event Flags Body)) (outputs : List (Option (List Text))) (w w' : World) :
    Prop where
  among : Among outputs (blessings tc preambleComments tuples fds).1
  run : (updateAll (fds.map (·.2.location)) outputs).run w = .ok () w'
  madeBy : MadeBy tc es fds outputs

/-- Part of the invocations on the function at the front. -/
lemma play_calls_front {tuples : List (TestTuple Flags Body)}
    (hknown : ∀ t ∈ tuples, t.test.Known tc) {base : ℕ} {pre : List Text} {b : Block}
    {bs : List Block} {w : World} (hfront : Front base pre (b :: bs) w)
    {fd : IrFunction Body × Details} (hline : fd.2.location.lineNumber = base + 1)
    {cs : List (Event Flags Body)} (hcs : cs <+: functionCalls tuples fd.1 fd.2) :
    let p := play (perform tc preambleComments) cs w
    ∃ o, Passed base b bs fd.2.location o w (finalState p.2) ∧
      (o = none ∨ o = blessing tc preambleComments tuples fd) ∧
      ∀ output, o = some output → ∃ e ∈ p.1, e.Blesses tc fd output := by
  intro p
  obtain ⟨o, hpassed, hmade⟩ := play_about_front tc preambleComments hfront hline
    fun e he => of_mem_functionCalls tc hknown (hcs.subset he)
  refine ⟨o, hpassed, ?_, hmade⟩
  cases o with
  | none => exact Or.inl rfl
  | some output =>
    obtain ⟨e, he, hblesses⟩ := hmade output rfl
    exact Or.inr
      (blessing_of_executed tc preambleComments hknown hfront hline hcs he hblesses).symm

section
variable {tuples : List (TestTuple Flags Body)} {fd : IrFunction Body × Details}
  {fds : List (IrFunction Body × Details)} {base : ℕ} {b : Block} {bs : List Block}
  {o : Option (List Text)} {es : List (Event Flags Body)} {w v w' : World}

/-- A run that comes to no other function. -/
lemma written_of_stop (hpassed : Passed base b bs fd.2.location o w w')
    (ho : o = none ∨ o = blessing tc preambleComments tuples fd)
    (hmade : ∀ output, o = some output → ∃ e ∈ es, e.Blesses tc fd output) :
    Written tc preambleComments tuples (fd :: fds) es (o :: fds.map fun _ => none) w w' where
  among := by
    rw [blessings]
    split
    · exact List.Forall₂.cons ho (among_none (by simp))
    · exact List.Forall₂.cons ho (among_none (by simp [length_blessings]))
  run := by
    rw [List.map_cons, hpassed.updates]
    exact updateAll_none _ _ _
  madeBy := (madeBy_none tc es fds fds).cons hmade

/-- A run that goes on with the other functions. -/
lemma Written.cons {outputs : List (Option (List Text))} {es' : List (Event Flags Body)}
    (h : Written tc preambleComments tuples fds es' outputs v w')
    (hpassed : Passed base b bs fd.2.location o w v)
    (ho : o = none ∨ o = blessing tc preambleComments tuples fd)
    (hfault : Replay.fault? (blessCalls tc preambleComments tuples fd).2 = none)
    (hmade : ∀ output, o = some output → ∃ e ∈ es, e.Blesses tc fd output) :
    Written tc preambleComments tuples (fd :: fds) (es ++ es') (o :: outputs) w w' where
  among := by
    rw [blessings, hfault]
    exact List.Forall₂.cons ho h.among
  run := by
    rw [List.map_cons, hpassed.updates]
    exact h.run
  madeBy := by
    refine (h.madeBy.mono (List.subset_append_right es es')).cons fun output houtput => ?_
    obtain ⟨e, he, hblesses⟩ := hmade output houtput
    exact ⟨e, List.mem_append_left _ he, hblesses⟩

end

/-- **Part of a schedule.**  It makes some of the updates of the whole schedule, from front to back,
each by an invocation that was made. -/
lemma play_prefix_front {tuples : List (TestTuple Flags Body)}
    (hknown : ∀ t ∈ tuples, t.test.Known tc) {base : ℕ} {pre : List Text} {blocks : List Block}
    {w : World} (hfront : Front base pre blocks w) {fds : List (IrFunction Body × Details)}
    (hlines : fds.map (·.2.location.lineNumber) = headerLines base blocks)
    {es : List (Event Flags Body)} (hes : es <+: schedule tuples fds) :
    let p := play (perform tc preambleComments) es w
    ∃ outputs, Written tc preambleComments tuples fds p.1 outputs w (finalState p.2) := by
  induction fds generalizing base pre blocks w es with
  | nil =>
    obtain rfl : es = [] := List.prefix_nil.mp hes
    exact ⟨[], List.Forall₂.nil, rfl, madeBy_none tc [] [] []⟩
  | cons fd fds ih =>
    obtain ⟨b, bs, rfl⟩ : ∃ b bs, blocks = b :: bs := by
      cases blocks with
      | nil => simp [headerLines] at hlines
      | cons b bs => exact ⟨b, bs, rfl⟩
    simp only [List.map_cons, headerLines, List.cons.injEq] at hlines
    obtain ⟨hline, hlines⟩ := hlines
    have hstop {cs : List (Event Flags Body)} (hcs : cs <+: functionCalls tuples fd.1 fd.2) :
        let p := play (perform tc preambleComments) cs w
        ∃ outputs, Written tc preambleComments tuples (fd :: fds) p.1 outputs w
          (finalState p.2) := by
      obtain ⟨o, hpassed, ho, hmade⟩ :=
        play_calls_front tc preambleComments hknown hfront hline hcs
      exact ⟨_, written_of_stop tc preambleComments hpassed ho hmade⟩
    rw [schedule_cons] at hes
    rcases List.prefix_or_prefix_of_prefix hes (List.prefix_append _ _) with hcs | ⟨es', rfl⟩
    · exact hstop hcs
    rcases play_cases (perform tc preambleComments) (functionCalls tuples fd.1 fd.2) w with
      ⟨v, hv⟩ | ⟨f, v, hv⟩
    · obtain ⟨o, hpassed, ho, hmade⟩ :=
        play_calls_front tc preambleComments hknown hfront hline List.prefix_rfl
      have hfault := (play_functionCalls_front tc preambleComments hknown hfront hline).1
      rw [hv] at hpassed hfault
      obtain ⟨pre', bs', hfront', hlines'⟩ := hpassed.front
      obtain ⟨outputs, hwritten⟩ := ih hfront' (hlines.trans hlines'.symm)
        ((List.prefix_append_right_inj _).mp hes)
      rw [play_append_of_ok hv]
      rw [play_eq_of_ok hv] at hmade
      exact ⟨o :: outputs, hwritten.cons tc preambleComments hpassed ho hfault.symm hmade⟩
    · rw [play_append_of_error hv]
      exact hstop List.prefix_rfl

lemma Layout.edit_of_forall_none {L : Layout} {os : List (Option (List Text))}
    (h : ∀ o ∈ os, o = none) : L.edit os = L := by
  rw [Layout.edit, editBlocks_of_forall_none _ h]

variable {tc}

/-- A run that passes through worlds has a plan. -/
lemma Reached.exists_plan {options : ParseOptions} {content : Text}
    {testfile : TestFile Flags Body} (hparse : tc.parseTest content options = .ok testfile)
    {es : List (Event Flags Body)} {w : World} (h : Reached tc options content es w) :
    ∃ tuples, plan tc testfile = .ok tuples := by
  obtain ⟨testfile', tuples, _, hparse', hplan, -⟩ := h
  obtain rfl : testfile' = testfile := Except.ok.inj (hparse'.symm.trans hparse)
  exact ⟨tuples, hplan⟩

/-- The file in a world that a run passes through has some of the edits of the whole run. -/
lemma Reached.exists_edit {options : ParseOptions} {L : Layout} {content : Text}
    {testfile : TestFile Flags Body} {tuples : List (TestTuple Flags Body)}
    (hcontent : lines content = L.lines) (hparse : tc.parseTest content options = .ok testfile)
    (hplan : plan tc testfile = .ok tuples)
    (hlines : testfile.functions.map (·.2.location.lineNumber) = L.headerLines)
    {es : List (Event Flags Body)} {w : World} (h : Reached tc options content es w) :
    ∃ outputs, outputs.length = L.blocks.length ∧
      Among outputs (blessings tc testfile.preambleComments tuples testfile.functions).1 ∧
      ((∀ o ∈ outputs, o = none) → w.disk = content) ∧
      ((∃ output, some output ∈ outputs) → Holds (L.edit outputs).lines w.disk) ∧
      ∀ (i : ℕ) fd output, testfile.functions[i]? = some fd →
        outputs[i]? = some (some output) → ∃ e ∈ es, e.Blesses tc fd output := by
  obtain ⟨testfile', tuples', r, hparse', hplan', hes, hplay, rfl⟩ := h
  obtain rfl : testfile' = testfile := Except.ok.inj (hparse'.symm.trans hparse)
  obtain rfl : tuples' = tuples := Except.ok.inj (hplan'.symm.trans hplan)
  obtain ⟨outputs, hamong, hrun, hmade⟩ := play_prefix_front tc testfile'.preambleComments
    (plan_known tc hplan) (Front.start hcontent) hlines hes
  rw [World.fresh] at hplay
  rw [hplay] at hrun hmade
  have hlength : outputs.length = L.blocks.length := by
    rw [List.Forall₂.length_eq hamong, length_blessings, ← length_headerLines L.preamble.length,
      ← Layout.headerLines, ← hlines, List.length_map]
  have houtputs : ∀ output, some output ∈ outputs → ∀ o ∈ output, '\n' ∉ o := by
    intro output houtput
    exact newline_notMem_blessings tc testfile'.preambleComments (hamong.mem houtput)
  obtain ⟨w', hrun', hsame, hholds⟩ :=
    exists_updateAll (Front.start hcontent) (by rwa [List.map_map]) hlength houtputs
  obtain rfl : w' = finalState r := by simpa using hrun'.symm.trans hrun
  exact ⟨outputs, hlength, hamong, fun hnone => by rw [hsame hnone], hholds, hmade⟩

/-- **A run that is interrupted** leaves no function half updated.  Wherever the run of a file in
column-0 layout stops, each block is as it was, or blessed with the disassembly of its function by
an invocation that was made, but for `\r`s at the ends of lines. -/
theorem interrupted_run {options : ParseOptions} {L : Layout} {content : Text}
    {testfile : TestFile Flags Body} (hcontent : lines content = L.lines)
    (hparse : tc.parseTest content options = .ok testfile)
    (hlines : testfile.functions.map (·.2.location.lineNumber) = L.headerLines)
    {es : List (Event Flags Body)} {w : World} (h : Reached tc options content es w) :
    ∃ outputs, outputs.length = L.blocks.length ∧
      List.Forall₂ Chomps (L.edit outputs).lines (lines w.disk) ∧
      ((∀ o ∈ outputs, o = none) → w.disk = content) ∧
      ∀ (i : ℕ) fd output, testfile.functions[i]? = some fd →
        outputs[i]? = some (some output) → ∃ e ∈ es, e.Blesses tc fd output := by
  obtain ⟨tuples, hplan⟩ := h.exists_plan hparse
  obtain ⟨outputs, hlength, -, hsame, hholds, hmade⟩ :=
    h.exists_edit hcontent hparse hplan hlines
  refine ⟨outputs, hlength, ?_, hsame, hmade⟩
  by_cases hnone : ∀ o ∈ outputs, o = none
  · rw [hsame hnone, hcontent, Layout.edit_of_forall_none hnone]
    exact forall₂_chomps_refl _
  · exact (hholds (exists_output hnone)).lines

/-- A file with two functions whose expectations are stale. -/
def Layout.twoStale : Layout where
  preamble := ["test compile".toList, []]
  blocks := [Block.returning 'f' ["; stale".toList] (Block.trailer_comment _),
    Block.returning 'g' ["; stale".toList] (Block.trailer_comment _)]

/-- What is read there. -/
def TestFile.twoStale : TestFile Settings Unit where
  commands := [{ command := "compile" }]
  isaSpec := .none []
  preambleComments := []
  functions := [
    (IrFunction.sample 'f',
      { location := { lineNumber := 3 }, comments := [{ text := "; stale".toList }] }),
    (IrFunction.sample 'g',
      { location := { lineNumber := 8 }, comments := [{ text := "; stale".toList }] })]

lemma readTest_twoStale : readTest (unlines Layout.twoStale.lines) = TestFile.twoStale := rfl

lemma reads_twoStale : Reads Toolchain.compiling {} Layout.twoStale (unlines Layout.twoStale.lines)
    TestFile.twoStale := by
  rw [← readTest_twoStale]
  exact reads_of_plain (fun _ _ => rfl) ⟨by decide, by decide⟩ (by decide) {}

/-- Its one command. -/
def TestTuple.compiling : TestTuple Settings Unit where
  test := TestCompile.toSubTest Toolchain.compiling { preciseOutput := false }
  flags := []
  isa := none

/-- After the invocations on the first function that one is blessed. -/
lemma reached_twoStale : ∃ w,
    Reached Toolchain.compiling {} (unlines Layout.twoStale.lines)
        ((schedule [.compiling] TestFile.twoStale.functions).take 2) w ∧
      w.disk = unlines (Layout.twoStale.edit [some ["ret".toList], none]).lines := by
  have hplan : plan Toolchain.compiling TestFile.twoStale = .ok [.compiling] := rfl
  have hnone : Replay.fault? (play (perform Toolchain.compiling [])
      ((schedule [.compiling] TestFile.twoStale.functions).take 2)
      (World.fresh (unlines Layout.twoStale.lines))).2 = none := by
    decide +kernel
  refine ⟨_, reached_of_play reads_twoStale.parse hplan (List.take_prefix _ _) hnone, ?_⟩
  decide +kernel

/-- Stopped there, the run has blessed the first function and not the second. -/
theorem interrupted_run_twoStale : ∃ es w outputs,
    Reached Toolchain.compiling {} (unlines Layout.twoStale.lines) es w ∧
      w.disk ≠ unlines Layout.twoStale.lines ∧
      List.Forall₂ Chomps (Layout.twoStale.edit outputs).lines (lines w.disk) := by
  obtain ⟨w, hreached, hdisk⟩ := reached_twoStale
  have hchanged : w.disk ≠ unlines Layout.twoStale.lines := by
    rw [hdisk]
    decide +kernel
  obtain ⟨outputs, -, hchomps, -⟩ :=
    interrupted_run reads_twoStale.content_lines reads_twoStale.parse (by decide) hreached
  exact ⟨_, w, outputs, hreached, hchanged, hchomps⟩

end CiRunner
