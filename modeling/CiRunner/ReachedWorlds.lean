import CiRunner.UpdateSafety

/-!
# What every run keeps

Nothing is assumed here about the test file, the reader or the code generator: functions may be laid
out in any way, locations may be wrong, and updates may fail half way.  Only reading the file and
writing it succeed, as everywhere in this development.

A run passes through worlds, one after each of its invocations (`Reached`).  What holds when the
first invocation is made, and is kept by an update at whatever line and with whatever output, holds
in all of them (`Reached.induct`).  This gives two facts about every run.  `lineDiff` is the number
of lines the file has gained since the run began (`lineDiff_of_reached`).  And no line of code is
lost, moved or changed, but for `\r`s at its end (`run_keeps_code`): what an update drops are blank
lines and comments.
-/

namespace CiRunner

open TextLines Replay

variable {Flags Body : Type}

/-! ## The worlds of a run -/

/-- The world in which the first invocation on a file is made. -/
def World.fresh (content : Text) : World := { disk := content, fileUpdate := FileUpdate.new }

section
variable (tc : Toolchain Flags Body) (options : ParseOptions)

/-- A run on the file makes these invocations before any others, the last of which may fail, and
is then in the world `w`. -/
def Reached (content : Text) (es : List (Event Flags Body)) (w : World) : Prop :=
  ∃ testfile tuples r, tc.parseTest content options = .ok testfile ∧
    plan tc testfile = .ok tuples ∧ es <+: schedule tuples testfile.functions ∧
    play (perform tc testfile.preambleComments) es (World.fresh content) = (es, r) ∧
    finalState r = w

/-- A run ends in the world it started in, without an invocation, or in one it passes through. -/
lemma run_cases (s : RunState Flags Body) :
    (finalState ((run tc options).run s)).world = s.world ∨
      ∃ es, Reached tc options s.world.disk es (finalState ((run tc options).run s)).world := by
  cases hparse : tc.parseTest s.world.disk options with
  | error e => exact Or.inl (by rw [finalState_of_parse_error tc hparse])
  | ok testfile =>
    rw [run_of_parse tc hparse, runTestFile_eq_plan]
    cases hplan : plan tc testfile with
    | error f => exact Or.inl rfl
    | ok tuples =>
      let step := perform tc testfile.preambleComments
      let events := schedule tuples testfile.functions
      refine Or.inr ⟨_, testfile, tuples, _, hparse, hplan,
        executed_initial step events (World.fresh s.world.disk),
        play_executed step events (World.fresh s.world.disk), ?_⟩
      simp only [finalState_after]
      rfl

variable {tc options}

/-- Invocations that are the first of a plan, and all succeed, are made. -/
lemma reached_of_play {content : Text} {testfile : TestFile Flags Body}
    (hparse : tc.parseTest content options = .ok testfile) {tuples : List (TestTuple Flags Body)}
    (hplan : plan tc testfile = .ok tuples) {es : List (Event Flags Body)}
    (hes : es <+: schedule tuples testfile.functions)
    (h : Replay.fault?
      (play (perform tc testfile.preambleComments) es (World.fresh content)).2 = none) :
    Reached tc options content es
      (finalState (play (perform tc testfile.preambleComments) es (World.fresh content)).2) := by
  rcases play_ends (perform tc testfile.preambleComments) es (World.fresh content) with
    ⟨w, hplay⟩ | ⟨_, _, _, _, f, w, -, -, -, hplay⟩
  · rw [hplay]
    exact ⟨testfile, tuples, _, hparse, hplan, hes, hplay, rfl⟩
  · rw [hplay] at h
    cases h

/-- **The invariant rule.**  What holds of the file when the first invocation is made, and is kept
by every update, holds in every world the run passes through. -/
theorem Reached.induct {content : Text} {es : List (Event Flags Body)} {w : World}
    (h : Reached tc options content es w) {I : World → Prop} (hstart : I (World.fresh content))
    (hupdate : ∀ location output w, (∀ o ∈ output, '\n' ∉ o) → I w →
      I (finalState ((updateAt location (spliceOutput output)).run w))) : I w := by
  obtain ⟨testfile, tuples, r, -, hplan, hes, hplay, rfl⟩ := h
  have hr : r = (play (perform tc testfile.preambleComments) es (World.fresh content)).2 := by
    rw [hplay]
  rw [hr]
  refine play_invariant (fun e he v hv => ?_) hstart
  have hmem : e ∈ schedule tuples testfile.functions :=
    hes.subset ((executed_initial _ _ _).subset he)
  have hknown : e.Known tc := of_mem_schedule tc (plan_known tc hplan) hmem
  cases hup : e.update? tc with
  | none =>
    rw [perform_of_pure tc _ hknown hup]
    split <;> exact hv
  | some output =>
    have houtput := newline_notMem_mismatch tc (mismatch_of_update tc hup)
    have hkept := hupdate e.details.location output v houtput hv
    rw [perform_of_update tc _ hknown hup]
    cases hrun : (updateAt e.details.location (spliceOutput output)).run v with
    | ok u v' =>
      rw [hrun] at hkept
      exact hkept
    | error f v' =>
      rw [hrun] at hkept
      exact hkept

end

/-! ## One update, however it ends -/

/-- The loop that copies lines fails only when there are too few. -/
lemma exists_of_pushPreserved {n : ℕ} {ls rest : List Text} {newTest newTest' : Text}
    (h : pushPreserved n ls newTest = some (newTest', rest)) :
    ∃ pre, ls = pre ++ rest ∧ newTest' = newTest ++ unlines pre := by
  induction n generalizing ls newTest with
  | zero =>
    obtain ⟨rfl, rfl⟩ : newTest = newTest' ∧ ls = rest := by simpa [pushPreserved] using h
    exact ⟨[], rfl, by simp⟩
  | succ n ih =>
    cases ls with
    | nil => cases h
    | cons l ls =>
      obtain ⟨pre, rfl, rfl⟩ := ih h
      exact ⟨l :: pre, rfl, by simp [pushLine]⟩

/-- The scan for the closing brace fails only at the first line. -/
lemma eq_of_pushFunction {location : Location} {first : Bool} {ls rest : List Text}
    {newTest newTest' : Text} (h : pushFunction location first ls newTest = .ok (newTest', rest)) :
    newTest' = newTest ++ unlines (copied ls) ∧ rest = leftOver ls := by
  cases first with
  | false =>
    rw [pushFunction_scan] at h
    cases h
    exact ⟨rfl, rfl⟩
  | true =>
    cases ls with
    | nil =>
      cases h
      exact ⟨by simp [copied], rfl⟩
    | cons l ls =>
      by_cases hl : startsWith l functionWord
      · rw [pushFunction_eq location hl] at h
        cases h
        exact ⟨rfl, rfl⟩
      · simp [pushFunction, hl] at h

/-- **One update, however it ends.**  Either it leaves the file and `lineDiff` alone, or it splits
the file, copies the first part and what the scan copies of the second, puts the expectation there
and drops what is to be dropped of the rest, and it adds to `lineDiff` the lines gained. -/
lemma updateAt_cases (location : Location) (output : List Text) (w : World) :
    let w' := finalState ((updateAt location (spliceOutput output)).run w)
    (w'.disk = w.disk ∧ w'.fileUpdate.lineDiff = w.fileUpdate.lineDiff) ∨
      (∃ pre ls, lines w.disk = pre ++ ls ∧
        w'.disk = unlines (pre ++ (copied ls ++ (expectation output ++
          (leftOver ls).dropWhile isDropped)))) ∧
      w'.fileUpdate.lineDiff = w.fileUpdate.lineDiff +
        ((lines w'.disk).length - (lines w.disk).length) := by
  obtain ⟨oldTest, lineDiff, lastUpdate⟩ := w
  by_cases hlast : lastUpdate < location.lineNumber
  · cases hpreserve : pushPreserved
        (asUsize ((location.lineNumber - 1 : ℕ) + lineDiff)) (lines oldTest) [] with
    | none =>
      left
      simp only [updateAt, EStateM.run_bind, Replay.run_get, Replay.run_set, gt_iff_lt, hlast,
        if_true, hpreserve]
      exact ⟨rfl, rfl⟩
    | some p =>
      obtain ⟨newTest, rest⟩ := p
      cases hfunction : pushFunction location true rest newTest with
      | error e =>
        left
        simp only [updateAt, EStateM.run_bind, Replay.run_get, Replay.run_set, gt_iff_lt, hlast,
          if_true, hpreserve, hfunction]
        exact ⟨rfl, rfl⟩
      | ok q =>
        obtain ⟨newTest', rest'⟩ := q
        right
        obtain ⟨pre, hlines, rfl⟩ := exists_of_pushPreserved hpreserve
        obtain ⟨rfl, rfl⟩ := eq_of_pushFunction hfunction
        simp only [updateAt, EStateM.run_bind, Replay.run_get, Replay.run_set, gt_iff_lt, hlast,
          if_true, hpreserve, hfunction]
        refine ⟨⟨pre, rest, hlines, ?_⟩, rfl⟩
        have hdisk : spliceOutput output ([] ++ unlines pre ++ unlines (copied rest))
            (leftOver rest) = unlines (pre ++ (copied rest ++ (expectation output ++
              (leftOver rest).dropWhile isDropped))) := by
          rw [spliceOutput_eq]
          simp [unlines_append, expectation]
        exact hdisk
  · left
    rw [updateAt_of_le (by simpa using hlast)]
    exact ⟨rfl, rfl⟩

/-! ## The count of lines -/

/-- **`lineDiff` counts the lines gained**, in every world a run passes through. -/
theorem lineDiff_of_reached {tc : Toolchain Flags Body} {options : ParseOptions} {content : Text}
    {es : List (Event Flags Body)} {w : World} (h : Reached tc options content es w) :
    w.fileUpdate.lineDiff = (lines w.disk).length - (lines content).length := by
  refine h.induct (I := fun w => w.fileUpdate.lineDiff =
    (lines w.disk).length - (lines content).length) ?_ fun location output w _ hw => ?_
  · simp [World.fresh, FileUpdate.new]
  · rcases updateAt_cases location output w with ⟨hdisk, hdiff⟩ | ⟨-, hdiff⟩
    · rw [hdiff, hdisk, hw]
    · rw [hdiff, hw]
      omega

/-- The update of a stale expectation of one line gains two empty ones. -/
theorem lineDiff_of_reached_stale :
    let content := unlines (Layout.testing ["test compile"] ["; stale".toList]).lines
    let w := (finalState ((run Toolchain.compiling {}).run
      { world := World.fresh content, trace := [] })).world
    (lines w.disk).length = (lines content).length + 2 := by
  intro content w
  let s : RunState Settings Unit := { world := World.fresh content, trace := [] }
  have hgained : w.fileUpdate.lineDiff = 2 := by decide +kernel
  have hstart : s.world.fileUpdate.lineDiff = 0 := rfl
  have hcases := run_cases Toolchain.compiling {} s
  have hw : (finalState ((run Toolchain.compiling {}).run s)).world = w := rfl
  rw [hw] at hcases
  clear_value w
  obtain ⟨es, hreached⟩ : ∃ es, Reached Toolchain.compiling {} content es w := by
    refine hcases.resolve_left fun h => ?_
    rw [h, hstart] at hgained
    cases hgained
  have hdiff := lineDiff_of_reached hreached
  omega

/-! ## Code -/

/-- The lines that are neither blank nor comments at column 0. -/
def codeLines (content : Text) : List Text := (lines content).filter fun l => !isDropped l

lemma filter_map_chomp (ls : List Text) :
    (ls.map chomp).filter (fun l => !isDropped l) =
      (ls.filter fun l => !isDropped l).map chomp := by
  rw [List.filter_map]
  simp only [Function.comp_def, isDropped_chomp]

lemma filter_dropWhile (ls : List Text) :
    (ls.dropWhile isDropped).filter (fun l => !isDropped l) = ls.filter fun l => !isDropped l := by
  induction ls with
  | nil => rfl
  | cons l ls ih =>
    by_cases hl : isDropped l
    · rw [List.dropWhile_cons_of_pos hl, ih, List.filter_cons_of_neg (by simp [hl])]
    · rw [List.dropWhile_cons_of_neg hl]

lemma filter_expectation (output : List Text) :
    (expectation output).filter (fun l => !isDropped l) = [] := by
  rw [List.filter_eq_nil_iff]
  intro l hl
  simp only [expectation, Block.outputLines, List.mem_cons, List.mem_append, List.mem_map,
    List.not_mem_nil, or_false] at hl
  rcases hl with rfl | ⟨o, -, rfl⟩ | rfl
  · simp [isDropped_nil]
  · simp [isDropped_output]
  · simp [isDropped_nil]

/-- An update keeps the code, and takes a `\r` off each line that ends in one. -/
lemma codeLines_updateAt (location : Location) {output : List Text}
    (houtput : ∀ o ∈ output, '\n' ∉ o) (w : World) :
    List.Forall₂ Chomps (codeLines w.disk)
      (codeLines (finalState ((updateAt location (spliceOutput output)).run w)).disk) := by
  rcases updateAt_cases location output w with ⟨hdisk, -⟩ | ⟨⟨pre, ls, hlines, hdisk⟩, -⟩
  · rw [hdisk]
    exact forall₂_chomps_refl _
  · have hold : ∀ l ∈ pre ++ ls, '\n' ∉ l := fun l hl =>
      newline_notMem_of_mem_lines (hlines ▸ hl)
    rw [← copied_append_leftOver ls] at hlines hold
    have hnew : ∀ l ∈ pre ++ (copied ls ++ (expectation output ++
        (leftOver ls).dropWhile isDropped)), '\n' ∉ l := by
      intro l hl
      simp only [List.mem_append] at hl hold
      rcases hl with hl | hl | hl | hl
      · exact hold l (Or.inl hl)
      · exact hold l (Or.inr (Or.inl hl))
      · exact (expectation_trailer houtput l hl).2
      · exact hold l (Or.inr (Or.inr ((List.dropWhile_suffix _).subset hl)))
    have hcode : codeLines (finalState ((updateAt location (spliceOutput output)).run w)).disk =
        (codeLines w.disk).map chomp := by
      rw [codeLines, hdisk, lines_unlines hnew, filter_map_chomp, codeLines, hlines]
      simp only [List.filter_append, filter_expectation, filter_dropWhile, List.nil_append]
    rw [hcode]
    exact forall₂_chomps_chomp _

/-- In every world a run passes through. -/
lemma codeLines_of_reached {tc : Toolchain Flags Body} {options : ParseOptions} {content : Text}
    {es : List (Event Flags Body)} {w : World} (h : Reached tc options content es w) :
    List.Forall₂ Chomps (codeLines content) (codeLines w.disk) :=
  h.induct (I := fun w => List.Forall₂ Chomps (codeLines content) (codeLines w.disk))
    (forall₂_chomps_refl _) fun location _ w houtput hw =>
      forall₂_chomps_trans hw (codeLines_updateAt location houtput w)

/-- **No run loses code.**  Whatever the file, and however the run ends, the lines that are neither
blank nor comments at column 0 are those that there were, in their order, but for `\r`s at their
ends. -/
theorem run_keeps_code (tc : Toolchain Flags Body) (options : ParseOptions)
    (s : RunState Flags Body) :
    List.Forall₂ Chomps (codeLines s.world.disk)
      (codeLines (finalState ((run tc options).run s)).world.disk) := by
  rcases run_cases tc options s with h | ⟨es, h⟩
  · rw [h]
    exact forall₂_chomps_refl _
  · exact codeLines_of_reached h

end CiRunner
