import CiRunner.Blessing
import CiRunner.Verification

/-!
# Reading an updated file again

A second run reads the file the first one left.  What the reader makes of it is an assumption,
`Reads`: on a file in column-0 layout the details of a function are the line of its header and
the comments of its block, a comment being the text of a line from its first `;` on; and a file
that differs from it in the trailers alone is read as the same test file with other details.

`run_of_layout` puts a run on such a file in terms of the layout.  It ends with the fault of the
abstract machine, and either leaves the file as it is, if no function was blessed, or writes the
edited layout.
-/

namespace CiRunner

open TextLines Replay

variable {Flags Body : Type}

/-! ## Comments of a block -/

lemma commentOf_output (o : Text) :
    commentOf (outputPrefix ++ o) = some { text := outputPrefix ++ o } := by
  simp [commentOf, outputPrefix]

lemma commentsOf_outputLines (output : List Text) :
    commentsOf (Block.outputLines output) = output.map fun o => { text := outputPrefix ++ o } := by
  induction output with
  | nil => rfl
  | cons o output ih =>
    rw [Block.outputLines, List.map_cons, commentsOf, List.filterMap_cons, commentOf_output]
    exact congrArg _ ih

namespace Block

variable (b : Block)

/-- The comments an update leaves. -/
def keptComments : List Comment := commentsOf (b.code ++ b.rest)

/-- The comments an update drops. -/
def droppedComments : List Comment := commentsOf (b.trailer.takeWhile isDropped)

lemma comments_eq : b.comments = commentsOf b.code ++ (b.droppedComments ++ commentsOf b.rest) := by
  rw [comments, lines, commentsOf_append, droppedComments, rest,
    ← commentsOf_append (b.trailer.takeWhile isDropped), List.takeWhile_append_dropWhile]

lemma comments_bless (output : List Text) :
    (b.bless output).comments = commentsOf b.code ++
      ((output.map fun o => { text := outputPrefix ++ o }) ++ commentsOf b.rest) := by
  have hblank (ls : List Text) : commentsOf ([] :: ls) = commentsOf ls := rfl
  rw [comments, lines_bless, commentsOf_append, hblank, commentsOf_append, hblank,
    commentsOf_outputLines]

end Block

/-! ## Details of a layout -/

lemma lineNumber_blockDetails (base : ℕ) (bs : List Block) :
    (blockDetails base bs).map (·.location.lineNumber) = headerLines base bs := by
  induction bs generalizing base with
  | nil => rfl
  | cons b bs ih => rw [blockDetails, List.map_cons, ih, headerLines]

lemma comments_blockDetails (base : ℕ) (bs : List Block) :
    (blockDetails base bs).map (·.comments) = bs.map Block.comments := by
  induction bs generalizing base with
  | nil => rfl
  | cons b bs ih => rw [blockDetails, List.map_cons, ih, List.map_cons]

/-- The details of a function have the comments of its block. -/
lemma exists_block_of_details {base : ℕ} {bs : List Block} {i : ℕ} {d : Details}
    (h : (blockDetails base bs)[i]? = some d) : ∃ b, bs[i]? = some b ∧ d.comments = b.comments := by
  have hcomments := congrArg (·[i]?) (comments_blockDetails base bs)
  simp only [List.getElem?_map, h, Option.map_some] at hcomments
  obtain ⟨b, hb, hd⟩ := Option.map_eq_some_iff.mp hcomments.symm
  exact ⟨b, hb, hd.symm⟩

lemma exists_of_getElem?_editBlocks {bs : List Block} {os : List (Option (List Text))}
    (hlength : os.length = bs.length) {i : ℕ} {b' : Block} (h : (editBlocks bs os)[i]? = some b') :
    ∃ b o, bs[i]? = some b ∧ os[i]? = some o ∧ b' = b.edit o := by
  induction bs generalizing os i with
  | nil => simp [editBlocks] at h
  | cons b bs ih =>
    cases os with
    | nil => simp at hlength
    | cons o os =>
      cases i with
      | zero => exact ⟨b, o, rfl, rfl, by simpa [editBlocks] using h.symm⟩
      | succ i => exact ih (by simpa using hlength) (by simpa [editBlocks] using h)

lemma length_blockDetails (base : ℕ) (bs : List Block) :
    (blockDetails base bs).length = bs.length := by
  induction bs generalizing base with
  | nil => rfl
  | cons b bs ih => simp [blockDetails, ih]

/-- Functions with new details. -/
def redetail (fds : List (IrFunction Body × Details)) (ds : List Details) :
    List (IrFunction Body × Details) :=
  List.zipWith (fun fd d => (fd.1, d)) fds ds

lemma redetail_self (fds : List (IrFunction Body × Details)) :
    redetail fds (fds.map (·.2)) = fds := by
  induction fds with
  | nil => rfl
  | cons fd fds ih => exact congrArg _ ih

lemma map_redetail {fds : List (IrFunction Body × Details)} {ds : List Details}
    (h : ds.length = fds.length) : (redetail fds ds).map (·.2) = ds := by
  induction fds generalizing ds with
  | nil =>
    obtain rfl := List.length_eq_zero_iff.mp h
    rfl
  | cons fd fds ih =>
    cases ds with
    | nil => simp at h
    | cons d ds =>
      have hlength : ds.length = fds.length := by simpa using h
      exact congrArg _ (ih hlength)

/-- The test file with new details. -/
def TestFile.withDetails (testfile : TestFile Flags Body) (ds : List Details) :
    TestFile Flags Body :=
  { testfile with functions := redetail testfile.functions ds }

lemma plan_withDetails (tc : Toolchain Flags Body) (testfile : TestFile Flags Body)
    {ds : List Details} (h : ds.length = testfile.functions.length) :
    plan tc (testfile.withDetails ds) = plan tc testfile := by
  obtain ⟨commands, isaSpec, preambleComments, fds⟩ := testfile
  cases fds with
  | nil => rfl
  | cons fd fds =>
    cases ds with
    | nil => simp at h
    | cons d ds => rfl

/-! ## What the reader is assumed to do -/

/-- The reader reads `content` as a test file in column-0 layout, and any file that differs from it
in the trailers alone as the same test file with the details of that layout. -/
structure Reads (tc : Toolchain Flags Body) (options : ParseOptions) (L : Layout) (content : Text)
    (testfile : TestFile Flags Body) : Prop where
  content_lines : lines content = L.lines
  parse : tc.parseTest content options = .ok testfile
  details : testfile.functions.map (·.2) = L.details
  reparse : ∀ L' : Layout, L'.preamble = L.preamble →
    L'.blocks.map Block.code = L.blocks.map Block.code → (∀ l ∈ L'.lines, Clean l) →
    tc.parseTest (unlines L'.lines) options = .ok (testfile.withDetails L'.details)

lemma code_edit (b : Block) (o : Option (List Text)) : (b.edit o).code = b.code := by
  cases o <;> rfl

lemma code_editBlocks (bs : List Block) (os : List (Option (List Text))) :
    (editBlocks bs os).map Block.code = bs.map Block.code := by
  induction bs generalizing os with
  | nil => cases os <;> rfl
  | cons b bs ih =>
    cases os with
    | nil => rfl
    | cons o os => rw [editBlocks, List.map_cons, List.map_cons, ih, code_edit]

/-! ## Lines without carriage returns -/

lemma clean_nil : Clean [] := by decide

lemma clean_output {o : Text} (h : Clean o) : Clean (outputPrefix ++ o) := by
  refine ⟨by simpa [outputPrefix] using h.1, ?_⟩
  by_cases ho : o = []
  · subst ho
    decide
  · rw [chomp_append_of_ne_nil _ ho, h.2]

/-- An edited file is as clean as the file and the outputs. -/
lemma clean_blockLines {bs : List Block} {os : List (Option (List Text))}
    (hbs : ∀ l ∈ blockLines bs, Clean l)
    (hos : ∀ output, some output ∈ os → ∀ o ∈ output, Clean o) :
    ∀ l ∈ blockLines (editBlocks bs os), Clean l := by
  induction bs generalizing os with
  | nil => cases os <;> exact hbs
  | cons b bs ih =>
    cases os with
    | nil => exact hbs
    | cons o os =>
      intro l hl
      rw [editBlocks, blockLines_cons] at hl
      rcases List.mem_append.mp hl with hl | hl
      · have hb : ∀ m ∈ b.lines, Clean m := fun m hm => hbs m (List.mem_append_left _ hm)
        cases o with
        | none => exact hb l hl
        | some output =>
          rw [Block.edit, Block.lines_bless] at hl
          simp only [Block.outputLines, List.mem_append, List.mem_cons, List.mem_map] at hl
          rcases hl with hl | rfl | ⟨o, ho, rfl⟩ | rfl | hl
          · exact hb l (List.mem_append_left _ hl)
          · exact clean_nil
          · exact clean_output (hos output (by simp) o ho)
          · exact clean_nil
          · exact hb l (List.mem_append_right _ ((List.dropWhile_sublist _).subset hl))
      · exact ih (fun m hm => hbs m (List.mem_append_right _ hm))
          (fun output ho => hos output (List.mem_cons_of_mem _ ho)) l hl

lemma Layout.clean_edit {L : Layout} {os : List (Option (List Text))}
    (hL : ∀ l ∈ L.lines, Clean l) (hos : ∀ output, some output ∈ os → ∀ o ∈ output, Clean o) :
    ∀ l ∈ (L.edit os).lines, Clean l := by
  intro l hl
  rcases List.mem_append.mp hl with hl | hl
  · exact hL l (List.mem_append_left _ hl)
  · exact clean_blockLines (fun m hm => hL m (List.mem_append_right _ hm)) hos l hl

/-! ## A run in terms of the layout -/

section
variable (tc : Toolchain Flags Body)

/-- No line the compiler prints ends in a `\r`. -/
def CleanOutput : Prop :=
  ∀ (func : IrFunction Body) (compiled : CompiledCode),
    tc.codegen func (buildBackend tc) = .ok compiled → ∀ o ∈ lines compiled.disasm, Clean o

variable {tc}

lemma clean_mismatch (hclean : CleanOutput tc) {func : IrFunction Body} {details : Details}
    {output : List Text} (h : mismatch? tc func details = some output) : ∀ o ∈ output, Clean o := by
  cases hc : tc.codegen func (buildBackend tc) with
  | error e => simp [mismatch?, hc] at h
  | ok compiled =>
    simp only [mismatch?, hc] at h
    split at h
    · cases h
    · obtain rfl := Option.some.inj h
      exact hclean func compiled hc

/-- The output each function is blessed with by a run, if it is. -/
def outputsOf (tc : Toolchain Flags Body) (tuples : List (TestTuple Flags Body))
    (testfile : TestFile Flags Body) : List (Option (List Text)) :=
  (blessings tc testfile.preambleComments tuples testfile.functions).1

/-- The fault a run ends with, if it fails. -/
def faultOf (tc : Toolchain Flags Body) (tuples : List (TestTuple Flags Body))
    (testfile : TestFile Flags Body) : Option Fault :=
  (blessings tc testfile.preambleComments tuples testfile.functions).2

/-- **A run on a file in column-0 layout.**  It ends with the fault of the abstract machine; it
leaves the file alone when no function is blessed, and writes the edited layout otherwise; and
every blessed function was blessed by an invocation that was made. -/
theorem run_of_layout {options : ParseOptions} {L : Layout} {testfile : TestFile Flags Body}
    {s : RunState Flags Body} (hcontent : lines s.world.disk = L.lines)
    (hparse : tc.parseTest s.world.disk options = .ok testfile)
    (hdetails : testfile.functions.map (·.2) = L.details) (hclean : ∀ l ∈ L.lines, Clean l)
    (houtput : CleanOutput tc) {tuples : List (TestTuple Flags Body)}
    (hplan : plan tc testfile = .ok tuples) :
    let os := outputsOf tc tuples testfile
    let r := (run tc options).run s
    Replay.fault? r = faultOf tc tuples testfile ∧
      ((∀ o ∈ os, o = none) → (finalState r).world.disk = s.world.disk) ∧
      ((∃ output, some output ∈ os) → (finalState r).world.disk = unlines (L.edit os).lines) ∧
      ∀ (i : ℕ) fd output, testfile.functions[i]? = some fd → os[i]? = some (some output) →
        ∃ e ∈ (finalState r).trace, e.Blesses tc fd output := by
  intro os r
  have hlines : testfile.functions.map (·.2.location.lineNumber) = L.headerLines := by
    rw [Layout.headerLines, ← lineNumber_blockDetails, ← Layout.details, ← hdetails, List.map_map]
    rfl
  have hfront : Front L.preamble.length L.preamble L.blocks s.start.world := Front.start hcontent
  obtain ⟨hfault, hupdates, hblessed⟩ :=
    play_schedule tc testfile.preambleComments (plan_known tc hplan) hfront hlines
  have hlocations : (testfile.functions.map (·.2.location)).map (·.lineNumber) =
      headerLines L.preamble.length L.blocks := by
    rw [List.map_map]
    exact hlines
  have hlength : os.length = L.blocks.length := by
    rw [show os = (blessings tc testfile.preambleComments tuples testfile.functions).1 from rfl,
      length_blessings, ← List.length_map (·.2.location.lineNumber), hlines, Layout.headerLines,
      ← lineNumber_blockDetails, List.length_map, length_blockDetails]
  obtain ⟨w, hw, hsame, hholds⟩ := exists_updateAll hfront hlocations hlength
    fun output ho => newline_notMem_blessings tc testfile.preambleComments ho
  obtain rfl : w = finalState (play (perform tc testfile.preambleComments)
      (schedule tuples testfile.functions) s.start.world).2 := by
    have hrun := hw.symm.trans hupdates
    simpa using hrun
  have hr : r = s.start.after (play (perform tc testfile.preambleComments)
      (schedule tuples testfile.functions) s.start.world) () := by
    rw [show r = (run tc options).run s from rfl, run_of_parse tc hparse, runTestFile_eq_plan,
      hplan]
  refine ⟨by rw [hr, fault?_after, hfault, faultOf], fun h => ?_, fun h => ?_, ?_⟩
  · rw [hr, finalState_after, hsame h]
    rfl
  · rw [hr, finalState_after]
    refine (hholds h).eq_unlines (Layout.clean_edit hclean fun output ho => ?_)
    obtain ⟨fd, -, hfd⟩ := mismatch_of_mem_blessings tc testfile.preambleComments ho
    exact clean_mismatch houtput hfd
  · intro i fd output hfd ho
    obtain ⟨e, he, hblesses⟩ := hblessed i fd output hfd ho
    rw [hr, finalState_after]
    exact ⟨e, List.mem_append_right _ he, hblesses⟩

end

/-! ## Plain files -/

lemma redetail_zip {funcs : List (IrFunction Body)} {ds es : List Details}
    (hds : funcs.length = ds.length) (hes : funcs.length = es.length) :
    redetail (funcs.zip ds) es = funcs.zip es := by
  induction funcs generalizing ds es with
  | nil => rfl
  | cons func funcs ih =>
    obtain ⟨d, ds, rfl⟩ := List.exists_cons_of_length_eq_add_one hds.symm
    obtain ⟨e, es, rfl⟩ := List.exists_cons_of_length_eq_add_one hes.symm
    have htail := ih (Nat.succ.inj hds) (Nat.succ.inj hes)
    exact congrArg _ htail

/-- A reader of plain files reads them as assumed. -/
lemma reads_of_plain {tc : Toolchain Settings Unit}
    (hparse : ∀ content options, tc.parseTest content options = .ok (readTest content))
    {L : Layout} (hplain : L.Plain) (hclean : ∀ l ∈ L.lines, Clean l) (options : ParseOptions) :
    Reads tc options L (unlines L.lines) (readTest (unlines L.lines)) := by
  have hlength (L' : Layout) (hcode : L'.blocks.map Block.code = L.blocks.map Block.code) :
      (L.blocks.map fun b => functionOf b.header).length = L'.details.length := by
    have h := congrArg List.length hcode
    rw [List.length_map, List.length_map] at h
    rw [List.length_map, Layout.details, length_blockDetails, h]
  refine ⟨lines_unlines_of_clean hclean, hparse _ _, ?_, ?_⟩
  · rw [functions_readTest hplain hclean]
    exact List.map_snd_zip (hlength L rfl).ge
  · intro L' hpreamble hcode hclean'
    rw [hparse, readTest_of_code hplain hclean hpreamble hcode hclean', TestFile.withDetails,
      functions_readTest hplain hclean, redetail_zip (hlength L rfl) (hlength L' hcode)]

lemma reads_testing {tests : List String}
    (htests : ∀ t ∈ tests, startsWith t.toList functionWord = false) (trailer : List Text)
    (h : ∀ l ∈ trailer, isTrailerLine l)
    (hclean : ∀ l ∈ (Layout.testing tests trailer h).lines, Clean l) :
    let L := Layout.testing tests trailer h
    Reads Toolchain.compiling {} L (unlines L.lines) (readTest (unlines L.lines)) :=
  reads_of_plain (fun _ _ => rfl) (Layout.plain_testing htests trailer h) hclean {}

lemma cleanOutput_compiling : CleanOutput Toolchain.compiling := by
  intro func compiled h
  obtain rfl := Except.ok.inj h
  decide

end CiRunner
