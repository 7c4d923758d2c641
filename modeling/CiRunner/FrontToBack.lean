import CiRunner.Layout
import CiRunner.Library.Replay

/-!
# Updating several functions, front to back

Each update reads a file that earlier updates have changed, while the lines it is told about are
those of the file before the run.  `Front` is the invariant that makes this work: from a certain
line of the original file on, the file on disk still has the original blocks, `lineDiff` says by
how much they have moved, and no update was made at or after that line.

One step moves the front past one block.  Skipping a block keeps the file (`Front.skip`), and
updating it blesses that block and nothing else (`Front.update`).  By induction the updates of
any of the functions, in file order, succeed and bless just these
(`exists_updateAll`), whatever the sizes of the old trailers and the new outputs.
-/

namespace CiRunner

open TextLines Replay

/-! ## Splicing -/

lemma pushRemaining_true (ls : List Text) (newTest : Text) :
    pushRemaining true ls newTest = newTest ++ unlines ls := by
  induction ls generalizing newTest with
  | nil => simp [pushRemaining]
  | cons l ls ih => simp [pushRemaining, ih, pushLine]

lemma pushRemaining_false (ls : List Text) (newTest : Text) :
    pushRemaining false ls newTest = newTest ++ unlines (ls.dropWhile isDropped) := by
  induction ls generalizing newTest with
  | nil => simp [pushRemaining]
  | cons l ls ih =>
    by_cases h : isDropped l
    · have h' : (!false && ((trim l).isEmpty || startsWith l commentPrefix)) = true := h
      rw [pushRemaining, if_pos h', ih, List.dropWhile_cons_of_pos h]
    · have h' : ¬ (!false && ((trim l).isEmpty || startsWith l commentPrefix)) = true := h
      rw [pushRemaining, if_neg h', pushRemaining_true, List.dropWhile_cons_of_neg h]
      simp [pushLine]

lemma foldl_pushLine (output : List Text) (newTest : Text) :
    output.foldl (fun t line => pushLine t (outputPrefix ++ line)) newTest =
      newTest ++ unlines (Block.outputLines output) := by
  induction output generalizing newTest with
  | nil => simp [Block.outputLines]
  | cons o output ih =>
    rw [List.foldl_cons, ih]
    simp [Block.outputLines, pushLine]

lemma spliceOutput_eq (output : List Text) (newTest : Text) (oldTest : List Text) :
    spliceOutput output newTest oldTest =
      newTest ++
        unlines ([] :: (Block.outputLines output ++ [] :: oldTest.dropWhile isDropped)) := by
  rw [spliceOutput, pushRemaining_false, foldl_pushLine]
  simp [pushLine, unlines_append]

/-- The lines an update puts between a function and what is left of its trailer. -/
def expectation (output : List Text) : List Text := [] :: (Block.outputLines output ++ [[]])

lemma expectation_trailer {output : List Text} (houtput : ∀ o ∈ output, '\n' ∉ o) :
    ∀ l ∈ expectation output, isTrailerLine l ∧ '\n' ∉ l := by
  intro l hl
  simp only [expectation, Block.outputLines, List.mem_cons, List.mem_append, List.mem_map,
    List.not_mem_nil, or_false] at hl
  rcases hl with rfl | ⟨o, ho, rfl⟩ | rfl
  · simp [isTrailerLine_nil]
  · refine ⟨isTrailerLine_output o, ?_⟩
    simpa [outputPrefix] using houtput o ho
  · simp [isTrailerLine_nil]

lemma trailer_bless (b : Block) (output : List Text) :
    (b.bless output).trailer = expectation output ++ b.rest := by
  simp [Block.bless, expectation]

/-- What follows a block's code, without what an update drops. -/
lemma dropWhile_trailer (b : Block) (bs : List Block) :
    (b.trailer ++ blockLines bs).dropWhile isDropped = b.rest ++ blockLines bs := by
  rw [List.dropWhile_append, dropWhile_blockLines]
  split
  · rename_i h
    rw [Block.rest, List.isEmpty_iff.mp h, List.nil_append]
  · rfl

/-! ## The front -/

/-- The file on disk is `pre`, then `blocks`; the first of these followed after `base` lines in
the file before the run, and every update so far was made before it. -/
structure Front (base : ℕ) (pre : List Text) (blocks : List Block) (w : World) : Prop where
  disk : lines w.disk = pre ++ blockLines blocks
  lineDiff : w.fileUpdate.lineDiff = (pre.length : ℤ) - base
  lastUpdate : w.fileUpdate.lastUpdate ≤ base

namespace Front

variable {base : ℕ} {pre : List Text} {b : Block} {bs : List Block} {w : World}

/-- A file that was not updated yet. -/
lemma start {preamble : List Text} {blocks : List Block} {content : Text}
    (h : lines content = preamble ++ blockLines blocks) :
    Front preamble.length preamble blocks { disk := content, fileUpdate := FileUpdate.new } where
  disk := h
  lineDiff := by simp [FileUpdate.new]
  lastUpdate := Nat.zero_le _

/-- A block that is not updated is passed over. -/
lemma skip (h : Front base pre (b :: bs) w) :
    Front (base + b.lines.length) (pre ++ b.lines) bs w where
  disk := by rw [h.disk, blockLines_cons, List.append_assoc]
  lineDiff := by
    rw [h.lineDiff]
    push_cast [List.length_append]
    omega
  lastUpdate := h.lastUpdate.trans (Nat.le_add_right _ _)

/-- The lines of the file when the first block at the front is blessed. -/
lemma newline_notMem (h : Front base pre (b :: bs) w) {output : List Text}
    (houtput : ∀ o ∈ output, '\n' ∉ o) :
    ∀ l ∈ pre ++ (b.bless output).lines ++ blockLines bs, '\n' ∉ l := by
  have hdisk : ∀ l ∈ pre ++ (b.lines ++ blockLines bs), '\n' ∉ l := by
    intro l hl
    rw [← blockLines_cons, ← h.disk] at hl
    exact newline_notMem_of_mem_lines hl
  intro l hl
  simp only [Block.lines_bless, Block.outputLines, List.mem_append, List.mem_cons,
    List.mem_map] at hl
  rcases hl with (hl | hl | rfl | ⟨o, ho, rfl⟩ | rfl | hl) | hl
  · exact hdisk l (by simp [hl])
  · exact hdisk l (by simp [Block.lines, hl])
  · simp
  · simpa [outputPrefix] using houtput o ho
  · simp
  · exact hdisk l (by simp [Block.lines, (List.dropWhile_sublist _).subset hl])
  · exact hdisk l (by simp [hl])

/-- **One update.**  An update at the front succeeds, blesses the block there, and moves the
front past it. -/
theorem update (h : Front base pre (b :: bs) w) {location : Location}
    (hlocation : location.lineNumber = base + 1) {output : List Text}
    (houtput : ∀ o ∈ output, '\n' ∉ o) :
    ∃ w', (updateAt location (spliceOutput output)).run w = .ok () w' ∧
      w'.disk = unlines (pre ++ (b.bless output).lines ++ blockLines bs) ∧
      w'.fileUpdate.lastUpdate = location.lineNumber ∧
      Front (base + b.lines.length) ((pre ++ (b.bless output).lines).map chomp)
        (bs.map Block.chomped) w' := by
  have hdisk : lines w.disk =
      pre ++ b.header :: (b.body ++ b.closing :: (b.trailer ++ blockLines bs)) := by
    rw [h.disk]
    simp [Block.lines, Block.code]
  have hrun := updateAt_eq (f := spliceOutput output)
    (by rw [hlocation]; exact Nat.lt_succ_of_le h.lastUpdate)
    (by rw [hlocation, h.lineDiff]; push_cast; omega)
    hdisk b.header_function b.body_open b.closing_brace
  have hnew : spliceOutput output (unlines (pre ++ b.header :: (b.body ++ [b.closing])))
      (b.trailer ++ blockLines bs) =
        unlines (pre ++ (b.bless output).lines ++ blockLines bs) := by
    rw [spliceOutput_eq, dropWhile_trailer, ← unlines_append, Block.lines_bless]
    simp [Block.code]
  rw [hnew] at hrun
  have hlines : lines (unlines (pre ++ (b.bless output).lines ++ blockLines bs)) =
      (pre ++ (b.bless output).lines ++ blockLines bs).map chomp :=
    lines_unlines (h.newline_notMem houtput)
  refine ⟨_, hrun, rfl, rfl, ⟨?_, ?_, ?_⟩⟩
  · rw [hlines, blockLines_chomped, List.map_append]
  · simp only [hlines, h.disk, h.lineDiff, blockLines_cons, List.length_map, List.length_append]
    push_cast
    omega
  · simp only [hlocation]
    have := b.length_lines_pos
    omega

end Front

/-! ## Any of the functions, in file order -/

/-- Updates at the locations that have an output, in order. -/
def updateAll : List Location → List (Option (List Text)) → Effect Unit
  | location :: locations, some output :: outputs => do
    updateAt location (spliceOutput output)
    updateAll locations outputs
  | _ :: locations, none :: outputs => updateAll locations outputs
  | _, _ => pure ()

/-- Without outputs there is nothing to do. -/
lemma updateAll_none {α : Type} (locations : List Location) (xs : List α) (w : World) :
    (updateAll locations (xs.map fun _ => none)).run w = .ok () w := by
  induction xs generalizing locations with
  | nil => cases locations <;> rfl
  | cons x xs ih =>
    cases locations with
    | nil => rfl
    | cons location locations => exact ih locations

/-- The file holds `ls`, each line ended by a newline, but for `\r`s at the ends of lines. -/
def Holds (ls : List Text) (disk : Text) : Prop :=
  ∃ ms, disk = unlines ms ∧ (∀ m ∈ ms, '\n' ∉ m) ∧ List.Forall₂ Chomps ls ms

lemma Holds.lines {ls : List Text} {disk : Text} (h : Holds ls disk) :
    List.Forall₂ Chomps ls (lines disk) := by
  obtain ⟨ms, rfl, hnl, hms⟩ := h
  rw [lines_unlines hnl]
  exact forall₂_chomps_trans hms (forall₂_chomps_chomp ms)

lemma Holds.eq_unlines {ls : List Text} {disk : Text} (h : Holds ls disk)
    (hclean : ∀ l ∈ ls, Clean l) : disk = unlines ls := by
  obtain ⟨ms, rfl, -, hms⟩ := h
  rw [eq_of_forall₂_chomps hms hclean]

lemma exists_output {os : List (Option (List Text))} (h : ¬ ∀ o ∈ os, o = none) :
    ∃ output, some output ∈ os := by
  push Not at h
  obtain ⟨o, ho, hne⟩ := h
  obtain ⟨output, rfl⟩ := Option.ne_none_iff_exists'.mp hne
  exact ⟨output, ho⟩

/-- **Updates from front to back.**  From a front on, updating any of the functions in file
order, each on its line in the original file, succeeds.  It leaves the file alone when there is
no output at all, and otherwise writes the file with the blocks edited. -/
theorem exists_updateAll {base : ℕ} {pre : List Text} {blocks : List Block} {w : World}
    (h : Front base pre blocks w) {locations : List Location}
    (hlocations : locations.map (·.lineNumber) = headerLines base blocks)
    {outputs : List (Option (List Text))} (hlength : outputs.length = blocks.length)
    (houtputs : ∀ output, some output ∈ outputs → ∀ o ∈ output, '\n' ∉ o) :
    ∃ w', (updateAll locations outputs).run w = .ok () w' ∧
      ((∀ o ∈ outputs, o = none) → w' = w) ∧
      ((∃ output, some output ∈ outputs) →
        Holds (pre ++ blockLines (editBlocks blocks outputs)) w'.disk) := by
  induction outputs generalizing base pre blocks w locations with
  | nil =>
    refine ⟨w, ?_, fun _ => rfl, by simp⟩
    cases locations <;> rfl
  | cons o os ih =>
    obtain ⟨b, bs, rfl⟩ : ∃ b bs, blocks = b :: bs := by
      cases blocks with
      | nil => simp at hlength
      | cons b bs => exact ⟨b, bs, rfl⟩
    obtain ⟨c, cs, rfl⟩ : ∃ c cs, locations = c :: cs := by
      cases locations with
      | nil => simp [headerLines] at hlocations
      | cons c cs => exact ⟨c, cs, rfl⟩
    simp only [List.map_cons, headerLines, List.cons.injEq] at hlocations
    obtain ⟨hline, hcs⟩ := hlocations
    have hos : ∀ output, some output ∈ os → ∀ o ∈ output, '\n' ∉ o :=
      fun output ho => houtputs output (List.mem_cons_of_mem _ ho)
    cases o with
    | none =>
      obtain ⟨w', hrun, hsame, hholds⟩ := ih h.skip hcs (by simpa using hlength) hos
      refine ⟨w', hrun, fun hnone => hsame fun o ho => hnone o (List.mem_cons_of_mem _ ho), ?_⟩
      rintro ⟨output, hmem⟩
      have h' := hholds ⟨output, by simpa using hmem⟩
      rwa [List.append_assoc] at h'
    | some output =>
      obtain ⟨w₁, hstep, hdisk, -, hfront⟩ := h.update hline (houtputs output (by simp))
      rw [← headerLines_chomped] at hcs
      obtain ⟨w', hrun, hsame, hholds⟩ := ih hfront hcs (by simpa using hlength) hos
      refine ⟨w', ?_, fun hnone => absurd (hnone (some output) (by simp)) (by simp), fun _ => ?_⟩
      · rw [updateAll, bind_of_ok hstep, hrun]
      have hedit : editBlocks (b :: bs) (some output :: os) =
          b.bless output :: editBlocks bs os := rfl
      rw [hedit, blockLines_cons, ← List.append_assoc]
      by_cases hall : ∀ o ∈ os, o = none
      · -- this was the last update, so the file is as it left it
        rw [hsame hall, hdisk, editBlocks_of_forall_none bs hall]
        exact ⟨_, rfl, h.newline_notMem (houtputs output (by simp)), forall₂_chomps_refl _⟩
      · obtain ⟨output', hmem⟩ := exists_output hall
        obtain ⟨ms, hms, hnl, hchomps⟩ := hholds ⟨output', hmem⟩
        refine ⟨ms, hms, hnl, forall₂_chomps_trans ?_ hchomps⟩
        exact List.rel_append (forall₂_chomps_chomp _) (forall₂_editBlocks_chomped bs os)

section
variable {Flags : Type}

/-- `update_test` on each function that has an output, in order. -/
def updateTests : List (Context Flags) → List (Option (List Text)) → Effect Unit
  | context :: contexts, some output :: outputs => do
    updateTest output context
    updateTests contexts outputs
  | _ :: contexts, none :: outputs => updateTests contexts outputs
  | _, _ => pure ()

/-- Only the locations matter. -/
lemma updateTests_eq (contexts : List (Context Flags)) (outputs : List (Option (List Text))) :
    updateTests contexts outputs = updateAll (contexts.map (·.details.location)) outputs := by
  induction contexts generalizing outputs with
  | nil => rcases outputs with _ | ⟨_ | output, outputs⟩ <;> rfl
  | cons context contexts ih =>
    rcases outputs with _ | ⟨_ | output, outputs⟩
    · rfl
    · exact ih outputs
    · rw [updateTests, List.map_cons, updateAll, ih]
      rfl

/-- The lines the functions are said to be on. -/
def contextLines (contexts : List (Context Flags)) : List ℕ :=
  contexts.map fun c => c.details.location.lineNumber

/-- **Rewriting is exact.**  On a file in column-0 layout, updating any of its functions in file
order, each on its line in the original file, succeeds.  Every line of the file is then the
line of the edited layout, but for `\r`s at its end; and it is exactly that line, ended by a
plain newline, when no line of the edited layout ends in a `\r`.  Without an update the file is
not touched. -/
theorem updateTests_exact (L : Layout) {content : Text} (hcontent : lines content = L.lines)
    {contexts : List (Context Flags)} (hcontexts : contextLines contexts = L.headerLines)
    {outputs : List (Option (List Text))} (hlength : outputs.length = L.blocks.length)
    (houtputs : ∀ output, some output ∈ outputs → ∀ o ∈ output, '\n' ∉ o) :
    ∃ w', (updateTests contexts outputs).run { disk := content, fileUpdate := FileUpdate.new } =
        .ok () w' ∧
      List.Forall₂ Chomps (L.edit outputs).lines (lines w'.disk) ∧
      ((∀ l ∈ (L.edit outputs).lines, Clean l) → lines w'.disk = (L.edit outputs).lines) ∧
      ((∃ output, some output ∈ outputs) → (∀ l ∈ (L.edit outputs).lines, Clean l) →
        w'.disk = unlines (L.edit outputs).lines) ∧
      ((∀ o ∈ outputs, o = none) → w'.disk = content) := by
  have hlocations : (contexts.map (·.details.location)).map (·.lineNumber) = L.headerLines := by
    rw [List.map_map]
    exact hcontexts
  obtain ⟨w', hrun, hsame, hholds⟩ :=
    exists_updateAll (Front.start hcontent) hlocations hlength houtputs
  rw [← updateTests_eq] at hrun
  have hchomps : List.Forall₂ Chomps (L.edit outputs).lines (lines w'.disk) := by
    by_cases hnone : ∀ o ∈ outputs, o = none
    · rw [hsame hnone, hcontent, Layout.edit, editBlocks_of_forall_none _ hnone]
      exact forall₂_chomps_refl _
    · exact (hholds (exists_output hnone)).lines
  refine ⟨w', hrun, hchomps, eq_of_forall₂_chomps hchomps, fun h => (hholds h).eq_unlines, ?_⟩
  intro hnone
  rw [hsame hnone]

/-- The file `function %a() {`, `}`, `; o`, `function %b() {`, `}`. -/
def twoFunctions : Layout where
  preamble := []
  blocks :=
    [Block.bare 'a' [[';', ' ', 'o']] (Block.trailer_comment _),
      Block.bare 'b' [] Block.trailer_nil]

/-- A context that says just on which line the function is. -/
def contextAt (line : ℕ) : Context Unit where
  preambleComments := []
  details := { location := { lineNumber := line }, comments := [] }
  verified := false
  flags := ()
  isa := none

theorem updateTests_exact_twoFunctions :
    ∃ w', (updateTests [contextAt 1, contextAt 4] [some [['x'], ['y']], some [['z']]]).run
        { disk := unlines twoFunctions.lines, fileUpdate := FileUpdate.new } = .ok () w' ∧
      lines w'.disk = (twoFunctions.edit [some [['x'], ['y']], some [['z']]]).lines := by
  have hcontent : lines (unlines twoFunctions.lines) = twoFunctions.lines := by decide
  have hcontexts : contextLines [contextAt 1, contextAt 4] = twoFunctions.headerLines := by decide
  have houtputs : ∀ output, some output ∈ [some [['x'], ['y']], some [['z']]] →
      ∀ o ∈ output, '\n' ∉ o := by
    intro output h
    simp only [List.mem_cons, Option.some.injEq, List.not_mem_nil, or_false] at h
    rcases h with rfl | rfl <;> decide
  obtain ⟨w', hrun, -, hlines, -⟩ :=
    updateTests_exact twoFunctions hcontent hcontexts (by decide) houtputs
  exact ⟨w', hrun, hlines (by decide)⟩

/-- An output line that ends in a `\r` loses it to the next update, whose reading of the file
takes it for a part of the line ending. -/
theorem updateTests_loses_cr :
    lines (unlines twoFunctions.lines) = twoFunctions.lines ∧
      contextLines [contextAt 1, contextAt 4] = twoFunctions.headerLines ∧
      '\n' ∉ ['x', '\r'] ∧
      ∃ w', (updateTests [contextAt 1, contextAt 4] [some [['x', '\r']], some []]).run
          { disk := unlines twoFunctions.lines, fileUpdate := FileUpdate.new } = .ok () w' ∧
        outputPrefix ++ ['x', '\r'] ∈ (twoFunctions.edit [some [['x', '\r']], some []]).lines ∧
        outputPrefix ++ ['x', '\r'] ∉ lines w'.disk :=
  ⟨by decide, by decide, by decide, _, rfl, by decide, by decide⟩

end

end CiRunner
