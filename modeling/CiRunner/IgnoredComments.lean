import CiRunner.Rereading

/-!
# Do checking and updating agree on the expectation?

`check_precise_output` does not count a comment that starts with `;;` as expectation, so a trailer
may hold such comments next to the expected output.  `update_test` drops the expectation of the
trailer, and takes every comment at column 0 for a part of it, `;;` or not.  It stops dropping at
the first indented comment, so a `;;` comment survives an update exactly when it is at or behind
that one (`ignoredKept_iff`).
-/

namespace CiRunner

open TextLines

variable {Flags : Type}

/-! ## Comments the check ignores -/

/-- The comments on the lines that the check does not count as expectation. -/
def ignoredComments (ls : List Text) : List Comment :=
  (commentsOf ls).filter fun c => startsWith c.text ignoredPrefix

lemma ignoredComments_append (ls ms : List Text) :
    ignoredComments (ls ++ ms) = ignoredComments ls ++ ignoredComments ms := by
  rw [ignoredComments, commentsOf_append, List.filter_append]
  rfl

/-- No line of output is ignored. -/
lemma ignoredComments_expectation (output : List Text) :
    ignoredComments (expectation output) = [] := by
  have hcomments : commentsOf (expectation output) =
      output.map fun o => { text := outputPrefix ++ o } := by
    have hblank : commentsOf [[]] = [] := rfl
    rw [expectation, ← List.singleton_append, commentsOf_append, commentsOf_append, hblank,
      commentsOf_outputLines, List.nil_append, List.append_nil]
  rw [ignoredComments, hcomments, List.filter_eq_nil_iff]
  intro c hc
  obtain ⟨o, -, rfl⟩ := List.mem_map.mp hc
  simp [startsWith, outputPrefix, ignoredPrefix]

/-- A comment at column 0 is the whole line. -/
lemma commentOf_of_startsWith {l : Text} (h : startsWith l commentPrefix) :
    commentOf l = some { text := l } := by
  obtain ⟨t, rfl⟩ := List.isPrefixOf_iff_prefix.mp h
  simp [commentOf, commentPrefix]

lemma startsWith_comment_of_ignored {l : Text} (h : startsWith l ignoredPrefix) :
    startsWith l commentPrefix := by
  obtain ⟨t, rfl⟩ := List.isPrefixOf_iff_prefix.mp h
  rfl

lemma commentOf_of_blank {l : Text} (h : l.all isWhitespace) : commentOf l = none := by
  have hsemi : isWhitespace ';' = false := by decide
  have hnone : l.dropWhile (· ≠ ';') = [] := by
    rw [List.dropWhile_eq_nil_iff]
    intro c hc
    rw [List.all_eq_true] at h
    have hwhite := h c hc
    rw [decide_eq_true_eq]
    rintro rfl
    rw [hsemi] at hwhite
    cases hwhite
  simp only [commentOf, hnone]

/-- Among lines that an update drops, the ignored comments are the lines that start with `;;`. -/
lemma ignoredComments_eq_nil_iff {ls : List Text} (h : ∀ l ∈ ls, isDropped l) :
    ignoredComments ls = [] ↔ ∀ l ∈ ls, startsWith l ignoredPrefix = false := by
  induction ls with
  | nil => simp [ignoredComments, commentsOf]
  | cons l ls ih =>
    rw [List.forall_mem_cons] at h
    have hline : ignoredComments [l] = [] ↔ startsWith l ignoredPrefix = false := by
      have hdropped := h.1
      rw [isDropped_eq, Bool.or_eq_true] at hdropped
      rcases hdropped with hblank | hcomment
      · have hnone := commentOf_of_blank hblank
        have hplain : startsWith l ignoredPrefix = false := by
          by_contra hignored
          have hcomment := commentOf_of_startsWith
            (startsWith_comment_of_ignored (eq_true_of_ne_false hignored))
          rw [hnone] at hcomment
          cases hcomment
        simp [ignoredComments, commentsOf, hnone, hplain]
      · simp [ignoredComments, commentsOf, commentOf_of_startsWith hcomment]
    rw [← List.singleton_append, ignoredComments_append, List.append_eq_nil_iff, hline, ih h.2,
      List.singleton_append, List.forall_mem_cons]

/-! ## Updates -/

/-- The file is `before`, `code`, a trailer and `after`, each line ended by a newline, and the
ignored comments of `trailer` are all in the new one, in the same order. -/
def IgnoredKept (before code trailer after : List Text) (disk : Text) : Prop :=
  ∃ trailer', (∀ l ∈ trailer', '\n' ∉ l) ∧
    disk = unlines (before ++ (code ++ (trailer' ++ after))) ∧
    (ignoredComments trailer).Sublist (ignoredComments trailer')

/-- Blessing keeps the ignored comments exactly when it drops none. -/
lemma ignoredComments_sublist_bless_iff (b : Block) (output : List Text) :
    (ignoredComments b.trailer).Sublist (ignoredComments (b.bless output).trailer) ↔
      ∀ l ∈ b.trailer.takeWhile isDropped, startsWith l ignoredPrefix = false := by
  have hdropped : ∀ l ∈ b.trailer.takeWhile isDropped, isDropped l :=
    fun l hl => List.mem_takeWhile_imp hl
  have hold : ignoredComments b.trailer =
      ignoredComments (b.trailer.takeWhile isDropped) ++ ignoredComments b.rest := by
    rw [Block.rest, ← ignoredComments_append, List.takeWhile_append_dropWhile]
  have hnew : ignoredComments (b.bless output).trailer = ignoredComments b.rest := by
    rw [trailer_bless, ignoredComments_append, ignoredComments_expectation, List.nil_append]
  rw [← ignoredComments_eq_nil_iff hdropped, hold, hnew]
  constructor
  · intro hsub
    have hlength := hsub.length_le
    rw [List.length_append] at hlength
    exact List.length_eq_zero_iff.mp (by omega)
  · intro hnil
    rw [hnil, List.nil_append]

/-- **An update keeps the comments the check ignores exactly when none of them is in front of the
first indented comment of the trailer.**  The file may have been updated before, as long as the line
of the update comes after the last one and `lineDiff` sends it to the function. -/
theorem ignoredKept_iff {w : World} {context : Context Flags} {before : List Text} {b : Block}
    {after : List Block} {output : List Text}
    (hdisk : lines w.disk = before ++ blockLines (b :: after))
    (hlast : w.fileUpdate.lastUpdate < context.details.location.lineNumber)
    (hline : (context.details.location.lineNumber : ℤ) - 1 + w.fileUpdate.lineDiff = before.length)
    (houtput : ∀ o ∈ output, '\n' ∉ o) :
    ∃ w', (updateTest output context).run w = .ok () w' ∧
      (IgnoredKept before b.code b.trailer (blockLines after) w'.disk ↔
        ∀ l ∈ b.trailer.takeWhile isDropped, startsWith l ignoredPrefix = false) := by
  have hfront : Front (context.details.location.lineNumber - 1) before (b :: after) w :=
    ⟨hdisk, by omega, by omega⟩
  have hlocation : context.details.location.lineNumber =
      context.details.location.lineNumber - 1 + 1 := by omega
  obtain ⟨w', hrun, hdisk', -⟩ := hfront.update hlocation houtput
  have hclean := hfront.newline_notMem houtput
  have hlines : before ++ (b.bless output).lines ++ blockLines after =
      before ++ (b.code ++ ((b.bless output).trailer ++ blockLines after)) := by
    simp [Block.lines, Block.bless, Block.code]
  rw [hlines] at hdisk' hclean
  have hclean' := hclean
  simp only [List.forall_mem_append] at hclean'
  obtain ⟨hbefore, hcode, htrailer, hafter⟩ := hclean'
  refine ⟨w', hrun, Iff.trans ?_ (ignoredComments_sublist_bless_iff b output)⟩
  constructor
  · rintro ⟨trailer, hnl, hdisk'', hsub⟩
    have heq := unlines_inj hclean (by
      simp only [List.forall_mem_append]
      exact ⟨hbefore, hcode, hnl, hafter⟩) (hdisk'.symm.trans hdisk'')
    rw [List.append_cancel_right (List.append_cancel_left (List.append_cancel_left heq))]
    exact hsub
  · intro hsub
    exact ⟨_, htrailer, hdisk', hsub⟩

lemma indentedBlock_trailer :
    ∀ l ∈ [[';', ' ', 'o'], [' ', ';', 'k'], [';', ';', 'k']], isTrailerLine l := by decide

/-- A function with a line of expected output, an indented comment, and one that the check
ignores. -/
def indentedBlock : Block :=
  Block.bare 'a' [[';', ' ', 'o'], [' ', ';', 'k'], [';', ';', 'k']] indentedBlock_trailer

theorem ignoredKept_iff_indented :
    ∃ w', (updateTest [['x']] (contextAt 1)).run
        { disk := unlines indentedBlock.lines, fileUpdate := FileUpdate.new } = .ok () w' ∧
      IgnoredKept [] indentedBlock.code indentedBlock.trailer (blockLines []) w'.disk := by
  have hdisk : lines (unlines indentedBlock.lines) = [] ++ blockLines [indentedBlock] := by decide
  obtain ⟨w', hrun, hiff⟩ := @ignoredKept_iff _
    { disk := _, fileUpdate := FileUpdate.new } (contextAt 1) _ _ _ [['x']] hdisk (by decide)
    (by decide) (by decide)
  exact ⟨w', hrun, hiff.mpr (by decide)⟩

/-- A comment that the check ignores is gone after the update. -/
theorem update_drops_ignored_comment :
    let b := Block.bare 'a' [[';', ';', 'k']] (Block.trailer_comment _)
    let context := { contextAt 1 with details.comments := b.comments }
    expectedOutput context.details.comments = [] ∧ [';', ';', 'k'] ∈ b.trailer ∧
      ∃ w', (updateTest [['x']] context).run
          { disk := unlines b.lines, fileUpdate := FileUpdate.new } = .ok () w' ∧
        { text := [';', ';', 'k'] } ∉ commentsOf (lines w'.disk) := by
  intro b context
  exact ⟨by decide, by decide, _, rfl, by decide⟩

end CiRunner
