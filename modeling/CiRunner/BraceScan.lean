import CiRunner.FrontToBack

/-!
# Functions in any layout of their braces

`updateAt` takes a function to end at the first line that starts with `}`.  The reader does not:
a closing brace may be indented, or share its line with the header.  `Span` is a function of either
kind with the comments after it, and `OnlyTrailerChanged` says what an update is meant to do to a
file of such functions: the lines between the function and the next one are new, blank or comments,
and have the new expectation among them; every other line is as it was.

The update does that when the scan stops at the end of the function, and when the function is the
last and the scan finds no end at all.  Otherwise the scan stops inside the function or in a later
one, whose lines and trailer it takes for this one's, and the file comes out as it should only if it
comes out as it was (`onlyTrailerChanged_iff`).
-/

namespace CiRunner

open TextLines

/-! ## Spans -/

/-- A function of a test file, in any layout of its braces, with the comments after it.  Its
closing brace is on its last line, which may be its first. -/
structure Span where
  earlier : List Text
  last : Text
  trailer : List Text
  header_function :
    ∃ header, (earlier ++ [last]).head? = some header ∧ startsWith header functionWord
  closing_brace : '}' ∈ last
  last_code : isTrailerLine last = false
  trailer_comments : ∀ l ∈ trailer, isTrailerLine l

namespace Span

/-- The lines of the function itself. -/
def code (s : Span) : List Text := s.earlier ++ [s.last]

def lines (s : Span) : List Text := s.code ++ s.trailer

end Span

/-- The lines of the functions, one after the other. -/
def spanLines (ss : List Span) : List Text := ss.flatMap Span.lines

lemma startsWith_brace_of_trailer {l : Text} (h : isTrailerLine l) :
    startsWith l closingBrace = false := by
  cases l with
  | nil => rfl
  | cons c l =>
    by_contra hbrace
    obtain ⟨t, ht⟩ := List.isPrefixOf_iff_prefix.mp (eq_true_of_ne_false hbrace)
    obtain rfl : c = '}' := by simpa [closingBrace] using (congrArg List.head? ht).symm
    have hbrace : isWhitespace '}' = false := by decide
    simp [isTrailerLine, hbrace] at h

/-- The function starts with its header. -/
lemma Span.exists_header (s : Span) :
    ∃ header rest, s.code = header :: rest ∧ startsWith header functionWord := by
  obtain ⟨header, hhead, hfunction⟩ := s.header_function
  obtain ⟨rest, hrest⟩ := List.head?_eq_some_iff.mp hhead
  exact ⟨header, rest, hrest, hfunction⟩

/-- What follows a trailer is nothing, or starts with a header. -/
lemma spanLines_cases (ss : List Span) :
    ss = [] ∨ ∃ header rest, spanLines ss = header :: rest ∧ startsWith header functionWord := by
  cases ss with
  | nil => exact Or.inl rfl
  | cons s ss =>
    obtain ⟨header, rest, hcode, hfunction⟩ := s.exists_header
    refine Or.inr ⟨header, rest ++ s.trailer ++ spanLines ss, ?_, hfunction⟩
    simp [spanLines, Span.lines, hcode]

/-! ## What an update should do, and when it does -/

/-- The file is `before`, the function, a trailer that holds the new expectation, and `after`, each
line ended by a newline. -/
def OnlyTrailerChanged (before : List Text) (s : Span) (after output : List Text) (disk : Text) :
    Prop :=
  ∃ trailer, (∀ l ∈ trailer, isTrailerLine l ∧ '\n' ∉ l) ∧ expectation output <:+: trailer ∧
    disk = unlines (before ++ (s.code ++ (trailer ++ after)))

/-- The lines of the other functions can be read off the file. -/
lemma OnlyTrailerChanged.mem_lines {before : List Text} {s : Span} {after output : List Text}
    {disk : Text} (h : OnlyTrailerChanged before s after output disk)
    (hclean : ∀ l ∈ before ++ (s.code ++ after), '\n' ∉ l) {l : Text} (hl : l ∈ before ++ after) :
    chomp l ∈ lines disk := by
  obtain ⟨trailer, hcomments, -, rfl⟩ := h
  simp only [List.forall_mem_append] at hclean
  rw [lines_unlines (by
    simp only [List.forall_mem_append]
    exact ⟨hclean.1, hclean.2.1, fun l hl => (hcomments l hl).2, hclean.2.2⟩)]
  apply List.mem_map_of_mem
  simp only [List.mem_append] at hl ⊢
  rcases hl with hl | hl
  · exact Or.inl hl
  · exact Or.inr (Or.inr (Or.inr hl))

/-- The first line of the function that starts with `}` is its last. -/
def Span.EndsAtBrace (s : Span) : Prop :=
  (∀ l ∈ s.earlier, startsWith l closingBrace = false) ∧ startsWith s.last closingBrace

/-- The scan for the closing brace of `s`, which `after` follows, does no harm: it stops at the end
of the function; or it does not stop at all, there being no other function; or the trailer and the
lines where it stops already have the new expectation. -/
def ScanFits (s : Span) (after : List Span) (output : List Text) : Prop :=
  let rest := leftOver (s.lines ++ spanLines after)
  s.EndsAtBrace ∨ (after = [] ∧ ∀ l ∈ s.code, startsWith l closingBrace = false) ∨
    expectation output <:+: s.trailer ∧ rest = expectation output ++ rest.dropWhile isDropped

/-- The scan finds no brace in the function, or the one at its end, or one before that. -/
lemma Span.code_cases (s : Span) :
    (∀ l ∈ s.code, startsWith l closingBrace = false) ∨ s.EndsAtBrace ∨
      ∃ front brace back, s.earlier = front ++ brace :: back ∧
        (∀ l ∈ front, startsWith l closingBrace = false) ∧ startsWith brace closingBrace := by
  cases hfind : s.earlier.find? (startsWith · closingBrace) with
  | some brace =>
    obtain ⟨hbrace, front, back, hsplit, hfront⟩ := List.find?_eq_some_iff_append.mp hfind
    have hopen : ∀ l ∈ front, startsWith l closingBrace = false := by simpa using hfront
    exact Or.inr (Or.inr ⟨front, brace, back, hsplit, hopen, hbrace⟩)
  | none =>
    have hearlier : ∀ l ∈ s.earlier, startsWith l closingBrace = false := by
      simpa using List.find?_eq_none.mp hfind
    cases hlast : startsWith s.last closingBrace with
    | true => exact Or.inr (Or.inl ⟨hearlier, hlast⟩)
    | false =>
      refine Or.inl fun l hl => ?_
      rcases List.mem_append.mp hl with hl | hl
      · exact hearlier l hl
      · obtain rfl : l = s.last := by simpa using hl
        exact hlast

/-- What is dropped between a line that is not dropped and the next header. -/
lemma dropWhile_append_cons {l : Text} (hl : isDropped l = false) (ls rest : List Text) :
    (ls ++ l :: rest).dropWhile isDropped = ls.dropWhile isDropped ++ l :: rest := by
  have hcons : (l :: rest).dropWhile isDropped = l :: rest :=
    List.dropWhile_cons_of_neg (by simp [hl])
  rw [List.dropWhile_append, hcons]
  split
  · rename_i h
    rw [List.isEmpty_iff.mp h, List.nil_append]
  · rfl

lemma dropWhile_append_spanLines (ls : List Text) (ss : List Span) :
    (ls ++ spanLines ss).dropWhile isDropped = ls.dropWhile isDropped ++ spanLines ss := by
  rcases spanLines_cases ss with rfl | ⟨header, rest, hlines, hfunction⟩
  · simp [spanLines]
  · rw [hlines, dropWhile_append_cons (isDropped_of_function hfunction)]

section
variable (s : Span) (after : List Span) (output : List Text)

/-- The lines an update of `s` writes, from the function on. -/
def writtenLines : List Text :=
  let ls := s.lines ++ spanLines after
  copied ls ++ (expectation output ++ (leftOver ls).dropWhile isDropped)

variable {s after output}

/-- A scan that stops at the end of the function leaves its trailer to the update. -/
lemma writtenLines_of_endsAtBrace (h : s.EndsAtBrace) :
    writtenLines s after output = s.code ++
      (expectation output ++ s.trailer.dropWhile isDropped ++ spanLines after) := by
  obtain ⟨hcopied, hleft⟩ := scan_closing h.1 h.2 (s.trailer ++ spanLines after)
  have hlines : s.lines ++ spanLines after =
      s.earlier ++ s.last :: (s.trailer ++ spanLines after) := by
    simp [Span.lines, Span.code]
  rw [writtenLines, hlines, hcopied, hleft, dropWhile_append_spanLines, Span.code,
    List.append_assoc (expectation output)]

/-- A scan that finds no brace in the function goes on through the functions after it. -/
lemma writtenLines_of_no_brace (h : ∀ l ∈ s.code, startsWith l closingBrace = false) :
    writtenLines s after output = s.code ++ (s.trailer ++ (copied (spanLines after) ++
      (expectation output ++ (leftOver (spanLines after)).dropWhile isDropped))) ∧
    leftOver (s.lines ++ spanLines after) = leftOver (spanLines after) := by
  have hopen : ∀ l ∈ s.lines, startsWith l closingBrace = false := by
    intro l hl
    rcases List.mem_append.mp hl with hl | hl
    · exact h l hl
    · exact startsWith_brace_of_trailer (s.trailer_comments l hl)
  obtain ⟨hcopied, hleft⟩ := scan_append hopen (spanLines after)
  refine ⟨?_, hleft⟩
  rw [writtenLines, hcopied, hleft, Span.lines]
  simp only [List.append_assoc]

/-- A scan that stops inside the function leaves the rest of it to the update. -/
lemma writtenLines_of_inner_brace {front back : List Text} {brace : Text}
    (hearlier : s.earlier = front ++ brace :: back)
    (hfront : ∀ l ∈ front, startsWith l closingBrace = false)
    (hbrace : startsWith brace closingBrace) :
    writtenLines s after output = front ++ brace :: (expectation output ++
      (back.dropWhile isDropped ++ s.last :: (s.trailer ++ spanLines after))) ∧
    leftOver (s.lines ++ spanLines after) = back ++ s.last :: (s.trailer ++ spanLines after) := by
  obtain ⟨hcopied, hleft⟩ :=
    scan_closing hfront hbrace (back ++ s.last :: (s.trailer ++ spanLines after))
  have hlines : s.lines ++ spanLines after =
      front ++ brace :: (back ++ s.last :: (s.trailer ++ spanLines after)) := by
    simp [Span.lines, Span.code, hearlier]
  rw [writtenLines, hlines, hcopied, hleft, dropWhile_append_cons (isDropped_of_code s.last_code)]
  simp

/-- Where the scan leaves just what the update makes of it, the file comes out as it was. -/
lemma writtenLines_of_rest
    (h : leftOver (s.lines ++ spanLines after) = expectation output ++
      (leftOver (s.lines ++ spanLines after)).dropWhile isDropped) :
    writtenLines s after output = s.code ++ (s.trailer ++ spanLines after) := by
  rw [writtenLines, ← h, copied_append_leftOver, Span.lines, List.append_assoc]

/-- After a scan that stopped in a later function the lines are right only if they are as they
were. -/
lemma rest_of_no_brace {trailer : List Text}
    (hopen : ∀ l ∈ s.code, startsWith l closingBrace = false)
    (hafter : after ≠ []) (hcomments : ∀ l ∈ trailer, isTrailerLine l)
    (hwritten : writtenLines s after output = s.code ++ (trailer ++ spanLines after)) :
    trailer = s.trailer ∧ leftOver (s.lines ++ spanLines after) = expectation output ++
      (leftOver (s.lines ++ spanLines after)).dropWhile isDropped := by
  obtain ⟨hlines, hleft⟩ := @writtenLines_of_no_brace s after output hopen
  obtain ⟨header, rest, hheader, hfunction⟩ :=
    (spanLines_cases after).resolve_left hafter
  have hcopied : copied (spanLines after) = header :: copied rest := by
    rw [hheader, copied, startsWith_brace_of_function hfunction]
    rfl
  have heq := List.append_cancel_left (hlines.symm.trans hwritten)
  have htrailer : s.trailer = trailer := by
    have hheader' := isTrailerLine_of_function hfunction
    rw [hcopied, hheader, List.cons_append] at heq
    exact eq_of_append_cons s.trailer_comments hcomments hheader' hheader' heq
  rw [htrailer] at heq
  have hrest := List.append_cancel_left heq
  nth_rewrite 3 [← copied_append_leftOver (spanLines after)] at hrest
  rw [hleft]
  exact ⟨htrailer.symm, (List.append_cancel_left hrest).symm⟩

/-- After a scan that stopped inside the function too. -/
lemma rest_of_inner_brace {trailer front back : List Text} {brace : Text}
    (hearlier : s.earlier = front ++ brace :: back)
    (hfront : ∀ l ∈ front, startsWith l closingBrace = false)
    (hbrace : startsWith brace closingBrace) (hcomments : ∀ l ∈ trailer, isTrailerLine l)
    (hwritten : writtenLines s after output = s.code ++ (trailer ++ spanLines after)) :
    trailer = s.trailer ∧ leftOver (s.lines ++ spanLines after) = expectation output ++
      (leftOver (s.lines ++ spanLines after)).dropWhile isDropped := by
  obtain ⟨hlines, hleft⟩ :=
    @writtenLines_of_inner_brace s after output _ _ _ hearlier hfront hbrace
  have hcode : s.code ++ (trailer ++ spanLines after) =
      front ++ brace :: (back ++ s.last :: (trailer ++ spanLines after)) := by
    simp [Span.code, hearlier]
  have heq := List.append_cancel_left ((hlines.symm.trans hwritten).trans hcode)
  have heq' : (expectation output ++ back.dropWhile isDropped) ++ s.last :: s.trailer =
      back ++ s.last :: trailer := by
    have happend : ((expectation output ++ back.dropWhile isDropped) ++ s.last :: s.trailer) ++
        spanLines after = (back ++ s.last :: trailer) ++ spanLines after := by
      simpa using heq
    exact List.append_cancel_right happend
  have htrailer : s.trailer = trailer :=
    eq_of_append_cons_last s.trailer_comments hcomments s.last_code s.last_code heq'
  have hback : expectation output ++ back.dropWhile isDropped = back := by
    rw [htrailer] at heq'
    exact List.append_cancel_right heq'
  have hlast : isDropped s.last = false := isDropped_of_code s.last_code
  rw [hleft, dropWhile_append_cons hlast, ← List.append_assoc, hback]
  exact ⟨htrailer.symm, rfl⟩

/-- **When the lines are right.** -/
theorem writtenLines_eq_iff (htrailer : ∀ l ∈ s.trailer, '\n' ∉ l)
    (houtput : ∀ o ∈ output, '\n' ∉ o) :
    (∃ trailer, (∀ l ∈ trailer, isTrailerLine l ∧ '\n' ∉ l) ∧ expectation output <:+: trailer ∧
      writtenLines s after output = s.code ++ (trailer ++ spanLines after)) ↔
    ScanFits s after output := by
  have hold : ∀ l ∈ s.trailer, isTrailerLine l ∧ '\n' ∉ l :=
    fun l hl => ⟨s.trailer_comments l hl, htrailer l hl⟩
  have hnew := expectation_trailer houtput
  constructor
  · rintro ⟨trailer, hcomments, hexpectation, hwritten⟩
    have hlines : ∀ l ∈ trailer, isTrailerLine l := fun l hl => (hcomments l hl).1
    rcases s.code_cases with hopen | hends | ⟨front, brace, back, hearlier, hfront, hbrace⟩
    · by_cases hafter : after = []
      · exact Or.inr (Or.inl ⟨hafter, hopen⟩)
      · obtain ⟨rfl, hrest⟩ := rest_of_no_brace hopen hafter hlines hwritten
        exact Or.inr (Or.inr ⟨hexpectation, hrest⟩)
    · exact Or.inl hends
    · obtain ⟨rfl, hrest⟩ := rest_of_inner_brace hearlier hfront hbrace hlines hwritten
      exact Or.inr (Or.inr ⟨hexpectation, hrest⟩)
  · rintro (hends | ⟨hafter, hopen⟩ | ⟨hexpectation, hrest⟩)
    · refine ⟨expectation output ++ s.trailer.dropWhile isDropped, ?_, ⟨[], _, rfl⟩,
        writtenLines_of_endsAtBrace hends⟩
      intro l hl
      rcases List.mem_append.mp hl with hl | hl
      · exact hnew l hl
      · exact hold l ((List.dropWhile_sublist _).subset hl)
    · refine ⟨s.trailer ++ expectation output, ?_, ⟨s.trailer, [], by simp⟩, ?_⟩
      · intro l hl
        rcases List.mem_append.mp hl with hl | hl
        · exact hold l hl
        · exact hnew l hl
      · rw [(writtenLines_of_no_brace hopen).1, hafter]
        simp [spanLines, copied, leftOver]
    · exact ⟨s.trailer, hold, hexpectation, writtenLines_of_rest hrest⟩

end

/-! ## Updates -/

variable {Flags : Type}

/-- **One update**, of a function in any layout: it always succeeds, and writes the lines the scan
leads to. -/
theorem updateTest_writes {w : World} {context : Context Flags} {before : List Text} {s : Span}
    {after : List Span} {output : List Text}
    (hdisk : lines w.disk = before ++ (s.lines ++ spanLines after))
    (hlast : w.fileUpdate.lastUpdate < context.details.location.lineNumber)
    (hline : (context.details.location.lineNumber : ℤ) - 1 + w.fileUpdate.lineDiff =
      before.length) :
    ∃ w', (updateTest output context).run w = .ok () w' ∧
      w'.disk = unlines (before ++ writtenLines s after output) := by
  obtain ⟨header, rest, hcode, hfunction⟩ := s.exists_header
  have hlines : s.lines ++ spanLines after = header :: (rest ++ s.trailer ++ spanLines after) := by
    simp [Span.lines, hcode]
  have hrun := updateAt_scan (f := spliceOutput output) hlast hline
    (hdisk.trans (congrArg _ hlines)) hfunction
  rw [← hlines] at hrun
  refine ⟨_, hrun, ?_⟩
  rw [spliceOutput_eq, ← unlines_append, writtenLines, expectation]
  simp

/-- **An update touches only its own function's trailer exactly when the scan fits.**  The file may
have functions in any layout of their braces, and may have been updated before, as long as the line
of the update comes after the last one and `lineDiff` sends it to the function. -/
theorem onlyTrailerChanged_iff {w : World} {context : Context Flags} {preamble : List Text}
    {earlier : List Span} {s : Span} {after : List Span} {output : List Text}
    (hdisk : lines w.disk = preamble ++ spanLines earlier ++ (s.lines ++ spanLines after))
    (hlast : w.fileUpdate.lastUpdate < context.details.location.lineNumber)
    (hline : (context.details.location.lineNumber : ℤ) - 1 + w.fileUpdate.lineDiff =
      (preamble ++ spanLines earlier).length)
    (houtput : ∀ o ∈ output, '\n' ∉ o) :
    ∃ w', (updateTest output context).run w = .ok () w' ∧
      (OnlyTrailerChanged (preamble ++ spanLines earlier) s (spanLines after) output w'.disk ↔
        ScanFits s after output) := by
  obtain ⟨w', hrun, hdisk'⟩ := @updateTest_writes _ _ _ _ _ _ output hdisk hlast hline
  have hclean : ∀ l ∈ preamble ++ spanLines earlier ++ (s.lines ++ spanLines after), '\n' ∉ l := by
    intro l hl
    rw [← hdisk] at hl
    exact newline_notMem_of_mem_lines hl
  generalize preamble ++ spanLines earlier = before at hclean hdisk' ⊢
  simp only [List.forall_mem_append, Span.lines] at hclean
  obtain ⟨hbefore, ⟨hcode, htrailer⟩, hafter⟩ := hclean
  have hnew := expectation_trailer houtput
  have hwritten : ∀ l ∈ writtenLines s after output, '\n' ∉ l := by
    have hmem : ∀ l ∈ s.lines ++ spanLines after, '\n' ∉ l := by
      simp only [List.forall_mem_append, Span.lines]
      exact ⟨⟨hcode, htrailer⟩, hafter⟩
    rw [← copied_append_leftOver (s.lines ++ spanLines after), List.forall_mem_append] at hmem
    simp only [writtenLines, List.forall_mem_append]
    exact ⟨hmem.1, fun l hl => (hnew l hl).2,
      fun l hl => hmem.2 l ((List.dropWhile_sublist _).subset hl)⟩
  refine ⟨w', hrun, Iff.trans ?_ (writtenLines_eq_iff htrailer houtput)⟩
  refine exists_congr fun trailer => and_congr_right fun hcomments => and_congr_right fun _ => ?_
  rw [hdisk']
  constructor
  · intro heq
    have hlines := unlines_inj (by
      simp only [List.forall_mem_append]
      exact ⟨hbefore, hwritten⟩) (by
      simp only [List.forall_mem_append]
      exact ⟨hbefore, hcode, fun l hl => (hcomments l hl).2, hafter⟩) heq
    exact List.append_cancel_left hlines
  · intro heq
    rw [heq]

/-- The function `%name` on a line of its own. -/
def Span.oneLine (name : Char) : Span where
  earlier := []
  last := functionWord ++ [' ', '%', name, '(', ')', ' ', '{', '}']
  trailer := []
  header_function := ⟨_, rfl, startsWith_append _ _⟩
  closing_brace := by simp
  last_code := isTrailerLine_of_function (startsWith_append _ _)
  trailer_comments := by simp

/-- The function `%name` on two lines, with one comment after it. -/
def Span.twoLines (name : Char) : Span where
  earlier := [functionWord ++ [' ', '%', name, '(', ')', ' ', '{']]
  last := closingBrace
  trailer := [[';', ' ', name]]
  header_function := ⟨_, rfl, startsWith_append _ _⟩
  closing_brace := by simp [closingBrace]
  last_code := by decide
  trailer_comments := by
    have hsemi : isWhitespace ';' = false := by decide
    simp [isTrailerLine, hsemi]

theorem onlyTrailerChanged_iff_twoLines :
    ∃ w', (updateTest [['x']] (contextAt 1)).run
        { disk := unlines ((Span.twoLines 'a').lines ++ (Span.oneLine 'b').lines)
          fileUpdate := FileUpdate.new } = .ok () w' ∧
      OnlyTrailerChanged [] (Span.twoLines 'a') (spanLines [Span.oneLine 'b']) [['x']] w'.disk := by
  have hdisk : lines (unlines ((Span.twoLines 'a').lines ++ (Span.oneLine 'b').lines)) =
      [] ++ spanLines [] ++ ((Span.twoLines 'a').lines ++ spanLines [Span.oneLine 'b']) := by decide
  obtain ⟨w', hrun, hiff⟩ := @onlyTrailerChanged_iff _
    { disk := _, fileUpdate := FileUpdate.new } (contextAt 1) _ _ _ _ [['x']] hdisk (by decide)
    (by decide) (by decide)
  exact ⟨w', hrun, hiff.mpr (Or.inl ⟨by decide, by decide⟩)⟩

/-- A function whose closing brace is on its header's line: the scan goes on to the end of the
next function, whose comment the update drops. -/
theorem update_swallows_next_function :
    let content := unlines ((Span.oneLine 'a').lines ++ (Span.twoLines 'b').lines)
    lines content = (Span.oneLine 'a').lines ++ spanLines [Span.twoLines 'b'] ∧
      ∃ w', (updateTest [['x']] (contextAt 1)).run
          { disk := content, fileUpdate := FileUpdate.new } = .ok () w' ∧
        [';', ' ', 'b'] ∉ lines w'.disk ∧
        ¬ OnlyTrailerChanged [] (Span.oneLine 'a') (spanLines [Span.twoLines 'b']) [['x']]
          w'.disk := by
  intro content
  refine ⟨by decide, _, rfl, by decide, ?_⟩
  intro h
  have hmem := h.mem_lines (by decide) (l := [';', ' ', 'b']) (by decide)
  revert hmem
  decide

end CiRunner
