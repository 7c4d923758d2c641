import CiRunner.SubTest
import CiRunner.Library.Replay

/-!
# Updating the test file in place (`FileUpdate` in `runone.rs`)

`updateAt` rewrites the file at the function on a given line: it copies the lines before the
function, copies the function up to the first line that starts with `}`, and leaves the rest
to the closure `f`.  The line is one of the file *before* the run; the accumulated `lineDiff`
of earlier updates turns it into a line of the file as it is now.

The two loops are recursions over the lines that are left, `newTest` being the text pushed so
far.  The iterator `lines` of the source is the list of those lines.

Reading the file and writing it succeed.  The exits with `?` at `read_to_string` and `fs::write` are
left out, and with them the one state in which `line_diff` counts lines the file never got, since it
is set right before the write.
-/

namespace CiRunner

open TextLines

/-- `"function"`, which the header of a function starts with. -/
def functionWord : Text := ['f', 'u', 'n', 'c', 't', 'i', 'o', 'n']

/-- `"}"`, which the closing line of a function starts with. -/
def closingBrace : Text := ['}']

/-- Push a line and its newline. -/
def pushLine (newTest line : Text) : Text := newTest ++ line ++ ['\n']

/-- Push the first `n` lines.  `none` where `lines.next().unwrap()` finds no line. -/
def pushPreserved : ℕ → List Text → Text → Option (Text × List Text)
  | 0, lines, newTest => some (newTest, lines)
  | _ + 1, [], _ => none
  | n + 1, line :: lines, newTest => pushPreserved n lines (pushLine newTest line)

/-- Push the whole function, leading up to the trailing `}`.  The first line has to start the
function. -/
def pushFunction (location : Location) : Bool → List Text → Text → Except Error (Text × List Text)
  | _, [], newTest => .ok (newTest, [])
  | first, line :: lines, newTest =>
    if first && !startsWith line functionWord then
      .error (.notAtFunction location.lineNumber)
    else if startsWith line closingBrace then
      .ok (pushLine newTest line, lines)
    else
      pushFunction location false lines (pushLine newTest line)

/-- `n as usize` for an `isize`. -/
def asUsize (n : ℤ) : ℕ := (if n < 0 then n + 2 ^ 64 else n).toNat

/-- `FileUpdate::update_at`, on a file that can be read and written. -/
def updateAt (location : Location) (f : Text → List Text → Text) : Effect Unit := do
  let { disk := oldTest, fileUpdate := { lineDiff, lastUpdate } } ← get
  unless location.lineNumber > lastUpdate do
    throw (.panic .updateNotAfterLast)
  set ({ disk := oldTest, fileUpdate := { lineDiff, lastUpdate := location.lineNumber } } : World)
  let linesToPreserve := asUsize ((location.lineNumber - 1 : ℕ) + lineDiff)
  match pushPreserved linesToPreserve (lines oldTest) [] with
  | none => throw (.panic .noLineToPreserve)
  | some (newTest, rest) =>
    match pushFunction location true rest newTest with
    | .error e => throw (.err e)
    | .ok (newTest, rest) =>
      let newTest := f newTest rest
      let oldLineCount : ℤ := (lines oldTest).length
      let newLineCount : ℤ := (lines newTest).length
      set ({ disk := newTest
             fileUpdate := { lineDiff := lineDiff + (newLineCount - oldLineCount)
                             lastUpdate := location.lineNumber } } : World)

/-! ## What one update does -/

lemma pushPreserved_eq {n : ℕ} {ls : List Text} (h : n ≤ ls.length) (newTest : Text) :
    pushPreserved n ls newTest = some (newTest ++ unlines (ls.take n), ls.drop n) := by
  induction n generalizing ls newTest with
  | zero => simp [pushPreserved]
  | succ n ih =>
    cases ls with
    | nil => simp at h
    | cons l ls => simp [pushPreserved, ih (by simpa using h), pushLine]

/-- The lines the scan for the closing brace copies: up to the first that starts with `}`, and all
if there is none. -/
def copied : List Text → List Text
  | [] => []
  | line :: lines => if startsWith line closingBrace then [line] else line :: copied lines

/-- The lines that scan leaves. -/
def leftOver : List Text → List Text
  | [] => []
  | line :: lines => if startsWith line closingBrace then lines else leftOver lines

lemma copied_append_leftOver (ls : List Text) : copied ls ++ leftOver ls = ls := by
  induction ls with
  | nil => rfl
  | cons l ls ih => by_cases hl : startsWith l closingBrace <;> simp [copied, leftOver, hl, ih]

/-- The scan passes over lines that do not start with `}`. -/
lemma scan_append {ls : List Text} (h : ∀ l ∈ ls, startsWith l closingBrace = false)
    (rest : List Text) :
    copied (ls ++ rest) = ls ++ copied rest ∧ leftOver (ls ++ rest) = leftOver rest := by
  induction ls with
  | nil => exact ⟨rfl, rfl⟩
  | cons l ls ih =>
    rw [List.forall_mem_cons] at h
    obtain ⟨hcopied, hleft⟩ := ih h.2
    simp [copied, leftOver, h.1, hcopied, hleft]

/-- The scan stops at a line that starts with `}`. -/
lemma scan_closing {ls : List Text} (h : ∀ l ∈ ls, startsWith l closingBrace = false)
    {closing : Text} (hclosing : startsWith closing closingBrace) (rest : List Text) :
    copied (ls ++ closing :: rest) = ls ++ [closing] ∧
      leftOver (ls ++ closing :: rest) = rest := by
  obtain ⟨hcopied, hleft⟩ := scan_append h (closing :: rest)
  rw [hcopied, hleft]
  simp [copied, leftOver, hclosing]

lemma pushFunction_scan (location : Location) (ls : List Text) (newTest : Text) :
    pushFunction location false ls newTest =
      .ok (newTest ++ unlines (copied ls), leftOver ls) := by
  induction ls generalizing newTest with
  | nil => simp [pushFunction, copied, leftOver]
  | cons l ls ih =>
    by_cases hl : startsWith l closingBrace <;>
      simp [pushFunction, copied, leftOver, hl, ih, pushLine]

lemma startsWith_brace_of_function {l : Text} (h : startsWith l functionWord) :
    startsWith l closingBrace = false := by
  cases l with
  | nil => rfl
  | cons c l =>
    obtain ⟨t, ht⟩ := List.isPrefixOf_iff_prefix.mp h
    obtain rfl : c = 'f' := by simpa [functionWord] using (congrArg List.head? ht).symm
    rfl

/-- From its header on, a function is copied as far as the scan goes. -/
lemma pushFunction_eq (location : Location) {header : Text}
    (hheader : startsWith header functionWord) (ls : List Text) (newTest : Text) :
    pushFunction location true (header :: ls) newTest =
      .ok (newTest ++ unlines (copied (header :: ls)), leftOver (header :: ls)) := by
  have hopen := startsWith_brace_of_function hheader
  simp [pushFunction, copied, leftOver, hheader, hopen, pushFunction_scan, pushLine]

lemma asUsize_natCast (n : ℕ) : asUsize n = n := by
  rw [asUsize, if_neg (by omega), Int.toNat_natCast]

/-- **The spec of one update.**  Suppose that the line of the update comes after the last one,
and that, where `lineDiff` sends it, the file has the header of a function.  Then the update
succeeds; it writes the lines before the function and those the scan for the closing brace copies,
followed by what `f` makes of the rest, and it moves `lineDiff` by the lines gained. -/
theorem updateAt_scan {location : Location} {f : Text → List Text → Text} {w : World}
    {pre ls : List Text} {header : Text}
    (hlast : w.fileUpdate.lastUpdate < location.lineNumber)
    (hline : (location.lineNumber : ℤ) - 1 + w.fileUpdate.lineDiff = pre.length)
    (hdisk : lines w.disk = pre ++ header :: ls) (hheader : startsWith header functionWord) :
    let newTest := f (unlines (pre ++ copied (header :: ls))) (leftOver (header :: ls))
    (updateAt location f).run w = .ok ()
      { disk := newTest
        fileUpdate := { lineDiff := w.fileUpdate.lineDiff +
                          ((lines newTest).length - (lines w.disk).length)
                        lastUpdate := location.lineNumber } } := by
  intro newTest
  obtain ⟨oldTest, lineDiff, lastUpdate⟩ := w
  simp only at hlast hline hdisk
  have hpos : ((location.lineNumber - 1 : ℕ) : ℤ) = location.lineNumber - 1 := by omega
  have hpreserve : pushPreserved pre.length (lines oldTest) [] =
      some (unlines pre, header :: ls) := by
    rw [hdisk, pushPreserved_eq (by simp)]
    simp
  have hfunction := pushFunction_eq location hheader ls (unlines pre)
  rw [← unlines_append] at hfunction
  simp only [updateAt, EStateM.run_bind, Replay.run_get, Replay.run_set, gt_iff_lt, hlast,
    if_true, hpos, hline, asUsize_natCast, hpreserve, hfunction]
  rfl

/-- An update of a function in column-0 layout writes the lines before the function and the
function itself, followed by what `f` makes of the rest. -/
theorem updateAt_eq {location : Location} {f : Text → List Text → Text} {w : World}
    {pre body rest : List Text} {header closing : Text}
    (hlast : w.fileUpdate.lastUpdate < location.lineNumber)
    (hline : (location.lineNumber : ℤ) - 1 + w.fileUpdate.lineDiff = pre.length)
    (hdisk : lines w.disk = pre ++ header :: (body ++ closing :: rest))
    (hheader : startsWith header functionWord)
    (hbody : ∀ l ∈ body, startsWith l closingBrace = false)
    (hclosing : startsWith closing closingBrace) :
    let newTest := f (unlines (pre ++ header :: (body ++ [closing]))) rest
    (updateAt location f).run w = .ok ()
      { disk := newTest
        fileUpdate := { lineDiff := w.fileUpdate.lineDiff +
                          ((lines newTest).length - (lines w.disk).length)
                        lastUpdate := location.lineNumber } } := by
  have hopen : ∀ l ∈ header :: body, startsWith l closingBrace = false :=
    List.forall_mem_cons.mpr ⟨startsWith_brace_of_function hheader, hbody⟩
  obtain ⟨hcopied, hleft⟩ := scan_closing hopen hclosing rest
  rw [List.cons_append] at hcopied hleft
  have hrun := updateAt_scan (f := f) hlast hline hdisk hheader
  rwa [hcopied, hleft, List.cons_append] at hrun

/-- An update whose line does not come after the last one panics and changes nothing. -/
theorem updateAt_of_le {location : Location} {f : Text → List Text → Text} {w : World}
    (h : location.lineNumber ≤ w.fileUpdate.lastUpdate) :
    (updateAt location f).run w = .error (.panic .updateNotAfterLast) w := by
  obtain ⟨oldTest, lineDiff, lastUpdate⟩ := w
  simp only at h
  have hlt : ¬ lastUpdate < location.lineNumber := by omega
  simp [updateAt, hlt]

end CiRunner
