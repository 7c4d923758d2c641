import CiRunner.Layout

/-!
# Reading test files

What a test file says is for `cranelift_reader` to tell, which is a parameter.  Two things are said
about reading all the same.  `commentsOf` has the comments on given lines, as every result about
reading a file twice understands them.  And there is a reader, `readTest`, of as much of the format
as plain test files use: `test`, `set` and `target` lines, and functions over scalar types from
their header to the next header, their bodies unread.

It reads a file in column-0 layout as the layout has it, when no other line than a header begins
like one (`Layout.Plain`): the functions are those of the headers, each with the line of its header
and the comments of its block (`functions_readTest`), and all that a change of trailers changes is
these details (`readTest_of_code`).
-/

namespace CiRunner

open TextLines

/-! ## Comments -/

/-- The comment on a line, which is the text from its first `;` on. -/
def commentOf (l : Text) : Option Comment :=
  match l.dropWhile (· ≠ ';') with
  | [] => none
  | text => some { text }

/-- The comments on given lines, in textual order. -/
def commentsOf (ls : List Text) : List Comment := ls.filterMap commentOf

lemma commentsOf_append (ls ms : List Text) :
    commentsOf (ls ++ ms) = commentsOf ls ++ commentsOf ms :=
  List.filterMap_append

namespace Block

variable (b : Block)

def comments : List Comment := commentsOf b.lines

end Block

/-- The details of the blocks, where the first follows after `base` lines. -/
def blockDetails : ℕ → List Block → List Details
  | _, [] => []
  | base, b :: bs =>
    { location := { lineNumber := base + 1 }, comments := b.comments } ::
      blockDetails (base + b.lines.length) bs

/-- The details of the functions of a layout. -/
def Layout.details (L : Layout) : List Details := blockDetails L.preamble.length L.blocks

/-! ## The preamble -/

/-- The words of a line. -/
def words (l : Text) : List Text := (l.splitOn ' ').filter (· ≠ [])

def optionOf (word : Text) : TestOption :=
  match word.splitOn '=' with
  | [name, val] => .value (String.ofList name) (String.ofList val)
  | _ => .flag (String.ofList word)

/-- The command of a `test` line. -/
def testCommandOf (l : Text) : Option TestCommand :=
  match words l with
  | test :: command :: options =>
    if test = "test".toList then
      some { command := String.ofList command, options := options.map optionOf }
    else none
  | _ => none

/-- Shared settings, as they stand in the file. -/
abbrev Settings := List Text

/-- The settings of `set` lines. -/
def settingsOf (ls : List Text) : Settings :=
  ls.flatMap fun l =>
    match words l with
    | set :: settings => if set = "set".toList then settings else []
    | [] => []

/-- The targets of `target` lines, each with the settings in front of it. -/
def targetsOf (before : List Text) : List Text → List (TargetIsa Settings)
  | [] => []
  | l :: ls =>
    match words l with
    | [target, name] =>
      if target = "target".toList then
        { name := String.ofList name, flags := settingsOf before
          pointerType := { laneType := .i64 }, defaultCallConv := .systemV } ::
            targetsOf (before ++ [l]) ls
      else targetsOf (before ++ [l]) ls
    | _ => targetsOf (before ++ [l]) ls

def isaSpecOf (preamble : List Text) : IsaSpec Settings :=
  match targetsOf [] preamble with
  | [] => .none (settingsOf preamble)
  | isas => .some isas

/-! ## The header of a function -/

/-- The scalar types by name. -/
def laneTypeNames : List (String × LaneType) :=
  [("i8", .i8), ("i16", .i16), ("i32", .i32), ("i64", .i64), ("i128", .i128), ("f32", .f32),
    ("f64", .f64), ("b1", .b1), ("b8", .b8), ("b16", .b16), ("b32", .b32), ("b64", .b64),
    ("b128", .b128)]

/-- A parameter or a result: its type, and `vmctx` if it is that. -/
def abiParamOf (text : Text) : Option AbiParam :=
  match words text with
  | [type] => do
    return { valueType := { laneType := ← laneTypeNames.lookup (String.ofList type) } }
  | [type, purpose] => do
    let laneType ← laneTypeNames.lookup (String.ofList type)
    if purpose = "vmctx".toList then
      return { valueType := { laneType }, purpose := .vmContext }
    none
  | _ => none

/-- What stands between the first `opening` and the next `closing`. -/
def between (opening closing : Char) (l : Text) : Text :=
  ((l.dropWhile (· ≠ opening)).drop 1).takeWhile (· ≠ closing)

def signatureOf (header : Text) : Signature where
  params := ((between '(' ')' header).splitOn ',').filterMap abiParamOf
  returns := ((between '>' '{' header).splitOn ',').filterMap abiParamOf
  callConv := .systemV

/-- The function of a header. -/
def functionOf (header : Text) : IrFunction Unit where
  name := .testcase (between '%' '(' header)
  signature := signatureOf header
  body := .parsed ()

example : functionOf "function %f(i64 vmctx, b8) -> i32, f64 \x7b".toList =
    { name := .testcase ['f']
      signature :=
        { params := [{ valueType := { laneType := .i64 }, purpose := .vmContext },
            { valueType := { laneType := .b8 } }]
          returns := [{ valueType := { laneType := .i32 } }, { valueType := { laneType := .f64 } }]
          callConv := .systemV }
      body := .parsed () } := rfl

/-! ## The functions of a file -/

/-- The lines in front of the first function, and those of each function. -/
def splitFunctions : List Text → List Text × List (List Text)
  | [] => ([], [])
  | l :: ls =>
    let (before, functions) := splitFunctions ls
    if startsWith l functionWord then ([], (l :: before) :: functions)
    else (l :: before, functions)

/-- Functions with their details, where the first follows after `base` lines. -/
def functionsOf : ℕ → List (List Text) → List (IrFunction Unit × Details)
  | _, [] => []
  | base, ls :: functions =>
    (functionOf (ls.headD []),
      { location := { lineNumber := base + 1 }, comments := commentsOf ls }) ::
      functionsOf (base + ls.length) functions

/-- Read a test file. -/
def readTest (content : Text) : TestFile Settings Unit :=
  let (preamble, functions) := splitFunctions (lines content)
  { commands := preamble.filterMap testCommandOf
    isaSpec := isaSpecOf preamble
    preambleComments := commentsOf preamble
    functions := functionsOf preamble.length functions }

/-! ## Reading a layout -/

/-- No other lines than headers begin like one. -/
structure Layout.Plain (L : Layout) : Prop where
  preamble : ∀ l ∈ L.preamble, startsWith l functionWord = false
  body : ∀ b ∈ L.blocks, ∀ l ∈ b.body, startsWith l functionWord = false

lemma splitFunctions_append {ls : List Text} (h : ∀ l ∈ ls, startsWith l functionWord = false)
    (ms : List Text) :
    splitFunctions (ls ++ ms) = (ls ++ (splitFunctions ms).1, (splitFunctions ms).2) := by
  induction ls with
  | nil => rfl
  | cons l ls ih =>
    rw [List.forall_mem_cons] at h
    rw [List.cons_append, splitFunctions, ih h.2]
    simp [h.1]

lemma splitFunctions_blockLines {bs : List Block}
    (h : ∀ b ∈ bs, ∀ l ∈ b.body, startsWith l functionWord = false) :
    splitFunctions (blockLines bs) = ([], bs.map Block.lines) := by
  induction bs with
  | nil => rfl
  | cons b bs ih =>
    rw [List.forall_mem_cons] at h
    have htail : ∀ l ∈ b.body ++ [b.closing] ++ b.trailer, startsWith l functionWord = false := by
      intro l hl
      by_contra hfunction
      rw [Bool.not_eq_false] at hfunction
      rcases List.mem_append.mp hl with hl | hl
      · rcases List.mem_append.mp hl with hl | hl
        · rw [h.1 l hl] at hfunction
          cases hfunction
        · obtain rfl := List.mem_singleton.mp hl
          have hbrace := b.closing_brace
          rw [startsWith_brace_of_function hfunction] at hbrace
          cases hbrace
      · have htrailer := b.trailer_comments l hl
        rw [isTrailerLine_of_function hfunction] at htrailer
        cases htrailer
    have hlines : b.lines = b.header :: (b.body ++ [b.closing] ++ b.trailer) := rfl
    rw [blockLines_cons, hlines, List.cons_append, splitFunctions, splitFunctions_append htail,
      ih h.2, List.append_nil]
    simp [b.header_function, hlines]

lemma splitFunctions_lines {L : Layout} (h : L.Plain) :
    splitFunctions L.lines = (L.preamble, L.blocks.map Block.lines) := by
  rw [Layout.lines, splitFunctions_append h.preamble, splitFunctions_blockLines h.body,
    List.append_nil]

lemma functionsOf_blocks (base : ℕ) (bs : List Block) :
    functionsOf base (bs.map Block.lines) =
      (bs.map fun b => functionOf b.header).zip (blockDetails base bs) := by
  induction bs generalizing base with
  | nil => rfl
  | cons b bs ih =>
    rw [List.map_cons, functionsOf, ih, blockDetails, List.map_cons, List.zip_cons_cons]
    rfl

section
variable {L : Layout}

/-- The functions of the file, as the layout has them. -/
lemma functions_readTest (h : L.Plain) (hclean : ∀ l ∈ L.lines, Clean l) :
    (readTest (unlines L.lines)).functions =
      (L.blocks.map fun b => functionOf b.header).zip L.details := by
  rw [readTest, lines_unlines_of_clean hclean, splitFunctions_lines h]
  exact functionsOf_blocks _ _

/-- The layout has the preamble and the code of a plain one. -/
lemma Layout.Plain.of_code {L' : Layout} (h : L.Plain) (hpreamble : L'.preamble = L.preamble)
    (hcode : L'.blocks.map Block.code = L.blocks.map Block.code) : L'.Plain where
  preamble := by
    rw [hpreamble]
    exact h.preamble
  body b' hb' := by
    have hmem : b'.code ∈ L.blocks.map Block.code := hcode ▸ List.mem_map_of_mem hb'
    obtain ⟨b, hb, hsame⟩ := List.mem_map.mp hmem
    obtain ⟨-, hbody⟩ := List.cons.inj hsame
    rw [← (List.append_inj' hbody rfl).1]
    exact h.body b hb

/-- Files with the same preamble and the same code differ in the details only. -/
lemma readTest_of_code {L' : Layout} (h : L.Plain) (hclean : ∀ l ∈ L.lines, Clean l)
    (hpreamble : L'.preamble = L.preamble)
    (hcode : L'.blocks.map Block.code = L.blocks.map Block.code)
    (hclean' : ∀ l ∈ L'.lines, Clean l) :
    readTest (unlines L'.lines) =
      { readTest (unlines L.lines) with
        functions := (L.blocks.map fun b => functionOf b.header).zip L'.details } := by
  have hheaders : (L'.blocks.map fun b => functionOf b.header) =
      L.blocks.map fun b => functionOf b.header := by
    have h := congrArg (List.map fun ls => functionOf (ls.headD [])) hcode
    rwa [List.map_map, List.map_map] at h
  have hfunctions := functions_readTest (h.of_code hpreamble hcode) hclean'
  rw [hheaders] at hfunctions
  rw [← hfunctions, readTest, readTest, lines_unlines_of_clean hclean,
    lines_unlines_of_clean hclean', splitFunctions_lines h,
    splitFunctions_lines (h.of_code hpreamble hcode), hpreamble]

end

/-! ## Small test files -/

/-- The function `%name`, which just returns, with these lines behind it. -/
def Block.returning (name : Char) (trailer : List Text)
    (h : ∀ l ∈ trailer, isTrailerLine l) : Block :=
  { Block.bare name trailer h with
    body := ["block0:".toList, "    return".toList]
    body_open := by decide }

/-- A file with these `test` lines and the function `%f`, with these lines behind it. -/
def Layout.testing (tests : List String) (trailer : List Text)
    (h : ∀ l ∈ trailer, isTrailerLine l := by decide) : Layout where
  preamble := tests.map String.toList ++ [[]]
  blocks := [Block.returning 'f' trailer h]

lemma Layout.plain_testing {tests : List String}
    (htests : ∀ t ∈ tests, startsWith t.toList functionWord = false) (trailer : List Text)
    (h : ∀ l ∈ trailer, isTrailerLine l) : (Layout.testing tests trailer h).Plain where
  preamble l hl := by
    rcases List.mem_append.mp hl with hl | hl
    · obtain ⟨t, ht, rfl⟩ := List.mem_map.mp hl
      exact htests t ht
    · obtain rfl := List.mem_singleton.mp hl
      rfl
  body b hb := by
    obtain rfl := List.mem_singleton.mp hb
    show ∀ l ∈ ["block0:".toList, "    return".toList], startsWith l functionWord = false
    decide

/-- The function `%name` without parameters and results. -/
def IrFunction.sample (name : Char) : IrFunction Unit where
  name := .testcase [name]
  signature := { params := [], returns := [], callConv := .systemV }
  body := .parsed ()

/-- A comment that calls `%f`, and one that calls `%g`. -/
def printF : Text := "; print: %f()".toList

def printG : Text := "; print: %g()".toList

/-- What the former says. -/
def RunCommand.callF : RunCommand where
  func := ['f']
  args := []
  accepts _ := true

/-- The one target of a toolchain without settings. -/
def TargetIsa.sample : TargetIsa Settings where
  name := "riscv64gc"
  flags := []
  pointerType := { laneType := .i64 }
  defaultCallConv := .systemV

/-- A toolchain that reads test files, finds no commands in comments, accepts every function and
compiles each to nothing. -/
def Toolchain.sample : Toolchain Settings Unit where
  parseTest content _ := .ok (readTest content)
  parseRunCommand _ _ := .ok none
  parseHeapCommand _ := .ok none
  verifyFunction _ _ := .ok ()
  riscv64gc := TargetIsa.sample
  codegen _ _ := .ok { buffer := [], disasm := [] }
  writeValueTo _ slot := slot
  readValueFrom _ _ := none
  testRunEndAt _ _ := none
  callByName _ _ _ := .error "no function"
  placement := { heapStart := fun _ => 0, contextStruct := 0 }

/-- A toolchain that compiles every function to the line `ret`. -/
def Toolchain.compiling : Toolchain Settings Unit :=
  { Toolchain.sample with
    codegen := fun _ _ => .ok { buffer := [0x67, 0x80, 0x00, 0x00], disasm := "ret".toList } }

/-- A run begins with the file as it is. -/
def World.ofLayout (L : Layout) : World :=
  { disk := unlines L.lines, fileUpdate := FileUpdate.new }

end CiRunner
