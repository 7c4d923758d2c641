import CiRunner.Library.NamedTree
import CiRunner.Library.Replay
import CiRunner.Library.TextLines

/-!
# Running all files of a directory (`all.rs`)

`out` walks over a directory and runs `run_one` on its `.clif` files.  The walk itself is
`visit_dirs`, which tells directories from files by their paths; the closure it calls tests once
more that an entry is no directory, and then looks at the name and the path.  The first file whose
exit code is not zero ends the walk with a panic.

The file system below a directory is a tree with named entries, in the order in which `read_dir`
yields them.  There are no symbolic links in it, so both tests see the entry itself.

`out` runs the selected files of the tree, each once, up to and including the first that fails
(`out_runs_selected`).
-/

namespace CiRunner

open TextLines Replay

namespace RunAll

/-! ## The walk -/

/-- A file or a directory, without what is in the file. -/
abbrev FsNode := NamedTree Text Unit

def isDir : FsNode → Bool
  | .leaf _ => false
  | .node _ => true

/-- `fs::DirEntry`, as far as it is asked. -/
structure DirEntry where
  path : Text
  fileName : Text
  /-- `file_type().is_dir()` -/
  isDir : Bool
  deriving DecidableEq, Repr

/-- The ways in which the driver panics. -/
inductive Stop
  /-- `output.status.code().unwrap()`: `run_one` was ended by a signal -/
  | noCode
  /-- `panic!("{:?}", entry.path().to_str())` -/
  | notOk (path : Text)
  deriving DecidableEq, Repr

/-- A computation of the driver.  The state lists the paths that `run_one` was invoked with. -/
abbrev Driver := EStateM Stop (List Text)

/-- The path of an entry of a directory. -/
def join (dir name : Text) : Text := dir ++ '/' :: name

mutual

/-- Walk over a directory, only visiting files. -/
def visitDirs (cb : DirEntry → Driver Unit) : Text → FsNode → Driver Unit
  | dir, .node entries => visitEntries cb dir entries
  | _, .leaf _ => pure ()

/-- The loop over `read_dir`. -/
def visitEntries (cb : DirEntry → Driver Unit) : Text → List (Text × FsNode) → Driver Unit
  | _, [] => pure ()
  | dir, (name, node) :: entries => do
    let path := join dir name
    if isDir node then visitDirs cb path node
    else cb { path, fileName := name, isDir := isDir node }
    visitEntries cb dir entries

end

/-! ## Running the files -/

/-- `".clif"` -/
def clif : Text := ['.', 'c', 'l', 'i', 'f']

/-- `"elf-gd"` -/
def elfGd : Text := ['e', 'l', 'f', '-', 'g', 'd']

/-- `"../wasmtime/cranelift/filetests/filetests/isa/riscv64"` -/
def filetestsDir : Text :=
  "../wasmtime/cranelift/filetests/filetests/isa/riscv64".toList

/-- What the exit code of `run_one` on a path means. -/
def checkCode (path : Text) : Option ℤ → Driver Unit
  | none => throw .noCode
  | some code => if code ≠ 0 then throw (.notOk path) else pure ()

/-- The closure that `out` visits the files with.  `status` is the exit code of `run_one` on a
path, if it has one. -/
def runFile (status : Text → Option ℤ) (entry : DirEntry) : Driver Unit :=
  if entry.isDir then pure ()
  else if ¬ clif <:+ entry.fileName then pure ()
  else if elfGd <:+: entry.path then pure () -- remove me.
  else do
    modify (· ++ [entry.path])
    checkCode entry.path (status entry.path)

/-- `out`, on the entries of the directory with the tests. -/
def out (status : Text → Option ℤ) (entries : List (Text × FsNode)) : Driver Unit :=
  visitDirs (runFile status) filetestsDir (.node entries)

/-! ## The walk visits the leaves -/

/-- The entry that names below a directory lead to, when it is a file. -/
def entryAt (dir : Text) (names : List Text) : DirEntry where
  path := names.foldl join dir
  fileName := names.getLast?.getD []
  isDir := false

/-- The files below a path that is a directory. -/
def filesBelow (dir : Text) : FsNode → List DirEntry
  | .leaf _ => []
  | .node entries => (NamedTree.leavesOf entries).map fun l => entryAt dir l.1

/-- The files that the walk finds at an entry: those below it, or the entry itself. -/
lemma filesBelow_entry (dir name : Text) (node : FsNode) :
    (node.leaves.map fun l => (name :: l.1, l.2)).map (fun l => entryAt dir l.1) =
      if isDir node then filesBelow (join dir name) node
      else [{ path := join dir name, fileName := name, isDir := isDir node }] := by
  cases node with
  | leaf a => rfl
  | node entries =>
    have hdir : isDir (.node entries) = true := rfl
    rw [if_pos hdir, filesBelow, NamedTree.leaves, List.map_map]
    refine List.map_congr_left fun l hl => ?_
    obtain ⟨first, rest, hnames⟩ :=
      List.exists_cons_of_ne_nil (NamedTree.ne_nil_of_mem_leavesOf hl)
    simp [entryAt, hnames]

/-- The computation is a run of the callback on these files. -/
def Visits (cb : DirEntry → Driver Unit) (m : Driver Unit) (files : List DirEntry) : Prop :=
  ∀ s, m.run s = (play cb files s).2

section
variable {cb : DirEntry → Driver Unit}

lemma visits_nil : Visits cb (pure ()) [] := fun _ => rfl

lemma visits_one (entry : DirEntry) : Visits cb (cb entry) [entry] := by
  intro s
  rcases step_cases cb entry s with ⟨t, ht⟩ | ⟨f, t, ht⟩
  · rw [play_cons_of_ok ht, ht, play_nil]
  · rw [play_cons_of_error ht, ht]

lemma Visits.bind {m m' : Driver Unit} {files files' : List DirEntry} (hm : Visits cb m files)
    (hm' : Visits cb m' files') : Visits cb (m >>= fun _ => m') (files ++ files') := by
  intro s
  rcases play_cases cb files s with ⟨t, ht⟩ | ⟨f, t, ht⟩
  · rw [bind_of_ok ((hm s).trans ht), play_append_of_ok ht, hm' t]
  · rw [bind_of_error ((hm s).trans ht), play_append_of_error ht, ht]

/-- The loop over the entries of a directory, when it is so for each of them. -/
lemma visits_entries {entries : List (Text × FsNode)}
    (h : ∀ c ∈ entries, ∀ dir, Visits cb (visitDirs cb dir c.2) (filesBelow dir c.2)) (dir : Text) :
    Visits cb (visitEntries cb dir entries)
      ((NamedTree.leavesOf entries).map fun l => entryAt dir l.1) := by
  induction entries with
  | nil => exact visits_nil
  | cons c entries ih =>
    obtain ⟨name, node⟩ := c
    rw [List.forall_mem_cons] at h
    rw [NamedTree.leavesOf, List.map_append, filesBelow_entry, visitEntries]
    by_cases hdir : isDir node
    · simp only [hdir, if_true]
      exact (h.1 (join dir name)).bind (ih h.2)
    · simp only [hdir, Bool.false_eq_true, if_false]
      exact (visits_one _).bind (ih h.2)

/-- **The walk** calls the callback on each file below the directory, depth first. -/
theorem visits_dirs (node : FsNode) (dir : Text) :
    Visits cb (visitDirs cb dir node) (filesBelow dir node) := by
  induction node using NamedTree.induction_on generalizing dir with
  | leaf a => exact visits_nil
  | node entries ih => exact visits_entries ih dir

end

/-! ## The files that are run -/

/-- The file is one of those that are run. -/
def DirEntry.Selected (entry : DirEntry) : Prop :=
  clif <:+ entry.fileName ∧ ¬ elfGd <:+: entry.path

instance (entry : DirEntry) : Decidable entry.Selected := inferInstanceAs (Decidable (_ ∧ _))

/-- Other files are passed over. -/
lemma runFile_other (status : Text → Option ℤ) {entry : DirEntry} (hdir : entry.isDir = false)
    (h : ¬ entry.Selected) (s : List Text) : (runFile status entry).run s = .ok () s := by
  rw [DirEntry.Selected, not_and_not_right] at h
  unfold runFile
  rw [if_neg (by simp [hdir])]
  by_cases hname : clif <:+ entry.fileName
  · rw [if_neg (not_not.mpr hname), if_pos (h hname)]
    rfl
  · rw [if_pos hname]
    rfl

/-- A selected file is run, and ends the walk when its exit code is not zero. -/
lemma runFile_selected (code : Text → ℤ) {entry : DirEntry} (hdir : entry.isDir = false)
    (h : entry.Selected) (s : List Text) :
    (runFile (fun path => some (code path)) entry).run s =
      if code entry.path = 0 then .ok () (s ++ [entry.path])
      else .error (.notOk entry.path) (s ++ [entry.path]) := by
  unfold runFile
  rw [if_neg (by simp [hdir]), if_neg (not_not.mpr h.1), if_neg h.2]
  by_cases hcode : code entry.path = 0
  · rw [if_pos hcode, checkCode, if_neg (not_not.mpr hcode)]
    rfl
  · rw [if_neg hcode, checkCode, if_pos hcode]
    rfl

/-- Running selected files: up to and including the first that fails. -/
lemma play_selected (code : Text → ℤ) {files : List DirEntry}
    (h : ∀ entry ∈ files, entry.isDir = false ∧ entry.Selected) (s : List Text) :
    let result := (play (runFile fun path => some (code path)) files s).2
    let paths := files.map (·.path)
    finalState result = s ++ paths.take ((paths.takeWhile (code · = 0)).length + 1) ∧
      (fault? result = none ↔ ∀ path ∈ paths, code path = 0) := by
  induction files generalizing s with
  | nil => simp [finalState]
  | cons entry files ih =>
    rw [List.forall_mem_cons] at h
    have hrun := runFile_selected code h.1.1 h.1.2 s
    by_cases hcode : code entry.path = 0
    · rw [if_pos hcode] at hrun
      obtain ⟨hstate, hfault⟩ := ih h.2 (s ++ [entry.path])
      rw [play_cons_of_ok hrun]
      refine ⟨?_, ?_⟩
      · rw [hstate, List.map_cons, List.takeWhile_cons_of_pos (by simpa using hcode)]
        simp
      · rw [hfault, List.map_cons, List.forall_mem_cons, and_iff_right hcode]
    · rw [if_neg hcode] at hrun
      rw [play_cons_of_error hrun]
      refine ⟨?_, ?_⟩
      · rw [List.map_cons, List.takeWhile_cons_of_neg (by simpa using hcode)]
        rfl
      · simp [hcode]

/-! ## The directory with the tests -/

/-- The directory with the tests: no two entries of a directory in it have the same name, and no
name has a slash. -/
structure Directory where
  entries : List (Text × FsNode)
  distinct : (NamedTree.node entries : FsNode).Distinct
  named : (NamedTree.node entries : FsNode).Named fun name => '/' ∉ name

namespace Directory

variable (dir : Directory)

def tree : FsNode := .node dir.entries

/-- The path is that of a file, at any depth, whose name ends in `.clif`, and does not contain
`elf-gd`. -/
def Selects (path : Text) : Prop :=
  ∃ dirs name, dir.tree.get? (dirs ++ [name]) = some (.leaf ()) ∧ clif <:+ name ∧
    path = (dirs ++ [name]).foldl join filetestsDir ∧ ¬ elfGd <:+: path

/-- The paths of the selected files, in the order of the walk. -/
def selected : List Text :=
  ((filesBelow filetestsDir dir.tree).filter (·.Selected)).map (·.path)

lemma foldl_join (path : Text) (names : List Text) :
    names.foldl join path = path ++ names.flatMap ('/' :: ·) := by
  induction names generalizing path with
  | nil => simp
  | cons name names ih => rw [List.foldl_cons, ih, join, List.append_assoc, List.flatMap_cons]

variable {dir}

lemma filesBelow_tree :
    filesBelow filetestsDir dir.tree = dir.tree.leaves.map fun l => entryAt filetestsDir l.1 := rfl

lemma slash_of_mem_leaves {names : List Text} (h : (names, ()) ∈ dir.tree.leaves) :
    ∀ name ∈ names, '/' ∉ name :=
  dir.named.of_get? ((NamedTree.mem_leaves_iff dir.distinct names ()).mp h)

/-- **Each selected file is there once.** -/
theorem nodup_selected : dir.selected.Nodup := by
  have hleaves : dir.tree.leaves.Nodup := (NamedTree.nodup_leaves dir.distinct).of_map _
  rw [selected, filesBelow_tree, List.filter_map, List.map_map]
  refine (hleaves.filter _).map_on ?_
  rintro ⟨names, ⟨⟩⟩ h ⟨names', ⟨⟩⟩ h' heq
  have hnames := slash_of_mem_leaves (List.mem_of_mem_filter h)
  have hnames' := slash_of_mem_leaves (List.mem_of_mem_filter h')
  have hpath : names.foldl join filetestsDir = names'.foldl join filetestsDir := heq
  rw [foldl_join, foldl_join] at hpath
  obtain rfl := flatMap_cons_inj hnames hnames' (List.append_cancel_left hpath)
  rfl

/-- **What is selected** are the paths of the files in question. -/
theorem mem_selected_iff (path : Text) : path ∈ dir.selected ↔ dir.Selects path := by
  rw [selected, filesBelow_tree, List.mem_map]
  constructor
  · rintro ⟨entry, hentry, rfl⟩
    obtain ⟨hmem, hselected⟩ := List.mem_filter.mp hentry
    obtain ⟨⟨names, ⟨⟩⟩, hl, rfl⟩ := List.mem_map.mp hmem
    have hget := (NamedTree.mem_leaves_iff dir.distinct names ()).mp hl
    rcases List.eq_nil_or_concat' names with rfl | ⟨dirs, name, rfl⟩
    · exact absurd rfl (NamedTree.ne_nil_of_mem_leavesOf hl)
    · have hselected : (entryAt filetestsDir (dirs ++ [name])).Selected := by simpa using hselected
      refine ⟨dirs, name, hget, ?_, rfl, hselected.2⟩
      simpa [entryAt] using hselected.1
  · rintro ⟨dirs, name, hget, hname, rfl, hpath⟩
    have hl := (NamedTree.mem_leaves_iff dir.distinct (dirs ++ [name]) ()).mpr hget
    refine ⟨entryAt filetestsDir (dirs ++ [name]), List.mem_filter.mpr ⟨?_, ?_⟩, rfl⟩
    · exact List.mem_map.mpr ⟨_, hl, rfl⟩
    · have hselected : (entryAt filetestsDir (dirs ++ [name])).Selected :=
        ⟨by simpa [entryAt] using hname, hpath⟩
      simpa using hselected

end Directory

/-- **The driver runs each selected file once**, in the order of the walk, up to and including the
first with an exit code that is not zero; and it completes just if all of them exit with zero. -/
theorem out_runs_selected (dir : Directory) (code : Text → ℤ) :
    let result := (out (fun path => some (code path)) dir.entries).run []
    dir.selected.Nodup ∧ (∀ path, path ∈ dir.selected ↔ dir.Selects path) ∧
      finalState result =
        dir.selected.take ((dir.selected.takeWhile (code · = 0)).length + 1) ∧
      (fault? result = none ↔ ∀ path, dir.Selects path → code path = 0) := by
  let step := runFile fun path => some (code path)
  let files := filesBelow filetestsDir dir.tree
  have hfile : ∀ entry ∈ files, entry.isDir = false := by
    intro entry hentry
    obtain ⟨l, -, rfl⟩ := List.mem_map.mp hentry
    rfl
  have hrun : (out (fun path => some (code path)) dir.entries).run [] =
      (play step (files.filter (·.Selected)) []).2 := by
    have hidle : ∀ entry ∈ files, decide entry.Selected = false →
        ∀ s, (step entry).run s = .ok () s := by
      intro entry hentry hother s
      exact runFile_other _ (hfile entry hentry) (of_decide_eq_false hother) s
    rw [play_filter hidle]
    exact visits_dirs dir.tree filetestsDir []
  have hselected : ∀ entry ∈ files.filter (·.Selected), entry.isDir = false ∧ entry.Selected := by
    intro entry hentry
    obtain ⟨hmem, hsel⟩ := List.mem_filter.mp hentry
    exact ⟨hfile entry hmem, of_decide_eq_true hsel⟩
  obtain ⟨hstate, hfault⟩ := play_selected code hselected []
  refine ⟨Directory.nodup_selected, Directory.mem_selected_iff, ?_, ?_⟩
  · rw [hrun, hstate, List.nil_append]
    rfl
  · rw [hrun, hfault]
    exact forall_congr' fun path => imp_congr_left (Directory.mem_selected_iff path)

end RunAll

end CiRunner
