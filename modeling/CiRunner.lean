import CiRunner.Library.TextLines
import CiRunner.Library.StableSort
import CiRunner.Library.Replay
import CiRunner.Library.LittleEndian
import CiRunner.Library.NamedTree
import CiRunner.Library.Cells
import CiRunner.Library.StraightLine
import CiRunner.Cranelift
import CiRunner.Toolchain
import CiRunner.SubTest
import CiRunner.FileUpdate
import CiRunner.TestCompile
import CiRunner.RuntestEnvironment
import CiRunner.Compiler
import CiRunner.TestRun
import CiRunner.Faults
import CiRunner.RunOne
import CiRunner.Schedule
import CiRunner.Layout
import CiRunner.Reading
import CiRunner.FrontToBack
import CiRunner.Verification
import CiRunner.Inertness
import CiRunner.Blessing
import CiRunner.UpdateSafety
import CiRunner.Rereading
import CiRunner.PlainComments
import CiRunner.Rerun
import CiRunner.Convergence
import CiRunner.TrampolineCache
import CiRunner.ValueBytes
import CiRunner.Trampoline
import CiRunner.Marshalling
import CiRunner.Agreement
import CiRunner.TrampolineTyping
import CiRunner.BraceScan
import CiRunner.IgnoredComments
import CiRunner.HeapLayout
import CiRunner.CompileErrors
import CiRunner.RunCalls
import CiRunner.VmctxArguments
import CiRunner.GuestHeaps
import CiRunner.RunAll
import CiRunner.Batch
import CiRunner.ReachedWorlds
import CiRunner.Panics
import CiRunner.RunMeaning
import CiRunner.PassingFiles
import CiRunner.FileMeaning
import CiRunner.Effects
import CiRunner.TrampolineForm
import CiRunner.Interruption
import CiRunner.Resumption
