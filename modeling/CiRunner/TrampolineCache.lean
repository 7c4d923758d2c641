import CiRunner.Compiler
import CiRunner.Library.Replay
import Mathlib.Data.List.Dedup

/-!
# The trampolines a compiler keeps

A compiler builds the trampoline of a signature once and keeps it.  Each trampoline it keeps is
the one that would be built for the signature it is kept under (`SingleFunctionCompiler.Caches`),
since compiling a function adds no other.  So what compiling a function gives does not depend on
what was compiled before (`compile_of_caches`).

After any number of functions it keeps one trampoline for each of their signatures, and each
function was given that of its own (`compileEach_cases`).
-/

namespace CiRunner

open Replay

variable {Flags Body : Type} {tc : Toolchain Flags Body}

/-- Every trampoline the compiler keeps was built for the signature it is kept under. -/
def SingleFunctionCompiler.Caches (tc : Toolchain Flags Body)
    (compiler : SingleFunctionCompiler Flags) : Prop :=
  ∀ entry ∈ compiler.trampolines, ∃ code,
    expectTrampoline (compile2 tc (makeTrampoline entry.1 compiler.isa) compiler.isa) = .ok code ∧
      entry.2 = { code := code.1 }

lemma caches_new (isa : TargetIsa Flags) : (SingleFunctionCompiler.new isa).Caches tc := by
  intro entry hentry
  cases hentry

/-- A trampoline is the one that would be built, cached or not. -/
lemma trampolineFor_of_caches {compiler : SingleFunctionCompiler Flags}
    (hcache : compiler.Caches tc) (signature : Signature) :
    (∃ trampoline trampolines trampolines',
      trampolineFor tc signature compiler.isa [] = .ok (trampoline, trampolines) ∧
        trampolineFor tc signature compiler.isa compiler.trampolines =
          .ok (trampoline, trampolines') ∧
        SingleFunctionCompiler.Caches tc { compiler with trampolines := trampolines' }) ∨
      ∃ f, trampolineFor tc signature compiler.isa [] = .error f ∧
        trampolineFor tc signature compiler.isa compiler.trampolines = .error f := by
  let built := expectTrampoline (compile2 tc (makeTrampoline signature compiler.isa) compiler.isa)
  have hnew : trampolineFor tc signature compiler.isa [] = built >>= fun code =>
      pure ({ code := code.1 }, [(signature, { code := code.1 })]) := rfl
  cases hlookup : compiler.trampolines.lookup signature with
  | some trampoline =>
    obtain ⟨before, after, hsplit, -⟩ := List.lookup_eq_some_iff.mp hlookup
    have hmem : (signature, trampoline) ∈ compiler.trampolines := by simp [hsplit]
    obtain ⟨code, hcode, rfl⟩ := hcache _ hmem
    have hbuilt : built = .ok code := hcode
    refine Or.inl ⟨_, _, compiler.trampolines, by rw [hnew, hbuilt]; rfl, ?_, hcache⟩
    simp only [trampolineFor, hlookup]
  | none =>
    have hold : trampolineFor tc signature compiler.isa compiler.trampolines = built >>= fun code =>
        pure ({ code := code.1 }, (signature, { code := code.1 }) :: compiler.trampolines) := by
      simp only [trampolineFor, hlookup]
      rfl
    rw [hnew, hold]
    cases hbuilt : built with
    | error f => exact Or.inr ⟨f, rfl, rfl⟩
    | ok code =>
      refine Or.inl ⟨_, _, _, rfl, rfl, ?_⟩
      intro entry hentry
      rcases List.mem_cons.mp hentry with rfl | hentry
      · exact ⟨code, hbuilt, rfl⟩
      · exact hcache entry hentry

/-- **Compiling does not depend on what was compiled before.**  A compiler gives what a new one
gives, and keeps its trampolines for their signatures. -/
theorem compile_of_caches {compiler : SingleFunctionCompiler Flags} (hcache : compiler.Caches tc)
    (func : IrFunction Body) :
    (∃ compiledFn new compiler',
      SingleFunctionCompiler.compile tc func (.new compiler.isa) = .ok compiledFn new ∧
        SingleFunctionCompiler.compile tc func compiler = .ok compiledFn compiler' ∧
        compiler'.isa = compiler.isa ∧ compiler'.Caches tc) ∨
      ∃ f new compiler', SingleFunctionCompiler.compile tc func (.new compiler.isa) = .error f new ∧
        SingleFunctionCompiler.compile tc func compiler = .error f compiler' := by
  unfold SingleFunctionCompiler.compile
  simp only [SingleFunctionCompiler.new]
  cases compile2 tc func compiler.isa with
  | error f => exact Or.inr ⟨f, _, _, rfl, rfl⟩
  | ok code =>
    rcases trampolineFor_of_caches hcache func.signature with
      ⟨trampoline, trampolines, trampolines', hnew, hold, hcache'⟩ | ⟨f, hnew, hold⟩
    · rw [hnew, hold]
      exact Or.inl ⟨_, _, _, rfl, rfl, rfl, hcache'⟩
    · rw [hnew, hold]
      exact Or.inr ⟨f, _, _, rfl, rfl⟩

/-! ## Compiling one function after another -/

/-- Compile the functions, up to the first failure. -/
def SingleFunctionCompiler.compileEach (tc : Toolchain Flags Body)
    (functions : List (IrFunction Body)) :
    EStateM Fault (SingleFunctionCompiler Flags) (List CompiledFunction) :=
  functions.mapM (SingleFunctionCompiler.compile tc)

/-- The trampolines are those of the signatures seen, each once; the last one seen comes first in
`seen`. -/
structure SingleFunctionCompiler.Keeps (tc : Toolchain Flags Body) (seen : List Signature)
    (compiler : SingleFunctionCompiler Flags) : Prop where
  caches : compiler.Caches tc
  signatures : compiler.trampolines.map Prod.fst = seen.dedup

lemma keeps_new (isa : TargetIsa Flags) : (SingleFunctionCompiler.new isa).Keeps tc [] :=
  ⟨caches_new isa, rfl⟩

/-- A cached trampoline is found. -/
lemma SingleFunctionCompiler.Caches.lookup {compiler : SingleFunctionCompiler Flags}
    (hcache : compiler.Caches tc) {signature : Signature} {trampoline : Trampoline}
    (hmem : (signature, trampoline) ∈ compiler.trampolines) :
    compiler.trampolines.lookup signature = some trampoline := by
  obtain ⟨code, hcode, rfl⟩ := hcache _ hmem
  cases hlookup : compiler.trampolines.lookup signature with
  | none =>
    rw [List.lookup_eq_none_iff] at hlookup
    simpa using hlookup _ hmem
  | some trampoline =>
    obtain ⟨before, after, hsplit, -⟩ := List.lookup_eq_some_iff.mp hlookup
    obtain ⟨code', hcode', rfl⟩ := hcache (signature, trampoline) (by simp [hsplit])
    obtain rfl := Except.ok.inj (hcode.symm.trans hcode')
    rfl

/-- Compiling a function adds the trampoline of its signature, unless it is there. -/
lemma trampolineFor_adds {signature : Signature} {isa : TargetIsa Flags}
    {trampolines trampolines' : List (Signature × Trampoline)} {trampoline : Trampoline}
    (h : trampolineFor tc signature isa trampolines = .ok (trampoline, trampolines')) :
    (signature, trampoline) ∈ trampolines' ∧ trampolines <:+ trampolines' ∧
      trampolines'.map Prod.fst = if signature ∈ trampolines.map Prod.fst
        then trampolines.map Prod.fst else signature :: trampolines.map Prod.fst := by
  unfold trampolineFor at h
  cases hlookup : trampolines.lookup signature with
  | some trampoline' =>
    obtain ⟨rfl, rfl⟩ : trampoline' = trampoline ∧ trampolines = trampolines' := by
      simpa [hlookup] using h
    obtain ⟨before, after, hsplit, -⟩ := List.lookup_eq_some_iff.mp hlookup
    have hmem : (signature, trampoline') ∈ trampolines := by simp [hsplit]
    exact ⟨hmem, List.suffix_rfl, by rw [if_pos (List.mem_map_of_mem hmem)]⟩
  | none =>
    rw [hlookup] at h
    cases hbuilt : expectTrampoline (compile2 tc (makeTrampoline signature isa) isa) with
    | error f => simp [hbuilt, bind, Except.bind] at h
    | ok code =>
      obtain ⟨rfl, rfl⟩ : { code := code.1 } = trampoline ∧
          (signature, { code := code.1 }) :: trampolines = trampolines' := by
        simpa [hbuilt, bind, Except.bind, pure, Except.pure] using h
      have hnew : signature ∉ trampolines.map Prod.fst := by
        rw [List.lookup_eq_none_iff] at hlookup
        intro hmem
        obtain ⟨p, hp, rfl⟩ := List.mem_map.mp hmem
        simpa using hlookup p hp
      exact ⟨List.mem_cons_self, List.suffix_cons _ _, by rw [if_neg hnew]; rfl⟩

/-- **One function.**  Its signature is seen then. -/
lemma SingleFunctionCompiler.Keeps.compile {seen : List Signature}
    {compiler compiler' : SingleFunctionCompiler Flags} (hkeeps : compiler.Keeps tc seen)
    (hcaches : compiler'.Caches tc) {func : IrFunction Body} {compiledFn : CompiledFunction}
    (h : SingleFunctionCompiler.compile tc func compiler = .ok compiledFn compiler') :
    compiler'.Keeps tc (func.signature :: seen) ∧
      (compiledFn.signature, compiledFn.trampoline) ∈ compiler'.trampolines ∧
      compiler.trampolines <:+ compiler'.trampolines := by
  unfold SingleFunctionCompiler.compile at h
  cases hcode : compile2 tc func compiler.isa with
  | error f => simp [hcode] at h
  | ok code =>
    cases hbuilt : trampolineFor tc func.signature compiler.isa compiler.trampolines with
    | error f => simp [hcode, hbuilt] at h
    | ok p =>
      obtain ⟨hmem, hsuffix, hsignatures⟩ := trampolineFor_adds hbuilt
      simp only [hcode, hbuilt, EStateM.Result.ok.injEq] at h
      obtain ⟨rfl, rfl⟩ := h
      refine ⟨⟨hcaches, ?_⟩, hmem, hsuffix⟩
      rw [hsignatures, hkeeps.signatures, List.dedup_cons']

/-- Any number of functions, from a compiler that has seen signatures before. -/
lemma SingleFunctionCompiler.Keeps.compileEach {seen : List Signature}
    {compiler : SingleFunctionCompiler Flags} (hkeeps : compiler.Keeps tc seen)
    (functions : List (IrFunction Body)) :
    (∃ results compiler', (compileEach tc functions).run compiler = .ok results compiler' ∧
      List.Forall₂ (fun func compiledFn => ∃ new,
        SingleFunctionCompiler.compile tc func (.new compiler.isa) = .ok compiledFn new)
        functions results ∧
      compiler'.Keeps tc ((functions.map (·.signature)).reverse ++ seen) ∧
      (∀ compiledFn ∈ results,
        (compiledFn.signature, compiledFn.trampoline) ∈ compiler'.trampolines) ∧
      compiler.trampolines <:+ compiler'.trampolines) ∨
    ∃ func ∈ functions, ∃ fault compiler' new,
      (compileEach tc functions).run compiler = .error fault compiler' ∧
        SingleFunctionCompiler.compile tc func (.new compiler.isa) = .error fault new := by
  induction functions generalizing seen compiler with
  | nil => exact Or.inl ⟨[], compiler, rfl, .nil, hkeeps, by simp, List.suffix_rfl⟩
  | cons func functions ih =>
    rcases compile_of_caches hkeeps.caches func with
      ⟨compiledFn, new, compiler₁, hnew, hcompile, hisa, hcaches⟩ |
        ⟨f, new, compiler₁, hnew, hcompile⟩
    · obtain ⟨hkeeps₁, hmem, hsuffix⟩ := hkeeps.compile hcaches hcompile
      have hfirst : (SingleFunctionCompiler.compile tc func).run compiler =
          .ok compiledFn compiler₁ := hcompile
      have hrun : (SingleFunctionCompiler.compileEach tc (func :: functions)).run compiler =
          match (SingleFunctionCompiler.compileEach tc functions).run compiler₁ with
          | .ok results compiler' => .ok (compiledFn :: results) compiler'
          | .error fault compiler' => .error fault compiler' := by
        rw [SingleFunctionCompiler.compileEach, List.mapM_cons, bind_of_ok hfirst]
        cases hrest : (SingleFunctionCompiler.compileEach tc functions).run compiler₁ with
        | ok results compiler' => exact bind_of_ok hrest
        | error fault compiler' => exact bind_of_error hrest
      rcases ih hkeeps₁ with
        ⟨results, compiler', hrest, hresults, hkeeps', htrampolines, hsuffix'⟩ |
          ⟨func', hfunc', fault, compiler', new', hrest, hfault⟩
      · rw [hisa] at hresults
        refine Or.inl ⟨compiledFn :: results, compiler', by rw [hrun, hrest],
          .cons ⟨new, hnew⟩ hresults, ?_, ?_, hsuffix.trans hsuffix'⟩
        · simpa using hkeeps'
        · exact List.forall_mem_cons.mpr ⟨hsuffix'.subset hmem, htrampolines⟩
      · rw [hisa] at hfault
        exact Or.inr ⟨func', List.mem_cons_of_mem _ hfunc', fault, compiler', new',
          by rw [hrun, hrest], hfault⟩
    · refine Or.inr ⟨func, List.mem_cons_self, f, compiler₁, new, ?_, hnew⟩
      have hfirst : (SingleFunctionCompiler.compile tc func).run compiler =
          .error f compiler₁ := hcompile
      rw [SingleFunctionCompiler.compileEach, List.mapM_cons, bind_of_error hfirst]

/-- **Compiling functions one after another** gives what compiling each with a new compiler gives.
The compiler keeps one trampoline for each of their signatures, the last new one first, and every
function was given the one that is kept for its signature. -/
theorem compileEach_cases (tc : Toolchain Flags Body) (isa : TargetIsa Flags)
    (functions : List (IrFunction Body)) :
    (∃ results compiler',
      (SingleFunctionCompiler.compileEach tc functions).run (.new isa) = .ok results compiler' ∧
      List.Forall₂ (fun func compiledFn => ∃ new,
        SingleFunctionCompiler.compile tc func (.new isa) = .ok compiledFn new) functions results ∧
      compiler'.trampolines.map Prod.fst = (functions.map (·.signature)).reverse.dedup ∧
      ∀ compiledFn ∈ results,
        compiler'.trampolines.lookup compiledFn.signature = some compiledFn.trampoline) ∨
    ∃ func ∈ functions, ∃ fault compiler' new,
      (SingleFunctionCompiler.compileEach tc functions).run (.new isa) = .error fault compiler' ∧
        SingleFunctionCompiler.compile tc func (.new isa) = .error fault new := by
  rcases (keeps_new isa).compileEach functions with
    ⟨results, compiler', hrun, hresults, hkeeps, htrampolines, -⟩ | hfault
  · refine Or.inl ⟨results, compiler', hrun, hresults, ?_, fun compiledFn hmem => ?_⟩
    · simpa using hkeeps.signatures
    · exact hkeeps.caches.lookup (htrampolines compiledFn hmem)
  · exact Or.inr hfault

end CiRunner
