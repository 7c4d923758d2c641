import CiRunner.Reading
import CiRunner.Trampoline
import CiRunner.TrampolineCache
import Mathlib.Tactic.IntervalCases

/-!
# Calling a compiled function

A call goes through five layers: the arguments are laid out in slots, the slots are written out
as bytes behind the code, the trampoline loads them, calls the function and stores its results,
the slots are read back in halves of 64 bits, and the results are read off the slots.  This
module follows a value through all of them.

Three of the functions involved are not the runner's.  What is asked of the two that convert a
value to a slot and back is `ValueLayout`; what is asked of the code generator and the emulator
is that they run what was put together from statements as these say (`ExecutesAs`); which
statements a trampoline has is the runner's own affair.

The compiler keeps the trampolines it has built.  It keeps them under the signatures they were
built for (`SingleFunctionCompiler.Caches`), so a call does not depend on the calls before it.
-/

namespace CiRunner

open LittleEndian

variable {Flags Body : Type}

/-! ## What is assumed of other packages -/

/-- The values are of the parameters' types, in order. -/
def HasTypes (values : List DataValue) (params : List AbiParam) : Prop :=
  List.Forall₂ (fun value param => value.HasType param.valueType) values params

/-- A signature that can be called through slots. -/
structure Signature.Marshallable (signature : Signature) : Prop where
  params_lt : signature.params.length < 2 ^ 27
  returns_lt : signature.returns.length < 2 ^ 27
  params : ∀ param ∈ signature.params, param.valueType.Marshallable
  returns : ∀ param ∈ signature.returns, param.valueType.Marshallable

/-- `g` takes arguments of the signature's types to results of its types. -/
def Signature.Types (signature : Signature) (g : List DataValue → List DataValue) : Prop :=
  ∀ args, HasTypes args signature.params → HasTypes (g args) signature.returns

/-- How values lie in slots.  A value that is not a boolean is written as its bytes.  A true
boolean is written so that none of the widths it may be loaded with is zero, a false one so that
all of them are.  A value is read off the slot's first bytes. -/
structure ValueLayout (tc : Toolchain Flags Body) : Prop where
  write : ∀ (v : DataValue) (ty : IrType), v.HasType ty → ty.Marshallable → v.isBool = false →
    (toBytes 16 (tc.writeValueTo v 0).toNat).take ty.bytes = v.toLeBytes
  write_bool : ∀ (b : Bool) (n : ℕ), 0 < n → n ≤ 16 →
    (ofBytes ((toBytes 16 (tc.writeValueTo (.b b) 0).toNat).take n) ≠ 0 ↔ b = true)
  read : ∀ (slot : BitVec 128) (ty : IrType), ty.Marshallable →
    tc.readValueFrom slot ty = DataValue.ofLeBytes ty (toBytes 16 slot.toNat)

/-- The number of slots of a call. -/
def Signature.slots (signature : Signature) : ℕ :=
  max signature.params.length signature.returns.length

/-- The emulator at the start of a call, for the code of the trampoline, that of the function,
and the slots as bytes. -/
def Emulator.atCall (trampoline code image : List UInt8) : Emulator where
  dram := trampoline ++ code ++ image
  x10 := BitVec.ofNat 64 (trampoline.length + dramBase)
  x11 := BitVec.ofNat 64 ((trampoline ++ code).length + dramBase)
  pc := BitVec.ofNat 64 dramBase

/-- The function and the trampoline of its signature are compiled, to `code` and `trampoline`, and
the emulator runs compiled statements as they say.  `emulate` speaks of any function of two
parameters that was put together from statements and compiles to the code that is run: with the
address of the code of `func`, which computes `g`, in `x10` and that of the slots in `x11`, its
last instruction is reached, and the slots are then as the statements leave them. -/
structure ExecutesAs (tc : Toolchain Flags Body) (isa : TargetIsa Flags) (func : IrFunction Body)
    (g : List DataValue → List DataValue) (code trampoline : CompiledCode) : Prop where
  codegen : tc.codegen func isa = .ok code
  codegen_trampoline : tc.codegen (makeTrampoline func.signature isa) isa = .ok trampoline
  fits : (trampoline.buffer ++ code.buffer).length + 16 * func.signature.slots < 2 ^ 63
  emulate : ∀ (entry : IrFunction Body) (stmts : List Stmt),
    tc.codegen entry isa = .ok trampoline → entry.body = .built stmts →
    entry.signature.params.length = 2 →
    ∀ image : List UInt8, image.length = 16 * func.signature.slots →
    let funcAddr := trampoline.buffer.length + dramBase
    let area := (trampoline.buffer ++ code.buffer).length + dramBase
    let emulator := Emulator.atCall trampoline.buffer code.buffer image
    ∀ fr', execStmts (calleeAt funcAddr g) stmts
        (Frame.entry funcAddr area (place dramBase emulator.dram)) = some fr' →
      ∃ mem, tc.testRunEndAt emulator (BitVec.ofNat 64 (funcAddr - 4)) = some mem ∧
        ∀ x, area ≤ x → x < area + image.length → mem x = fr'.mem x

/-! ## Laying out the arguments -/

section
variable {tc : Toolchain Flags Body}

lemma fit_of_hasTypes {values : List DataValue} {params : List AbiParam}
    (htypes : HasTypes values params) (h : ∀ param ∈ params, param.valueType.Marshallable) :
    Fit values params := by
  induction htypes with
  | nil => exact .nil
  | cons hvalue _ ih =>
    rw [List.forall_mem_cons] at h
    exact .cons ⟨hvalue, h.1⟩ (ih h.2)

/-- A value of the parameter's type passes the check on its type. -/
lemma accepted_of_hasType {v : DataValue} {ty : IrType} (h : v.HasType ty) :
    v.ty = ty ∨ v.isVector ∨ v.isBool := by
  cases v with
  | b v => exact .inr (.inr rfl)
  | v128 v => exact .inr (.inl rfl)
  | v64 v => exact .inr (.inl rfl)
  | _ => exact .inl h

lemma storeArguments_of_fit {args : List DataValue} {params : List AbiParam}
    (hfit : Fit args params) {n : ℕ} (hn : params.length ≤ n) :
    UnboxedValues.storeArguments tc args (List.replicate n 0) params =
      .ok (args.map (fun arg => tc.writeValueTo arg 0) ++
        List.replicate (n - params.length) 0) := by
  induction hfit generalizing n with
  | nil => cases n <;> rfl
  | @cons arg param args params harg _ ih =>
    obtain ⟨n, rfl⟩ : ∃ k, n = k + 1 := ⟨n - 1, by rw [List.length_cons] at hn; omega⟩
    have hn' : params.length ≤ n := by simpa using hn
    rw [List.replicate_succ, UnboxedValues.storeArguments,
      if_pos (accepted_of_hasType harg.1), ih hn', List.length_cons, Nat.add_sub_add_right]
    rfl

/-- The slots with the arguments, and zero in those that only a result uses. -/
def argumentSlots (tc : Toolchain Flags Body) (signature : Signature) (args : List DataValue) :
    UnboxedValues where
  slots := args.map (fun arg => tc.writeValueTo arg 0) ++
    List.replicate (signature.slots - signature.params.length) 0

lemma makeArguments_of_fit {signature : Signature} {args : List DataValue}
    (hfit : Fit args signature.params) :
    UnboxedValues.makeArguments tc args signature = .ok (argumentSlots tc signature args) := by
  have hslots : UnboxedValues.storeArguments tc args (List.replicate signature.slots 0)
      signature.params = .ok (argumentSlots tc signature args).slots :=
    storeArguments_of_fit hfit (Nat.le_max_left _ _)
  rw [Signature.slots] at hslots
  rw [UnboxedValues.makeArguments, if_pos hfit.length_eq]
  simp only [hslots]
  rfl

lemma length_argumentSlots {signature : Signature} {args : List DataValue}
    (hfit : Fit args signature.params) :
    (argumentSlots tc signature args).slots.length = signature.slots := by
  have hlength : args.length = signature.params.length := hfit.length_eq
  have hle : signature.params.length ≤ signature.slots := Nat.le_max_left _ _
  simp only [argumentSlots, List.length_append, List.length_map, List.length_replicate]
  omega

lemma length_makeVecU8 (values : UnboxedValues) :
    values.makeVecU8.length = 16 * values.slots.length := by
  obtain ⟨slots⟩ := values
  simp [UnboxedValues.makeVecU8, UnboxedValues.slotSize, Nat.mul_comm]

/-- A slot can be loaded as the argument that was written to it. -/
lemma loadsAs_writeValueTo (hlayout : ValueLayout tc) {arg : DataValue} {ty : IrType}
    (htype : arg.HasType ty) (hmarshal : ty.Marshallable) :
    LoadsAs ((toBytes 16 (tc.writeValueTo arg 0).toNat).take ty.bytes) arg := by
  cases arg with
  | b v =>
    exact hlayout.write_bool v ty.bytes (IrType.bytes_pos_of_isBool (isBool_of_hasType_b htype))
      (IrType.bytes_le_of_marshallable hmarshal)
  | _ => exact hlayout.write _ ty htype hmarshal rfl

/-- **The slots, placed in memory, hold the arguments.** -/
lemma slotsHold_place (hlayout : ValueLayout tc) {args : List DataValue} {params : List AbiParam}
    (hfit : Fit args params) (base : ℕ) (before : List UInt8) (slots : List (BitVec 128)) :
    SlotsHold (place base (before ++ UnboxedValues.makeVecU8
      { slots := args.map (fun arg => tc.writeValueTo arg 0) ++ slots })) (base + before.length)
      args params := by
  induction hfit generalizing before with
  | nil => exact True.intro
  | @cons arg param args params harg _ ih =>
    let bytes := toBytes 16 (tc.writeValueTo arg 0).toNat
    let tail := UnboxedValues.makeVecU8
      { slots := args.map (fun arg => tc.writeValueTo arg 0) ++ slots }
    have himage : before ++ UnboxedValues.makeVecU8
        { slots := (arg :: args).map (fun arg => tc.writeValueTo arg 0) ++ slots } =
        before ++ bytes ++ tail := by
      rw [List.append_assoc]
      rfl
    have hlength : bytes.length = 16 := length_toBytes _ _
    have hbytes := IrType.bytes_le_of_marshallable harg.2
    rw [himage]
    refine ⟨?_, ?_⟩
    · have hread : read (place base (before ++ bytes ++ tail)) (base + before.length)
          param.valueType.bytes =
          ((before ++ bytes ++ tail).drop before.length).take param.valueType.bytes :=
        read_place base (by simp only [List.length_append]; omega)
      rw [hread, List.append_assoc, List.drop_left, List.take_append_of_le_length (by omega)]
      exact loadsAs_writeValueTo hlayout harg.1 harg.2
    · have htail := ih (before ++ bytes)
      rwa [List.length_append, hlength, ← Nat.add_assoc] at htail

end

/-! ## Reading the results back -/

/-- The two halves put together are the sixteen bytes of the slot. -/
lemma toBytes_readBackSlot (mem : Mem) (area k : ℕ) :
    toBytes 16 (readBackSlot mem area k).toNat = read mem (area + 16 * k) 16 := by
  let low := ofBytes (read mem (area + k * 16) 8)
  let high := ofBytes (read mem (area + k * 16 + 8) 8)
  have hlow : low < 2 ^ 64 := by simpa using ofBytes_lt (read mem (area + k * 16) 8)
  have hhigh : high < 2 ^ 64 := by simpa using ofBytes_lt (read mem (area + k * 16 + 8) 8)
  have hwhole : (readBackSlot mem area k).toNat = ofBytes (read mem (area + k * 16) 16) := by
    have hor : low ||| high <<< 64 = high <<< 64 + low := by
      rw [Nat.or_comm, Nat.shiftLeft_add_eq_or_of_lt hlow]
    have hlt : high <<< 64 < 2 ^ 128 := by
      rw [Nat.shiftLeft_eq]
      omega
    calc (readBackSlot mem area k).toNat
        = low ||| high <<< 64 := by
          have hlow' : low % 2 ^ 128 = low := Nat.mod_eq_of_lt (by omega)
          have hhigh' : high % 2 ^ 128 = high := Nat.mod_eq_of_lt (by omega)
          simp only [readBackSlot, BitVec.toNat_or, BitVec.toNat_shiftLeft, BitVec.toNat_ofNat]
          rw [hlow', hhigh', Nat.mod_eq_of_lt hlt]
      _ = low + 256 ^ 8 * high := by
          rw [hor, Nat.shiftLeft_eq]
          omega
      _ = ofBytes (read mem (area + k * 16) 16) := by
          rw [read_append mem (area + k * 16) 8 8, ofBytes_append, length_read]
  have hlength : (read mem (area + k * 16) 16).length = 16 := length_read _ _ _
  rw [hwhole, Nat.mul_comm 16 k]
  conv_lhs => rw [← hlength]
  exact toBytes_ofBytes _

/-- The loop sets the first slots. -/
lemma readBack_eq (mem : Mem) (area n : ℕ) {slots : List (BitVec 128)} (h : n ≤ slots.length) :
    readBack mem area n slots =
      (List.range n).map (readBackSlot mem area) ++ slots.drop n := by
  unfold readBack
  induction n with
  | zero => rfl
  | succ n ih =>
    have hlt : n < slots.length := h
    rw [List.range_succ, List.foldl_append, ih (Nat.le_of_lt hlt), List.foldl_cons, List.foldl_nil,
      List.set_append_right _ _ (by simp), List.map_append, List.length_map, List.length_range,
      Nat.sub_self, List.drop_eq_getElem_cons hlt, List.append_assoc]
    rfl

section
variable {tc : Toolchain Flags Body}

/-- Results are read off slots one by one. -/
lemma readSlots_of_fit {rets : List DataValue} {returns : List AbiParam} (hfit : Fit rets returns)
    {slot : ℕ → BitVec 128} {k : ℕ} (rest : List (BitVec 128))
    (hread : ∀ (j : ℕ) v param, rets[j]? = some v → returns[j]? = some param →
      tc.readValueFrom (slot (k + j)) param.valueType = some v) :
    UnboxedValues.readSlots tc ((List.range' k returns.length).map slot ++ rest) returns =
      .ok rets := by
  induction hfit generalizing k with
  | nil => cases rest <;> rfl
  | @cons v param rets returns _ _ ih =>
    have hhead : tc.readValueFrom (slot k) param.valueType = some v := hread 0 v param rfl rfl
    have htail := ih (k := k + 1) fun j w p hw hp => by
      rw [Nat.add_assoc, Nat.add_comm 1 j]
      exact hread (j + 1) w p (by simpa using hw) (by simpa using hp)
    rw [List.length_cons, List.range'_succ, List.map_cons, List.cons_append,
      UnboxedValues.readSlots, hhead]
    simp only [htail]
    rfl

/-- **What the trampoline stored is what is collected**, from any memory that agrees with its
own on the slots. -/
lemma collectReturns_readBack (hlayout : ValueLayout tc) {signature : Signature}
    {rets : List DataValue} (hfit : Fit rets signature.returns) {mem mem' : Mem} {area : ℕ}
    (hmem : ∀ x, area ≤ x → x < area + 16 * signature.slots →
      mem' x = storeSlots mem area rets signature.returns x)
    {slots : List (BitVec 128)} (hslots : slots.length = signature.slots) :
    UnboxedValues.collectReturns tc
      { slots := readBack mem' area signature.returns.length slots } signature = .ok rets := by
  have hle : signature.returns.length ≤ signature.slots := Nat.le_max_right _ _
  rw [readBack_eq mem' area _ (by omega), UnboxedValues.collectReturns, if_pos (by simp),
    List.range_eq_range']
  refine readSlots_of_fit hfit _ fun j v param hv hparam => ?_
  have hj : j < signature.returns.length := (List.getElem?_eq_some_iff.mp hparam).1
  have hboth : v.HasType param.valueType ∧ param.valueType.Marshallable := by
    obtain ⟨hj₁, rfl⟩ := List.getElem?_eq_some_iff.mp hv
    obtain ⟨hj₂, rfl⟩ := List.getElem?_eq_some_iff.mp hparam
    exact List.Forall₂.get hfit hj₁ hj₂
  have hbytes := IrType.bytes_le_of_marshallable hboth.2
  have hsame : read mem' (area + 16 * j) param.valueType.bytes =
      storedBytes param.valueType v := by
    rw [← read_storeSlots hfit mem area hv hparam]
    exact read_congr fun x _ _ => hmem x (by omega) (by omega)
  have hsplit : read mem' (area + 16 * j) 16 = storedBytes param.valueType v ++
      read mem' (area + 16 * j + param.valueType.bytes) (16 - param.valueType.bytes) := by
    rw [← hsame, ← read_append, Nat.add_sub_cancel' hbytes]
  rw [hlayout.read _ _ hboth.2, Nat.zero_add, toBytes_readBackSlot, hsplit]
  exact ofLeBytes_storedBytes hboth.1 _

/-! ## One call -/

/-- **A call computes the function**, through the code of a trampoline for its signature. -/
theorem call2_computes (hlayout : ValueLayout tc) {isa : TargetIsa Flags} {func : IrFunction Body}
    (hsig : func.signature.Marshallable) {g : List DataValue → List DataValue}
    (htypes : func.signature.Types g) {code trampoline : CompiledCode}
    (hexec : ExecutesAs tc isa func g code trampoline) {args : List DataValue}
    (hargs : HasTypes args func.signature.params) :
    CompiledFunction.call2 tc
      { code := code.buffer, signature := func.signature,
        trampoline := { code := trampoline.buffer } } args = .ok (g args) := by
  have hfit := fit_of_hasTypes hargs hsig.params
  have hrets := fit_of_hasTypes (htypes args hargs) hsig.returns
  let values := argumentSlots tc func.signature args
  let funcAddr := trampoline.buffer.length + dramBase
  let area := (trampoline.buffer ++ code.buffer).length + dramBase
  let emulator := Emulator.atCall trampoline.buffer code.buffer values.makeVecU8
  have hslots : values.slots.length = func.signature.slots := length_argumentSlots hfit
  have hlength : values.makeVecU8.length = 16 * func.signature.slots := by
    rw [length_makeVecU8, hslots]
  have hhold : SlotsHold (place dramBase emulator.dram) area args func.signature.params := by
    have h := slotsHold_place hlayout hfit dramBase (trampoline.buffer ++ code.buffer)
      (List.replicate (func.signature.slots - func.signature.params.length) 0)
    rwa [Nat.add_comm] at h
  have hfits : area + 16 * max func.signature.params.length func.signature.returns.length ≤
      2 ^ 64 := by
    have hbound := hexec.fits
    simp only [Signature.slots] at hbound
    simp only [area, dramBase]
    omega
  obtain ⟨fr', hrun, hmem⟩ :
      ∃ fr', execStmts (calleeAt funcAddr g) (trampolineStmts func.signature)
          (Frame.entry funcAddr area (place dramBase emulator.dram)) = some fr' ∧
        fr'.mem = storeSlots (place dramBase emulator.dram) area (g args) func.signature.returns :=
    exec_trampolineStmts hfit hrets hsig.params_lt.le hsig.returns_lt.le hfits hhold
  obtain ⟨mem, hemulate, hagrees⟩ :=
    hexec.emulate (makeTrampoline func.signature isa) (trampolineStmts func.signature)
      hexec.codegen_trampoline rfl rfl values.makeVecU8 hlength fr' hrun
  have hstored (x : ℕ) (hlo : area ≤ x) (hhi : x < area + 16 * func.signature.slots) :
      mem x = storeSlots (place dramBase emulator.dram) area (g args) func.signature.returns x :=
    (hagrees x hlo (by omega)).trans (congrFun hmem x)
  have hcollect := collectReturns_readBack hlayout hrets hstored hslots
  have hemulate' : tc.testRunEndAt
      { dram := trampoline.buffer ++ code.buffer ++ values.makeVecU8
        x10 := BitVec.ofNat 64 funcAddr, x11 := BitVec.ofNat 64 area
        pc := BitVec.ofNat 64 dramBase } (BitVec.ofNat 64 (funcAddr - 4)) = some mem := hemulate
  have hvalues : UnboxedValues.makeArguments tc args func.signature = .ok values :=
    makeArguments_of_fit hfit
  simp only [CompiledFunction.call2, hvalues, bind, Except.bind]
  rw [hemulate']
  exact hcollect

/-! ## Compiling and calling -/

/-- **Compiling**, with a cached trampoline or a new one, gives the code of the function and that
of the trampoline of its signature. -/
lemma compile_eq {func : IrFunction Body} {code trampoline : CompiledCode}
    {compiler : SingleFunctionCompiler Flags} (hcache : compiler.Caches tc)
    (hcode : tc.codegen func compiler.isa = .ok code)
    (htrampoline : tc.codegen (makeTrampoline func.signature compiler.isa) compiler.isa =
      .ok trampoline) :
    ∃ compiler', SingleFunctionCompiler.compile tc func compiler =
        .ok { code := code.buffer, signature := func.signature,
              trampoline := { code := trampoline.buffer } } compiler' ∧
      compiler'.isa = compiler.isa ∧ compiler'.Caches tc := by
  let built : Trampoline := { code := trampoline.buffer }
  have hnew : SingleFunctionCompiler.compile tc func (.new compiler.isa) =
      .ok { code := code.buffer, signature := func.signature, trampoline := built }
        { isa := compiler.isa, trampolines := [(func.signature, built)] } := by
    have hfunc : compile2 tc func compiler.isa = .ok (code.buffer, code.disasm) := by
      simp [compile2, hcode]
    have hbuild : trampolineFor tc func.signature compiler.isa [] =
        .ok (built, [(func.signature, built)]) := by
      simp only [trampolineFor, compile2, htrampoline]
      rfl
    simp only [SingleFunctionCompiler.compile, SingleFunctionCompiler.new, hfunc, hbuild]
  rcases compile_of_caches hcache func with
    ⟨compiledFn, new, compiler', hnew', hcompile, hisa, hcache'⟩ | ⟨f, new, compiler', hnew', -⟩
  · rw [hnew] at hnew'
    cases hnew'
    exact ⟨compiler', hcompile, hisa, hcache'⟩
  · rw [hnew] at hnew'
    cases hnew'

/-- Functions compiled one after another with one compiler, each called on some argument lists
before the next is compiled.  The results are those of the calls. -/
def compileAndCall (tc : Toolchain Flags Body) :
    List (IrFunction Body × List (List DataValue)) → SingleFunctionCompiler Flags →
      Outcome (List (List (List DataValue)))
  | [], _ => .ok []
  | (func, calls) :: rest, compiler =>
    match SingleFunctionCompiler.compile tc func compiler with
    | .error f _ => .error f
    | .ok compiledFn compiler => do
      let results ← calls.mapM (compiledFn.call2 tc)
      let others ← compileAndCall tc rest compiler
      return results :: others

lemma mapM_eq_ok {α β : Type} {f : α → Outcome β} {g : α → β} {as : List α}
    (h : ∀ a ∈ as, f a = .ok (g a)) : as.mapM f = .ok (as.map g) := by
  induction as with
  | nil => rfl
  | cons a as ih =>
    rw [List.forall_mem_cons] at h
    rw [List.mapM_cons, h.1, ih h.2]
    rfl

/-- **Calling computes the functions**, whatever the compiler has compiled and been asked to call
before. -/
theorem compileAndCall_computes (hlayout : ValueLayout tc) (isa : TargetIsa Flags)
    (g : IrFunction Body → List DataValue → List DataValue)
    (runs : List (IrFunction Body × List (List DataValue)))
    (hsig : ∀ run ∈ runs, run.1.signature.Marshallable)
    (htypes : ∀ run ∈ runs, run.1.signature.Types (g run.1))
    (hexec : ∀ run ∈ runs, ∃ code trampoline,
      ExecutesAs tc isa run.1 (g run.1) code trampoline)
    (hargs : ∀ run ∈ runs, ∀ args ∈ run.2, HasTypes args run.1.signature.params) :
    compileAndCall tc runs (SingleFunctionCompiler.new isa) =
      .ok (runs.map fun run => run.2.map (g run.1)) := by
  suffices h : ∀ compiler : SingleFunctionCompiler Flags, compiler.isa = isa →
      compiler.Caches tc → compileAndCall tc runs compiler =
        .ok (runs.map fun run => run.2.map (g run.1)) from
    h (SingleFunctionCompiler.new isa) rfl (caches_new isa)
  induction runs with
  | nil => exact fun _ _ _ => rfl
  | cons run runs ih =>
    rintro compiler rfl hcache
    obtain ⟨func, calls⟩ := run
    rw [List.forall_mem_cons] at hsig htypes hexec hargs
    obtain ⟨code, trampoline, hfunc⟩ := hexec.1
    obtain ⟨compiler', hcompile, hisa, hcache'⟩ :=
      compile_eq hcache hfunc.codegen hfunc.codegen_trampoline
    have hcalls := mapM_eq_ok fun args h =>
      call2_computes hlayout hsig.1 htypes.1 hfunc (hargs.1 args h)
    have hrest := ih hsig.2 htypes.2 hexec.2 hargs.2 compiler' hisa hcache'
    rw [compileAndCall, hcompile]
    simp only [hcalls, hrest]
    rfl

end

/-- A signature whose result is narrower than the argument it is stored over. -/
def Signature.sample : Signature where
  params := [{ valueType := { laneType := .i32 } }, { valueType := { laneType := .b8 } }]
  returns := [{ valueType := { laneType := .b8 } }]
  callConv := .systemV

/-- `ret`, and `nop` in front of it: they stand for the code of a function and of a trampoline. -/
def retCode : List UInt8 := [0x67, 0x80, 0x00, 0x00]

def nopRetCode : List UInt8 := [0x13, 0x00, 0x00, 0x00] ++ retCode

/-- Compiles the functions of a test file, and of those put together from statements the trampoline
of this signature. -/
def compileSample (func : IrFunction Unit) : Except CodegenError CompiledCode :=
  match func.body with
  | .parsed _ => .ok { buffer := retCode, disasm := "    ret".toList }
  | .built stmts =>
    if stmts = trampolineStmts Signature.sample then .ok { buffer := nopRetCode, disasm := [] }
    else .error { message := "unsupported" }

/-- Runs the code of this trampoline, up to its `ret`.  The function behind it returns its
arguments but for the first. -/
def emulateSample (emulator : Emulator) (endAt : BitVec 64) : Option Mem :=
  if nopRetCode <+: emulator.dram ∧ emulator.pc = BitVec.ofNat 64 dramBase ∧
      endAt = emulator.pc + 4 then
    (execStmts (calleeAt (nopRetCode.length + dramBase) (List.drop 1))
      (trampolineStmts Signature.sample)
      (Frame.entry emulator.x10.toNat emulator.x11.toNat
        (place dramBase emulator.dram))).map Frame.mem
  else none

/-- A toolchain that compiles and emulates calls to functions of this signature. -/
def Toolchain.emulating : Toolchain Settings Unit where
  __ := Toolchain.sample
  codegen func _ := compileSample func
  writeValueTo
    | .b v, _ => if v then BitVec.allOnes 128 else 0
    | v, slot => BitVec.ofNat 128
      (ofBytes (v.toLeBytes ++ (toBytes 16 slot.toNat).drop v.toLeBytes.length))
  readValueFrom slot ty := DataValue.ofLeBytes ty (toBytes 16 slot.toNat)
  testRunEndAt := emulateSample

lemma valueLayout_emulating : ValueLayout Toolchain.emulating where
  write v ty h hmarshal hv := by
    let rest := (toBytes 16 (0 : BitVec 128).toNat).drop v.toLeBytes.length
    have hlength : v.toLeBytes.length = ty.bytes := length_toLeBytes h hv
    have hbytes := IrType.bytes_le_of_marshallable hmarshal
    have hsixteen : (v.toLeBytes ++ rest).length = 16 := by
      simp only [rest, List.length_append, List.length_drop, length_toBytes]
      omega
    have hlt : ofBytes (v.toLeBytes ++ rest) < 2 ^ 128 := by
      have h := ofBytes_lt (v.toLeBytes ++ rest)
      rwa [hsixteen] at h
    have hwrite : Toolchain.emulating.writeValueTo v 0 =
        BitVec.ofNat 128 (ofBytes (v.toLeBytes ++ rest)) := by
      cases v with
      | b v => cases hv
      | _ => rfl
    have hslot : toBytes 16 (ofBytes (v.toLeBytes ++ rest)) = v.toLeBytes ++ rest := by
      rw [← hsixteen]
      exact toBytes_ofBytes _
    rw [hwrite, BitVec.toNat_ofNat, Nat.mod_eq_of_lt hlt, hslot, ← hlength, List.take_left']
    rfl
  write_bool b n hpos hn := by
    rw [take_toBytes hn, ofBytes_toBytes]
    cases b with
    | false => simp [Toolchain.emulating]
    | true =>
      have hslot : (Toolchain.emulating.writeValueTo (.b true) 0).toNat = 2 ^ 128 - 1 := rfl
      rw [hslot]
      interval_cases n <;> decide
  read _ _ _ := rfl

/-- No other statements are compiled than those of the trampoline. -/
lemma built_of_compileSample {func : IrFunction Unit} {stmts : List Stmt} {code : CompiledCode}
    (hcode : compileSample func = .ok code) (hbody : func.body = .built stmts) :
    stmts = trampolineStmts Signature.sample := by
  simp only [compileSample, hbody] at hcode
  by_contra hne
  rw [if_neg hne] at hcode
  cases hcode

lemma compileSample_trampoline :
    compileSample (makeTrampoline Signature.sample TargetIsa.sample) =
      .ok { buffer := nopRetCode, disasm := [] } := by
  simp only [compileSample, makeTrampoline, if_true]

lemma executesAs_emulating (name : UserFuncName) :
    ExecutesAs Toolchain.emulating TargetIsa.sample
      { name, signature := Signature.sample, body := .parsed () } (List.drop 1)
      { buffer := retCode, disasm := "    ret".toList }
      { buffer := nopRetCode, disasm := [] } where
  codegen := rfl
  codegen_trampoline := compileSample_trampoline
  fits := by
    change (nopRetCode ++ retCode).length + 16 * Signature.sample.slots < 2 ^ 63
    decide
  emulate entry stmts hcode hbody _ image _ := by
    intro funcAddr area emulator fr' hrun
    obtain rfl := built_of_compileSample hcode hbody
    have hstart : nopRetCode <+: emulator.dram :=
      ⟨retCode ++ image, (List.append_assoc _ _ _).symm⟩
    have hx10 : emulator.x10.toNat = funcAddr := rfl
    have hx11 : emulator.x11.toNat = area := rfl
    have hpc : emulator.pc = BitVec.ofNat 64 dramBase := rfl
    refine ⟨fr'.mem, ?_, fun _ _ _ => rfl⟩
    change emulateSample emulator (BitVec.ofNat 64 (funcAddr - 4)) = _
    rw [emulateSample, if_pos ⟨hstart, hpc, rfl⟩, hx10, hx11, hrun]
    rfl

theorem compileAndCall_computes_sample :
    let func : IrFunction Unit :=
      { name := .testcase ['f'], signature := Signature.sample, body := .parsed () }
    compileAndCall Toolchain.emulating
        [(func, [[.i32 5, .b true], [.i32 0, .b false]]), (func, [[.i32 7, .b true]])]
        (SingleFunctionCompiler.new TargetIsa.sample) =
      .ok [[[.b true], [.b false]], [[.b true]]] := by
  intro func
  have hsig : Signature.sample.Marshallable :=
    ⟨by decide, by decide, by decide, by decide⟩
  have htypes : Signature.sample.Types (List.drop 1) := by
    intro args hargs
    cases hargs with
    | cons _ h => exact h
  have hexec := executesAs_emulating func.name
  have hargs (n : BitVec 32) (v : Bool) : HasTypes [.i32 n, .b v] Signature.sample.params :=
    .cons rfl (.cons rfl .nil)
  refine compileAndCall_computes valueLayout_emulating TargetIsa.sample (fun _ => List.drop 1)
    [(func, [[.i32 5, .b true], [.i32 0, .b false]]), (func, [[.i32 7, .b true]])]
    ?_ ?_ ?_ ?_
  · simpa using hsig
  · simpa using htypes
  · simpa using ⟨_, _, hexec⟩
  · simp [func, hargs]

end CiRunner
