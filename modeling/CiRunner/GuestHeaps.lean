import CiRunner.VmctxArguments

/-!
# Are the heaps of a test in the emulator's memory?

The context struct and the heaps are allocated by the runner, and the pointer to the struct travels
through the marshalling as an ordinary integer.  The function that gets it runs in the emulator,
whose memory is the image that `call2` puts together: the trampoline, the function and the argument
slots.  Neither the struct nor a heap is part of it, so a host address designates in the guest
whatever happens to be there.

`HeapsInGuest` says that the pointer is good for the guest.  It is exactly when the image itself
spells out the struct at the very address that the struct has on the host, and the addresses of all
heaps that are not empty happen to be those of unused memory behind the image
(`heapsInGuest_iff`).
-/

namespace CiRunner

open LittleEndian

variable {Flags Body : Type} (tc : Toolchain Flags Body)

/-! ## The emulator of a call -/

/-- The emulator that `call2` sets up for a function and its argument slots. -/
def CompiledFunction.emulator (self : CompiledFunction) (values : UnboxedValues) : Emulator :=
  .atCall self.trampoline.code self.code values.makeVecU8

/-- The rest of `call2`: run the emulator to the end of the trampoline and collect the results. -/
def CompiledFunction.finish (self : CompiledFunction) (values : UnboxedValues)
    (emulator : Emulator) : Outcome (List DataValue) :=
  match tc.testRunEndAt emulator (BitVec.ofNat 64 (self.trampoline.code.length + dramBase - 4)) with
  | none => .error (.panic .emulatorUnwrap)
  | some mem =>
    let argumentsArea := (self.trampoline.code ++ self.code).length + dramBase
    let values : UnboxedValues :=
      { slots := readBack mem argumentsArea self.signature.returns.length values.slots }
    values.collectReturns tc self.signature

/-- **What `call2` runs.** -/
lemma call2_of_makeArguments {self : CompiledFunction} {arguments : List DataValue}
    {values : UnboxedValues}
    (h : UnboxedValues.makeArguments tc arguments self.signature = .ok values) :
    self.call2 tc arguments = self.finish tc values (self.emulator values) := by
  show (UnboxedValues.makeArguments tc arguments self.signature >>=
    fun values => self.finish tc values (self.emulator values)) = _
  rw [h]
  rfl

namespace Emulator

variable (emulator : Emulator) (spare : ℕ)

/-- The memory of the guest: the image, and `spare` zeros behind it. -/
def memory : List UInt8 := emulator.dram ++ List.replicate spare 0

/-- The byte at a guest address. -/
def guestByte (address : ℕ) : Option UInt8 :=
  if dramBase ≤ address then (emulator.memory spare)[address - dramBase]? else none

/-- The 64-bit word at a guest address. -/
def guestWord (address : ℕ) : Option ℕ :=
  if dramBase ≤ address then wordAt 8 (emulator.memory spare) (address - dramBase) else none

/-- The address is one of the image: of the trampoline, the function or the argument slots. -/
def InImage (address : ℕ) : Prop :=
  dramBase ≤ address ∧ address < dramBase + emulator.dram.length

variable {emulator spare}

/-- Behind the image, all memory that there is is zero. -/
lemma guestByte_behind {address : ℕ} (h : dramBase + emulator.dram.length ≤ address) :
    emulator.guestByte spare address = some 0 ↔
      address < dramBase + emulator.dram.length + spare := by
  have hbase : dramBase ≤ address := by omega
  rw [guestByte, if_pos hbase, memory, List.getElem?_append_right (by omega),
    List.getElem?_replicate]
  split
  · exact iff_of_true rfl (by omega)
  · exact iff_of_false (by simp) (by omega)

/-- Words in a row are found from an address on when their bytes are there. -/
lemma forall_guestWord_iff {words : List (BitVec 64)} (hwords : words ≠ []) (address : ℕ) :
    (∀ k word, words[k]? = some word →
        emulator.guestWord spare (address + 8 * k) = some word.toNat) ↔
      dramBase ≤ address ∧ wordBytes 8 (words.map BitVec.toNat) <+:
        (emulator.memory spare).drop (address - dramBase) := by
  have hlt : ∀ n ∈ words.map BitVec.toNat, n < 256 ^ 8 := by
    intro n hn
    obtain ⟨word, -, rfl⟩ := List.mem_map.mp hn
    exact word.isLt
  rw [← forall_wordAt_iff (by decide) hlt]
  constructor
  · intro h
    have hbase : dramBase ≤ address := by
      obtain ⟨word, rest, rfl⟩ := List.exists_cons_of_ne_nil hwords
      by_contra hbase
      have hfirst := h 0 word rfl
      rw [guestWord, if_neg (by omega)] at hfirst
      cases hfirst
    refine ⟨hbase, fun k n hn => ?_⟩
    rw [List.getElem?_map] at hn
    obtain ⟨word, hword, rfl⟩ := Option.map_eq_some_iff.mp hn
    have hk := h k word hword
    rw [guestWord, if_pos (by omega), Nat.sub_add_comm hbase] at hk
    exact hk
  · rintro ⟨hbase, h⟩ k word hword
    rw [guestWord, if_pos (by omega), Nat.sub_add_comm hbase]
    exact h k _ (by rw [List.getElem?_map, hword, Option.map_some])

end Emulator

/-! ## The pointer -/

/-- The address a value of a pointer type is. -/
def DataValue.asAddress : DataValue → Option ℕ
  | .i16 v => some v.toNat
  | .i32 v => some v.toNat
  | .i64 v => some v.toNat
  | _ => none

/-- The pointer to the context struct is its host address, as far as the pointer type holds it. -/
lemma asAddress_pointer {struct : RuntestContext} {ty : IrType} (hty : ty.IsPointer)
    {pointer : DataValue} (h : struct.pointer ty = .ok pointer) :
    pointer.asAddress = some (struct.asPtr.toNat % 2 ^ ty.bits) := by
  unfold RuntestContext.pointer at h
  rcases hty with rfl | rfl | rfl <;> obtain rfl := Except.ok.inj h
  · simp [DataValue.asAddress, IrType.bits, IrType.laneCount, LaneType.bits]
  · simp [DataValue.asAddress, IrType.bits, IrType.laneCount, LaneType.bits]
  · have hlt := struct.asPtr.isLt
    simp [DataValue.asAddress, IrType.bits, IrType.laneCount, LaneType.bits]
    omega

/-- The argument in front of those of the command is this pointer. -/
lemma pointer_of_callArguments {env : RuntestEnvironment} (hheaps : env.heaps ≠ [])
    {func : IrFunction Body} {context : Context Flags} {isa : TargetIsa Flags}
    (hisa : context.isa = some isa) {runArgs : List DataValue} {pointer : DataValue}
    (h : TestRun.callArguments tc env func context runArgs = .ok (pointer :: runArgs)) :
    (env.runtimeStruct tc.placement).pointer isa.pointerType = .ok pointer := by
  have hactive : env.isActive := by simpa [RuntestEnvironment.isActive] using hheaps
  unfold TestRun.callArguments at h
  split at h
  · cases h
  · cases hvmctx : TestRun.vmctxArgs tc env context with
    | error f =>
      rw [hvmctx] at h
      cases h
    | ok args =>
      rw [hvmctx] at h
      have hargs : args ++ runArgs = pointer :: runArgs := Except.ok.inj h
      rcases (TestRun.vmctxArgs_eq_ok_iff tc).mp hvmctx with
        ⟨hinactive, -⟩ | ⟨-, isa', ptr, hisa', hpointer, rfl⟩
      · simp [hactive] at hinactive
      · obtain rfl : isa = isa' := Option.some.inj (hisa.symm.trans hisa')
        rw [List.singleton_append, List.cons.injEq] at hargs
        rw [hpointer, hargs.1]

/-! ## Heaps in the guest -/

/-- The pointer is good for the guest: it designates the words of the context struct there, and the
start and the end found for each heap delimit as many bytes as it has, all of them zero and none of
the image. -/
structure HeapsInGuest (placement : Placement) (env : RuntestEnvironment) (emulator : Emulator)
    (spare : ℕ) (pointer : DataValue) : Prop where
  struct : ∀ k word, (RuntestContext.new placement env).contextStruct[k]? = some word →
    ∃ address, pointer.asAddress = some address ∧
      emulator.guestWord spare (address + 8 * k) = some word.toNat
  heaps : ∀ i cmd, env.heaps[i]? = some cmd → ∃ address start, pointer.asAddress = some address ∧
    emulator.guestWord spare (address + 8 * (2 * i)) = some start ∧
    emulator.guestWord spare (address + 8 * (2 * i + 1)) = some (start + cmd.size) ∧
    ∀ x, start ≤ x → x < start + cmd.size →
      emulator.guestByte spare x = some 0 ∧ ¬ emulator.InImage x

/-- Host addresses happen to be good for the guest: the image, continued by zeros, spells out the
context struct at the address the struct has on the host, and every heap that is not empty lies
behind the image on the host. -/
structure HostMatchesGuest (placement : Placement) (env : RuntestEnvironment) (image : List UInt8)
    (spare address : ℕ) : Prop where
  base : dramBase ≤ address
  struct : (RuntestContext.new placement env).structBytes <+:
    (image ++ List.replicate spare 0).drop (address - dramBase)
  heaps : ∀ i cmd, env.heaps[i]? = some cmd → cmd.size ≠ 0 →
    dramBase + image.length ≤ (placement.heapStart i).toNat ∧
      (placement.heapStart i).toNat + cmd.size ≤ dramBase + image.length + spare

/-- A heap is unused memory of the guest when its host addresses are behind the image. -/
lemma forall_guestByte_iff {emulator : Emulator} {spare start size : ℕ} (hsize : size ≠ 0) :
    (∀ x, start ≤ x → x < start + size →
        emulator.guestByte spare x = some 0 ∧ ¬ emulator.InImage x) ↔
      dramBase + emulator.dram.length ≤ start ∧
        start + size ≤ dramBase + emulator.dram.length + spare := by
  constructor
  · intro h
    have hbehind : dramBase + emulator.dram.length ≤ start := by
      obtain ⟨hbyte, himage⟩ := h start le_rfl (by omega)
      rw [Emulator.InImage] at himage
      rw [Emulator.guestByte] at hbyte
      split at hbyte
      · omega
      · cases hbyte
    have hlast := (h (start + size - 1) (by omega) (by omega)).1
    rw [Emulator.guestByte_behind (by omega)] at hlast
    exact ⟨hbehind, by omega⟩
  · rintro ⟨hbehind, hend⟩ x hstart hx
    rw [Emulator.guestByte_behind (by omega), Emulator.InImage]
    omega

/-- What is found at an address of the guest, when it is good for the struct and the heaps. -/
lemma heapsInGuest_iff_of_address {placement : Placement} {env : RuntestEnvironment}
    (hheaps : env.heaps ≠ []) (hwrap : NoWrap placement env) {emulator : Emulator} {spare : ℕ}
    {pointer : DataValue} {address : ℕ} (haddress : pointer.asAddress = some address) :
    HeapsInGuest placement env emulator spare pointer ↔
      HostMatchesGuest placement env emulator.dram spare address := by
  have hnonempty : (RuntestContext.new placement env).contextStruct ≠ [] := by
    have hlength := RuntestContext.length_contextStruct placement env
    have hpos := List.length_pos_iff.mpr hheaps
    exact List.ne_nil_of_length_pos (by omega)
  have hwords : (∀ k word, (RuntestContext.new placement env).contextStruct[k]? = some word →
        emulator.guestWord spare (address + 8 * k) = some word.toNat) ↔
      dramBase ≤ address ∧ (RuntestContext.new placement env).structBytes <+:
        (emulator.memory spare).drop (address - dramBase) :=
    Emulator.forall_guestWord_iff hnonempty address
  -- the words of a heap are its start and its end on the host
  have hheap {i : ℕ} {cmd : HeapCommand} (hcmd : env.heaps[i]? = some cmd)
      (hstruct : ∀ k word, (RuntestContext.new placement env).contextStruct[k]? = some word →
        emulator.guestWord spare (address + 8 * k) = some word.toNat) :
      emulator.guestWord spare (address + 8 * (2 * i)) = some (placement.heapStart i).toNat ∧
        emulator.guestWord spare (address + 8 * (2 * i + 1)) =
          some ((placement.heapStart i).toNat + cmd.size) := by
    obtain ⟨hstart, hend⟩ := RuntestContext.getElem?_contextStruct placement hcmd
    have hlt := hwrap i cmd hcmd
    refine ⟨hstruct _ _ hstart, ?_⟩
    rw [hstruct _ _ hend, BitVec.toNat_add, BitVec.toNat_ofNat]
    congr 1
    omega
  constructor
  · intro h
    have hstruct (k : ℕ) (word : BitVec 64)
        (hword : (RuntestContext.new placement env).contextStruct[k]? = some word) :
        emulator.guestWord spare (address + 8 * k) = some word.toNat := by
      obtain ⟨a, ha, hfound⟩ := h.struct k word hword
      rw [haddress, Option.some.injEq] at ha
      rwa [ha]
    obtain ⟨hbase, hbytes⟩ := hwords.mp hstruct
    refine ⟨hbase, hbytes, fun i cmd hcmd hsize => ?_⟩
    obtain ⟨a, start, ha, hstart, -, hmemory⟩ := h.heaps i cmd hcmd
    rw [haddress, Option.some.injEq] at ha
    rw [← ha, (hheap hcmd hstruct).1, Option.some.injEq] at hstart
    rw [← hstart] at hmemory
    exact (forall_guestByte_iff hsize).mp hmemory
  · rintro ⟨hbase, hbytes, hhost⟩
    have hstruct := hwords.mpr ⟨hbase, hbytes⟩
    refine ⟨fun k word hword => ⟨address, haddress, hstruct k word hword⟩, fun i cmd hcmd => ?_⟩
    obtain ⟨hstart, hend⟩ := hheap hcmd hstruct
    refine ⟨address, _, haddress, hstart, hend, ?_⟩
    by_cases hsize : cmd.size = 0
    · intro x hx hx'
      omega
    · exact (forall_guestByte_iff hsize).mpr (hhost i cmd hcmd hsize)

/-- A struct that the host has behind all memory of the guest is not found there. -/
lemma not_heapsInGuest_of_far {placement : Placement} {env : RuntestEnvironment}
    (hheaps : env.heaps ≠ []) (hwrap : NoWrap placement env) {emulator : Emulator} {spare : ℕ}
    {pointer : DataValue} {address : ℕ} (haddress : pointer.asAddress = some address)
    (hfar : dramBase + emulator.dram.length + spare ≤ address) :
    ¬ HeapsInGuest placement env emulator spare pointer := by
  rw [heapsInGuest_iff_of_address hheaps hwrap haddress]
  rintro ⟨-, hbytes, -⟩
  have hlength := RuntestContext.length_contextStruct placement env
  have hpos := List.length_pos_iff.mpr hheaps
  have hle := hbytes.length_le
  rw [RuntestContext.structBytes, length_wordBytes, List.length_map, List.length_drop,
    List.length_append, List.length_replicate] at hle
  omega

/-- **When the pointer handed to a test is good for the guest**: in the emulator that the call runs,
only if host addresses happen to be. -/
theorem heapsInGuest_iff {env : RuntestEnvironment} (hheaps : env.heaps ≠ [])
    (hwrap : NoWrap tc.placement env) {func : IrFunction Body} {context : Context Flags}
    {isa : TargetIsa Flags} (hisa : context.isa = some isa) (hptr : isa.pointerType.IsPointer)
    {runArgs : List DataValue} {pointer : DataValue}
    (hargs : TestRun.callArguments tc env func context runArgs = .ok (pointer :: runArgs))
    {compiledFn : CompiledFunction} {values : UnboxedValues}
    (hvalues : UnboxedValues.makeArguments tc (pointer :: runArgs) compiledFn.signature =
      .ok values) (spare : ℕ) :
    compiledFn.call2 tc (pointer :: runArgs) =
        compiledFn.finish tc values (compiledFn.emulator values) ∧
      (HeapsInGuest tc.placement env (compiledFn.emulator values) spare pointer ↔
        HostMatchesGuest tc.placement env
          (compiledFn.trampoline.code ++ compiledFn.code ++ values.makeVecU8) spare
          (tc.placement.contextStruct.toNat % 2 ^ isa.pointerType.bits)) :=
  ⟨call2_of_makeArguments tc hvalues, heapsInGuest_iff_of_address hheaps hwrap
    (asAddress_pointer hptr (pointer_of_callArguments tc hheaps hisa hargs))⟩

/-- A toolchain whose host allocates as given. -/
def Toolchain.placing (placement : Placement) : Toolchain Settings Unit :=
  { Toolchain.readingRuns with placement }

/-- One heap of eight bytes. -/
def RuntestEnvironment.oneHeap : RuntestEnvironment :=
  { heaps := [{ size := 8, ptrOffset := some 0, boundOffset := some 8 }] }

lemma noWrap_oneHeap {placement : Placement}
    (h : (placement.heapStart 0).toNat + 8 < 2 ^ 64) : NoWrap placement .oneHeap := by
  intro i cmd hcmd
  cases i with
  | zero =>
    obtain rfl : HeapCommand.mk 8 (some 0) (some 8) = cmd := by
      simpa [RuntestEnvironment.oneHeap] using hcmd
    exact h
  | succ i => simp [RuntestEnvironment.oneHeap] at hcmd

/-- A host that happens to have the struct where the guest has its trampoline, and the heap right
behind the image of a call with one slot. -/
def Placement.lucky : Placement where
  heapStart _ := 0x80000020
  contextStruct := 0x80000000

/-- The function `%f` with a trampoline whose bytes are those of the lucky struct. -/
def CompiledFunction.lucky : CompiledFunction where
  code := []
  signature := IrFunction.takingVmctx.signature
  trampoline :=
    { code := [0x20, 0, 0, 0x80, 0, 0, 0, 0, 0x28, 0, 0, 0x80, 0, 0, 0, 0] }

/-- Such a trampoline makes the pointer good for the guest. -/
theorem heapsInGuest_lucky :
    HeapsInGuest Placement.lucky .oneHeap
      (CompiledFunction.lucky.emulator { slots := [0] }) 8 (.i64 0x80000000) := by
  have hheaps : RuntestEnvironment.oneHeap.heaps ≠ [] := by decide
  have hisa : (contextOf []).isa = some TargetIsa.sample := rfl
  have hptr : TargetIsa.sample.pointerType.IsPointer := Or.inr (Or.inr rfl)
  have hargs : TestRun.callArguments (Toolchain.placing .lucky) .oneHeap IrFunction.takingVmctx
      (contextOf []) [] = .ok [.i64 0x80000000] := rfl
  have hvalues : UnboxedValues.makeArguments (Toolchain.placing .lucky) [.i64 0x80000000]
      CompiledFunction.lucky.signature = .ok { slots := [0] } := rfl
  refine (heapsInGuest_iff (Toolchain.placing .lucky) hheaps (noWrap_oneHeap (by decide)) hisa hptr
    hargs hvalues 8).2.mpr ⟨by decide, by decide, ?_⟩
  intro i cmd hcmd hsize
  cases i with
  | zero =>
    obtain rfl : HeapCommand.mk 8 (some 0) (some 8) = cmd := by
      simpa [RuntestEnvironment.oneHeap] using hcmd
    decide
  | succ i => simp [RuntestEnvironment.oneHeap] at hcmd

/-- **On an ordinary host** the pointer that the call is made with designates nothing in a guest of
1 GiB. -/
theorem host_pointer_not_in_guest :
    TestRun.callArguments (Toolchain.placing .sample) .oneHeap IrFunction.takingVmctx
        (contextOf []) [] = .ok [.i64 0x7f0000000000] ∧
      NoWrap Placement.sample .oneHeap ∧
      UnboxedValues.makeArguments (Toolchain.placing .sample) [.i64 0x7f0000000000]
        CompiledFunction.lucky.signature = .ok { slots := [0] } ∧
      ¬ HeapsInGuest Placement.sample .oneHeap
        (CompiledFunction.lucky.emulator { slots := [0] }) (2 ^ 30) (.i64 0x7f0000000000) :=
  ⟨rfl, noWrap_oneHeap (by decide), rfl,
    not_heapsInGuest_of_far (by decide) (noWrap_oneHeap (by decide)) rfl (by decide)⟩

end CiRunner
