import CiRunner.Compiler
import CiRunner.ValueBytes

/-!
# What a trampoline does

The statements of a trampoline are put together by a builder, and they mean what `execStmts` says.
`Emits` joins the two: emitting with a given next unused value yields statements that lead from one
frame to another.  It composes like the builder's own code, so the effect of a trampoline is worked
out in the order in which `makeTrampoline` is written.

The effect is this (`exec_trampolineStmts`).  When the slots from an address on hold arguments of
the parameters' types (`SlotsHold`), and the callee returns results on these, the statements store
the results, each from the first byte of its slot on (`storeSlots`).
-/

namespace CiRunner

open LittleEndian

/-! ## Emitting and executing -/

/-- When `n` is the next unused value, the code adds statements behind those that are there; it
returns `a`, and `n'` is then the next unused value. -/
def Adds {α : Type} (m : Build α) (n : ℕ) (a : α) (n' : ℕ) (stmts : List Stmt) : Prop :=
  ∀ before, m.run { stmts := before, next := n } = (a, { stmts := before ++ stmts, next := n' })

namespace Adds

variable {α β : Type} {n n' n'' : ℕ}

lemma pure (a : α) (n : ℕ) : Adds (Pure.pure a : Build α) n a n [] := by
  intro before
  rw [List.append_nil]
  rfl

lemma bind {m : Build α} {f : α → Build β} {a : α} {b : β} {as bs : List Stmt}
    (hm : Adds m n a n' as) (hf : Adds (f a) n' b n'' bs) :
    Adds (m >>= f) n b n'' (as ++ bs) := by
  intro before
  rw [StateT.run_bind, hm, ← List.append_assoc]
  exact hf (before ++ as)

lemma emit (k : ℕ) (inst : Inst) (n : ℕ) : Adds (CiRunner.emit k inst) n (List.range' n k) (n + k)
    [{ results := List.range' n k, inst }] := fun _ => rfl

lemma emit1 (inst : Inst) (n : ℕ) :
    Adds (CiRunner.emit1 inst) n n (n + 1) [{ results := [n], inst }] := fun _ => rfl

end Adds

section
variable (callee : Callee)

lemma execStmts_append (as bs : List Stmt) (fr : Frame) :
    execStmts callee (as ++ bs) fr = (execStmts callee as fr).bind (execStmts callee bs) := by
  induction as generalizing fr with
  | nil => rfl
  | cons a as ih =>
    rw [List.cons_append, execStmts, execStmts]
    cases h : a.inst.exec callee fr a.results with
    | none => rfl
    | some fr' => exact ih fr'

/-- When `n` is the next unused value, the code emits statements that lead from `fr` to `fr'`; it
returns `a`, and `n'` is then the next unused value. -/
def Emits {α : Type} (m : Build α) (n : ℕ) (fr : Frame) (a : α) (n' : ℕ) (fr' : Frame) :
    Prop :=
  ∃ stmts, (∀ before, m.run { stmts := before, next := n } =
      (a, { stmts := before ++ stmts, next := n' })) ∧ execStmts callee stmts fr = some fr'

namespace Emits

variable {callee} {α β : Type} {n n' n'' : ℕ} {fr fr' fr'' : Frame}

lemma pure (a : α) : Emits callee (Pure.pure a) n fr a n fr := ⟨[], Adds.pure a n, rfl⟩

lemma bind {m : Build α} {f : α → Build β} {a : α} {b : β} (hm : Emits callee m n fr a n' fr')
    (hf : Emits callee (f a) n' fr' b n'' fr'') : Emits callee (m >>= f) n fr b n'' fr'' := by
  obtain ⟨as, has, hexec⟩ := hm
  obtain ⟨bs, hbs, hexec'⟩ := hf
  refine ⟨as ++ bs, Adds.bind has hbs, ?_⟩
  rw [execStmts_append, hexec]
  exact hexec'

lemma emit {inst : Inst} (k : ℕ) (h : inst.exec callee fr (List.range' n k) = some fr') :
    Emits callee (CiRunner.emit k inst) n fr (List.range' n k) (n + k) fr' :=
  ⟨_, Adds.emit k inst n, by simp [execStmts, h]⟩

lemma emit1 {inst : Inst} (h : inst.exec callee fr [n] = some fr') :
    Emits callee (CiRunner.emit1 inst) n fr n (n + 1) fr' :=
  ⟨_, Adds.emit1 inst n, by simp [execStmts, h]⟩

end Emits

end

/-! ## Frames -/

/-- Updating at consecutive values leaves those below alone, and gives each what comes with it. -/
lemma foldl_update_range' {α β : Type} (f : α → β) (m : Value → β) (n : ℕ) (as : List α) :
    let m' := ((List.range' n as.length).zip as).foldl
      (fun (m : Value → β) (p : Value × α) => Function.update m p.1 (f p.2)) m
    (∀ x < n, m' x = m x) ∧ ∀ (j : ℕ) a, as[j]? = some a → m' (n + j) = f a := by
  induction as generalizing m n with
  | nil => exact ⟨fun _ _ => rfl, by simp⟩
  | cons a as ih =>
    obtain ⟨hbelow, hvalues⟩ := ih (Function.update m n (f a)) (n + 1)
    rw [List.length_cons, List.range'_succ, List.zip_cons_cons, List.foldl_cons]
    refine ⟨fun x hx => ?_, fun j b hb => ?_⟩
    · have hne : x ≠ n := Nat.ne_of_lt hx
      exact (hbelow x (Nat.lt_succ_of_lt hx)).trans (Function.update_of_ne hne _ _)
    · cases j with
      | zero =>
        obtain rfl : a = b := by simpa using hb
        exact (hbelow n (Nat.lt_succ_self n)).trans (Function.update_self _ _ _)
      | succ j =>
        have hj := hvalues j b (by simpa using hb)
        rwa [Nat.add_assoc, Nat.add_comm 1 j] at hj

namespace Frame

variable {fr fr' fr'' : Frame} {n n' : ℕ}

lemma values_define_one (fr : Frame) (n : ℕ) (v : DataValue) :
    (fr.define [n] [v]).values n = some v := by
  simp [define]

/-- The values below `n`, and the memory, are as they were. -/
structure Keeps (n : ℕ) (fr fr' : Frame) : Prop where
  mem : fr'.mem = fr.mem
  values : ∀ x < n, fr'.values x = fr.values x

lemma Keeps.trans (h : Keeps n fr fr') (h' : Keeps n' fr' fr'') (hn : n ≤ n') :
    Keeps n fr fr'' where
  mem := h'.mem.trans h.mem
  values x hx := (h'.values x (lt_of_lt_of_le hx hn)).trans (h.values x hx)

lemma keeps_define_one (fr : Frame) (n : ℕ) (v : DataValue) :
    Keeps n fr (fr.define [n] [v]) where
  mem := rfl
  values x hx := by
    have hne : x ≠ n := Nat.ne_of_lt hx
    simp [define, Function.update_of_ne hne]

/-- Defining consecutive values leaves those below alone, and gives each its result. -/
lemma define_range' (fr : Frame) (n : ℕ) (vs : List DataValue) :
    Keeps n fr (fr.define (List.range' n vs.length) vs) ∧
      ∀ (j : ℕ) v, vs[j]? = some v →
        (fr.define (List.range' n vs.length) vs).values (n + j) = some v := by
  obtain ⟨hbelow, hvalues⟩ := foldl_update_range' some fr.values n vs
  exact ⟨⟨rfl, hbelow⟩, hvalues⟩

end Frame

/-! ## Addresses of slots -/

/-- The signed 32-bit offset of a slot is exact below 2 ^ 27 slots. -/
lemma slotOffset_eq {i : ℕ} (h : i < 2 ^ 27) : slotOffset i = i * 16 := by
  norm_num at h
  have hexact : Int.bmod (i * 16 : ℕ) 4294967296 = i * 16 := by
    rw [Int.bmod_eq_of_le]
    · push_cast
      ring
    · omega
    · omega
  exact hexact

/-- A pointer to the slots reaches the slot of index `i`. -/
lemma DataValue.address_slot {area i : ℕ} (hi : i < 2 ^ 27) (harea : area + 16 * i < 2 ^ 64) :
    (DataValue.i64 (BitVec.ofNat 64 area)).address (slotOffset i) = some (area + 16 * i) := by
  have hoffset : BitVec.ofInt 64 (slotOffset i) = BitVec.ofNat 64 (16 * i) := by
    rw [slotOffset_eq hi, Nat.mul_comm]
    exact_mod_cast BitVec.ofInt_natCast 64 (i * 16)
  rw [address, hoffset, ← BitVec.ofNat_add, BitVec.toNat_ofNat, Nat.mod_eq_of_lt harea]

lemma Frame.address_slot {fr : Frame} {ptr : Value} {area i : ℕ}
    (hptr : fr.values ptr = some (.i64 (BitVec.ofNat 64 area))) (hi : i < 2 ^ 27)
    (harea : area + 16 * i < 2 ^ 64) : fr.address ptr (slotOffset i) = some (area + 16 * i) := by
  rw [Frame.address, hptr]
  exact DataValue.address_slot hi harea

/-! ## Loading the arguments -/

/-- The bytes a value of the type can be loaded from: its own, and for a boolean any that are zero
exactly when it is false. -/
def LoadsAs (bs : List UInt8) : DataValue → Prop
  | .b v => ofBytes bs ≠ 0 ↔ v = true
  | v => bs = v.toLeBytes

/-- The slots from `a` on hold the arguments. -/
def SlotsHold (mem : Mem) : ℕ → List DataValue → List AbiParam → Prop
  | _, [], [] => True
  | a, arg :: args, param :: params =>
    LoadsAs (read mem a param.valueType.bytes) arg ∧ SlotsHold mem (a + 16) args params
  | _, _, _ => False

/-- The arguments are values of the parameters' types, which are marshallable. -/
def Fit (args : List DataValue) (params : List AbiParam) : Prop :=
  List.Forall₂ (fun arg param => arg.HasType param.valueType ∧ param.valueType.Marshallable) args
    params

section
variable (callee : Callee)

lemma eq_b_of_isBool {v : DataValue} {ty : IrType} (h : v.HasType ty) (hty : ty.isBool) :
    ∃ x, v = .b x := by
  have hscalar := IrType.scalar_of_isBool hty
  cases v with
  | b x => exact ⟨x, rfl⟩
  | v128 x => exact absurd h.1 (by simp [hscalar])
  | v64 x => exact absurd h.1 (by simp [hscalar])
  | _ =>
    obtain rfl : _ = ty := h
    cases hty

lemma isBool_eq_false {v : DataValue} {ty : IrType} (h : v.HasType ty) (hty : ty.isBool = false) :
    v.isBool = false := by
  cases v with
  | b x => exact absurd (isBool_of_hasType_b h) (by simp [hty])
  | _ => rfl

/-- A boolean is made of an integer: it is compared with zero, and extended if it has more than one
bit. -/
lemma emits_scalarBool {fr : Frame} {n x : ℕ} {w : DataValue} {z : ℤ} (ty : IrType)
    (hx : fr.values x = some w) (hz : w.toInt? = some z) :
    ∃ (v n' : ℕ) (fr' : Frame),
      Emits callee (do
        let v ← emit1 (.icmpImm .notEqual x 0)
        if ty.bits > 1 then emit1 (.bextend ty v) else return v) n fr v n' fr' ∧
      n ≤ v ∧ v < n' ∧ fr'.values v = some (.b (z ≠ 0)) ∧ Frame.Keeps n fr fr' := by
  let fr₁ := fr.define [n] [.b (z ≠ 0)]
  have hvalue₁ : fr₁.values n = some (.b (z ≠ 0)) := Frame.values_define_one fr n _
  have hkeeps₁ : Frame.Keeps n fr fr₁ := Frame.keeps_define_one fr n _
  have hcompare : Emits callee (emit1 (.icmpImm .notEqual x 0)) n fr n (n + 1) fr₁ :=
    Emits.emit1 (by simp [Inst.exec, DataValue.icmpImm, hx, hz, fr₁])
  by_cases hbits : ty.bits > 1
  · let fr₂ := fr₁.define [n + 1] [.b (z ≠ 0)]
    have hkeeps₂ : Frame.Keeps (n + 1) fr₁ fr₂ := Frame.keeps_define_one fr₁ (n + 1) _
    have hextend : Emits callee (emit1 (.bextend ty n)) (n + 1) fr₁ (n + 1) (n + 2) fr₂ :=
      Emits.emit1 (by simp [Inst.exec, DataValue.bextend, hvalue₁, fr₂])
    simp only [hbits, if_true]
    exact ⟨n + 1, n + 2, fr₂, hcompare.bind hextend, Nat.le_succ n, Nat.lt_succ_self _,
      Frame.values_define_one fr₁ (n + 1) _, hkeeps₁.trans hkeeps₂ (Nat.le_succ n)⟩
  · simp only [hbits, if_false]
    exact ⟨n, n + 1, fr₁, hcompare.bind (Emits.pure n), le_refl n, Nat.lt_succ_self n, hvalue₁,
      hkeeps₁⟩

/-- One argument is loaded as a value that holds it. -/
lemma emits_loadArgument {fr : Frame} {n i a : ℕ} {param : AbiParam} {arg : DataValue}
    (haddress : fr.address 1 (slotOffset i) = some a) (htype : arg.HasType param.valueType)
    (hmarshal : param.valueType.Marshallable)
    (hloads : LoadsAs (read fr.mem a param.valueType.bytes) arg) :
    ∃ (v n' : ℕ) (fr' : Frame),
      Emits callee (loadArgument 1 param i) n fr v n' fr' ∧ n ≤ v ∧ v < n' ∧
        fr'.values v = some arg ∧ Frame.Keeps n fr fr' := by
  obtain ⟨ty, purpose, extension⟩ := param
  simp only at htype hmarshal hloads
  unfold loadArgument
  by_cases hbool : ty.isBool = true
  · -- a boolean: load an integer and compare it with zero
    obtain ⟨x, rfl⟩ := eq_b_of_isBool htype hbool
    obtain ⟨w, z, hw, hz, hnonzero⟩ := exists_int_of_isBool hbool
      (length_read fr.mem a ty.bytes)
    have hbytes : ty.coerceBoolsToInts.bytes = ty.bytes := by
      simp [IrType.coerceBoolsToInts, hbool, IrType.bytes_asInt]
    have hx : decide (z ≠ 0) = x := by
      rw [← Bool.coe_iff_coe, decide_eq_true_iff]
      exact hnonzero.trans hloads
    let fr₁ := fr.define [n] [w]
    have hload : Emits callee (emit1 (.load ty.coerceBoolsToInts 1 (slotOffset i))) n fr n (n + 1)
        fr₁ := Emits.emit1 (by simp [Inst.exec, haddress, hbytes, hw, fr₁])
    have hkeeps₁ : Frame.Keeps n fr fr₁ := Frame.keeps_define_one fr n w
    obtain ⟨v, n', fr', hemit, hnv, hv, hvalue, hkeeps⟩ :=
      emits_scalarBool callee (n := n + 1) ty (Frame.values_define_one fr n w) hz
    simp only [hbool, if_true]
    rw [hx] at hvalue
    exact ⟨v, n', fr', hload.bind hemit, Nat.le_of_succ_le hnv, hv, hvalue,
      hkeeps₁.trans hkeeps (Nat.le_succ n)⟩
  · have hbool : ty.isBool = false := by simpa using hbool
    have hcoerce : ty.coerceBoolsToInts = ty := by
      simp [IrType.coerceBoolsToInts, hbool, IrType.not_isBoolVector hmarshal]
    have hvalue : DataValue.ofLeBytes ty (read fr.mem a ty.bytes) = some arg := by
      have harg := isBool_eq_false htype hbool
      have hread : read fr.mem a ty.bytes = arg.toLeBytes := by
        cases arg with
        | b x => cases harg
        | _ => exact hloads
      rw [hread]
      simpa using ofLeBytes_toLeBytes htype harg []
    have hload : Emits callee (emit1 (.load ty 1 (slotOffset i))) n fr n (n + 1)
        (fr.define [n] [arg]) := Emits.emit1 (by simp [Inst.exec, haddress, hvalue])
    simp only [hbool, IrType.not_isBoolVector hmarshal, hcoerce, Bool.false_eq_true, if_false]
    exact ⟨n, n + 1, fr.define [n] [arg], hload.bind (Emits.pure n), le_refl n, Nat.lt_succ_self n,
      Frame.values_define_one fr n arg, Frame.keeps_define_one fr n arg⟩

/-- **All arguments** are loaded, in order. -/
lemma emits_loadArguments {params : List AbiParam} {args : List DataValue} (hfit : Fit args params)
    {fr : Frame} {n k area : ℕ} (hn : 1 < n)
    (hptr : fr.values 1 = some (.i64 (BitVec.ofNat 64 area))) (hk : k + params.length ≤ 2 ^ 27)
    (harea : area + 16 * (k + params.length) ≤ 2 ^ 64)
    (hslots : SlotsHold fr.mem (area + 16 * k) args params) :
    ∃ (vs : List Value) (n' : ℕ) (fr' : Frame),
      Emits callee ((params.zipIdx k).mapM fun (param, i) => loadArgument 1 param i)
        n fr vs n' fr' ∧
        n ≤ n' ∧ vs.mapM fr'.values = some args ∧ (∀ v ∈ vs, v < n') ∧ Frame.Keeps n fr fr' := by
  induction hfit generalizing fr n k with
  | nil =>
    exact ⟨[], n, fr, Emits.pure [], le_refl n, rfl, by simp, ⟨rfl, fun _ _ => rfl⟩⟩
  | @cons arg param args params harg _ ih =>
    obtain ⟨hhead, htail⟩ := hslots
    rw [List.length_cons] at hk harea
    have haddress : fr.address 1 (slotOffset k) = some (area + 16 * k) :=
      Frame.address_slot hptr (by omega) (by omega)
    obtain ⟨v, n₁, fr₁, hemit, hnv, hv, hvalue, hkeeps⟩ :=
      emits_loadArgument callee (n := n) haddress harg.1 harg.2 hhead
    have hptr₁ : fr₁.values 1 = some (.i64 (BitVec.ofNat 64 area)) := by
      rw [hkeeps.values 1 hn, hptr]
    have htail₁ : SlotsHold fr₁.mem (area + 16 * (k + 1)) args params := by
      rw [hkeeps.mem]
      exact htail
    obtain ⟨vs, n₂, fr₂, hemits, hn₁, hvalues, hvs, hkeeps₁⟩ :=
      ih (n := n₁) (k := k + 1) (by omega) hptr₁ (by omega) (by omega) htail₁
    have hvalue₂ : fr₂.values v = some arg := by rw [hkeeps₁.values v hv, hvalue]
    refine ⟨v :: vs, n₂, fr₂, ?_, by omega, ?_, ?_, hkeeps.trans hkeeps₁ (by omega)⟩
    · rw [List.zipIdx_cons, List.mapM_cons]
      exact hemit.bind (hemits.bind (Emits.pure (v :: vs)))
    · simp [List.mapM_cons, hvalue₂, hvalues]
    · intro x hx
      rcases List.mem_cons.mp hx with rfl | hx
      · exact lt_of_lt_of_le hv hn₁
      · exact hvs x hx

/-! ## Storing the results -/

/-- The memory after the results are stored, one to a slot, from `a` on. -/
def storeSlots (mem : Mem) : ℕ → List DataValue → List AbiParam → Mem
  | a, v :: vs, param :: params =>
    storeSlots (write mem a (storedBytes param.valueType v)) (a + 16) vs params
  | _, _, _ => mem

/-- One result is stored. -/
lemma emits_storeResult {fr : Frame} {x m i a : ℕ} {param : AbiParam} {v : DataValue}
    (haddress : ∀ fr' : Frame, fr'.values 1 = fr.values 1 → fr'.address 1 (slotOffset i) = some a)
    (hm : 1 < m) (hvalue : fr.values x = some v) (htype : v.HasType param.valueType)
    (hmarshal : param.valueType.Marshallable) :
    ∃ (m' : ℕ) (fr' : Frame), Emits callee (storeResult 1 x param i) m fr () m' fr' ∧ m ≤ m' ∧
      fr'.mem = write fr.mem a (storedBytes param.valueType v) ∧
      ∀ y < m, fr'.values y = fr.values y := by
  obtain ⟨ty, purpose, extension⟩ := param
  simp only at htype hmarshal
  unfold storeResult
  by_cases hbool : ty.isBool = true
  · -- a boolean is stored as an integer
    obtain ⟨b, rfl⟩ := eq_b_of_isBool htype hbool
    obtain ⟨w, hw, hbytes⟩ := ofInt?_boolToInt hbool b
    have hlane : ty.laneType.isBool = true := by rw [← IrType.isBool_iff_laneType hmarshal, hbool]
    let fr₁ := fr.define [m] [w]
    have hkeeps : Frame.Keeps m fr fr₁ := Frame.keeps_define_one fr m w
    have hint : Emits callee (emit1 (.bint { laneType := ty.laneType.boolToInt } x)) m fr m (m + 1)
        fr₁ := Emits.emit1 (by simp [Inst.exec, DataValue.bint, hvalue, hw, fr₁])
    have hstore : Emits callee (emit 0 (.store m 1 (slotOffset i))) (m + 1) fr₁ [] (m + 1)
        { fr₁ with mem := write fr.mem a (storedBytes ty (.b b)) } := by
      have hm₁ : fr₁.values m = some w := Frame.values_define_one fr m w
      refine Emits.emit 0 ?_
      simp [Inst.exec, hm₁, haddress fr₁ (hkeeps.values 1 hm), hbytes, hkeeps.mem]
    simp only [hlane, if_true]
    exact ⟨m + 1, _, hint.bind (hstore.bind (Emits.pure ())), by omega, rfl, hkeeps.values⟩
  · have hbool : ty.isBool = false := by simpa using hbool
    have hlane : ty.laneType.isBool = false := by
      rw [← IrType.isBool_iff_laneType hmarshal, hbool]
    have hbytes : storedBytes ty v = v.toLeBytes := by
      have hv := isBool_eq_false htype hbool
      cases v with
      | b b => cases hv
      | _ => rfl
    have hstore : Emits callee (emit 0 (.store x 1 (slotOffset i))) m fr [] m
        { fr with mem := write fr.mem a (storedBytes ty v) } := by
      refine Emits.emit 0 ?_
      simp [Inst.exec, hvalue, haddress fr rfl, hbytes]
    simp only [hlane, Bool.false_eq_true, if_false]
    exact ⟨m, _, (Emits.pure x).bind (hstore.bind (Emits.pure ())), le_refl m, rfl, fun _ _ => rfl⟩

/-- **All results** are stored, in order. -/
lemma emits_storeResults {returns : List AbiParam} {rets : List DataValue}
    (hfit : Fit rets returns) {fr : Frame} {x m k area : ℕ} (hm : 1 < m)
    (hptr : fr.values 1 = some (.i64 (BitVec.ofNat 64 area))) (hk : k + returns.length ≤ 2 ^ 27)
    (harea : area + 16 * (k + returns.length) ≤ 2 ^ 64) (hx : x + returns.length ≤ m)
    (hvalues : ∀ (j : ℕ) v, rets[j]? = some v → fr.values (x + j) = some v) :
    ∃ (m' : ℕ) (fr' : Frame),
      Emits callee ((((List.range' x returns.length).zipIdx k).zip returns).forM
        fun ((value, i), param) => storeResult 1 value param i) m fr () m' fr' ∧
        fr'.mem = storeSlots fr.mem (area + 16 * k) rets returns := by
  induction hfit generalizing fr x m k with
  | nil => exact ⟨m, fr, Emits.pure (), rfl⟩
  | @cons v param rets returns hv hfit ih =>
    rw [List.length_cons] at hk harea hx
    have haddress (fr' : Frame) (h : fr'.values 1 = fr.values 1) :
        fr'.address 1 (slotOffset k) = some (area + 16 * k) :=
      Frame.address_slot (h.trans hptr) (by omega) (by omega)
    have hvalue : fr.values x = some v := hvalues 0 v rfl
    obtain ⟨m₁, fr₁, hemit, hm₁, hmem, hkeeps⟩ :=
      emits_storeResult callee haddress hm hvalue hv.1 hv.2
    have htail : ∀ (j : ℕ) w, rets[j]? = some w → fr₁.values (x + 1 + j) = some w := by
      intro j w hw
      have hlt : j < returns.length := by
        rw [← hfit.length_eq]
        exact (List.getElem?_eq_some_iff.mp hw).1
      rw [hkeeps (x + 1 + j) (by omega), Nat.add_assoc, Nat.add_comm 1 j]
      exact hvalues (j + 1) w (by simpa using hw)
    obtain ⟨m₂, fr₂, hemits, hmem₂⟩ := ih (x := x + 1) (k := k + 1) (m := m₁) (by omega)
      ((hkeeps 1 hm).trans hptr) (by omega) (by omega) (by omega) htail
    refine ⟨m₂, fr₂, ?_, ?_⟩
    · rw [List.length_cons, List.range'_succ, List.zipIdx_cons, List.zip_cons_cons]
      exact hemit.bind hemits
    · rw [hmem₂, hmem]
      rfl

/-! ## The whole trampoline -/

/-- The frame a trampoline starts in: the address of the callee, that of the slots, and the
memory. -/
def Frame.entry (funcAddr argumentsArea : ℕ) (mem : Mem) : Frame where
  values x :=
    if x = 0 then some (.i64 (BitVec.ofNat 64 funcAddr))
    else if x = 1 then some (.i64 (BitVec.ofNat 64 argumentsArea))
    else none
  mem := mem

/-- A callee that computes `g` and leaves the memory alone, at one address. -/
def calleeAt (funcAddr : ℕ) (g : List DataValue → List DataValue) : Callee := fun a args mem =>
  if a = BitVec.ofNat 64 funcAddr then some (g args, mem) else none

/-- **The effect of a trampoline.**  When the slots hold arguments of the parameters' types, the
trampoline stores what the callee returns on them. -/
theorem exec_trampolineStmts {signature : Signature} {args : List DataValue}
    {g : List DataValue → List DataValue} (hargs : Fit args signature.params)
    (hrets : Fit (g args) signature.returns) {funcAddr area : ℕ} {mem : Mem}
    (hparams : signature.params.length ≤ 2 ^ 27) (hreturns : signature.returns.length ≤ 2 ^ 27)
    (harea : area + 16 * max signature.params.length signature.returns.length ≤ 2 ^ 64)
    (hslots : SlotsHold mem area args signature.params) :
    ∃ fr', execStmts (calleeAt funcAddr g) (trampolineStmts signature)
        (Frame.entry funcAddr area mem) = some fr' ∧
      fr'.mem = storeSlots mem area (g args) signature.returns := by
  let callee := calleeAt funcAddr g
  let fr := Frame.entry funcAddr area mem
  have hcallee : fr.values 0 = some (.i64 (BitVec.ofNat 64 funcAddr)) := rfl
  have hptr : fr.values 1 = some (.i64 (BitVec.ofNat 64 area)) := rfl
  obtain ⟨vs, n₁, fr₁, hloads, hn₁, hvalues, hvs, hkeeps₁⟩ :=
    emits_loadArguments callee hargs (k := 0) (n := 2) (by omega) hptr (by omega) (by omega) hslots
  -- the call
  let fr₂ := fr₁.define (List.range' n₁ (g args).length) (g args)
  obtain ⟨hkeeps₂, hresults⟩ := Frame.define_range' fr₁ n₁ (g args)
  have hlength : (g args).length = signature.returns.length := hrets.length_eq
  have hcall : Emits callee (emit signature.returns.length (.callIndirect signature 0 vs)) n₁ fr₁
      (List.range' n₁ signature.returns.length) (n₁ + signature.returns.length) fr₂ := by
    have hcallee₁ : fr₁.values 0 = some (.i64 (BitVec.ofNat 64 funcAddr)) := by
      rw [hkeeps₁.values 0 (by omega), hcallee]
    refine Emits.emit _ ?_
    simp [Inst.exec, Callee.call, hvalues, hcallee₁, callee, calleeAt, fr₂, hlength]
  -- the stores
  have hptr₂ : fr₂.values 1 = some (.i64 (BitVec.ofNat 64 area)) := by
    rw [hkeeps₂.values 1 (by omega), hkeeps₁.values 1 (by omega), hptr]
  obtain ⟨n₃, fr₃, hstores, hmem⟩ := emits_storeResults callee hrets (k := 0) (x := n₁)
    (m := n₁ + signature.returns.length) (by omega) hptr₂ (by omega) (by omega) (le_refl _) hresults
  have hreturn : Emits callee (emit 0 (.return_ [])) n₃ fr₃ [] n₃ fr₃ := Emits.emit 0 rfl
  have hbuild : Emits callee (do
      let calleeArgs ← loadArguments 1 signature.params
      let results ← emit signature.returns.length (.callIndirect signature 0 calleeArgs)
      storeResults 1 results signature.returns
      let _ ← emit 0 (.return_ [])) 2 fr () n₃ fr₃ :=
    hloads.bind (hcall.bind (hstores.bind (hreturn.bind (Emits.pure ()))))
  obtain ⟨stmts, hstmts, hexec⟩ := hbuild
  have htrampoline : trampolineStmts signature = stmts :=
    (congrArg (fun p => p.2.stmts) (hstmts [])).trans (List.nil_append stmts)
  refine ⟨fr₃, by rw [htrampoline]; exact hexec, ?_⟩
  rw [hmem, hkeeps₂.mem, hkeeps₁.mem]
  rfl

/-! ## Reading the results -/

lemma storeSlots_of_lt {mem : Mem} {a x : ℕ} (h : x < a) (vs : List DataValue)
    (params : List AbiParam) : storeSlots mem a vs params x = mem x := by
  induction vs generalizing mem a params with
  | nil => rfl
  | cons v vs ih =>
    cases params with
    | nil => rfl
    | cons param params => rw [storeSlots, ih (by omega), write_of_lt h]

/-- Each slot holds its result, from its first byte on. -/
lemma read_storeSlots {vs : List DataValue} {params : List AbiParam} (hfit : Fit vs params)
    (mem : Mem) (a : ℕ) {j : ℕ} {v : DataValue} {param : AbiParam} (hv : vs[j]? = some v)
    (hparam : params[j]? = some param) :
    read (storeSlots mem a vs params) (a + 16 * j) param.valueType.bytes =
      storedBytes param.valueType v := by
  induction hfit generalizing mem a j with
  | nil => simp at hv
  | @cons w p vs params hw _ ih =>
    cases j with
    | zero =>
      obtain ⟨rfl, rfl⟩ : w = v ∧ p = param := ⟨by simpa using hv, by simpa using hparam⟩
      have hbytes := IrType.bytes_le_of_marshallable hw.2
      have hsame : read (storeSlots mem a (w :: vs) (p :: params)) a p.valueType.bytes =
          read (write mem a (storedBytes p.valueType w)) a p.valueType.bytes :=
        read_congr fun x _ hx => storeSlots_of_lt (by omega) vs params
      rw [Nat.mul_zero, Nat.add_zero, hsame, ← length_storedBytes hw.1, read_write]
    | succ j =>
      have htail := ih (write mem a (storedBytes p.valueType w)) (a + 16) (j := j)
        (by simpa using hv) (by simpa using hparam)
      rw [show a + 16 * (j + 1) = a + 16 + 16 * j by omega]
      exact htail

end

end CiRunner
