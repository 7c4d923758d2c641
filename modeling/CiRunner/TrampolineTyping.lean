import CiRunner.Reading
import CiRunner.Trampoline

/-!
# Is a trampoline well typed?

Cranelift's instructions have documented typing rules: what the types of the operands must be, and
what those of the results are.  `Inst.check` applies the rule of an instruction to what is known of
the types so far, and `checkStmts` goes through a list of statements.

The builder picks load types, conversions and constants by the type of each parameter, and it picks
conversions by the type of each return.  It gets scalars and vectors without booleans right.  Of the
vectors of booleans it gets as parameters those of 128 bits, for which its constant of sixteen bytes
is made, unless their lanes are `b1`; and as returns it gets none, since it converts the whole
vector to one integer.  A trampoline is well typed exactly for signatures without the others
(`trampolineTyped_iff`).
-/

namespace CiRunner

/-! ## The types of values -/

/-- The boolean lane of the same width, which the lanes of a comparison have. -/
def LaneType.toBool : LaneType → LaneType
  | .i8 => .b8
  | .i16 => .b16
  | .i32 | .f32 => .b32
  | .i64 | .f64 => .b64
  | .i128 => .b128
  | l => l

def LaneType.isInt : LaneType → Bool
  | .i8 | .i16 | .i32 | .i64 | .i128 => true
  | _ => false

/-- The type of a comparison of values of a type: `b1`, and for vectors booleans lane by lane. -/
def IrType.asBool (ty : IrType) : IrType :=
  if ty.isVector then { ty with laneType := ty.laneType.toBool } else { laneType := .b1 }

/-- What is known of the types in a function: those of its SSA values, and those of the values it
has stored, in order. -/
structure TypeFrame where
  values : Value → Option IrType
  stored : List IrType

namespace TypeFrame

/-- Define the results of an instruction, which are as many as it has. -/
def define (tf : TypeFrame) (results : List Value) (tys : List IrType) : Option TypeFrame :=
  if results.length = tys.length then
    let bind := fun (m : Value → Option IrType) (p : Value × IrType) =>
      Function.update m p.1 (some p.2)
    some { tf with values := (results.zip tys).foldl bind tf.values }
  else none

/-- Store a value of a type. -/
def store (tf : TypeFrame) (ty : IrType) : TypeFrame := { tf with stored := tf.stored ++ [ty] }

/-- A function starts with the types of its parameters, which are the values `0`, `1`, ... -/
def entry (params : List AbiParam) : TypeFrame where
  values x := params[x]?.map (·.valueType)
  stored := []

end TypeFrame

/-! ## The typing rules -/

/-- The documented typing rule of an instruction, in a function that returns `returns` on a target
with the given type of addresses.  Booleans are not stored in memory, scalar or in vectors. -/
def Inst.check (pointerType : IrType) (returns : List AbiParam) (tf : TypeFrame)
    (results : List Value) : Inst → Option TypeFrame
  | .load ty ptr _ =>
    if tf.values ptr = some pointerType ∧ ty.laneType.isBool = false then tf.define results [ty]
    else none
  | .icmpImm _ x _ => do
    let ty ← tf.values x
    if ty.isVector = false ∧ ty.laneType.isInt then tf.define results [{ laneType := .b1 }]
    else none
  | .bextend ty x => do
    let ty' ← tf.values x
    if ty'.laneType.isBool ∧ ty.laneType.isBool ∧ ty.log2LaneCount = ty'.log2LaneCount ∧
        ty'.laneType.bits ≤ ty.laneType.bits then tf.define results [ty]
    else none
  | .vconst ty constant =>
    if ty.isVector ∧ constant.length = ty.bytes then tf.define results [ty] else none
  | .icmp _ ctrl x y =>
    if tf.values x = some ctrl ∧ tf.values y = some ctrl ∧ ctrl.laneType.isInt then
      tf.define results [ctrl.asBool]
    else none
  | .bint ty x => do
    let ty' ← tf.values x
    if ty'.laneType.isBool ∧ ty.laneType.isInt ∧ ty.log2LaneCount = ty'.log2LaneCount then
      tf.define results [ty]
    else none
  | .callIndirect sig target args =>
    if tf.values target = some pointerType ∧
        args.map tf.values = sig.params.map fun param => some param.valueType then
      tf.define results (sig.returns.map (·.valueType))
    else none
  | .store x ptr _ => do
    let ty ← tf.values x
    if tf.values ptr = some pointerType ∧ ty.laneType.isBool = false then
      (tf.store ty).define results []
    else none
  | .return_ rets =>
    if rets.map tf.values = returns.map fun param => some param.valueType then
      tf.define results []
    else none

/-- Check statements in order. -/
def checkStmts (pointerType : IrType) (returns : List AbiParam) :
    List Stmt → TypeFrame → Option TypeFrame
  | [], tf => some tf
  | s :: ss, tf =>
    (s.inst.check pointerType returns tf s.results).bind (checkStmts pointerType returns ss)

/-- The statements of a function that was built. -/
def IrFunction.stmts {Body : Type} (func : IrFunction Body) : List Stmt :=
  match func.body with
  | .built stmts => stmts
  | .parsed _ => []

/-- The type has as many lanes as that of the parameter, and lanes of the width of its lanes, where
boolean lanes count as the integer lanes they are turned into. -/
def SameLanes (ty : IrType) (param : AbiParam) : Prop :=
  ty.log2LaneCount = param.valueType.log2LaneCount ∧
    ty.laneType.bits = param.valueType.laneType.boolToInt.bits

/-- The trampoline of a signature satisfies the typing rules, and the values it stores have the
lanes of the returns. -/
def TrampolineTyped {Flags : Type} (isa : TargetIsa Flags) (signature : Signature) : Prop :=
  let trampoline : IrFunction Unit := makeTrampoline signature isa
  ∃ tf, checkStmts isa.pointerType trampoline.signature.returns trampoline.stmts
      (.entry trampoline.signature.params) = some tf ∧
    List.Forall₂ SameLanes tf.stored signature.returns

/-- No vector of booleans is returned, and those that are passed have 128 bits and no `b1` lanes. -/
structure Signature.ConvertsBooleans (signature : Signature) : Prop where
  params : ∀ param ∈ signature.params, param.valueType.isBoolVector →
    param.valueType.bits = 128 ∧ param.valueType.laneType ≠ .b1
  returns : ∀ param ∈ signature.returns, param.valueType.isBoolVector = false

/-! ## Emitting and checking -/

section
variable (pointerType : IrType) (returns : List AbiParam)

lemma checkStmts_append (as bs : List Stmt) (tf : TypeFrame) :
    checkStmts pointerType returns (as ++ bs) tf =
      (checkStmts pointerType returns as tf).bind (checkStmts pointerType returns bs) := by
  induction as generalizing tf with
  | nil => rfl
  | cons a as ih =>
    rw [List.cons_append, checkStmts, checkStmts]
    cases h : a.inst.check pointerType returns tf a.results with
    | none => rfl
    | some tf' => exact ih tf'

lemma checkStmts_one (inst : Inst) (results : List Value) (tf : TypeFrame) :
    checkStmts pointerType returns [{ results, inst }] tf =
      inst.check pointerType returns tf results := by
  rw [checkStmts]
  cases inst.check pointerType returns tf results <;> rfl

/-- The code does nothing but add statements. -/
def AddsOnly {α : Type} (m : Build α) : Prop := ∀ n, ∃ a n' stmts, Adds m n a n' stmts

namespace AddsOnly

variable {α β : Type}

lemma pure (a : α) : AddsOnly (Pure.pure a : Build α) := fun n => ⟨_, _, _, Adds.pure a n⟩

lemma emit (k : ℕ) (inst : Inst) : AddsOnly (CiRunner.emit k inst) :=
  fun n => ⟨_, _, _, Adds.emit k inst n⟩

lemma emit1 (inst : Inst) : AddsOnly (CiRunner.emit1 inst) := fun n => ⟨_, _, _, Adds.emit1 inst n⟩

lemma bind {m : Build α} {f : α → Build β} (hm : AddsOnly m) (hf : ∀ a, AddsOnly (f a)) :
    AddsOnly (m >>= f) := by
  intro n
  obtain ⟨a, n', as, has⟩ := hm n
  obtain ⟨b, n'', bs, hbs⟩ := hf a n'
  exact ⟨b, n'', as ++ bs, has.bind hbs⟩

lemma mapM {f : α → Build β} (hf : ∀ a, AddsOnly (f a)) (as : List α) : AddsOnly (as.mapM f) := by
  induction as with
  | nil => exact pure []
  | cons a as ih =>
    rw [List.mapM_cons]
    exact (hf a).bind fun _ => ih.bind fun _ => pure _

lemma forM {f : α → Build Unit} (hf : ∀ a, AddsOnly (f a)) (as : List α) :
    AddsOnly (as.forM f) := by
  induction as with
  | nil => exact pure ()
  | cons a as ih => exact (hf a).bind fun _ => ih

end AddsOnly

/-- When `n` is the next unused value and `tf` is known of the types, the statements that the code
adds are well typed just if `C` holds, and what is then known is as `Q` says. -/
def Types {α : Type} (m : Build α) (n : ℕ) (tf : TypeFrame) (C : Prop)
    (Q : α → ℕ → TypeFrame → Prop) : Prop :=
  ∃ a n' stmts, Adds m n a n' stmts ∧
    (C → ∃ tf', checkStmts pointerType returns stmts tf = some tf' ∧ Q a n' tf') ∧
    (¬ C → checkStmts pointerType returns stmts tf = none)

namespace Types

variable {pointerType returns} {α β : Type} {n n' : ℕ} {tf tf' : TypeFrame} {C D : Prop}
  {Q : α → ℕ → TypeFrame → Prop} {R : β → ℕ → TypeFrame → Prop}

lemma pure {a : α} (hC : C) (h : Q a n tf) :
    Types pointerType returns (Pure.pure a) n tf C Q :=
  ⟨a, n, [], Adds.pure a n, fun _ => ⟨tf, rfl, h⟩, fun h => absurd hC h⟩

/-- Well-typed statements come first. -/
lemma bind_some {m : Build α} {f : α → Build β} {a : α} {as : List Stmt} (hm : Adds m n a n' as)
    (hcheck : checkStmts pointerType returns as tf = some tf')
    (hf : Types pointerType returns (f a) n' tf' D R) :
    Types pointerType returns (m >>= f) n tf D R := by
  obtain ⟨b, n'', bs, hbs, hok, hbad⟩ := hf
  refine ⟨b, n'', as ++ bs, hm.bind hbs, ?_, ?_⟩
  · rw [checkStmts_append, hcheck]
    exact hok
  · rw [checkStmts_append, hcheck]
    exact hbad

/-- Statements that are not well typed come first. -/
lemma bind_none {m : Build α} {f : α → Build β} {a : α} {as : List Stmt} (hm : Adds m n a n' as)
    (hcheck : checkStmts pointerType returns as tf = none) (hf : ∀ a, AddsOnly (f a)) (hD : ¬ D) :
    Types pointerType returns (m >>= f) n tf D R := by
  obtain ⟨b, n'', bs, hbs⟩ := hf a n'
  refine ⟨b, n'', as ++ bs, hm.bind hbs, fun h => absurd h hD, fun _ => ?_⟩
  rw [checkStmts_append, hcheck]
  rfl

lemma bind {m : Build α} {f : α → Build β} (hm : Types pointerType returns m n tf C Q)
    (hf : ∀ a n' tf', Q a n' tf' → Types pointerType returns (f a) n' tf' D R)
    (hrest : ∀ a, AddsOnly (f a)) : Types pointerType returns (m >>= f) n tf (C ∧ D) R := by
  obtain ⟨a, n', as, has, hok, hbad⟩ := hm
  by_cases hC : C
  · obtain ⟨tf', hcheck, hQ⟩ := hok hC
    rw [and_iff_right hC]
    exact bind_some has hcheck (hf a n' tf' hQ)
  · exact bind_none has (hbad hC) hrest fun h => hC h.1

lemma emit1 {inst : Inst} {Q : Value → ℕ → TypeFrame → Prop}
    (hcheck : inst.check pointerType returns tf [n] = some tf') (hC : C) (hQ : Q n (n + 1) tf') :
    Types pointerType returns (CiRunner.emit1 inst) n tf C Q :=
  ⟨n, n + 1, _, Adds.emit1 inst n, fun _ => ⟨tf', by rw [checkStmts_one, hcheck], hQ⟩,
    fun h => absurd hC h⟩

lemma bind_pure {m : Build α} (hm : Types pointerType returns m n tf C Q) {g : α → β}
    (hR : ∀ a n' tf', Q a n' tf' → R (g a) n' tf') :
    Types pointerType returns (m >>= fun a => Pure.pure (g a)) n tf C R := by
  obtain ⟨a, n', as, has, hok, hbad⟩ := hm
  refine ⟨g a, n', as ++ [], has.bind (Adds.pure (g a) n'), ?_⟩
  rw [List.append_nil]
  refine ⟨fun hC => ?_, hbad⟩
  obtain ⟨tf', hcheck, hQ⟩ := hok hC
  exact ⟨tf', hcheck, hR a n' tf' hQ⟩

lemma mono {m : Build α} (h : Types pointerType returns m n tf C Q)
    {R : α → ℕ → TypeFrame → Prop} (hR : ∀ a n' tf', Q a n' tf' → R a n' tf') :
    Types pointerType returns m n tf C R := by
  obtain ⟨a, n', as, has, hok, hbad⟩ := h
  refine ⟨a, n', as, has, fun hC => ?_, hbad⟩
  obtain ⟨tf', hcheck, hQ⟩ := hok hC
  exact ⟨tf', hcheck, hR a n' tf' hQ⟩

lemma of_iff {m : Build α} (h : Types pointerType returns m n tf C Q) (hDC : D ↔ C) :
    Types pointerType returns m n tf D Q := by
  rwa [propext hDC]

end Types

lemma checkStmts_store {tf : TypeFrame} {x ptr : Value} {ty : IrType} (hx : tf.values x = some ty)
    (hptr : tf.values ptr = some pointerType) (hty : ty.laneType.isBool = false) (offset : ℤ) :
    checkStmts pointerType returns [{ results := [], inst := .store x ptr offset }] tf =
      some (tf.store ty) := by
  rw [checkStmts_one]
  simp only [Inst.check, hx, Option.bind_eq_bind, Option.bind_some, if_pos (And.intro hptr hty)]
  rfl

/-! ## What is known of the types -/

namespace TypeFrame

variable {tf tf' tf'' : TypeFrame} {n n' : ℕ}

/-- Define one value. -/
def update (tf : TypeFrame) (n : Value) (ty : IrType) : TypeFrame :=
  { tf with values := Function.update tf.values n (some ty) }

lemma values_update (tf : TypeFrame) (n : Value) (ty : IrType) :
    (tf.update n ty).values n = some ty := Function.update_self _ _ _

/-- The types of the values below `n`, and of those stored, are as they were. -/
structure Keeps (n : ℕ) (tf tf' : TypeFrame) : Prop where
  stored : tf'.stored = tf.stored
  values : ∀ x < n, tf'.values x = tf.values x

lemma Keeps.refl (n : ℕ) (tf : TypeFrame) : Keeps n tf tf := ⟨rfl, fun _ _ => rfl⟩

lemma Keeps.trans (h : Keeps n tf tf') (h' : Keeps n' tf' tf'') (hn : n ≤ n') :
    Keeps n tf tf'' where
  stored := h'.stored.trans h.stored
  values x hx := (h'.values x (lt_of_lt_of_le hx hn)).trans (h.values x hx)

lemma keeps_update (tf : TypeFrame) (n : ℕ) (ty : IrType) :
    Keeps n tf (tf.update n ty) where
  stored := rfl
  values _ hx := Function.update_of_ne (Nat.ne_of_lt hx) _ _

/-- Consecutive values get their types, and those below are left alone. -/
lemma define_range' (tf : TypeFrame) (n : ℕ) (tys : List IrType) :
    ∃ tf', tf.define (List.range' n tys.length) tys = some tf' ∧ Keeps n tf tf' ∧
      ∀ (j : ℕ) ty, tys[j]? = some ty → tf'.values (n + j) = some ty := by
  obtain ⟨hbelow, hvalues⟩ := foldl_update_range' some tf.values n tys
  exact ⟨_, if_pos List.length_range', ⟨rfl, hbelow⟩, hvalues⟩

end TypeFrame

/-! ## The arguments -/

/-- The constant that a vector of booleans is compared with has the size of the vector. -/
def Comparable (ty : IrType) : Prop := ty.isBoolVector → ty.asInt.bytes = 16

/-- The type an argument is loaded with. -/
def loadedType (ty : IrType) : IrType := if ty.isBoolVector then ty.asInt.asBool else ty

lemma LaneType.bits_pos (l : LaneType) : 0 < l.bits := by
  cases l <;> decide

lemma laneType_of_isBool {ty : IrType} (h : ty.isBool) : ty.laneType.isBool := by
  simp only [IrType.isBool, Bool.and_eq_true] at h
  exact h.2

lemma laneType_of_isBoolVector {ty : IrType} (h : ty.isBoolVector) : ty.laneType.isBool := by
  simp only [IrType.isBoolVector, Bool.and_eq_true] at h
  exact h.2

lemma log2LaneCount_of_isBool {ty : IrType} (h : ty.isBool) : ty.log2LaneCount = 0 := by
  simp only [IrType.isBool, IrType.isVector, Bool.and_eq_true, Bool.not_eq_true',
    decide_eq_false_iff_not] at h
  omega

lemma isBoolVector_eq_false_of_isBool {ty : IrType} (h : ty.isBool) : ty.isBoolVector = false := by
  simp [IrType.isBoolVector, IrType.isVector, log2LaneCount_of_isBool h]

/-- A boolean of one bit is a `b1`. -/
lemma eq_b1_of_bits_le {ty : IrType} (h : ty.isBool) (hbits : ty.bits ≤ 1) :
    ty = { laneType := .b1 } := by
  obtain ⟨lane, log2⟩ := ty
  obtain rfl : log2 = 0 := log2LaneCount_of_isBool h
  have hlane : lane.isBool := laneType_of_isBool h
  cases lane with
  | b1 => rfl
  | b8 | b16 | b32 | b64 | b128 => exact absurd hbits (by decide)
  | _ => cases hlane

lemma isInt_boolToInt {l : LaneType} (h : l.isBool) : l.boolToInt.isInt := by
  cases l <;> first | rfl | cases h

lemma isBool_of_isInt {l : LaneType} (h : l.isInt) : l.isBool = false := by
  cases l <;> first | rfl | cases h

/-- What is loaded is not a boolean. -/
lemma isBool_coerceBoolsToInts (ty : IrType) : ty.coerceBoolsToInts.laneType.isBool = false := by
  unfold IrType.coerceBoolsToInts
  split
  · rename_i h
    have hlane : ty.laneType.isBool := by
      simp only [IrType.isBool, IrType.isBoolVector, Bool.or_eq_true, Bool.and_eq_true] at h
      exact h.elim (·.2) (·.2)
    exact isBool_of_isInt (isInt_boolToInt hlane)
  · rename_i h
    simp only [IrType.isBool, IrType.isBoolVector] at h
    cases hvector : ty.isVector <;> simpa [hvector] using h

lemma addsOnly_loadArgument (ptr : Value) (param : AbiParam) (i : ℕ) :
    AddsOnly (loadArgument ptr param i) := by
  unfold loadArgument
  refine (AddsOnly.emit1 _).bind fun loaded => ?_
  split
  · refine (AddsOnly.emit1 _).bind fun v => ?_
    split
    · exact AddsOnly.emit1 _
    · exact AddsOnly.pure _
  · split
    · exact (AddsOnly.emit1 _).bind fun _ => AddsOnly.emit1 _
    · exact AddsOnly.pure _

variable {pointerType returns}

/-- A scalar boolean is made of the integer for it: a comparison with zero makes a `b1`, which is
extended to wider ones. -/
lemma types_scalarBool {tf : TypeFrame} {n x : ℕ} {ty : IrType} (hbool : ty.isBool)
    (hx : tf.values x = some ty.asInt) :
    Types pointerType returns (do
      let v ← emit1 (.icmpImm .notEqual x 0)
      if ty.bits > 1 then emit1 (.bextend ty v) else return v) n tf True
      fun (v : ℕ) n' tf' => n ≤ v ∧ v < n' ∧ tf'.values v = some ty ∧
        TypeFrame.Keeps n tf tf' := by
  have hlane : ty.laneType.isBool := laneType_of_isBool hbool
  have hscalar : ty.log2LaneCount = 0 := log2LaneCount_of_isBool hbool
  let tf₁ : TypeFrame := tf.update n { laneType := .b1 }
  have hone : tf₁.values n = some { laneType := .b1 } := TypeFrame.values_update tf n _
  have hkeeps₁ : TypeFrame.Keeps n tf tf₁ := TypeFrame.keeps_update tf n _
  have hcompare : checkStmts pointerType returns
      [{ results := [n], inst := .icmpImm .notEqual x 0 }] tf = some tf₁ := by
    have hint : ty.asInt.isVector = false ∧ ty.asInt.laneType.isInt :=
      ⟨by simp [IrType.asInt, IrType.isVector, hscalar], isInt_boolToInt hlane⟩
    simp only [checkStmts_one, Inst.check, hx, Option.bind_eq_bind, Option.bind_some, if_pos hint]
    rfl
  refine Types.bind_some (Adds.emit1 _ n) hcompare ?_
  by_cases hbits : ty.bits > 1
  · let tf₂ : TypeFrame := tf₁.update (n + 1) ty
    have hextend : (Inst.bextend ty n).check pointerType returns tf₁ [n + 1] = some tf₂ := by
      have hwider : LaneType.b1.isBool ∧ ty.laneType.isBool ∧ ty.log2LaneCount = 0 ∧
          LaneType.b1.bits ≤ ty.laneType.bits := ⟨rfl, hlane, hscalar, LaneType.bits_pos _⟩
      simp only [Inst.check, hone, Option.bind_eq_bind, Option.bind_some, if_pos hwider]
      rfl
    rw [if_pos hbits]
    refine Types.emit1 hextend trivial ⟨Nat.le_succ n, Nat.lt_succ_self _, ?_, ?_⟩
    · exact TypeFrame.values_update tf₁ _ _
    · exact hkeeps₁.trans (TypeFrame.keeps_update tf₁ (n + 1) ty) (Nat.le_succ n)
  · have hb1 : ty = { laneType := .b1 } := eq_b1_of_bits_le hbool (not_lt.mp hbits)
    rw [if_neg hbits]
    refine Types.pure trivial ⟨le_refl n, Nat.lt_succ_self n, ?_, hkeeps₁⟩
    rw [hone, hb1]

/-- A vector of booleans is made by comparing the integers for it with a vector of zeros, if there
is one of the type. -/
lemma types_boolVector {tf : TypeFrame} {n x : ℕ} {ty : IrType} (hvector : ty.isBoolVector)
    (hx : tf.values x = some ty.asInt) (hxn : x < n) :
    Types pointerType returns (do
      let zeroVec ← emit1 (.vconst ty.asInt (List.replicate 16 0))
      emit1 (.icmp .notEqual ty.asInt x zeroVec)) n tf (Comparable ty)
      fun (v : ℕ) n' tf' => n ≤ v ∧ v < n' ∧ tf'.values v = some ty.asInt.asBool ∧
        TypeFrame.Keeps n tf tf' := by
  by_cases hC : Comparable ty
  · have hasInt : ty.asInt.isVector := by
      simp only [IrType.isBoolVector, Bool.and_eq_true] at hvector
      exact hvector.1
    have hlane : ty.laneType.isBool := laneType_of_isBoolVector hvector
    let tf₁ : TypeFrame := tf.update n ty.asInt
    have hzero : checkStmts pointerType returns
        [{ results := [n], inst := .vconst ty.asInt (List.replicate 16 0) }] tf = some tf₁ := by
      rw [checkStmts_one, Inst.check, if_pos ⟨hasInt, by simp [hC hvector]⟩]
      rfl
    refine Types.bind_some (Adds.emit1 _ n) hzero ?_
    have hkeeps₁ : TypeFrame.Keeps n tf tf₁ := TypeFrame.keeps_update tf n _
    have hx₁ : tf₁.values x = some ty.asInt := (hkeeps₁.values x hxn).trans hx
    let tf₂ : TypeFrame := tf₁.update (n + 1) ty.asInt.asBool
    have hcompare : (Inst.icmp .notEqual ty.asInt x n).check pointerType returns tf₁ [n + 1] =
        some tf₂ := by
      rw [Inst.check, if_pos ⟨hx₁, TypeFrame.values_update tf _ _, isInt_boolToInt hlane⟩]
      rfl
    refine Types.emit1 hcompare hC ⟨Nat.le_succ n, Nat.lt_succ_self _, ?_, ?_⟩
    · exact TypeFrame.values_update tf₁ _ _
    · exact hkeeps₁.trans (TypeFrame.keeps_update tf₁ (n + 1) _) (Nat.le_succ n)
  · have hzero : checkStmts pointerType returns
        [{ results := [n], inst := .vconst ty.asInt (List.replicate 16 0) }] tf = none := by
      rw [checkStmts_one, Inst.check, if_neg]
      rintro ⟨-, hbytes⟩
      exact hC fun _ => by simpa using hbytes.symm
    exact Types.bind_none (Adds.emit1 _ n) hzero (fun _ => AddsOnly.emit1 _) hC

/-- One argument is loaded with its type, if it is no vector of booleans. -/
lemma types_loadArgument {tf : TypeFrame} {n : ℕ} (hptr : tf.values 1 = some pointerType)
    (param : AbiParam) (i : ℕ) :
    Types pointerType returns (loadArgument 1 param i) n tf (Comparable param.valueType)
      fun (v : ℕ) n' tf' => n ≤ v ∧ v < n' ∧ tf'.values v = some (loadedType param.valueType) ∧
        TypeFrame.Keeps n tf tf' := by
  obtain ⟨ty, purpose, extension⟩ := param
  let tf₁ : TypeFrame := tf.update n ty.coerceBoolsToInts
  have hload : checkStmts pointerType returns
      [{ results := [n], inst := .load ty.coerceBoolsToInts 1 (slotOffset i) }] tf = some tf₁ := by
    rw [checkStmts_one, Inst.check, if_pos ⟨hptr, isBool_coerceBoolsToInts ty⟩]
    rfl
  have hloaded : tf₁.values n = some ty.coerceBoolsToInts := TypeFrame.values_update tf n _
  have hkeeps : TypeFrame.Keeps n tf tf₁ := TypeFrame.keeps_update tf n _
  unfold loadArgument
  refine Types.bind_some (Adds.emit1 _ n) hload ?_
  by_cases hbool : ty.isBool
  · -- a scalar boolean
    have hvector : ty.isBoolVector = false := isBoolVector_eq_false_of_isBool hbool
    have hcoerce : ty.coerceBoolsToInts = ty.asInt := by simp [IrType.coerceBoolsToInts, hbool]
    have hC : Comparable ty := fun h => by simp [hvector] at h
    have hown : loadedType ty = ty := by simp [loadedType, hvector]
    rw [hcoerce] at hloaded
    simp only [hbool, if_true, hown]
    refine Types.of_iff (Types.mono (types_scalarBool hbool hloaded) ?_) (iff_true_intro hC)
    rintro v n' tf' ⟨hnv, hv, hvalue, hkeeps'⟩
    exact ⟨Nat.le_of_succ_le hnv, hv, hvalue, hkeeps.trans hkeeps' (Nat.le_succ n)⟩
  · have hbool : ty.isBool = false := by simpa using hbool
    simp only [hbool, Bool.false_eq_true, if_false]
    by_cases hvector : ty.isBoolVector
    · -- a vector of booleans
      have hcoerce : ty.coerceBoolsToInts = ty.asInt := by simp [IrType.coerceBoolsToInts, hvector]
      have hown : loadedType ty = ty.asInt.asBool := by simp [loadedType, hvector]
      rw [hcoerce] at hloaded
      simp only [hvector, if_true, hcoerce, hown]
      refine Types.mono (types_boolVector hvector hloaded (Nat.lt_succ_self n)) ?_
      rintro v n' tf' ⟨hnv, hv, hvalue, hkeeps'⟩
      exact ⟨Nat.le_of_succ_le hnv, hv, hvalue, hkeeps.trans hkeeps' (Nat.le_succ n)⟩
    · have hvector : ty.isBoolVector = false := by simpa using hvector
      have hcoerce : ty.coerceBoolsToInts = ty := by simp [IrType.coerceBoolsToInts, hbool, hvector]
      have hC : Comparable ty := fun h => by simp [hvector] at h
      have hown : loadedType ty = ty := by simp [loadedType, hvector]
      rw [hcoerce] at hloaded
      simp only [hvector, Bool.false_eq_true, if_false, hown]
      exact Types.pure hC ⟨le_refl n, Nat.lt_succ_self n, hloaded, hkeeps⟩

/-- **All arguments** are loaded, in order. -/
lemma types_loadArguments (params : List AbiParam) {tf : TypeFrame} {n : ℕ} (hn : 1 < n)
    (hptr : tf.values 1 = some pointerType) (k : ℕ) :
    Types pointerType returns
      ((params.zipIdx k).mapM fun (param, i) => loadArgument 1 param i) n tf
      (∀ param ∈ params, Comparable param.valueType)
      fun (vs : List ℕ) n' tf' => n ≤ n' ∧ (∀ v ∈ vs, v < n') ∧
        vs.map tf'.values = params.map (fun param => some (loadedType param.valueType)) ∧
        TypeFrame.Keeps n tf tf' := by
  induction params generalizing tf n k with
  | nil =>
    exact Types.pure (by simp) ⟨le_refl n, by simp, rfl, TypeFrame.Keeps.refl n tf⟩
  | cons param params ih =>
    rw [List.zipIdx_cons, List.mapM_cons]
    refine Types.of_iff (Types.bind (types_loadArgument hptr param k) ?_ fun v => ?_)
      List.forall_mem_cons
    · rintro v n₁ tf₁ ⟨hnv, hvn, hvalue, hkeeps⟩
      have hptr₁ : tf₁.values 1 = some pointerType := by rw [hkeeps.values 1 hn, hptr]
      refine Types.bind_pure (ih (n := n₁) (by omega) hptr₁ (k + 1)) ?_
      rintro vs n₂ tf₂ ⟨hn₂, hlt, hvalues, hkeeps₁⟩
      refine ⟨by omega, ?_, ?_, hkeeps.trans hkeeps₁ (by omega)⟩
      · rw [List.forall_mem_cons]
        exact ⟨by omega, hlt⟩
      · rw [List.map_cons, List.map_cons, hvalues, hkeeps₁.values v hvn, hvalue]
    · refine AddsOnly.bind ?_ fun _ => AddsOnly.pure _
      refine AddsOnly.mapM ?_ _
      rintro ⟨param, i⟩
      exact addsOnly_loadArgument 1 param i

/-! ## The results -/

/-- The type a result is stored with. -/
def storedType (ty : IrType) : IrType :=
  if ty.laneType.isBool then { laneType := ty.laneType.boolToInt } else ty

lemma addsOnly_storeResult (ptr value : Value) (param : AbiParam) (i : ℕ) :
    AddsOnly (storeResult ptr value param i) := by
  unfold storeResult
  split
  · exact (AddsOnly.emit1 _).bind fun _ => (AddsOnly.emit 0 _).bind fun _ => AddsOnly.pure _
  · exact (AddsOnly.pure _).bind fun _ => (AddsOnly.emit 0 _).bind fun _ => AddsOnly.pure _

/-- One result is stored, if it is no vector of booleans. -/
lemma types_storeResult {tf : TypeFrame} {m x : ℕ} (hm : 1 < m)
    (hptr : tf.values 1 = some pointerType) {param : AbiParam}
    (hx : tf.values x = some param.valueType) (i : ℕ) :
    Types pointerType returns (storeResult 1 x param i) m tf (param.valueType.isBoolVector = false)
      fun _ m' tf' => m ≤ m' ∧ tf'.stored = tf.stored ++ [storedType param.valueType] ∧
        ∀ y < m, tf'.values y = tf.values y := by
  obtain ⟨ty, purpose, extension⟩ := param
  unfold storeResult
  by_cases hlane : ty.laneType.isBool
  · -- a boolean is turned into one integer, which has as many lanes if it is a scalar
    have hstored : storedType ty = { laneType := ty.laneType.boolToInt } := if_pos hlane
    simp only [hlane, if_true]
    by_cases hvector : ty.isBoolVector
    · have hint : checkStmts pointerType returns
          [{ results := [m], inst := .bint { laneType := ty.laneType.boolToInt } x }] tf =
            none := by
        have hlanes : ¬ (ty.laneType.isBool ∧ ty.laneType.boolToInt.isInt ∧
            0 = ty.log2LaneCount) := by
          rintro ⟨-, -, hzero⟩
          simp [IrType.isBoolVector, IrType.isVector, ← hzero] at hvector
        simp only [checkStmts_one, Inst.check, hx, Option.bind_eq_bind, Option.bind_some,
          if_neg hlanes]
      refine Types.bind_none (Adds.emit1 _ m) hint (fun _ => ?_) (by simp [hvector])
      exact (AddsOnly.emit 0 _).bind fun _ => AddsOnly.pure _
    · have hscalar : ty.log2LaneCount = 0 := by
        simpa [IrType.isBoolVector, IrType.isVector, hlane] using hvector
      let tf₁ : TypeFrame := tf.update m { laneType := ty.laneType.boolToInt }
      have hint : checkStmts pointerType returns
          [{ results := [m], inst := .bint { laneType := ty.laneType.boolToInt } x }] tf =
            some tf₁ := by
        have hlanes : ty.laneType.isBool ∧ ty.laneType.boolToInt.isInt ∧ 0 = ty.log2LaneCount :=
          ⟨hlane, isInt_boolToInt hlane, hscalar.symm⟩
        simp only [checkStmts_one, Inst.check, hx, Option.bind_eq_bind, Option.bind_some,
          if_pos hlanes]
        rfl
      have hkeeps : TypeFrame.Keeps m tf tf₁ := TypeFrame.keeps_update tf m _
      have hstore := checkStmts_store pointerType returns (TypeFrame.values_update tf m _)
        ((hkeeps.values 1 hm).trans hptr) (isBool_of_isInt (isInt_boolToInt hlane)) (slotOffset i)
      refine Types.bind_some (Adds.emit1 _ m) hint (Types.bind_some (Adds.emit 0 _ _) hstore ?_)
      refine Types.pure (by simpa using hvector) ⟨by omega, ?_, hkeeps.values⟩
      rw [hstored]
      rfl
  · have hlane : ty.laneType.isBool = false := by simpa using hlane
    have hstored : storedType ty = ty := by simp [storedType, hlane]
    have hstore := checkStmts_store pointerType returns hx hptr hlane (slotOffset i)
    simp only [hlane, Bool.false_eq_true, if_false]
    refine Types.bind_some (Adds.pure x m) rfl (Types.bind_some (Adds.emit 0 _ _) hstore ?_)
    refine Types.pure (by simp [IrType.isBoolVector, hlane]) ⟨le_refl m, ?_, fun _ _ => rfl⟩
    rw [hstored]
    rfl

/-- **All results** are stored, in order. -/
lemma types_storeResults (params : List AbiParam) {tf : TypeFrame} {x m : ℕ} (hm : 1 < m)
    (hptr : tf.values 1 = some pointerType) (hx : x + params.length ≤ m)
    (hvalues : ∀ (j : ℕ) param, params[j]? = some param →
      tf.values (x + j) = some param.valueType) (k : ℕ) :
    Types pointerType returns
      ((((List.range' x params.length).zipIdx k).zip params).forM
        fun ((value, i), param) => storeResult 1 value param i) m tf
      (∀ param ∈ params, param.valueType.isBoolVector = false)
      fun _ _ tf' => tf'.stored = tf.stored ++ params.map (storedType ·.valueType) := by
  induction params generalizing tf x m k with
  | nil => exact Types.pure (by simp) (by simp)
  | cons param params ih =>
    rw [List.length_cons, List.range'_succ, List.zipIdx_cons, List.zip_cons_cons]
    rw [List.length_cons] at hx
    have hvalue : tf.values x = some param.valueType := hvalues 0 param rfl
    refine Types.of_iff (Types.bind (types_storeResult hm hptr hvalue k) ?_ fun _ => ?_)
      List.forall_mem_cons
    · rintro _ m₁ tf₁ ⟨hm₁, hstored, hkeeps⟩
      have htail : ∀ (j : ℕ) p, params[j]? = some p →
          tf₁.values (x + 1 + j) = some p.valueType := by
        intro j p hp
        have hlt : j < params.length := (List.getElem?_eq_some_iff.mp hp).1
        rw [hkeeps (x + 1 + j) (by omega), Nat.add_assoc, Nat.add_comm 1 j]
        exact hvalues (j + 1) p (by simpa using hp)
      have hrest := ih (m := m₁) (by omega) ((hkeeps 1 hm).trans hptr) (by omega) htail (k + 1)
      rw [hstored, List.append_assoc] at hrest
      exact hrest
    · refine AddsOnly.forM ?_ _
      rintro ⟨⟨value, i⟩, param⟩
      exact addsOnly_storeResult 1 value param i

/-! ## The whole trampoline -/

lemma toBool_boolToInt {l : LaneType} (h : l.isBool) : l.boolToInt.toBool = l ↔ l ≠ .b1 := by
  cases l <;> first | decide | cases h

/-- Boolean lanes other than `b1` are whole bytes, as wide as the integers for them. -/
lemma bits_of_ne_b1 {l : LaneType} (h : l.isBool) (hne : l ≠ .b1) :
    l.boolToInt.bits = l.bits ∧ ∃ w, l.bits = 8 * w := by
  cases l with
  | b1 => exact absurd rfl hne
  | b8 => exact ⟨rfl, 1, rfl⟩
  | b16 => exact ⟨rfl, 2, rfl⟩
  | b32 => exact ⟨rfl, 4, rfl⟩
  | b64 => exact ⟨rfl, 8, rfl⟩
  | b128 => exact ⟨rfl, 16, rfl⟩
  | _ => cases h

/-- An argument is loaded with its own type unless it is a vector of booleans of another size or
with `b1` lanes. -/
lemma comparable_and_loadedType_iff (ty : IrType) :
    Comparable ty ∧ loadedType ty = ty ↔
      (ty.isBoolVector → ty.bits = 128 ∧ ty.laneType ≠ .b1) := by
  by_cases hvector : ty.isBoolVector
  · have hlane := laneType_of_isBoolVector hvector
    obtain ⟨lane, log2⟩ := ty
    have hvec : IrType.isVector ⟨lane.boolToInt, log2⟩ := by
      simp only [IrType.isBoolVector, Bool.and_eq_true] at hvector
      exact hvector.1
    have htype : loadedType ⟨lane, log2⟩ = ⟨lane, log2⟩ ↔ lane ≠ .b1 := by
      rw [loadedType, if_pos hvector, IrType.asBool, IrType.asInt, if_pos hvec,
        ← toBool_boolToInt hlane]
      simp
    have hbytes (hne : lane ≠ .b1) :
        IrType.bytes ⟨lane.boolToInt, log2⟩ = 16 ↔ IrType.bits ⟨lane, log2⟩ = 128 := by
      obtain ⟨hsame, w, hw⟩ := bits_of_ne_b1 hlane hne
      simp only [IrType.bytes, IrType.bits, IrType.laneCount, hsame, hw, Nat.mul_assoc]
      omega
    rw [htype, Comparable]
    simp only [hvector, forall_const, IrType.asInt]
    constructor
    · rintro ⟨hsize, hne⟩
      exact ⟨(hbytes hne).mp hsize, hne⟩
    · rintro ⟨hbits, hne⟩
      exact ⟨(hbytes hne).mpr hbits, hne⟩
  · simp [Comparable, loadedType, hvector]

/-- A result that is no vector of booleans is stored with its own lanes. -/
lemma sameLanes_storedType {param : AbiParam} (h : param.valueType.isBoolVector = false) :
    SameLanes (storedType param.valueType) param := by
  unfold storedType SameLanes
  split
  · rename_i hlane
    refine ⟨?_, rfl⟩
    simp only [IrType.isBoolVector, IrType.isVector, hlane, Bool.and_true,
      decide_eq_false_iff_not] at h
    exact (Nat.eq_zero_of_not_pos h).symm
  · rename_i hlane
    refine ⟨rfl, ?_⟩
    cases hl : param.valueType.laneType <;> first | rfl | simp [hl, LaneType.isBool] at hlane

end

/-- The call is well typed just if the arguments were loaded with their types. -/
lemma check_callIndirect {pointerType : IrType} (returns : List AbiParam) {tf : TypeFrame}
    (hcallee : tf.values 0 = some pointerType) {signature : Signature} {vs : List Value}
    (hvs : vs.map tf.values =
      signature.params.map fun param => some (loadedType param.valueType)) (n : ℕ) :
    ((∀ param ∈ signature.params, loadedType param.valueType = param.valueType) →
      ∃ tf', checkStmts pointerType returns
          [⟨List.range' n signature.returns.length, .callIndirect signature 0 vs⟩] tf = some tf' ∧
        TypeFrame.Keeps n tf tf' ∧ ∀ (j : ℕ) param, signature.returns[j]? = some param →
          tf'.values (n + j) = some param.valueType) ∧
    ((¬ ∀ param ∈ signature.params, loadedType param.valueType = param.valueType) →
      checkStmts pointerType returns
        [⟨List.range' n signature.returns.length, .callIndirect signature 0 vs⟩] tf = none) := by
  have hsame : (vs.map tf.values = signature.params.map fun param => some param.valueType) ↔
      ∀ param ∈ signature.params, loadedType param.valueType = param.valueType := by
    rw [hvs, List.map_inj_left]
    simp
  rw [checkStmts_one, Inst.check]
  refine ⟨fun h => ?_, fun h => if_neg fun hC => h (hsame.mp hC.2)⟩
  obtain ⟨tf', hdefine, hkeeps, hvalues⟩ :=
    TypeFrame.define_range' tf n (signature.returns.map (·.valueType))
  rw [List.length_map] at hdefine
  refine ⟨tf', by rw [if_pos ⟨hcallee, hsame.mpr h⟩, hdefine], hkeeps, fun j param hj => ?_⟩
  exact hvalues j _ (by rw [List.getElem?_map, hj, Option.map_some])

lemma convertsBooleans_iff (signature : Signature) :
    signature.ConvertsBooleans ↔ (∀ param ∈ signature.params, Comparable param.valueType) ∧
      (∀ param ∈ signature.params, loadedType param.valueType = param.valueType) ∧
      ∀ param ∈ signature.returns, param.valueType.isBoolVector = false := by
  rw [← and_assoc, ← forall₂_and]
  constructor
  · intro h
    exact ⟨fun p hp => (comparable_and_loadedType_iff _).mpr (h.params p hp), h.returns⟩
  · rintro ⟨hparams, hreturns⟩
    exact ⟨fun p hp => (comparable_and_loadedType_iff _).mp (hparams p hp), hreturns⟩

/-- The body of the trampoline of a signature is well typed just if it converts all booleans. -/
lemma types_trampoline (pointerType : IrType) (signature : Signature) :
    Types pointerType [] (do
      let calleeArgs ← loadArguments 1 signature.params
      let results ← emit signature.returns.length (.callIndirect signature 0 calleeArgs)
      storeResults 1 results signature.returns
      let _ ← emit 0 (.return_ [])) 2
      (.entry [{ valueType := pointerType }, { valueType := pointerType }])
      signature.ConvertsBooleans
      fun _ _ tf' => tf'.stored = signature.returns.map (storedType ·.valueType) := by
  have haddsReturn : AddsOnly (do let _ ← emit 0 (.return_ [])) :=
    (AddsOnly.emit 0 _).bind fun _ => AddsOnly.pure _
  have haddsStore (results : List Value) : AddsOnly (do
      storeResults 1 results signature.returns
      let _ ← emit 0 (.return_ [])) := by
    refine AddsOnly.bind (AddsOnly.forM ?_ _) fun _ => haddsReturn
    rintro ⟨⟨value, i⟩, param⟩
    exact addsOnly_storeResult 1 value param i
  refine Types.of_iff (Types.bind (types_loadArguments signature.params (by omega) rfl 0) ?_
    fun vs => (AddsOnly.emit _ _).bind haddsStore) (convertsBooleans_iff signature)
  rintro vs n₁ tf₁ ⟨hn₁, -, hvs, hkeeps₁⟩
  have hcallee : tf₁.values 0 = some pointerType := by
    rw [hkeeps₁.values 0 (by omega)]
    rfl
  have hptr : tf₁.values 1 = some pointerType := by
    rw [hkeeps₁.values 1 (by omega)]
    rfl
  obtain ⟨hok, hbad⟩ := check_callIndirect [] hcallee hvs n₁
  by_cases hsame : ∀ param ∈ signature.params, loadedType param.valueType = param.valueType
  · obtain ⟨tf₂, hcall, hkeeps₂, hresults⟩ := hok hsame
    refine Types.bind_some (Adds.emit _ _ n₁) hcall ?_
    have hptr₂ : tf₂.values 1 = some pointerType := by rw [hkeeps₂.values 1 (by omega), hptr]
    refine Types.of_iff (Types.bind (types_storeResults signature.returns (by omega) hptr₂ le_rfl
      hresults 0) ?_ fun _ => haddsReturn) ((and_iff_right hsame).trans (and_true _).symm.to_iff)
    rintro _ m tf₃ hstored
    refine Types.bind_some (Adds.emit 0 _ m) rfl (Types.pure trivial ?_)
    rw [hstored, hkeeps₂.stored, hkeeps₁.stored]
    rfl
  · exact Types.bind_none (Adds.emit _ _ n₁) (hbad hsame) haddsStore fun h => hsame h.1

/-- **When a trampoline is well typed**: when its signature has no vector of booleans among the
returns, and among the parameters only those of 128 bits with lanes other than `b1`. -/
theorem trampolineTyped_iff {Flags : Type} (isa : TargetIsa Flags) (signature : Signature) :
    TrampolineTyped isa signature ↔ signature.ConvertsBooleans := by
  obtain ⟨a, n', stmts, hadds, hok, hbad⟩ := types_trampoline isa.pointerType signature
  have hstmts : trampolineStmts signature = stmts :=
    (congrArg (fun p => p.2.stmts) (hadds [])).trans (List.nil_append stmts)
  rw [← hstmts] at hok hbad
  constructor
  · rintro ⟨tf, hcheck, -⟩
    by_contra hC
    exact Option.some_ne_none tf (hcheck.symm.trans (hbad hC))
  · intro hC
    obtain ⟨tf, hcheck, hstored⟩ := hok hC
    refine ⟨tf, hcheck, ?_⟩
    rw [hstored, List.forall₂_map_left_iff, List.forall₂_same]
    exact fun param hparam => sameLanes_storedType (hC.returns param hparam)

/-- A parameter `b8x8` gets a constant of sixteen bytes for a type of eight, a parameter `b1x16` the
result of a comparison that is a `b8x16`, and a return `b8x16` is turned into a single `i8`. -/
theorem trampoline_ill_typed :
    let b8x8 : AbiParam := { valueType := ⟨.b8, 3⟩ }
    let b1x16 : AbiParam := { valueType := ⟨.b1, 4⟩ }
    let b8x16 : AbiParam := { valueType := ⟨.b8, 4⟩ }
    ¬ TrampolineTyped TargetIsa.sample { params := [b8x8], returns := [], callConv := .systemV } ∧
    ¬ TrampolineTyped TargetIsa.sample { params := [b1x16], returns := [], callConv := .systemV } ∧
    ¬ TrampolineTyped TargetIsa.sample
      { params := [], returns := [b8x16], callConv := .systemV } := by
  refine ⟨?_, ?_, ?_⟩
  · rintro ⟨tf, hcheck, -⟩
    cases hcheck
  · rintro ⟨tf, hcheck, -⟩
    cases hcheck
  · rintro ⟨tf, hcheck, -⟩
    cases hcheck

end CiRunner
