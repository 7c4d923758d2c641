import CiRunner.Cranelift
import Mathlib.Tactic.NormNum

/-!
# Values and their bytes

The marshalling layer moves values of the *marshallable* types: the scalar integers, floats and
booleans, and the 128-bit vectors whose lanes are not booleans.  A value of such a type takes up
as many bytes as the type has, and is read off these bytes whatever follows them
(`ofLeBytes_toLeBytes`).

A boolean does not go through memory as one.  It is loaded as the integer of its width, and counts
as true when that is not zero (`exists_int_of_isBool`); and it is stored as the integer 0 or 1
(`ofInt?_boolToInt`).
-/

namespace CiRunner

open LittleEndian

/-- The types that arguments and results can have: scalars, and 128-bit vectors without
booleans. -/
def IrType.Marshallable (ty : IrType) : Prop :=
  ty.isVector = false ∨ ty.bits = 128 ∧ ty.laneType.isBool = false

instance (ty : IrType) : Decidable ty.Marshallable := inferInstanceAs (Decidable (_ ∨ _))

/-- The bytes a value of type `ty` is stored as: those of an integer for a boolean. -/
def storedBytes (ty : IrType) : DataValue → List UInt8
  | .b v => toBytes ty.bytes v.toNat
  | v => v.toLeBytes

namespace IrType

variable {ty : IrType}

/-- A scalar type is its lane type. -/
lemma eq_of_scalar (h : ty.isVector = false) : ty = { laneType := ty.laneType } := by
  obtain ⟨lane, log2⟩ := ty
  obtain rfl : log2 = 0 := by simpa [isVector] using h
  rfl

lemma scalar_of_isBool (h : ty.isBool) : ty.isVector = false := by
  simp only [isBool, Bool.and_eq_true, Bool.not_eq_true'] at h
  exact h.1

/-- No marshallable type takes up more than a slot. -/
lemma bytes_le_of_marshallable (h : ty.Marshallable) : ty.bytes ≤ 16 := by
  rcases h with h | ⟨h, -⟩
  · rw [eq_of_scalar h]
    cases ty.laneType <;> decide
  · simp [bytes, h]

lemma bytes_pos_of_isBool (h : ty.isBool) : 0 < ty.bytes := by
  rw [eq_of_scalar (scalar_of_isBool h)]
  cases ty.laneType <;> decide

/-- The integer type a boolean is loaded as has as many bytes. -/
lemma bytes_asInt (h : ty.isBool) : ty.asInt.bytes = ty.bytes := by
  rw [eq_of_scalar (scalar_of_isBool h)]
  cases ty.laneType <;> rfl

lemma not_isBoolVector (h : ty.Marshallable) : ty.isBoolVector = false := by
  rcases h with h | ⟨-, h⟩ <;> simp [isBoolVector, h]

/-- Among marshallable types a boolean lane makes a boolean. -/
lemma isBool_iff_laneType (h : ty.Marshallable) : ty.isBool = ty.laneType.isBool := by
  rcases h with h | ⟨-, h⟩ <;> simp [isBool, h]

end IrType

/-! ## Values other than booleans -/

lemma isBool_of_hasType_b {v : Bool} {ty : IrType} (h : (DataValue.b v).HasType ty) : ty.isBool := h

/-- The bytes of a value are those of its type. -/
lemma length_toLeBytes {v : DataValue} {ty : IrType} (h : v.HasType ty) (hv : v.isBool = false) :
    v.toLeBytes.length = ty.bytes := by
  cases v with
  | b v => cases hv
  | v128 v => simp [DataValue.toLeBytes, IrType.bytes, h.2]
  | v64 v => simp [DataValue.toLeBytes, IrType.bytes, h.2]
  | _ =>
    obtain rfl : _ = ty := h
    simp [DataValue.toLeBytes, IrType.bytes, IrType.bits, IrType.laneCount, LaneType.bits,
      DataValue.ty]

/-- **Round trip.**  A value is read off its bytes. -/
theorem ofLeBytes_toLeBytes {v : DataValue} {ty : IrType} (h : v.HasType ty)
    (hv : v.isBool = false) (rest : List UInt8) :
    DataValue.ofLeBytes ty (v.toLeBytes ++ rest) = some v := by
  have htake : (v.toLeBytes ++ rest).take ty.bytes = v.toLeBytes := by
    rw [← length_toLeBytes h hv, List.take_left']
    rfl
  have hnat {w : ℕ} (n : BitVec w) {k : ℕ} (hk : 2 ^ w ≤ 256 ^ k) :
      BitVec.ofNat w (ofBytes (toBytes k n.toNat)) = n := by
    rw [ofBytes_toBytes_of_lt (n.isLt.trans_le hk)]
    simp
  simp only [DataValue.ofLeBytes, htake]
  cases v with
  | b v => cases hv
  | v128 v =>
    obtain ⟨hvector, hbits⟩ := h
    rw [if_pos hvector, if_pos hbits, DataValue.toLeBytes, hnat v (by norm_num)]
  | v64 v =>
    obtain ⟨hvector, hbits⟩ := h
    rw [if_pos hvector, if_neg (by omega), if_pos hbits, DataValue.toLeBytes, hnat v (by norm_num)]
  | _ v =>
    obtain rfl : _ = ty := h
    simp [DataValue.ty, IrType.isVector, DataValue.toLeBytes, hnat v]

/-! ## Booleans -/

/-- A boolean is read off any bytes of its type. -/
lemma ofLeBytes_of_isBool {ty : IrType} (h : ty.isBool) (bs : List UInt8) :
    DataValue.ofLeBytes ty bs = some (.b (ofBytes (bs.take ty.bytes) ≠ 0)) := by
  rw [IrType.eq_of_scalar (IrType.scalar_of_isBool h)]
  simp only [IrType.isBool, Bool.and_eq_true] at h
  revert h
  cases ty.laneType <;> simp [LaneType.isBool, DataValue.ofLeBytes, IrType.isVector]

/-- A boolean is loaded as an integer, which is zero exactly when its bytes are. -/
lemma exists_int_of_isBool {ty : IrType} (h : ty.isBool) {bs : List UInt8}
    (hlength : bs.length = ty.bytes) :
    ∃ w n, DataValue.ofLeBytes ty.coerceBoolsToInts bs = some w ∧ w.toInt? = some n ∧
      (n ≠ 0 ↔ ofBytes bs ≠ 0) := by
  have hcoerce : ty.coerceBoolsToInts = ty.asInt := by simp [IrType.coerceBoolsToInts, h]
  have htake : bs.take ty.asInt.bytes = bs := by
    rw [IrType.bytes_asInt h, ← hlength, List.take_length]
  have hlt := ofBytes_lt bs
  have hzero {w : ℕ} (hw : ofBytes bs < 2 ^ w) :
      (BitVec.ofNat w (ofBytes bs)).toInt ≠ 0 ↔ ofBytes bs ≠ 0 := by
    have htoNat : (BitVec.ofNat w (ofBytes bs)).toNat = ofBytes bs := by
      rw [BitVec.toNat_ofNat, Nat.mod_eq_of_lt hw]
    rw [Ne, Ne, not_iff_not, ← BitVec.toInt_zero (w := w), BitVec.toInt_inj, ← BitVec.toNat_inj,
      htoNat]
    rfl
  rw [hcoerce]
  simp only [DataValue.ofLeBytes, htake]
  rw [hlength] at hlt
  rw [IrType.eq_of_scalar (IrType.scalar_of_isBool h)] at hlt ⊢
  simp only [IrType.isBool, Bool.and_eq_true] at h
  obtain ⟨-, h⟩ := h
  revert h hlt
  cases ty.laneType with
  | b1 | b8 | b16 | b32 | b64 | b128 => exact fun hlt _ => ⟨_, _, rfl, rfl, hzero hlt⟩
  | _ => exact fun _ h => by cases h

/-- A boolean is stored as the integer 0 or 1 of its width. -/
lemma ofInt?_boolToInt {ty : IrType} (h : ty.isBool) (v : Bool) :
    ∃ w, DataValue.ofInt? { laneType := ty.laneType.boolToInt } v.toNat = some w ∧
      w.toLeBytes = storedBytes ty (.b v) := by
  rw [IrType.eq_of_scalar (IrType.scalar_of_isBool h)]
  simp only [IrType.isBool, Bool.and_eq_true] at h
  obtain ⟨-, h⟩ := h
  revert h
  cases ty.laneType with
  | b1 | b8 | b16 | b32 | b64 | b128 => cases v <;> exact fun _ => ⟨_, rfl, by decide⟩
  | _ => exact fun h => by cases h

/-! ## Reading back -/

lemma length_storedBytes {v : DataValue} {ty : IrType} (h : v.HasType ty) :
    (storedBytes ty v).length = ty.bytes := by
  cases v with
  | b v => simp [storedBytes]
  | _ => exact length_toLeBytes h rfl

/-- **What is stored is read back**, booleans included, whatever bytes follow. -/
theorem ofLeBytes_storedBytes {v : DataValue} {ty : IrType} (h : v.HasType ty)
    (rest : List UInt8) : DataValue.ofLeBytes ty (storedBytes ty v ++ rest) = some v := by
  cases v with
  | b v =>
    have hbool : ty.isBool := h
    have htake : (storedBytes ty (.b v) ++ rest).take ty.bytes = storedBytes ty (.b v) := by
      rw [← length_storedBytes h, List.take_left']
      rfl
    have hlt : v.toNat < 256 ^ ty.bytes := by
      have hpos := IrType.bytes_pos_of_isBool hbool
      have hle : 256 ^ 1 ≤ 256 ^ ty.bytes := Nat.pow_le_pow_right (by norm_num) hpos
      have := v.toNat_le
      omega
    rw [ofLeBytes_of_isBool hbool, htake, storedBytes, ofBytes_toBytes_of_lt hlt]
    cases v <;> rfl
  | _ => exact ofLeBytes_toLeBytes h rfl rest

end CiRunner
