import Mathlib.Data.Nat.Log
import Mathlib.Data.List.Basic
import Mathlib.Tactic.Ring
import Mathlib.Tactic.NormNum

/-!
# Little-endian bytes and byte memories

`toBytes w n` is the natural number `n` in `w` little-endian bytes and `ofBytes` reads bytes
back; the two are inverse below `256 ^ w`.  Words can be stored in a row; `wordAt` takes the one at
a byte offset, and finds each word at its index times its width (`wordAt_wordBytes`).  Bytes hold
all words of a row from an offset on exactly when the bytes of the row are there
(`forall_wordAt_iff`).

A byte memory is a function from addresses to bytes; `read` and `write` move contiguous bytes, and
`place` is the memory that holds an image from a base address on.

The frame laws are the ones a marshalling proof uses: a read meets the last write of its own
range (`read_write`), looks at no other addresses (`read_congr`), and finds in a placed image the
bytes at that offset (`read_place`).
-/

namespace LittleEndian

/-! ## Numbers and bytes -/

/-- The `w` low bytes of `n`, least significant first. -/
def toBytes : ℕ → ℕ → List UInt8
  | 0, _ => []
  | w + 1, n => UInt8.ofNat (n % 256) :: toBytes w (n / 256)

/-- The number with the given little-endian bytes. -/
def ofBytes : List UInt8 → ℕ
  | [] => 0
  | b :: bs => b.toNat + 256 * ofBytes bs

@[simp] lemma length_toBytes (w n : ℕ) : (toBytes w n).length = w := by
  induction w generalizing n with
  | zero => rfl
  | succ w ih => simp [toBytes, ih]

lemma ofBytes_toBytes (w n : ℕ) : ofBytes (toBytes w n) = n % 256 ^ w := by
  induction w generalizing n with
  | zero => simp [toBytes, ofBytes, Nat.mod_one]
  | succ w ih =>
    have hbyte : (UInt8.ofNat (n % 256)).toNat = n % 256 := by
      simp only [UInt8.toNat_ofNat']
      omega
    rw [toBytes, ofBytes, hbyte, ih, pow_succ', Nat.mod_mul]

lemma ofBytes_toBytes_of_lt {w n : ℕ} (h : n < 256 ^ w) : ofBytes (toBytes w n) = n := by
  rw [ofBytes_toBytes, Nat.mod_eq_of_lt h]

lemma ofBytes_lt (bs : List UInt8) : ofBytes bs < 256 ^ bs.length := by
  induction bs with
  | nil => simp [ofBytes]
  | cons b bs ih =>
    have hb : b.toNat < 256 := b.toNat_lt
    rw [ofBytes, List.length_cons, pow_succ]
    omega

lemma ofBytes_append (as bs : List UInt8) :
    ofBytes (as ++ bs) = ofBytes as + 256 ^ as.length * ofBytes bs := by
  induction as with
  | nil => simp [ofBytes]
  | cons a as ih =>
    rw [List.cons_append, ofBytes, ofBytes, ih, List.length_cons, pow_succ]
    ring

lemma toBytes_ofBytes (bs : List UInt8) : toBytes bs.length (ofBytes bs) = bs := by
  induction bs with
  | nil => rfl
  | cons b bs ih =>
    have hb : b.toNat < 256 := b.toNat_lt
    have hlow : (b.toNat + 256 * ofBytes bs) % 256 = b.toNat := by omega
    have hhigh : (b.toNat + 256 * ofBytes bs) / 256 = ofBytes bs := by omega
    rw [List.length_cons, ofBytes, toBytes, hlow, hhigh, ih, UInt8.ofNat_toNat]

/-- The first `k` bytes of a number's `w` bytes are its `k` bytes. -/
lemma take_toBytes {k w : ℕ} (h : k ≤ w) (n : ℕ) : (toBytes w n).take k = toBytes k n := by
  induction k generalizing w n with
  | zero => rfl
  | succ k ih =>
    obtain ⟨v, rfl⟩ : ∃ v, w = v + 1 := ⟨w - 1, by omega⟩
    rw [toBytes, toBytes, List.take_succ_cons, ih (by omega)]

/-! ## Words in a row -/

/-- Words of `w` bytes, one after the other. -/
def wordBytes (w : ℕ) (ns : List ℕ) : List UInt8 := ns.flatMap (toBytes w)

/-- The word of `w` bytes at byte offset `o`, if there are that many bytes. -/
def wordAt (w : ℕ) (bs : List UInt8) (o : ℕ) : Option ℕ :=
  if o + w ≤ bs.length then some (ofBytes ((bs.drop o).take w)) else none

@[simp] lemma length_wordBytes (w : ℕ) (ns : List ℕ) :
    (wordBytes w ns).length = w * ns.length := by
  simp [wordBytes, Nat.mul_comm]

lemma drop_wordBytes (w : ℕ) (ns : List ℕ) (k : ℕ) :
    (wordBytes w ns).drop (w * k) = wordBytes w (ns.drop k) := by
  induction ns generalizing k with
  | nil => simp [wordBytes]
  | cons n ns ih =>
    cases k with
    | zero => rfl
    | succ k =>
      have hlength : (toBytes w n).length = w := length_toBytes w n
      have hcons : wordBytes w (n :: ns) = toBytes w n ++ wordBytes w ns := rfl
      rw [hcons, Nat.mul_succ, Nat.add_comm, ← List.drop_drop, List.drop_left' hlength, ih]
      rfl

/-- **The words of a row** are found where their index says. -/
theorem wordAt_wordBytes {w : ℕ} (hw : 0 < w) {ns : List ℕ} (h : ∀ n ∈ ns, n < 256 ^ w) (k : ℕ) :
    wordAt w (wordBytes w ns) (w * k) = ns[k]? := by
  rw [wordAt, length_wordBytes, drop_wordBytes]
  by_cases hk : k < ns.length
  · have hle : w * k + w ≤ w * ns.length := Nat.mul_le_mul_left w hk
    have hlength : (toBytes w ns[k]).length = w := length_toBytes w ns[k]
    have hcons : wordBytes w (ns.drop k) = toBytes w ns[k] ++ wordBytes w (ns.drop (k + 1)) := by
      rw [List.drop_eq_getElem_cons hk]
      rfl
    rw [if_pos hle, hcons, List.take_left' hlength,
      ofBytes_toBytes_of_lt (h _ (List.getElem_mem hk)), List.getElem?_eq_getElem hk]
  · have hgt : ¬ w * k + w ≤ w * ns.length := by
      rw [← Nat.mul_succ, Nat.mul_le_mul_left_iff hw]
      exact hk
    rw [if_neg hgt, List.getElem?_eq_none (by omega)]

/-- A word is at an offset when its bytes are. -/
lemma wordAt_eq_some_iff {w : ℕ} (hw : 0 < w) {n : ℕ} (hn : n < 256 ^ w) (bs : List UInt8) (o : ℕ) :
    wordAt w bs o = some n ↔ toBytes w n <+: bs.drop o := by
  constructor
  · intro h
    rw [wordAt] at h
    split at h
    · rename_i hle
      have hlength : ((bs.drop o).take w).length = w := by
        rw [List.length_take, List.length_drop]
        omega
      obtain rfl := Option.some.inj h
      have hbytes := toBytes_ofBytes ((bs.drop o).take w)
      rw [hlength] at hbytes
      rw [hbytes]
      exact List.take_prefix w _
    · cases h
  · rintro ⟨rest, hrest⟩
    have hlength := congrArg List.length hrest
    rw [List.length_append, length_toBytes, List.length_drop] at hlength
    rw [wordAt, if_pos (by omega), ← hrest, List.take_left' (length_toBytes w n),
      ofBytes_toBytes_of_lt hn]

/-- **All words of a row** are found from an offset on when the bytes of the row are there. -/
theorem forall_wordAt_iff {w : ℕ} (hw : 0 < w) {ns : List ℕ} (h : ∀ n ∈ ns, n < 256 ^ w)
    (bs : List UInt8) (o : ℕ) :
    (∀ k n, ns[k]? = some n → wordAt w bs (o + w * k) = some n) ↔
      wordBytes w ns <+: bs.drop o := by
  induction ns generalizing o with
  | nil => simp [wordBytes]
  | cons n ns ih =>
    rw [List.forall_mem_cons] at h
    have hcons : wordBytes w (n :: ns) = toBytes w n ++ wordBytes w ns := rfl
    have hlength : (toBytes w n).length = w := length_toBytes w n
    have hnext := ih h.2 (o + w)
    rw [← List.drop_drop] at hnext
    have hsplit : wordBytes w (n :: ns) <+: bs.drop o ↔
        toBytes w n <+: bs.drop o ∧ wordBytes w ns <+: (bs.drop o).drop w := by
      rw [hcons]
      constructor
      · rintro ⟨rest, hrest⟩
        rw [← hrest, List.append_assoc]
        exact ⟨List.prefix_append _ _, by simp [List.drop_left' hlength]⟩
      · rintro ⟨⟨rest, hrest⟩, htail⟩
        rw [← hrest, List.drop_left' hlength] at htail
        rw [← hrest]
        exact (List.prefix_append_right_inj _).mpr htail
    rw [hsplit, ← hnext, ← wordAt_eq_some_iff hw h.1]
    constructor
    · intro hall
      refine ⟨hall 0 n rfl, fun k m hm => ?_⟩
      rw [Nat.add_assoc, Nat.add_comm w, ← Nat.mul_succ]
      exact hall (k + 1) m hm
    · rintro ⟨hfirst, hrest⟩ k m hm
      cases k with
      | zero =>
        obtain rfl : n = m := by simpa using hm
        exact hfirst
      | succ k =>
        rw [Nat.mul_succ, Nat.add_comm (w * k), ← Nat.add_assoc]
        exact hrest k m hm

/-! ## Byte memories -/

/-- A byte-addressed memory. -/
abbrev Mem := ℕ → UInt8

/-- The `n` bytes from address `a` on. -/
def read (m : Mem) (a n : ℕ) : List UInt8 := (List.range n).map fun i => m (a + i)

/-- The memory after storing `bs` from address `a` on. -/
def write (m : Mem) (a : ℕ) (bs : List UInt8) : Mem :=
  fun x => if a ≤ x then (bs[x - a]?).getD (m x) else m x

/-- The memory that holds `image` from `base` on and zero elsewhere. -/
def place (base : ℕ) (image : List UInt8) : Mem := write (fun _ => 0) base image

@[simp] lemma length_read (m : Mem) (a n : ℕ) : (read m a n).length = n := by simp [read]

lemma getElem?_read (m : Mem) (a n i : ℕ) :
    (read m a n)[i]? = if i < n then some (m (a + i)) else none := by
  by_cases h : i < n <;> simp [read, h]

/-- Memories that agree on a range read the same there. -/
lemma read_congr {m m' : Mem} {a n : ℕ} (h : ∀ x, a ≤ x → x < a + n → m x = m' x) :
    read m a n = read m' a n := by
  apply List.map_congr_left
  intro i hi
  have hi' : i < n := by simpa using hi
  exact h _ (by omega) (by omega)

lemma read_append (m : Mem) (a j k : ℕ) :
    read m a (j + k) = read m a j ++ read m (a + j) k := by
  simp only [read, List.range_add, List.map_append, List.map_map]
  congr 1
  apply List.map_congr_left
  intro i _
  simp [Nat.add_assoc]

lemma write_of_lt {m : Mem} {a x : ℕ} {bs : List UInt8} (h : x < a) : write m a bs x = m x := by
  simp [write, Nat.not_le.mpr h]

lemma write_of_le {m : Mem} {a x : ℕ} {bs : List UInt8} (h : a + bs.length ≤ x) :
    write m a bs x = m x := by
  have hend : ¬x - a < bs.length := by omega
  simp [write, hend]

lemma write_at (m : Mem) (a : ℕ) {bs : List UInt8} {i : ℕ} (h : i < bs.length) :
    write m a bs (a + i) = bs[i] := by
  simp [write, h]

/-- A read inside a freshly written range finds the bytes written there. -/
lemma read_write_drop_take (m : Mem) (a : ℕ) (bs : List UInt8) {j n : ℕ}
    (h : j + n ≤ bs.length) : read (write m a bs) (a + j) n = (bs.drop j).take n := by
  refine List.ext_getElem? fun i => ?_
  rw [getElem?_read, List.getElem?_take]
  by_cases hi : i < n
  · have hlt : j + i < bs.length := by omega
    rw [if_pos hi, if_pos hi, Nat.add_assoc, write_at m a hlt, List.getElem?_drop,
      List.getElem?_eq_getElem hlt]
  · rw [if_neg hi, if_neg hi]

/-- Reading back what was written. -/
lemma read_write (m : Mem) (a : ℕ) (bs : List UInt8) :
    read (write m a bs) a bs.length = bs := by
  simpa using read_write_drop_take m a bs (j := 0) (n := bs.length) (by omega)

/-- A placed image reads back, at each offset, the bytes it has there. -/
lemma read_place (base : ℕ) {image : List UInt8} {j n : ℕ} (h : j + n ≤ image.length) :
    read (place base image) (base + j) n = (image.drop j).take n :=
  read_write_drop_take _ _ _ h

end LittleEndian
