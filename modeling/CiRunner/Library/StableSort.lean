import Mathlib.Data.List.Sort
import Mathlib.Data.Prod.Lex

/-!
# Stable sorting by a key

`sortByKey` is the standard library's `sort_by_key`: it orders a list by a key and leaves
elements of equal key in the order they came in.  When the keys that occur are known, the
result has a closed form: the fibers of the key, in the order of the keys
(`sortByKey_eq_fibers`).  A fiber is a `filter` of the input, which is what makes the sort
stable, and a list that already is ordered comes back as it was (`sortByKey_of_forall_eq`).
-/

namespace StableSort

variable {α κ : Type*} [LinearOrder κ] (key : α → κ)

/-- A stable sort by `key`, smallest key first. -/
def sortByKey (xs : List α) : List α := xs.insertionSort fun a b => key a ≤ key b

/-- The elements of `xs` with key `k`, for each `k` of `ks` in turn. -/
def fibers (ks : List κ) (xs : List α) : List α :=
  ks.flatMap fun k => xs.filter fun x => key x = k

@[simp] lemma sortByKey_nil : sortByKey key [] = [] := rfl

@[simp] lemma fibers_cons (k : κ) (ks : List κ) (xs : List α) :
    fibers key (k :: ks) xs = (xs.filter fun x => key x = k) ++ fibers key ks xs := rfl

lemma mem_fibers {ks : List κ} {xs : List α} {x : α} :
    x ∈ fibers key ks xs ↔ x ∈ xs ∧ key x ∈ ks := by
  simp [fibers, and_comm]

/-- Insertion goes to the front of a list that holds no smaller key. -/
lemma orderedInsert_of_forall_le {a : α} {xs : List α} (h : ∀ x ∈ xs, key a ≤ key x) :
    xs.orderedInsert (fun a b => key a ≤ key b) a = a :: xs := by
  cases xs with
  | nil => rfl
  | cons x xs => rw [List.orderedInsert, if_pos (h x (by simp))]

/-- Insertion passes over a front part whose keys are all smaller. -/
lemma orderedInsert_append_of_forall_lt {a : α} {xs : List α} (h : ∀ x ∈ xs, key x < key a)
    (ys : List α) :
    (xs ++ ys).orderedInsert (fun a b => key a ≤ key b) a =
      xs ++ ys.orderedInsert (fun a b => key a ≤ key b) a := by
  induction xs with
  | nil => rfl
  | cons x xs ih =>
    rw [List.cons_append, List.orderedInsert, if_neg (not_le.mpr (h x (by simp))),
      ih fun y hy => h y (List.mem_cons_of_mem _ hy), List.cons_append]

/-- Inserting an element in front of equal keys puts it at the head of its fiber. -/
lemma orderedInsert_fibers {ks : List κ} (hks : ks.Pairwise (· < ·)) {a : α}
    (ha : key a ∈ ks) (xs : List α) :
    (fibers key ks xs).orderedInsert (fun a b => key a ≤ key b) a = fibers key ks (a :: xs) := by
  induction ks with
  | nil => simp at ha
  | cons k ks ih =>
    obtain ⟨hk, hks'⟩ := List.pairwise_cons.mp hks
    by_cases hak : key a = k
    · -- every later fiber misses `a`, and nothing in the list has a smaller key
      have hne : ∀ k' ∈ ks, key a ≠ k' := fun k' hk' h => (hk k' hk').ne (hak.symm.trans h)
      have hrest : fibers key ks (a :: xs) = fibers key ks xs := by
        apply List.flatMap_congr
        intro k' hk'
        rw [List.filter_cons_of_neg (by simpa using hne k' hk')]
      rw [orderedInsert_of_forall_le, fibers_cons, fibers_cons, hrest,
        List.filter_cons_of_pos (by simpa using hak), List.cons_append]
      intro x hx
      rcases List.mem_cons.mp ((mem_fibers key).mp hx).2 with h | h
      · exact (hak.trans h.symm).le
      · exact hak ▸ (hk _ h).le
    · have ha' : key a ∈ ks := (List.mem_cons.mp ha).resolve_left hak
      rw [fibers_cons, orderedInsert_append_of_forall_lt, ih hks' ha', fibers_cons,
        List.filter_cons_of_neg (by simpa using hak)]
      intro x hx
      have hx' : key x = k := by simpa using (List.mem_filter.mp hx).2
      exact hx' ▸ hk _ ha'

/-- **The closed form of the sort.**  When `ks` lists in increasing order every key that
occurs, sorting concatenates the fibers over `ks`. -/
theorem sortByKey_eq_fibers {ks : List κ} (hks : ks.Pairwise (· < ·)) {xs : List α}
    (h : ∀ x ∈ xs, key x ∈ ks) : sortByKey key xs = fibers key ks xs := by
  induction xs with
  | nil => simp [fibers]
  | cons a xs ih =>
    rw [sortByKey, List.insertionSort_cons, ← orderedInsert_fibers key hks (h a (by simp)),
      ← ih fun x hx => h x (List.mem_cons_of_mem _ hx), sortByKey]

lemma mem_sortByKey {xs : List α} {x : α} : x ∈ sortByKey key xs ↔ x ∈ xs :=
  List.mem_insertionSort _

/-- A list whose keys all agree is left as it is. -/
theorem sortByKey_of_forall_eq {k : κ} {xs : List α} (h : ∀ x ∈ xs, key x = k) :
    sortByKey key xs = xs := by
  rw [sortByKey_eq_fibers key (List.pairwise_singleton (· < ·) k) (by simpa using h), fibers_cons,
    List.filter_eq_self.mpr (by simpa using h)]
  simp [fibers]

end StableSort
