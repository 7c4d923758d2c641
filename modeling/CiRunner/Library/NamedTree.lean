import Mathlib.Data.List.Basic
import Mathlib.Data.List.Nodup
import Mathlib.Tactic.Common

/-!
# Trees with named children

A `NamedTree` has data at its leaves and named children, in some order, at its other nodes.
`leaves` lists the leaves depth first, each with the names on the way to it; `get?` follows names
from the root.  When no two children of a node have the same name (`Distinct`), the two describe
the same leaves: what is listed is what names lead to (`mem_leaves_iff`), and no names are listed
twice (`nodup_leaves`).
-/

/-- A tree with data at the leaves and named children at the other nodes. -/
inductive NamedTree (κ α : Type)
  | leaf (a : α)
  | node (children : List (κ × NamedTree κ α))

namespace NamedTree

variable {κ α : Type}

/-- Induction on trees: a node has the property when all its children have it. -/
@[elab_as_elim]
theorem induction_on {motive : NamedTree κ α → Prop} (t : NamedTree κ α)
    (leaf : ∀ a, motive (.leaf a))
    (node : ∀ children, (∀ c ∈ children, motive c.2) → motive (.node children)) : motive t := by
  induction t using NamedTree.rec (motive_2 := fun children => ∀ c ∈ children, motive c.2)
    (motive_3 := fun c => motive c.2) with
  | leaf a => exact leaf a
  | node children ih => exact node children ih
  | nil =>
    rename_i c hc
    cases hc
  | cons c children hc hchildren =>
    rename_i d hd
    rcases List.mem_cons.mp hd with rfl | hd
    · exact hc
    · exact hchildren d hd
  | mk k t ih => exact ih

/-! ## Leaves -/

mutual

/-- The leaves, depth first, with the names on the way to each. -/
def leaves : NamedTree κ α → List (List κ × α)
  | .leaf a => [([], a)]
  | .node children => leavesOf children

/-- The leaves below named children. -/
def leavesOf : List (κ × NamedTree κ α) → List (List κ × α)
  | [] => []
  | (k, t) :: children => (leaves t).map (fun l => (k :: l.1, l.2)) ++ leavesOf children

end

lemma leavesOf_eq (children : List (κ × NamedTree κ α)) :
    leavesOf children =
      children.flatMap fun c => (leaves c.2).map fun l => (c.1 :: l.1, l.2) := by
  induction children with
  | nil => rfl
  | cons c children ih => rw [leavesOf, ih, List.flatMap_cons]

lemma mem_leavesOf_iff {children : List (κ × NamedTree κ α)} {path : List κ} {a : α} :
    (path, a) ∈ leavesOf children ↔
      ∃ k t names, (k, t) ∈ children ∧ path = k :: names ∧ (names, a) ∈ leaves t := by
  rw [leavesOf_eq, List.mem_flatMap]
  constructor
  · rintro ⟨⟨k, t⟩, hc, hmem⟩
    obtain ⟨⟨names, b⟩, hl, heq⟩ := List.mem_map.mp hmem
    obtain ⟨rfl, rfl⟩ : k :: names = path ∧ b = a := by simpa using heq
    exact ⟨k, t, names, hc, rfl, hl⟩
  · rintro ⟨k, t, names, hc, rfl, hl⟩
    exact ⟨(k, t), hc, List.mem_map.mpr ⟨(names, a), hl, rfl⟩⟩

/-- The leaves of a node are below it. -/
lemma ne_nil_of_mem_leavesOf {children : List (κ × NamedTree κ α)} {l : List κ × α}
    (h : l ∈ leavesOf children) : l.1 ≠ [] := by
  obtain ⟨k, t, names, -, hpath, -⟩ := mem_leavesOf_iff.mp h
  rw [hpath]
  exact List.cons_ne_nil k names

/-! ## Following names -/

section
variable [DecidableEq κ]

/-- The subtree that names lead to. -/
def get? : NamedTree κ α → List κ → Option (NamedTree κ α)
  | t, [] => some t
  | .leaf _, _ :: _ => none
  | .node children, k :: names => (children.lookup k).bind (get? · names)

/-- No two children of a node have the same name. -/
def Distinct (t : NamedTree κ α) : Prop :=
  ∀ path children, t.get? path = some (.node children) → (children.map Prod.fst).Nodup

lemma lookup_eq_some_iff {β : Type} {l : List (κ × β)} (h : (l.map Prod.fst).Nodup) {k : κ}
    {b : β} : l.lookup k = some b ↔ (k, b) ∈ l := by
  rw [List.lookup_eq_some_iff]
  constructor
  · rintro ⟨before, after, rfl, -⟩
    simp
  · intro hmem
    obtain ⟨before, after, rfl⟩ := List.append_of_mem hmem
    refine ⟨before, after, rfl, fun p hp => ?_⟩
    rw [List.map_append, List.map_cons, List.nodup_append] at h
    have hne := h.2.2 p.1 (List.mem_map_of_mem hp) k List.mem_cons_self
    exact bne_iff_ne.mpr hne.symm

lemma Distinct.children {children : List (κ × NamedTree κ α)}
    (h : (node children : NamedTree κ α).Distinct) : (children.map Prod.fst).Nodup :=
  h [] children rfl

/-- The children of a node with distinct names are such trees. -/
lemma Distinct.of_mem {children : List (κ × NamedTree κ α)}
    (h : (node children : NamedTree κ α).Distinct) {k : κ} {t : NamedTree κ α}
    (hmem : (k, t) ∈ children) : t.Distinct := by
  intro path grandchildren hget
  refine h (k :: path) grandchildren ?_
  rw [get?, (lookup_eq_some_iff h.children).mpr hmem]
  exact hget

/-- Below a node whose children are leaves. -/
lemma get?_flat {names : List κ} {a : α} {k : κ} {path : List κ} {t : NamedTree κ α} :
    (node (names.map fun k => (k, leaf a)) : NamedTree κ α).get? (k :: path) = some t ↔
      k ∈ names ∧ path = [] ∧ t = leaf a := by
  have hlookup (u : NamedTree κ α) :
      (names.map fun k => (k, (leaf a : NamedTree κ α))).lookup k = some u ↔
        k ∈ names ∧ u = leaf a := by
    induction names with
    | nil => simp
    | cons k' names ih =>
      rw [List.map_cons, List.lookup_cons]
      by_cases h : k = k'
      · simp [h, eq_comm]
      · have hbeq : (k == k') = false := by simpa using h
        simp [h, hbeq, ih]
  rw [get?, Option.bind_eq_some_iff]
  simp only [hlookup]
  cases path with
  | nil => simp [get?, eq_comm]
  | cons k' path => simp [get?]

/-- All names in the tree have a property. -/
def Named (P : κ → Prop) (t : NamedTree κ α) : Prop :=
  ∀ path children, t.get? path = some (.node children) → ∀ c ∈ children, P c.1

/-- Then so have all names that lead somewhere. -/
lemma Named.of_get? {P : κ → Prop} {t u : NamedTree κ α} (h : t.Named P) {path : List κ}
    (hget : t.get? path = some u) : ∀ k ∈ path, P k := by
  induction path generalizing t with
  | nil => exact fun k hk => by cases hk
  | cons k names ih =>
    cases t with
    | leaf a => cases hget
    | node children =>
      rw [get?, Option.bind_eq_some_iff] at hget
      obtain ⟨child, hlookup, hget⟩ := hget
      have hmem : (k, child) ∈ children := by
        obtain ⟨before, after, rfl, -⟩ := List.lookup_eq_some_iff.mp hlookup
        simp
      have hchild : child.Named P := by
        intro path grandchildren hpath
        refine h (k :: path) grandchildren ?_
        rw [get?, hlookup]
        exact hpath
      exact List.forall_mem_cons.mpr ⟨h [] children rfl _ hmem, ih hchild hget⟩

/-- **The leaves that are listed** are those that names lead to. -/
theorem mem_leaves_iff {t : NamedTree κ α} (h : t.Distinct) (path : List κ) (a : α) :
    (path, a) ∈ t.leaves ↔ t.get? path = some (.leaf a) := by
  induction t using induction_on generalizing path with
  | leaf b =>
    cases path with
    | nil => simp [leaves, get?, eq_comm]
    | cons k names => simp [leaves, get?]
  | node children ih =>
    rw [leaves, mem_leavesOf_iff]
    cases path with
    | nil => simp [get?]
    | cons k names =>
      rw [get?, Option.bind_eq_some_iff]
      constructor
      · rintro ⟨k', t, names', hc, heq, hl⟩
        obtain ⟨rfl, rfl⟩ : k = k' ∧ names = names' := by simpa using heq
        exact ⟨t, (lookup_eq_some_iff h.children).mpr hc, (ih _ hc (h.of_mem hc) _).mp hl⟩
      · rintro ⟨t, hlookup, hget⟩
        have hc := (lookup_eq_some_iff h.children).mp hlookup
        exact ⟨k, t, names, hc, rfl, (ih _ hc (h.of_mem hc) _).mpr hget⟩

/-- **No leaf is listed twice.** -/
theorem nodup_leaves {t : NamedTree κ α} (h : t.Distinct) : (t.leaves.map Prod.fst).Nodup := by
  induction t using induction_on with
  | leaf a => simp [leaves]
  | node children ih =>
    have hnames := h.children
    rw [leaves, leavesOf_eq, List.map_flatMap, List.nodup_flatMap]
    constructor
    · rintro ⟨k, t⟩ hc
      have hmap : ((leaves t).map fun l => (k :: l.1, l.2)).map Prod.fst =
          ((leaves t).map Prod.fst).map (k :: ·) := by
        rw [List.map_map, List.map_map]
        rfl
      rw [hmap]
      exact (ih _ hc (h.of_mem hc)).map fun a b hab => by simpa using hab
    · rw [List.Nodup, List.pairwise_map] at hnames
      refine hnames.imp ?_
      rintro ⟨k, t⟩ ⟨k', t'⟩ hne path hpath hpath'
      obtain ⟨l, hl, rfl⟩ := List.mem_map.mp hpath
      obtain ⟨l', hl', heq⟩ := List.mem_map.mp hpath'
      obtain ⟨m, -, rfl⟩ := List.mem_map.mp hl
      obtain ⟨m', -, rfl⟩ := List.mem_map.mp hl'
      obtain ⟨hk, -⟩ : k' = k ∧ m'.1 = m.1 := by simpa using heq
      exact hne hk.symm

end

end NamedTree
