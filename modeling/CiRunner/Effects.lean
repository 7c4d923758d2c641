import CiRunner.Library.StraightLine
import CiRunner.Trampoline

/-!
# The effects of statements

Statements compute values and do something: they load, call, store and return.  Executing them
symbolically separates the two.  A value becomes a `Term`, over the parameters of the block and over
what came of the effects before it, and what is left of the statements is the list of their
`effects`, with terms for operands.

Nothing is lost: executing statements is executing their effects (`exec_effects`).
-/

namespace CiRunner

open LittleEndian StraightLine

/-! ## Terms and effects -/

/-- What a value is: a parameter, what came of an effect, or made of other values. -/
inductive Term
  | param (x : Value)
  | outcome (effect result : ℕ)
  | icmpImm (cond : IntCC) (x : Term) (imm : ℤ)
  | bextend (ty : IrType) (x : Term)
  | vconst (ty : IrType) (constant : List UInt8)
  | icmp (cond : IntCC) (ctrl : IrType) (x y : Term)
  | bint (ty : IrType) (x : Term)
  deriving DecidableEq, Repr

/-- The value of a term. -/
def Term.eval (params : Value → Option DataValue) (outcomes : List (List DataValue)) :
    Term → Option DataValue
  | .param x => params x
  | .outcome k i => do (← outcomes[k]?)[i]?
  | .icmpImm .notEqual x imm => do (← x.eval params outcomes).icmpImm imm
  | .bextend _ x => do (← x.eval params outcomes).bextend
  | .vconst ty constant => DataValue.ofLeBytes ty constant
  | .icmp .notEqual ctrl x y => do
    DataValue.icmp ctrl (← x.eval params outcomes) (← y.eval params outcomes)
  | .bint ty x => do (← x.eval params outcomes).bint ty

/-- What an instruction does besides making a value of others. -/
inductive Inst.Effect
  | load (ty : IrType) (ptr : Term) (offset : ℤ)
  | callIndirect (sig : Signature) (callee : Term) (args : List Term)
  | store (x ptr : Term) (offset : ℤ)
  | return_ (rets : List Term)
  deriving DecidableEq, Repr

/-- What came of the effects so far, and the memory. -/
abbrev Done := List (List DataValue) × Mem

/-- Bring about an effect. -/
def Inst.Effect.exec (callee : Callee) (params : Value → Option DataValue) (e : Inst.Effect)
    (d : Done) : Option Done :=
  let value := Term.eval params d.1
  match e with
  | .load ty ptr offset => do
    let a ← (← value ptr).address offset
    let v ← DataValue.ofLeBytes ty (read d.2 a ty.bytes)
    return (d.1 ++ [[v]], d.2)
  | .callIndirect _ target args => do
    let vs ← args.mapM value
    let (rets, mem) ← callee.call (← value target) vs d.2
    return (d.1 ++ [rets], mem)
  | .store x ptr offset => do
    let v ← value x
    let a ← (← value ptr).address offset
    return (d.1 ++ [[]], write d.2 a v.toLeBytes)
  | .return_ _ => some (d.1 ++ [[]], d.2)

/-! ## Symbolic execution -/

/-- The effects of the statements so far, and what the values are. -/
structure Symbolic where
  effects : List Inst.Effect
  env : Value → Term

namespace Symbolic

def entry : Symbolic where
  effects := []
  env := .param

/-- Define the results of an instruction. -/
def define (s : Symbolic) (results : List Value) (ts : List Term) : Symbolic :=
  let bind := fun (m : Value → Term) (p : Value × Term) => Function.update m p.1 p.2
  { s with env := (results.zip ts).foldl bind s.env }

/-- Add an effect of which `n` values come, the results of the instruction. -/
def perform (s : Symbolic) (results : List Value) (n : ℕ) (e : Inst.Effect) : Symbolic :=
  let ts := (List.range n).map (Term.outcome s.effects.length)
  { effects := s.effects ++ [e], env := (s.define results ts).env }

/-- Execute one statement. -/
def step (s : Symbolic) (stmt : Stmt) : Symbolic :=
  match stmt.inst with
  | .load ty ptr offset => s.perform stmt.results 1 (.load ty (s.env ptr) offset)
  | .icmpImm cond x imm => s.define stmt.results [.icmpImm cond (s.env x) imm]
  | .bextend ty x => s.define stmt.results [.bextend ty (s.env x)]
  | .vconst ty constant => s.define stmt.results [.vconst ty constant]
  | .icmp cond ctrl x y => s.define stmt.results [.icmp cond ctrl (s.env x) (s.env y)]
  | .bint ty x => s.define stmt.results [.bint ty (s.env x)]
  | .callIndirect sig target args =>
    s.perform stmt.results stmt.results.length
      (.callIndirect sig (s.env target) (args.map s.env))
  | .store x ptr offset => s.perform stmt.results 0 (.store (s.env x) (s.env ptr) offset)
  | .return_ rets => s.perform stmt.results 0 (.return_ (rets.map s.env))

def run (s : Symbolic) (stmts : List Stmt) : Symbolic := stmts.foldl step s

end Symbolic

/-- The effects of statements, in order. -/
def effects (stmts : List Stmt) : List Inst.Effect := (Symbolic.entry.run stmts).effects

/-! ## Executing statements is executing their effects -/

lemma Term.eval_append {params : Value → Option DataValue} {outcomes : List (List DataValue)}
    (more : List (List DataValue)) {t : Term} {v : DataValue}
    (h : t.eval params outcomes = some v) : t.eval params (outcomes ++ more) = some v := by
  induction t generalizing v with
  | param x => exact h
  | outcome k i =>
    obtain ⟨out, hout, hv⟩ := Option.bind_eq_some_iff.mp h
    have hlt := (List.getElem?_eq_some_iff.mp hout).1
    rw [Term.eval, List.getElem?_append_left hlt]
    exact h
  | icmpImm cond x imm ih =>
    cases cond
    obtain ⟨w, hw, hv⟩ := Option.bind_eq_some_iff.mp h
    exact Option.bind_eq_some_iff.mpr ⟨w, ih hw, hv⟩
  | bextend ty x ih =>
    obtain ⟨w, hw, hv⟩ := Option.bind_eq_some_iff.mp h
    exact Option.bind_eq_some_iff.mpr ⟨w, ih hw, hv⟩
  | vconst ty constant => exact h
  | icmp cond ctrl x y ihx ihy =>
    cases cond
    obtain ⟨w, hw, h⟩ := Option.bind_eq_some_iff.mp h
    obtain ⟨z, hz, hv⟩ := Option.bind_eq_some_iff.mp h
    exact Option.bind_eq_some_iff.mpr
      ⟨w, ihx hw, Option.bind_eq_some_iff.mpr ⟨z, ihy hz, hv⟩⟩
  | bint ty x ih =>
    obtain ⟨w, hw, hv⟩ := Option.bind_eq_some_iff.mp h
    exact Option.bind_eq_some_iff.mpr ⟨w, ih hw, hv⟩

section
variable {callee : Callee} {params : Value → Option DataValue}

/-- What is known of the values is what their terms say. -/
def Agree (params : Value → Option DataValue) (outcomes : List (List DataValue)) (fr : Frame)
    (s : Symbolic) : Prop :=
  ∀ x v, fr.values x = some v → (s.env x).eval params outcomes = some v

/-- A term has the value. -/
abbrev Evals (params : Value → Option DataValue) (outcomes : List (List DataValue)) (v : DataValue)
    (t : Term) : Prop :=
  t.eval params outcomes = some v

lemma Agree.define {outcomes : List (List DataValue)} {vs : List DataValue} {ts : List Term}
    (hvs : List.Forall₂ (Evals params outcomes) vs ts) {fr : Frame} {s : Symbolic}
    (h : Agree params outcomes fr s) (results : List Value) :
    Agree params outcomes (fr.define results vs) (s.define results ts) := by
  induction hvs generalizing fr s results with
  | nil =>
    intro x v hv
    rw [Frame.define, List.zip_nil_right] at hv
    rw [Symbolic.define, List.zip_nil_right]
    exact h x v hv
  | @cons w t vs ts hw _ ih =>
    cases results with
    | nil => exact h
    | cons r results =>
      have hone : Agree params outcomes (fr.define [r] [w]) (s.define [r] [t]) := by
        intro x v hv
        by_cases hx : x = r
        · subst hx
          simp only [Frame.define, List.zip_cons_cons, List.zip_nil_left, List.foldl_cons,
            List.foldl_nil, Function.update_self, Option.some.injEq] at hv
          simp only [Symbolic.define, List.zip_cons_cons, List.zip_nil_left, List.foldl_cons,
            List.foldl_nil, Function.update_self]
          exact hv ▸ hw
        · simp only [Frame.define, List.zip_cons_cons, List.zip_nil_left, List.foldl_cons,
            List.foldl_nil, Function.update_of_ne hx] at hv
          simp only [Symbolic.define, List.zip_cons_cons, List.zip_nil_left, List.foldl_cons,
            List.foldl_nil, Function.update_of_ne hx]
          exact h x v hv
      exact ih hone results

lemma Agree.mapM {outcomes : List (List DataValue)} {fr : Frame} {s : Symbolic}
    (h : Agree params outcomes fr s) {xs : List Value} {vs : List DataValue}
    (hxs : xs.mapM fr.values = some vs) :
    (xs.map s.env).mapM (Term.eval params outcomes) = some vs := by
  induction xs generalizing vs with
  | nil => exact hxs
  | cons x xs ih =>
    simp only [List.mapM_cons, Option.bind_eq_bind, Option.bind_eq_some_iff, Option.pure_def,
      Option.some.injEq] at hxs
    obtain ⟨v, hv, ws, hws, rfl⟩ := hxs
    rw [List.map_cons, List.mapM_cons, h x v hv, ih hws]
    rfl

/-- The effects so far lead from the memory `mem` to that of the frame, and the values are what
their terms say. -/
def Accounts (callee : Callee) (params : Value → Option DataValue) (mem : Mem) (fr : Frame)
    (s : Symbolic) : Prop :=
  ∃ outcomes,
    StraightLine.run (Inst.Effect.exec callee params) s.effects ([], mem) =
      some (outcomes, fr.mem) ∧
    outcomes.length = s.effects.length ∧ Agree params outcomes fr s

namespace Accounts

variable {mem : Mem} {fr : Frame} {s : Symbolic}

/-- A statement that makes a value of others. -/
lemma define {outcomes : List (List DataValue)} {v : DataValue} {t : Term}
    (hrun : StraightLine.run (Inst.Effect.exec callee params) s.effects ([], mem) =
      some (outcomes, fr.mem))
    (hlength : outcomes.length = s.effects.length) (hagree : Agree params outcomes fr s)
    (ht : t.eval params outcomes = some v) (results : List Value) :
    Accounts callee params mem (fr.define results [v]) (s.define results [t]) :=
  ⟨outcomes, hrun, hlength, hagree.define (.cons ht .nil) results⟩

/-- A statement that has an effect. -/
lemma perform {outcomes : List (List DataValue)} {rets : List DataValue} {mem' : Mem}
    {e : Inst.Effect} {n : ℕ}
    (hrun : StraightLine.run (Inst.Effect.exec callee params) s.effects ([], mem) =
      some (outcomes, fr.mem))
    (hlength : outcomes.length = s.effects.length) (hagree : Agree params outcomes fr s)
    (he : e.exec callee params (outcomes, fr.mem) = some (outcomes ++ [rets], mem'))
    (hrets : rets.length = n) (results : List Value) :
    Accounts callee params mem (Frame.define { fr with mem := mem' } results rets)
      (s.perform results n e) := by
  refine ⟨outcomes ++ [rets], ?_, ?_, ?_⟩
  · rw [Symbolic.perform, run_append, hrun, Option.bind_some, StraightLine.run, he]
    rfl
  · simp [Symbolic.perform, hlength]
  · have hagree' : Agree params (outcomes ++ [rets]) { fr with mem := mem' } s :=
      fun x v hv => Term.eval_append [rets] (hagree x v hv)
    refine Agree.define ?_ hagree' results
    rw [List.forall₂_iff_get]
    refine ⟨by simp [hrets], fun i hi _ => ?_⟩
    have hlast : (outcomes ++ [rets])[s.effects.length]? = some rets := by
      rw [← hlength, List.getElem?_concat_length]
    simp [Evals, Term.eval, hlast, List.getElem?_eq_getElem hi]

end Accounts

lemma Frame.define_nil (fr : Frame) (results : List Value) : fr.define results [] = fr := by
  rw [Frame.define, List.zip_nil_right]
  rfl

lemma execStmts_eq_run (stmts : List Stmt) (fr : Frame) : execStmts callee stmts fr =
    StraightLine.run (fun s fr => s.inst.exec callee fr s.results) stmts fr := by
  induction stmts generalizing fr with
  | nil => rfl
  | cons s stmts ih =>
    rw [execStmts, StraightLine.run]
    exact congrArg _ (funext ih)

/-- A pointer that is known has a term, which gives the same address. -/
lemma Agree.address {outcomes : List (List DataValue)} {fr : Frame} {s : Symbolic}
    (h : Agree params outcomes fr s) {ptr : Value} {offset : ℤ} {a : ℕ}
    (ha : fr.address ptr offset = some a) :
    ∃ p, (s.env ptr).eval params outcomes = some p ∧ p.address offset = some a := by
  obtain ⟨p, hp, ha⟩ := Option.bind_eq_some_iff.mp ha
  exact ⟨p, h ptr p hp, ha⟩

/-- **One statement** is accounted for by its effect, or by the term of its result. -/
lemma accounts_step {mem : Mem} {fr fr' : Frame} {s : Symbolic} {stmt : Stmt}
    (hexec : stmt.inst.exec callee fr stmt.results = some fr')
    (h : Accounts callee params mem fr s) : Accounts callee params mem fr' (s.step stmt) := by
  obtain ⟨outcomes, hrun, hlength, hagree⟩ := h
  obtain ⟨results, inst⟩ := stmt
  cases inst with
  | load ty ptr offset =>
    simp only [Inst.exec, Option.bind_eq_bind, Option.bind_eq_some_iff, Option.pure_def,
      Option.some.injEq] at hexec
    obtain ⟨a, ha, v, hv, rfl⟩ := hexec
    obtain ⟨p, hp, ha⟩ := hagree.address ha
    refine Accounts.perform hrun hlength hagree ?_ rfl results
    simp [Inst.Effect.exec, hp, ha, hv]
  | icmpImm cond x imm =>
    cases cond
    simp only [Inst.exec, Option.bind_eq_bind, Option.bind_eq_some_iff, Option.pure_def,
      Option.some.injEq] at hexec
    obtain ⟨w, hw, v, hv, rfl⟩ := hexec
    refine Accounts.define hrun hlength hagree ?_ results
    simp [Term.eval, hagree x w hw, hv]
  | bextend ty x =>
    simp only [Inst.exec, Option.bind_eq_bind, Option.bind_eq_some_iff, Option.pure_def,
      Option.some.injEq] at hexec
    obtain ⟨w, hw, v, hv, rfl⟩ := hexec
    refine Accounts.define hrun hlength hagree ?_ results
    simp [Term.eval, hagree x w hw, hv]
  | vconst ty constant =>
    simp only [Inst.exec, Option.bind_eq_bind, Option.bind_eq_some_iff, Option.pure_def,
      Option.some.injEq] at hexec
    obtain ⟨v, hv, rfl⟩ := hexec
    refine Accounts.define hrun hlength hagree ?_ results
    simp [Term.eval, hv]
  | icmp cond ctrl x y =>
    cases cond
    simp only [Inst.exec, Option.bind_eq_bind, Option.bind_eq_some_iff, Option.pure_def,
      Option.some.injEq] at hexec
    obtain ⟨w, hw, z, hz, v, hv, rfl⟩ := hexec
    refine Accounts.define hrun hlength hagree ?_ results
    simp [Term.eval, hagree x w hw, hagree y z hz, hv]
  | bint ty x =>
    simp only [Inst.exec, Option.bind_eq_bind, Option.bind_eq_some_iff, Option.pure_def,
      Option.some.injEq] at hexec
    obtain ⟨w, hw, v, hv, rfl⟩ := hexec
    refine Accounts.define hrun hlength hagree ?_ results
    simp [Term.eval, hagree x w hw, hv]
  | callIndirect sig target args =>
    simp only [Inst.exec, Option.bind_eq_bind, Option.bind_eq_some_iff, Option.pure_def,
      Option.some.injEq] at hexec
    obtain ⟨vs, hvs, w, hw, ⟨rets, mem'⟩, hcall, _, hguard, rfl⟩ := hexec
    have hrets : rets.length = results.length := by
      by_contra hne
      simp [guard, hne] at hguard
    refine Accounts.perform hrun hlength hagree ?_ hrets results
    simp [Inst.Effect.exec, hagree.mapM hvs, hagree target w hw, hcall]
  | store x ptr offset =>
    simp only [Inst.exec, Option.bind_eq_bind, Option.bind_eq_some_iff, Option.pure_def,
      Option.some.injEq] at hexec
    obtain ⟨v, hv, a, ha, rfl⟩ := hexec
    obtain ⟨p, hp, ha⟩ := hagree.address ha
    rw [← Frame.define_nil { fr with mem := write fr.mem a v.toLeBytes } results]
    refine Accounts.perform hrun hlength hagree ?_ rfl results
    simp [Inst.Effect.exec, hagree x v hv, hp, ha]
  | return_ rets =>
    obtain rfl : fr = fr' := Option.some.inj hexec
    rw [← Frame.define_nil fr results]
    exact Accounts.perform hrun hlength hagree rfl rfl results

/-- **Executing statements is executing their effects.** -/
theorem exec_effects {stmts : List Stmt} {fr fr' : Frame}
    (h : execStmts callee stmts fr = some fr') :
    ∃ outcomes, StraightLine.run (Inst.Effect.exec callee fr.values) (effects stmts) ([], fr.mem) =
      some (outcomes, fr'.mem) := by
  rw [execStmts_eq_run] at h
  have hstep : ∀ (i : Stmt) (fr₁ fr₂ : Frame) (s : Symbolic),
      i.inst.exec callee fr₁ i.results = some fr₂ → Accounts callee fr.values fr.mem fr₁ s →
        Accounts callee fr.values fr.mem fr₂ (s.step i) := fun _ _ _ _ => accounts_step
  have hentry : Accounts callee fr.values fr.mem fr Symbolic.entry :=
    ⟨[], rfl, rfl, fun _ _ hv => hv⟩
  obtain ⟨outcomes, hrun, -⟩ := run_simulates hstep h hentry
  exact ⟨outcomes, hrun⟩

end

end CiRunner
