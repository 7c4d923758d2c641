import CiRunner.Effects

/-!
# The form of a trampoline

Whatever the signature, well typed or not, the statements of a trampoline have one form
(`trampoline_form`).  They load the arguments in order, each from its slot, call the callee once,
with all of them, store the results in order, each to its slot, and return; and they are in SSA
form.  The form says which value goes where: a boolean argument is the comparison of what was loaded
from its slot with zero, a boolean result is stored as an integer, every other value as it is.

So a trampoline writes to the slots of its results and to nothing else (`trampoline_frame`).
Whatever the callee returns and does to the memory, it finds the memory as it was at the start, and
outside of these slots the memory stays as it leaves it.
-/

namespace CiRunner

open LittleEndian StraightLine

/-! ## Building code in this form -/

namespace Inst

/-- The values that an instruction uses. -/
def uses : Inst → List Value
  | .load _ ptr _ => [ptr]
  | .icmpImm _ x _ => [x]
  | .bextend _ x => [x]
  | .vconst _ _ => []
  | .icmp _ _ x y => [x, y]
  | .bint _ x => [x]
  | .callIndirect _ callee args => callee :: args
  | .store x ptr _ => [x, ptr]
  | .return_ rets => rets

end Inst

/-- The statements define the values from `n` on, and use only those that are there. -/
abbrev Ssa : ℕ → List Stmt → ℕ → Prop := Numbered Stmt.results fun s => s.inst.uses

namespace Symbolic

@[simp] lemma effects_define (s : Symbolic) (results : List Value) (ts : List Term) :
    (s.define results ts).effects = s.effects := rfl

@[simp] lemma effects_perform (s : Symbolic) (results : List Value) (n : ℕ) (e : Inst.Effect) :
    (s.perform results n e).effects = s.effects ++ [e] := rfl

@[simp] lemma env_define_one (s : Symbolic) (n : ℕ) (t : Term) : (s.define [n] [t]).env n = t := by
  simp [define]

@[simp] lemma env_perform_one (s : Symbolic) (n : ℕ) (e : Inst.Effect) :
    (s.perform [n] 1 e).env n = .outcome s.effects.length 0 := env_define_one s n _

/-- Consecutive results are what comes of the effect, in order. -/
lemma env_perform_range' (s : Symbolic) (n k : ℕ) (e : Inst.Effect) {i : ℕ} (hi : i < k) :
    (s.perform (List.range' n k) k e).env (n + i) = .outcome s.effects.length i := by
  let ts := (List.range k).map (Term.outcome s.effects.length)
  have hlength : ts.length = k := by simp [ts]
  have hterm : ts[i]? = some (.outcome s.effects.length i) := by simp [ts, hi]
  have hvalues := (foldl_update_range' id s.env n ts).2 i _ hterm
  rwa [hlength] at hvalues

lemma env_define_of_notMem {results : List Value} {x : Value} (hx : x ∉ results) (s : Symbolic)
    (ts : List Term) : (s.define results ts).env x = s.env x := by
  induction results generalizing s ts with
  | nil => rfl
  | cons r results ih =>
    cases ts with
    | nil => rfl
    | cons t ts =>
      rw [List.mem_cons, not_or] at hx
      have hone : (s.define [r] [t]).env x = s.env x := by
        simp [define, Function.update_of_ne hx.1]
      exact (ih hx.2 (s.define [r] [t]) ts).trans hone

lemma env_step_of_notMem (s : Symbolic) (stmt : Stmt) (x : Value) (hx : x ∉ stmt.results) :
    (s.step stmt).env x = s.env x := by
  obtain ⟨results, inst⟩ := stmt
  cases inst <;> exact env_define_of_notMem hx s _

end Symbolic

/-- When `n` is the next unused value, the code adds statements in SSA form, and `Q` holds of what
it returns, of the next unused value then, and of the symbolic state after the statements. -/
def Builds {α : Type} (m : Build α) (n : ℕ) (s : Symbolic) (Q : α → ℕ → Symbolic → Prop) : Prop :=
  ∃ a n' stmts, Adds m n a n' stmts ∧ Ssa n stmts n' ∧ Q a n' (s.run stmts)

namespace Builds

variable {α β : Type} {n : ℕ} {s : Symbolic}

lemma pure {a : α} {Q : α → ℕ → Symbolic → Prop} (h : Q a n s) : Builds (Pure.pure a) n s Q :=
  ⟨a, n, [], Adds.pure a n, Numbered.nil n, h⟩

/-- The values below `n` keep their terms. -/
lemma bind {m : Build α} {f : α → Build β} {Q : α → ℕ → Symbolic → Prop}
    {R : β → ℕ → Symbolic → Prop} (hm : Builds m n s Q)
    (hf : ∀ a n' s', n ≤ n' → (∀ x < n, s'.env x = s.env x) → Q a n' s' → Builds (f a) n' s' R) :
    Builds (m >>= f) n s R := by
  obtain ⟨a, n', as, has, hssa, hQ⟩ := hm
  have hframe := hssa.foldl_frame Symbolic.env_step_of_notMem s
  obtain ⟨b, n'', bs, hbs, hssa', hR⟩ := hf a n' (s.run as) hssa.le hframe hQ
  refine ⟨b, n'', as ++ bs, has.bind hbs, hssa.append hssa', ?_⟩
  rwa [Symbolic.run, List.foldl_append]

lemma mono {m : Build α} {Q R : α → ℕ → Symbolic → Prop} (h : Builds m n s Q)
    (hQR : ∀ a n' s', n ≤ n' → (∀ x < n, s'.env x = s.env x) → Q a n' s' → R a n' s') :
    Builds m n s R := by
  obtain ⟨a, n', stmts, hadds, hssa, hQ⟩ := h
  have hframe := hssa.foldl_frame Symbolic.env_step_of_notMem s
  exact ⟨a, n', stmts, hadds, hssa, hQR a n' (s.run stmts) hssa.le hframe hQ⟩

lemma emit {inst : Inst} (k : ℕ) (huses : ∀ x ∈ inst.uses, x < n) :
    Builds (CiRunner.emit k inst) n s fun xs n' s' =>
      List.range' n k = xs ∧ n' = n + k ∧ s' = s.step { results := List.range' n k, inst } :=
  ⟨_, _, _, Adds.emit k inst n, Numbered.one rfl huses, rfl, rfl, rfl⟩

lemma emit1 {inst : Inst} (huses : ∀ x ∈ inst.uses, x < n) :
    Builds (CiRunner.emit1 inst) n s fun x n' s' =>
      n = x ∧ n' = n + 1 ∧ s' = s.step { results := [n], inst } :=
  ⟨_, _, _, Adds.emit1 inst n, Numbered.one rfl huses, rfl, rfl, rfl⟩

end Builds

/-! ## The parts of a trampoline -/

/-- What loading the argument of index `i` does. -/
def loadEffect (param : AbiParam) (i : ℕ) : Inst.Effect :=
  .load param.valueType.coerceBoolsToInts (.param 1) (slotOffset i)

/-- The argument of index `i`, made of what the effect of this index loads. -/
def argumentTerm (param : AbiParam) (i : ℕ) : Term :=
  let ty := param.valueType
  let loaded := .outcome i 0
  if ty.isBool then
    let v := .icmpImm .notEqual loaded 0
    if ty.bits > 1 then .bextend ty v else v
  else if ty.isBoolVector then
    let zeroVec := .vconst ty.coerceBoolsToInts (List.replicate 16 0)
    .icmp .notEqual ty.coerceBoolsToInts loaded zeroVec
  else loaded

lemma builds_loadArgument {n : ℕ} {s : Symbolic} (hn : 1 < n) (hptr : s.env 1 = .param 1)
    (param : AbiParam) :
    Builds (loadArgument 1 param s.effects.length) n s fun x n' s' =>
      x < n' ∧ s'.effects = s.effects ++ [loadEffect param s.effects.length] ∧
        s'.env x = argumentTerm param s.effects.length := by
  unfold loadArgument argumentTerm
  refine (Builds.emit1 (by simpa [Inst.uses] using hn)).bind ?_
  rintro loaded n₁ s₁ - - ⟨rfl, rfl, hs₁⟩
  have heffects₁ : s₁.effects = s.effects ++ [loadEffect param s.effects.length] := by
    rw [hs₁, loadEffect, ← hptr]
    rfl
  have henv₁ : s₁.env n = .outcome s.effects.length 0 := by
    rw [hs₁]
    exact Symbolic.env_perform_one s n _
  by_cases hbool : param.valueType.isBool = true
  · simp only [hbool, if_true]
    refine (Builds.emit1 (by simp [Inst.uses])).bind ?_
    rintro v n₂ s₂ - - ⟨rfl, rfl, hs₂⟩
    have heffects₂ : s₂.effects = s₁.effects := by
      rw [hs₂]
      rfl
    have henv₂ : s₂.env (n + 1) = .icmpImm .notEqual (.outcome s.effects.length 0) 0 := by
      rw [hs₂, ← henv₁]
      exact Symbolic.env_define_one s₁ (n + 1) _
    by_cases hbits : param.valueType.bits > 1
    · simp only [hbits, if_true]
      refine (Builds.emit1 (by simp [Inst.uses])).mono ?_
      rintro w n₃ s₃ - - ⟨rfl, rfl, hs₃⟩
      refine ⟨Nat.lt_succ_self _, ?_, ?_⟩
      · rw [hs₃, ← heffects₁, ← heffects₂]
        rfl
      · rw [hs₃, ← henv₂]
        exact Symbolic.env_define_one s₂ (n + 1 + 1) _
    · simp only [hbits, if_false]
      exact Builds.pure ⟨Nat.lt_succ_self _, heffects₂.trans heffects₁, henv₂⟩
  · simp only [hbool, Bool.false_eq_true, if_false]
    by_cases hvector : param.valueType.isBoolVector = true
    · simp only [hvector, if_true]
      refine (Builds.emit1 (by simp [Inst.uses])).bind ?_
      rintro zeroVec n₂ s₂ - hframe₂ ⟨rfl, rfl, hs₂⟩
      have henv₂ : s₂.env n = .outcome s.effects.length 0 := by
        rw [hframe₂ n (Nat.lt_succ_self n), henv₁]
      refine (Builds.emit1 ?_).mono ?_
      · simp only [Inst.uses, List.forall_mem_cons, List.not_mem_nil, false_imp_iff, implies_true,
          and_true]
        exact ⟨Nat.lt_succ_of_lt (Nat.lt_succ_self n), Nat.lt_succ_self (n + 1)⟩
      · rintro w n₃ s₃ - - ⟨rfl, rfl, hs₃⟩
        refine ⟨Nat.lt_succ_self _, ?_, ?_⟩
        · rw [hs₃, ← heffects₁, Symbolic.step, Symbolic.effects_define, hs₂]
          rfl
        · have hzero : s₂.env (n + 1) = .vconst param.valueType.coerceBoolsToInts
              (List.replicate 16 0) := by
            rw [hs₂]
            exact Symbolic.env_define_one s₁ (n + 1) _
          rw [hs₃, ← hzero, ← henv₂]
          exact Symbolic.env_define_one s₂ (n + 1 + 1) _
    · simp only [hvector, Bool.false_eq_true, if_false]
      exact Builds.pure ⟨Nat.lt_succ_self n, heffects₁, henv₁⟩

lemma builds_loadArguments {n k : ℕ} {s : Symbolic} (hn : 1 < n) (hptr : s.env 1 = .param 1)
    (hk : s.effects.length = k) (params : List AbiParam) :
    Builds ((params.zipIdx k).mapM fun (param, i) => loadArgument 1 param i) n s fun xs n' s' =>
      (∀ x ∈ xs, x < n') ∧
        s'.effects = s.effects ++ (params.zipIdx k).map (fun p => loadEffect p.1 p.2) ∧
        xs.map s'.env = (params.zipIdx k).map fun p => argumentTerm p.1 p.2 := by
  induction params generalizing n s k with
  | nil => exact Builds.pure ⟨by simp, by simp, by simp⟩
  | cons param params ih =>
    subst hk
    rw [List.zipIdx_cons, List.mapM_cons]
    refine (builds_loadArgument hn hptr param).bind ?_
    rintro x n₁ s₁ hn₁ hframe₁ ⟨hx, heffects₁, hterm⟩
    have hptr₁ : s₁.env 1 = .param 1 := by rw [hframe₁ 1 hn, hptr]
    have hk₁ : s₁.effects.length = s.effects.length + 1 := by simp [heffects₁]
    refine (ih (by omega) hptr₁ hk₁).bind ?_
    rintro xs n₂ s₂ hn₂ hframe₂ ⟨hxs, heffects₂, hterms⟩
    have hterm₂ : s₂.env x = argumentTerm param s.effects.length := by rw [hframe₂ x hx, hterm]
    refine Builds.pure ⟨?_, ?_, ?_⟩
    · exact List.forall_mem_cons.mpr ⟨lt_of_lt_of_le hx hn₂, hxs⟩
    · rw [heffects₂, heffects₁, List.append_assoc, List.map_cons]
      rfl
    · rw [List.map_cons, List.map_cons, hterm₂, hterms]

/-- What is stored of the result of index `i` of the effect of index `k`. -/
def storedTerm (param : AbiParam) (k i : ℕ) : Term :=
  if param.valueType.laneType.isBool then
    .bint { laneType := param.valueType.laneType.boolToInt } (.outcome k i)
  else .outcome k i

def storeEffect (k : ℕ) (param : AbiParam) (i : ℕ) : Inst.Effect :=
  .store (storedTerm param k i) (.param 1) (slotOffset i)

lemma builds_storeResult {n x k i : ℕ} {s : Symbolic} (hn : 1 < n) (hptr : s.env 1 = .param 1)
    (hx : x < n) (hresult : s.env x = .outcome k i) (param : AbiParam) :
    Builds (storeResult 1 x param i) n s fun _ _ s' =>
      s'.effects = s.effects ++ [storeEffect k param i] := by
  have hstore {y n' : ℕ} {s' : Symbolic} (hn' : 1 < n') (hptr' : s'.env 1 = .param 1) (hy : y < n')
      (hterm : s'.env y = storedTerm param k i) :
      Builds (do let _ ← emit 0 (.store y 1 (slotOffset i))) n' s' fun _ _ s'' =>
        s''.effects = s'.effects ++ [storeEffect k param i] := by
    refine (Builds.emit 0 (by simp [Inst.uses, hy, hn'])).bind ?_
    rintro _ n'' s'' - - ⟨rfl, rfl, hs''⟩
    rw [storeEffect, ← hterm, ← hptr', hs'']
    exact Builds.pure rfl
  unfold storeResult
  by_cases hlane : param.valueType.laneType.isBool = true
  · simp only [hlane, if_true]
    refine (Builds.emit1 (by simpa [Inst.uses] using hx)).bind ?_
    rintro y n₁ s₁ - hframe₁ ⟨rfl, rfl, hs₁⟩
    have hterm : s₁.env n = storedTerm param k i := by
      rw [storedTerm, if_pos hlane, ← hresult, hs₁]
      exact Symbolic.env_define_one s n _
    have heffects₁ : s₁.effects = s.effects := by
      rw [hs₁]
      rfl
    rw [← heffects₁]
    exact hstore (by omega) ((hframe₁ 1 hn).trans hptr) (Nat.lt_succ_self n) hterm
  · simp only [hlane, Bool.false_eq_true, if_false]
    have hterm : s.env x = storedTerm param k i := by rw [storedTerm, if_neg hlane, hresult]
    exact Builds.bind (Builds.pure (Q := fun y n' s' => y = x ∧ n' = n ∧ s' = s) ⟨rfl, rfl, rfl⟩)
      (by rintro _ _ _ - - ⟨rfl, rfl, rfl⟩; exact hstore hn hptr hx hterm)

lemma builds_stores {k : ℕ} {l : List ((Value × ℕ) × AbiParam)} {n : ℕ} {s : Symbolic}
    (hn : 1 < n) (hptr : s.env 1 = .param 1)
    (hl : ∀ p ∈ l, p.1.1 < n ∧ s.env p.1.1 = .outcome k p.1.2) :
    Builds (l.forM fun ((value, i), param) => storeResult 1 value param i) n s fun _ _ s' =>
      s'.effects = s.effects ++ l.map fun p => storeEffect k p.2 p.1.2 := by
  induction l generalizing n s with
  | nil => exact Builds.pure (by simp)
  | cons p l ih =>
    obtain ⟨⟨x, i⟩, param⟩ := p
    rw [List.forall_mem_cons] at hl
    refine (builds_storeResult hn hptr hl.1.1 hl.1.2 param).bind ?_
    rintro _ n₁ s₁ hn₁ hframe₁ heffects₁
    refine (ih (by omega) ((hframe₁ 1 hn).trans hptr) fun p hp => ?_).mono ?_
    · obtain ⟨hp₁, hp₂⟩ := hl.2 p hp
      exact ⟨lt_of_lt_of_le hp₁ hn₁, by rw [hframe₁ _ hp₁, hp₂]⟩
    · rintro _ n₂ s₂ - - heffects₂
      rw [heffects₂, heffects₁, List.append_assoc]
      rfl

/-! ## The whole trampoline -/

/-- What a trampoline does, in order. -/
def trampolineEffects (signature : Signature) : List Inst.Effect :=
  (signature.params.zipIdx.map fun p => loadEffect p.1 p.2) ++
    .callIndirect signature (.param 0)
      (signature.params.zipIdx.map fun p => argumentTerm p.1 p.2) ::
      ((signature.returns.zipIdx.map fun p => storeEffect signature.params.length p.1 p.2) ++
        [.return_ []])

/-- The results of the call, each with its index and its declaration. -/
lemma zip_results (x : ℕ) (returns : List AbiParam) :
    ((List.range' x returns.length).zipIdx.zip returns).map (fun p => (p.2, p.1.2)) =
      returns.zipIdx := by
  rw [List.ext_getElem_iff]
  simp

lemma builds_trampoline (signature : Signature) :
    Builds (do
      let calleeArgs ← loadArguments 1 signature.params
      let results ← emit signature.returns.length (.callIndirect signature 0 calleeArgs)
      storeResults 1 results signature.returns
      let _ ← emit 0 (.return_ [])) 2 Symbolic.entry fun _ _ s =>
        s.effects = trampolineEffects signature := by
  refine (builds_loadArguments (s := .entry) (k := 0) Nat.one_lt_two rfl rfl
    signature.params).bind ?_
  rintro args n₁ s₁ hn₁ hframe₁ ⟨hargs, heffects₁, hterms⟩
  have hcallee : 0 < n₁ := by omega
  have huses : ∀ x ∈ (Inst.callIndirect signature 0 args).uses, x < n₁ :=
    List.forall_mem_cons.mpr ⟨hcallee, hargs⟩
  refine (Builds.emit _ huses).bind ?_
  rintro results n₂ s₂ - hframe₂ ⟨rfl, rfl, hs₂⟩
  have hptr₂ : s₂.env 1 = .param 1 := by rw [hframe₂ 1 (by omega), hframe₁ 1 (by omega)]; rfl
  have hresults : ∀ i < signature.returns.length,
      s₂.env (n₁ + i) = .outcome signature.params.length i := by
    intro i hi
    have hlength : s₁.effects.length = signature.params.length := by
      rw [heffects₁]
      simp [Symbolic.entry]
    rw [hs₂, ← hlength, Symbolic.step]
    simp only [List.length_range']
    exact Symbolic.env_perform_range' s₁ n₁ _ _ hi
  have hpairs : ∀ p ∈ (List.range' n₁ signature.returns.length).zipIdx.zip signature.returns,
      p.1.1 < n₁ + signature.returns.length ∧
        s₂.env p.1.1 = .outcome signature.params.length p.1.2 := by
    intro p hp
    obtain ⟨i, hi, rfl⟩ := List.mem_iff_getElem.mp hp
    have hi' : i < signature.returns.length := by
      simp only [List.length_zip, List.length_zipIdx, List.length_range'] at hi
      omega
    have hpair := hresults i hi'
    simp only [List.getElem_zip, List.getElem_zipIdx, List.getElem_range', Nat.one_mul,
      Nat.zero_add]
    exact ⟨Nat.add_lt_add_left hi' n₁, hpair⟩
  refine (builds_stores (by omega) hptr₂ hpairs).bind ?_
  rintro ⟨⟩ n₃ s₃ - - heffects₃
  refine (Builds.emit 0 (by simp [Inst.uses])).bind ?_
  rintro _ n₄ s₄ - - ⟨rfl, rfl, hs₄⟩
  have hcall : s₂.effects = s₁.effects ++ [.callIndirect signature (.param 0)
      (signature.params.zipIdx.map fun p => argumentTerm p.1 p.2)] := by
    have htarget : s₁.env 0 = .param 0 := hframe₁ 0 (by omega)
    rw [hs₂, ← hterms, ← htarget]
    rfl
  have hstores : s₃.effects = s₂.effects ++
      signature.returns.zipIdx.map fun p => storeEffect signature.params.length p.1 p.2 := by
    rw [heffects₃, ← zip_results n₁ signature.returns, List.map_map]
    rfl
  have hreturn : s₄.effects = s₃.effects ++ [.return_ []] := by
    rw [hs₄]
    rfl
  refine Builds.pure ?_
  rw [hreturn, hstores, hcall, heffects₁, trampolineEffects, List.append_assoc, List.append_assoc,
    List.append_assoc]
  rfl

/-- A trampoline is numbered from its two parameters on, and has its effects. -/
lemma ssa_trampolineStmts (signature : Signature) :
    ∃ n, Ssa 2 (trampolineStmts signature) n ∧
      effects (trampolineStmts signature) = trampolineEffects signature := by
  obtain ⟨_, n, stmts, hadds, hssa, heffects⟩ := builds_trampoline signature
  have htrampoline : trampolineStmts signature = stmts :=
    (congrArg (fun p => p.2.stmts) (hadds [])).trans (List.nil_append stmts)
  exact ⟨n, by rwa [htrampoline], by rwa [htrampoline]⟩

lemma DataValue.length_toLeBytes_le (v : DataValue) : v.toLeBytes.length ≤ 16 := by
  cases v <;> simp [DataValue.toLeBytes]

/-- The slots of the results are the only addresses a trampoline may write. -/
def Unwritten (area returns : ℕ) (mem mem' : Mem) : Prop :=
  ∀ x, x < area ∨ area + 16 * returns ≤ x → mem' x = mem x

lemma Unwritten.write {area returns i : ℕ} {mem mem' : Mem} {bs : List UInt8}
    (h : Unwritten area returns mem mem') (hi : i < returns) (hbs : bs.length ≤ 16) :
    Unwritten area returns mem (LittleEndian.write mem' (area + 16 * i) bs) := by
  intro x hx
  rw [← h x hx]
  rcases hx with hx | hx
  · exact write_of_lt (by omega)
  · exact write_of_le (by omega)

section
variable {callee : Callee} {params : Value → Option DataValue}

/-- Loads leave the memory alone. -/
lemma mem_of_loads {l : List (AbiParam × ℕ)} {d d' : Done}
    (hrun : StraightLine.run (Inst.Effect.exec callee params)
      (l.map fun p => loadEffect p.1 p.2) d = some d') :
    d'.2 = d.2 := by
  refine run_invariant (I := fun t : Done => t.2 = d.2) (fun e he t t' ht hmem => ?_) hrun rfl
  obtain ⟨p, -, rfl⟩ := List.mem_map.mp he
  simp only [Inst.Effect.exec, loadEffect, Option.bind_eq_bind, Option.bind_eq_some_iff,
    Option.pure_def, Option.some.injEq] at ht
  obtain ⟨_, -, _, -, _, -, rfl⟩ := ht
  exact hmem

/-- Stores write to the slots of the results. -/
lemma unwritten_of_stores {area k : ℕ} {returns : List AbiParam}
    (hptr : params 1 = some (.i64 (BitVec.ofNat 64 area))) (hreturns : returns.length ≤ 2 ^ 27)
    (harea : area + 16 * returns.length ≤ 2 ^ 64) {d d' : Done}
    (hrun : StraightLine.run (Inst.Effect.exec callee params)
      (returns.zipIdx.map fun p => storeEffect k p.1 p.2) d = some d') :
    Unwritten area returns.length d.2 d'.2 := by
  refine run_invariant (I := fun t : Done => Unwritten area returns.length d.2 t.2)
    (fun e he t t' ht hmem => ?_) hrun fun _ _ => rfl
  obtain ⟨⟨param, i⟩, hp, rfl⟩ := List.mem_map.mp he
  have hi : i < returns.length := by simpa using (List.mem_zipIdx hp).2.1
  simp only [Inst.Effect.exec, storeEffect, Option.bind_eq_bind, Option.bind_eq_some_iff,
    Option.pure_def, Option.some.injEq] at ht
  obtain ⟨v, -, p, hp, a, ha, rfl⟩ := ht
  obtain rfl : DataValue.i64 (BitVec.ofNat 64 area) = p := Option.some.inj (hptr.symm.trans hp)
  rw [DataValue.address_slot (by omega) (by omega)] at ha
  obtain rfl : area + 16 * i = a := Option.some.inj ha
  exact hmem.write hi v.length_toLeBytes_le

/-- **The frame of a trampoline.**  It calls the callee once, with the memory as it was at the
start, and to the memory that the callee leaves it writes nothing but the slots of the results. -/
theorem trampoline_frame {signature : Signature} {funcAddr area : ℕ} {mem : Mem} {fr' : Frame}
    (hexec : execStmts callee (trampolineStmts signature) (Frame.entry funcAddr area mem) =
      some fr')
    (hreturns : signature.returns.length ≤ 2 ^ 27)
    (harea : area + 16 * signature.returns.length ≤ 2 ^ 64) :
    ∃ args rets mem', callee (BitVec.ofNat 64 funcAddr) args mem = some (rets, mem') ∧
      ∀ x, x < area ∨ area + 16 * signature.returns.length ≤ x → fr'.mem x = mem' x := by
  obtain ⟨outcomes, hrun⟩ := exec_effects hexec
  obtain ⟨-, -, heffects⟩ := ssa_trampolineStmts signature
  rw [heffects, trampolineEffects, run_append] at hrun
  obtain ⟨⟨outs₁, mem₁⟩, hloads, hrun⟩ := Option.bind_eq_some_iff.mp hrun
  obtain ⟨⟨outs₂, mem₂⟩, hcall, hrun⟩ := Option.bind_eq_some_iff.mp hrun
  rw [run_append] at hrun
  obtain ⟨⟨outs₃, mem₃⟩, hstores, hreturn⟩ := Option.bind_eq_some_iff.mp hrun
  have hmem₁ : mem₁ = mem := mem_of_loads hloads
  have hslots := unwritten_of_stores rfl hreturns harea hstores
  obtain ⟨-, rfl⟩ : outs₃ ++ [[]] = outcomes ∧ mem₃ = fr'.mem := by
    simpa [StraightLine.run, Inst.Effect.exec] using hreturn
  simp only [Inst.Effect.exec, Term.eval, Option.bind_eq_bind, Option.bind_eq_some_iff,
    Option.pure_def, Option.some.injEq, Prod.mk.injEq] at hcall
  obtain ⟨args, -, target, htarget, ⟨rets, mem'⟩, hcallee, -, rfl⟩ := hcall
  obtain rfl : DataValue.i64 (BitVec.ofNat 64 funcAddr) = target := Option.some.inj htarget
  rw [← hmem₁]
  exact ⟨args, rets, mem', hcallee, hslots⟩

/-- A callee that returns a whole vector where a byte is declared, and writes elsewhere. -/
def vectorCallee : Callee := fun _ _ mem =>
  some ([.v128 (BitVec.allOnes 128)], write mem 40 [3])

def Signature.byteResult : Signature where
  params := []
  returns := [{ valueType := { laneType := .i8 } }]
  callConv := .systemV

end

/-- The vector fills the slot of the byte.  What lies behind is as it was, and what the callee wrote
in front is there. -/
theorem trampoline_frame_vector :
    ∃ fr', execStmts vectorCallee (trampolineStmts Signature.byteResult)
        (Frame.entry 50 100 fun _ => 7) = some fr' ∧
      fr'.mem 115 = 255 ∧ fr'.mem 116 = 7 ∧ fr'.mem 40 = 3 := by
  refine ⟨_, rfl, by decide, ?_⟩
  obtain ⟨_, _, mem', hcallee, hmem⟩ :=
    @trampoline_frame vectorCallee Signature.byteResult 50 100 (fun _ => 7) _ rfl (by decide)
      (by decide)
  obtain rfl : write (fun _ => 7) 40 [3] = mem' := (Prod.mk.inj (Option.some.inj hcallee)).2
  exact ⟨hmem 116 (by decide), hmem 40 (by decide)⟩

end CiRunner
