import Mathlib.Data.List.Infix
import Mathlib.Tactic.Common

/-!
# Playing a list of steps up to the first failure

A *step* is a stateful computation that either succeeds or fails with a fault, and keeps the
state it reached either way (`EStateM`).  `play` runs a list of steps in order and stops right
after the first one that fails; it returns the steps that were executed together with the
result, so that the executed steps are the trace of the run.

The laws are those a client needs to reason about such a run without looking at its steps
again: runs compose (`play_append_of_ok`, `play_append_of_error`), the trace is a prefix that
is complete exactly on success and ends in the failing step otherwise (`executed_initial`,
`executed_of_ok`, `exists_of_error`), every traced step was reached by a successful run of the
steps before it (`exists_reached`), what every step keeps the run keeps (`play_invariant`), and
two kinds of steps that simulate each other make the same runs (`play_simulates`).
-/

namespace Replay

variable {ε φ σ α : Type}

/-- The state a computation ended in, on success and on failure. -/
def finalState : EStateM.Result φ σ α → σ
  | .ok _ s => s
  | .error _ s => s

/-- The fault a computation failed with, if it failed. -/
def fault? : EStateM.Result φ σ α → Option φ
  | .ok _ _ => none
  | .error f _ => some f

@[simp] lemma finalState_error (f : φ) (s : σ) :
    finalState (.error f s : EStateM.Result φ σ α) = s := rfl

@[simp] lemma fault?_ok (a : α) (s : σ) :
    fault? (.ok a s : EStateM.Result φ σ α) = none := rfl

@[simp] lemma fault?_error (f : φ) (s : σ) :
    fault? (.error f s : EStateM.Result φ σ α) = some f := rfl

/-! ## Binding -/

@[simp] lemma run_get (s : σ) : (get : EStateM φ σ σ).run s = .ok s s := rfl

@[simp] lemma run_set (s s' : σ) : (set s' : EStateM φ σ PUnit).run s = .ok ⟨⟩ s' := rfl

lemma bind_of_ok {β : Type} {x : EStateM φ σ α} {f : α → EStateM φ σ β} {s s' : σ} {a : α}
    (h : x.run s = .ok a s') : (x >>= f).run s = (f a).run s' := by
  simp only [EStateM.run] at h ⊢
  simp [bind, EStateM.bind, h]

lemma bind_of_error {β : Type} {x : EStateM φ σ α} {f : α → EStateM φ σ β} {s s' : σ} {e : φ}
    (h : x.run s = .error e s') : (x >>= f).run s = .error e s' := by
  simp only [EStateM.run] at h ⊢
  simp [bind, EStateM.bind, h]

/-! ## Playing steps -/

variable (step : ε → EStateM φ σ Unit)

/-- Run the steps in order from `s`, up to and including the first that fails.  The first
component lists the steps that were executed. -/
def play : List ε → σ → List ε × EStateM.Result φ σ Unit
  | [], s => ([], .ok () s)
  | e :: es, s =>
    match (step e).run s with
    | .ok _ s' => (e :: (play es s').1, (play es s').2)
    | .error f s' => ([e], .error f s')

@[simp] lemma play_nil (s : σ) : play step [] s = ([], .ok () s) := rfl

variable {step}

lemma play_cons_of_ok {e : ε} {es : List ε} {s s' : σ} (h : (step e).run s = .ok () s') :
    play step (e :: es) s = (e :: (play step es s').1, (play step es s').2) := by
  simp [play, h]

lemma play_cons_of_error {e : ε} {es : List ε} {s s' : σ} {f : φ}
    (h : (step e).run s = .error f s') :
    play step (e :: es) s = ([e], .error f s') := by
  simp [play, h]

variable (step) in
/-- A step either succeeds or fails. -/
lemma step_cases (e : ε) (s : σ) :
    (∃ s', (step e).run s = .ok () s') ∨ ∃ f s', (step e).run s = .error f s' := by
  cases h : (step e).run s with
  | ok a s' => exact Or.inl ⟨s', rfl⟩
  | error f s' => exact Or.inr ⟨f, s', rfl⟩

/-- A successful run executed all its steps. -/
lemma executed_of_ok {es : List ε} {s s' : σ} (h : (play step es s).2 = .ok () s') :
    (play step es s).1 = es := by
  induction es generalizing s with
  | nil => rfl
  | cons e es ih =>
    rcases step_cases step e s with ⟨t, ht⟩ | ⟨f, t, ht⟩
    · rw [play_cons_of_ok ht] at h ⊢
      rw [ih h]
    · rw [play_cons_of_error ht] at h
      cases h

lemma play_eq_of_ok {es : List ε} {s s' : σ} (h : (play step es s).2 = .ok () s') :
    play step es s = (es, .ok () s') :=
  Prod.ext (executed_of_ok h) h

/-- After a successful run of `as` the run of `as ++ bs` goes on with `bs`. -/
lemma play_append_of_ok {as bs : List ε} {s s' : σ} (h : (play step as s).2 = .ok () s') :
    play step (as ++ bs) s = (as ++ (play step bs s').1, (play step bs s').2) := by
  induction as generalizing s with
  | nil =>
    obtain rfl : s = s' := by simpa using h
    rfl
  | cons e as ih =>
    rcases step_cases step e s with ⟨t, ht⟩ | ⟨f, t, ht⟩
    · rw [play_cons_of_ok ht] at h
      rw [List.cons_append, play_cons_of_ok ht, ih h, List.cons_append]
    · rw [play_cons_of_error ht] at h
      cases h

/-- A failure in `as` ends the run of `as ++ bs`. -/
lemma play_append_of_error {as bs : List ε} {s s' : σ} {f : φ}
    (h : (play step as s).2 = .error f s') :
    play step (as ++ bs) s = play step as s := by
  induction as generalizing s with
  | nil => cases h
  | cons e as ih =>
    rcases step_cases step e s with ⟨t, ht⟩ | ⟨g, t, ht⟩
    · rw [play_cons_of_ok ht] at h
      rw [List.cons_append, play_cons_of_ok ht, ih h, play_cons_of_ok ht]
    · rw [List.cons_append, play_cons_of_error ht, play_cons_of_error ht]

variable (step) in
/-- A run has one of two ends. -/
lemma play_cases (es : List ε) (s : σ) :
    (∃ s', (play step es s).2 = .ok () s') ∨ ∃ f s', (play step es s).2 = .error f s' := by
  cases h : (play step es s).2 with
  | ok a s' => exact Or.inl ⟨s', rfl⟩
  | error f s' => exact Or.inr ⟨f, s', rfl⟩

variable (step) in
/-- The trace is a prefix of the steps. -/
lemma executed_initial (es : List ε) (s : σ) : (play step es s).1 <+: es := by
  induction es generalizing s with
  | nil => exact List.prefix_rfl
  | cons e es ih =>
    rcases step_cases step e s with ⟨t, ht⟩ | ⟨f, t, ht⟩
    · rw [play_cons_of_ok ht]
      exact List.cons_prefix_cons.mpr ⟨rfl, ih t⟩
    · rw [play_cons_of_error ht]
      exact List.cons_prefix_cons.mpr ⟨rfl, List.nil_prefix⟩

/-- A failed run ends in the step that failed, and every step before it succeeded. -/
lemma exists_of_error {es : List ε} {s s' : σ} {f : φ} (h : (play step es s).2 = .error f s') :
    ∃ pre e post t, es = pre ++ e :: post ∧ (play step es s).1 = pre ++ [e] ∧
      play step pre s = (pre, .ok () t) ∧ (step e).run t = .error f s' := by
  induction es generalizing s with
  | nil => cases h
  | cons e es ih =>
    rcases step_cases step e s with ⟨t, ht⟩ | ⟨g, t, ht⟩
    · rw [play_cons_of_ok ht] at h ⊢
      obtain ⟨pre, e', post, u, hes, hex, hpre, he'⟩ := ih h
      refine ⟨e :: pre, e', post, u, by rw [hes, List.cons_append], by rw [hex, List.cons_append],
        ?_, he'⟩
      rw [play_cons_of_ok ht, hpre]
    · rw [play_cons_of_error ht] at h ⊢
      obtain ⟨rfl, rfl⟩ : g = f ∧ t = s' := by simpa using h
      exact ⟨[], e, es, s, rfl, rfl, rfl, ht⟩

/-- Every traced step was reached by a successful run of the steps traced before it. -/
lemma exists_reached {es pre post : List ε} {e : ε} {s : σ}
    (h : (play step es s).1 = pre ++ e :: post) :
    ∃ t, play step pre s = (pre, .ok () t) := by
  induction pre generalizing es s with
  | nil => exact ⟨s, rfl⟩
  | cons p pre ih =>
    cases es with
    | nil => simp at h
    | cons e' es =>
      rcases step_cases step e' s with ⟨t, ht⟩ | ⟨g, t, ht⟩
      · rw [play_cons_of_ok ht] at h
        obtain ⟨rfl, h'⟩ : e' = p ∧ (play step es t).1 = pre ++ e :: post := by simpa using h
        obtain ⟨u, hu⟩ := ih h'
        exact ⟨u, by rw [play_cons_of_ok ht, hu]⟩
      · rw [play_cons_of_error ht] at h
        simp at h

/-- A step that is traced with something after it succeeded. -/
lemma step_ok_of_executed {es pre post : List ε} {e e' : ε} {s : σ}
    (h : (play step es s).1 = pre ++ e :: e' :: post) :
    ∃ t u, play step pre s = (pre, .ok () t) ∧ (step e).run t = .ok () u := by
  obtain ⟨t, ht⟩ := exists_reached h
  have h' : (play step es s).1 = (pre ++ [e]) ++ e' :: post := by rw [h]; simp
  obtain ⟨u, hu⟩ := exists_reached h'
  have hpre : (play step pre s).2 = .ok () t := by rw [ht]
  rw [play_append_of_ok hpre] at hu
  rcases step_cases step e t with ⟨v, hv⟩ | ⟨f, v, hv⟩
  · exact ⟨t, v, ht, hv⟩
  · rw [play_cons_of_error hv] at hu
    simp at hu

variable (step) in
/-- What is executed of a part is executed of the whole. -/
lemma executed_append (as bs : List ε) (s : σ) :
    (play step as s).1 <+: (play step (as ++ bs) s).1 := by
  rcases play_cases step as s with ⟨t, ht⟩ | ⟨f, t, ht⟩
  · rw [play_append_of_ok ht, play_eq_of_ok ht]
    exact List.prefix_append _ _
  · rw [play_append_of_error ht]

variable (step) in
/-- **The two ends of a run.**  Either all steps succeeded, or the run ends right after the first
that failed. -/
theorem play_ends (es : List ε) (s : σ) :
    (∃ s', play step es s = (es, .ok () s')) ∨
      ∃ pre e post t f s', es = pre ++ e :: post ∧ play step pre s = (pre, .ok () t) ∧
        (step e).run t = .error f s' ∧ play step es s = (pre ++ [e], .error f s') := by
  rcases play_cases step es s with ⟨s', h⟩ | ⟨f, s', h⟩
  · exact Or.inl ⟨s', play_eq_of_ok h⟩
  · obtain ⟨pre, e, post, t, hes, htrace, hpre, he⟩ := exists_of_error h
    exact Or.inr ⟨pre, e, post, t, f, s', hes, hpre, he, Prod.ext htrace h⟩

variable (step) in
/-- The executed steps make the same run by themselves. -/
lemma play_executed (es : List ε) (s : σ) :
    play step (play step es s).1 s = ((play step es s).1, (play step es s).2) := by
  rcases play_ends step es s with ⟨s', h⟩ | ⟨pre, e, post, t, f, s', -, hpre, he, h⟩
  · rw [h]
    exact h
  · rw [h, play_append_of_ok (by rw [hpre]), play_cons_of_error he]

/-- Steps that do nothing can be left out. -/
theorem play_filter {p : ε → Bool} {es : List ε}
    (hidle : ∀ e ∈ es, p e = false → ∀ s, (step e).run s = .ok () s) (s : σ) :
    play step (es.filter p) s = ((play step es s).1.filter p, (play step es s).2) := by
  induction es generalizing s with
  | nil => rfl
  | cons e es ih =>
    have ih' := ih fun e' he' => hidle e' (List.mem_cons_of_mem _ he')
    by_cases hp : p e
    · rw [List.filter_cons_of_pos hp]
      rcases step_cases step e s with ⟨t, ht⟩ | ⟨f, t, ht⟩
      · rw [play_cons_of_ok ht, play_cons_of_ok ht, ih' t, List.filter_cons_of_pos hp]
      · rw [play_cons_of_error ht, play_cons_of_error ht, List.filter_cons_of_pos hp,
          List.filter_nil]
    · have ht := hidle e (by simp) (by simpa using hp) s
      rw [List.filter_cons_of_neg hp, ih' s, play_cons_of_ok ht, List.filter_cons_of_neg hp]

variable (step) in
/-- Steps that are told apart by something else. -/
lemma play_map {β : Type} (g : β → ε) (bs : List β) (s : σ) :
    play step (bs.map g) s =
      ((play (fun b => step (g b)) bs s).1.map g, (play (fun b => step (g b)) bs s).2) := by
  induction bs generalizing s with
  | nil => rfl
  | cons b bs ih =>
    rw [List.map_cons, play, play]
    rcases step_cases step (g b) s with ⟨t, ht⟩ | ⟨f, t, ht⟩
    · simp only [ht, ih t, List.map_cons]
    · simp only [ht, List.map_singleton]

/-- A step in the concatenation of several lists is a step of one of them. -/
lemma flatMap_eq_append_cons {β : Type} {g : β → List ε} {bs : List β} {pre post : List ε} {e : ε}
    (h : bs.flatMap g = pre ++ e :: post) :
    ∃ bs₁ b bs₂ c₁ c₂, bs = bs₁ ++ b :: bs₂ ∧ g b = c₁ ++ e :: c₂ ∧
      pre = bs₁.flatMap g ++ c₁ := by
  induction bs generalizing pre with
  | nil => simp at h
  | cons b bs ih =>
    rw [List.flatMap_cons, List.append_eq_append_iff] at h
    rcases h with ⟨as, hpre, hbs⟩ | ⟨cs, hb, hcs⟩
    · obtain ⟨bs₁, b', bs₂, c₁, c₂, rfl, hg, rfl⟩ := ih hbs
      exact ⟨b :: bs₁, b', bs₂, c₁, c₂, rfl, hg, by rw [hpre, List.flatMap_cons, List.append_assoc]⟩
    · cases cs with
      | nil =>
        have hbs : bs.flatMap g = [] ++ e :: post := hcs.symm
        obtain ⟨bs₁, b', bs₂, c₁, c₂, rfl, hg, hnil⟩ := ih hbs
        refine ⟨b :: bs₁, b', bs₂, c₁, c₂, rfl, hg, ?_⟩
        rw [List.flatMap_cons, List.append_assoc, ← hnil, List.append_nil, hb, List.append_nil]
      | cons c cs =>
        obtain ⟨rfl, -⟩ : e = c ∧ post = cs ++ bs.flatMap g := by simpa using hcs
        exact ⟨[], b, bs, pre, cs, rfl, hb, rfl⟩

/-- What every executed step keeps, on success and on failure, the run keeps. -/
theorem play_invariant {I : σ → Prop} {es : List ε} {s : σ}
    (hstep : ∀ e ∈ (play step es s).1, ∀ s, I s → I (finalState ((step e).run s))) (hs : I s) :
    I (finalState (play step es s).2) := by
  induction es generalizing s with
  | nil => exact hs
  | cons e es ih =>
    rcases step_cases step e s with ⟨t, ht⟩ | ⟨f, t, ht⟩
    · rw [play_cons_of_ok ht] at hstep ⊢
      have he := hstep e (by simp) s hs
      rw [ht] at he
      exact ih (fun e' he' => hstep e' (List.mem_cons_of_mem _ he')) he
    · rw [play_cons_of_error ht] at hstep ⊢
      have he := hstep e (by simp) s hs
      rw [ht] at he
      exact he

/-- **Steps that do the same in every state.**  A run succeeds with steps of this kind only, exactly
when all steps are of the kind and none has a fault. -/
theorem play_ok_iff {P : ε → Prop} {fault : ε → Option φ} {es : List ε}
    (hok : ∀ e ∈ es, P e → fault e = none → ∀ s, (step e).run s = .ok () s)
    (herror : ∀ e ∈ es, P e → ∀ f, fault e = some f → ∀ s, (step e).run s = .error f s) (s : σ) :
    (fault? (play step es s).2 = none ∧ ∀ e ∈ (play step es s).1, P e) ↔
      ∀ e ∈ es, P e ∧ fault e = none := by
  induction es generalizing s with
  | nil => simp
  | cons e es ih =>
    rw [List.forall_mem_cons] at hok herror ⊢
    by_cases hP : P e
    · cases hfault : fault e with
      | none =>
        rw [play_cons_of_ok (hok.1 hP hfault s), List.forall_mem_cons, ← ih hok.2 herror.2 s]
        simp [hP]
      | some f =>
        rw [play_cons_of_error (herror.1 hP f hfault s)]
        simp
    · have hhead : e ∈ (play step (e :: es) s).1 := by
        rcases step_cases step e s with ⟨t, ht⟩ | ⟨f, t, ht⟩
        · rw [play_cons_of_ok ht]
          exact List.mem_cons_self
        · rw [play_cons_of_error ht]
          exact List.mem_cons_self
      constructor
      · exact fun h => absurd (h.2 e hhead) hP
      · exact fun h => absurd h.1.1 hP

variable (step) in
/-- What holds of every part a run gets to, holds of the first part, and of every part a run gets
to from where the first leaves it. -/
lemma forall_reached_cons {β : Type} (g : β → List ε) (P : β → Prop) (b : β) (bs : List β)
    (s : σ) :
    (∀ pre c post s', b :: bs = pre ++ c :: post →
      (play step (pre.flatMap g) s).2 = .ok () s' → P c) ↔
    P b ∧ ∀ t, (play step (g b) s).2 = .ok () t → ∀ pre c post s', bs = pre ++ c :: post →
      (play step (pre.flatMap g) t).2 = .ok () s' → P c := by
  constructor
  · intro h
    refine ⟨h [] b bs s rfl rfl, fun t ht pre c post s' hsplit hreach => ?_⟩
    refine h (b :: pre) c post s' (by rw [hsplit, List.cons_append]) ?_
    rw [List.flatMap_cons, play_append_of_ok ht]
    exact hreach
  · rintro ⟨hb, hbs⟩ pre c post s' hsplit hreach
    cases pre with
    | nil =>
      obtain ⟨rfl, -⟩ : b = c ∧ bs = post := by simpa using hsplit
      exact hb
    | cons b' pre =>
      obtain ⟨rfl, hsplit'⟩ : b = b' ∧ bs = pre ++ c :: post := by simpa using hsplit
      rw [List.flatMap_cons] at hreach
      rcases play_cases step (g b) s with ⟨t, ht⟩ | ⟨f, t, ht⟩
      · rw [play_append_of_ok ht] at hreach
        exact hbs t ht pre c post s' hsplit' hreach
      · rw [play_append_of_error ht, ht] at hreach
        cases hreach

/-! ## Comparing two kinds of steps -/

section
variable {τ : Type} {step' : ε → EStateM φ τ Unit}

/-- **Simulation.**  If related states take a step to related states with the same fault or none,
they do so for a whole run, and the traces agree. -/
theorem play_simulates {R : σ → τ → Prop} {es : List ε}
    (hstep : ∀ e ∈ es, ∀ s t, R s t →
      fault? ((step e).run s) = fault? ((step' e).run t) ∧
        R (finalState ((step e).run s)) (finalState ((step' e).run t)))
    {s : σ} {t : τ} (hst : R s t) :
    (play step es s).1 = (play step' es t).1 ∧
      fault? (play step es s).2 = fault? (play step' es t).2 ∧
      R (finalState (play step es s).2) (finalState (play step' es t).2) := by
  induction es generalizing s t with
  | nil => exact ⟨rfl, rfl, hst⟩
  | cons e es ih =>
    obtain ⟨hfault, hR⟩ := hstep e (by simp) s t hst
    rcases step_cases step e s with ⟨s₁, hs⟩ | ⟨f, s₁, hs⟩ <;>
      rcases step_cases step' e t with ⟨t₁, ht⟩ | ⟨g, t₁, ht⟩ <;>
      rw [hs, ht] at hfault hR
    · obtain ⟨htrace, hf, hR'⟩ := ih (s := s₁) (t := t₁)
        (fun e' he' => hstep e' (List.mem_cons_of_mem _ he')) hR
      rw [play_cons_of_ok hs, play_cons_of_ok ht]
      exact ⟨by rw [htrace], hf, hR'⟩
    · cases hfault
    · cases hfault
    · rw [play_cons_of_error hs, play_cons_of_error ht]
      exact ⟨rfl, hfault, hR⟩

end

end Replay
