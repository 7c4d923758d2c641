import Mathlib.Data.List.Forall2
import Mathlib.Logic.Function.Iterate
import Mathlib.Tactic.Common

/-!
# Texts and their lines

A text is a list of characters.  `lines` cuts it where the standard library's `str::lines`
does: at every `\n`, the `\r` right before that `\n` going with it, and without a last empty
line when the text ends in a newline.  `unlines` writes lines back, each one ended by `\n`.

The two are inverse on *clean* lines, those that hold no line ending of their own
(`lines_unlines_of_clean`).  In general one round trip costs every line the `\r` it may end
in (`lines_unlines`, `chomp`), and nothing else: `lines` of any text is free of newlines
(`newline_notMem_of_mem_lines`).

Writing and cutting over and over costs a line one `\r` after the other; `Chomps` relates a
line to what can be left of it.

The rest has the three operations on a line that line-based editors rest on: prefix
tests, prefix removal, and trimming by Unicode white space.
-/

namespace TextLines

/-- A text, as the list of its characters. -/
abbrev Text := List Char

/-! ## Lists with a marked element -/

/-- Where the elements up to the first that is not `p` end. -/
lemma eq_of_append_cons {α : Type} {p : α → Bool} {as as' bs bs' : List α} {x x' : α}
    (has : ∀ a ∈ as, p a) (has' : ∀ a ∈ as', p a) (hx : p x = false) (hx' : p x' = false)
    (h : as ++ x :: bs = as' ++ x' :: bs') : as = as' := by
  have htake := congrArg (List.takeWhile p) h
  rw [List.takeWhile_append_of_pos has, List.takeWhile_append_of_pos has',
    List.takeWhile_cons_of_neg (by simp [hx]), List.takeWhile_cons_of_neg (by simp [hx'])] at htake
  simpa using htake

/-- Where the elements after the last that is not `p` begin. -/
lemma eq_of_append_cons_last {α : Type} {p : α → Bool} {as as' bs bs' : List α} {x x' : α}
    (hbs : ∀ b ∈ bs, p b) (hbs' : ∀ b ∈ bs', p b) (hx : p x = false) (hx' : p x' = false)
    (h : as ++ x :: bs = as' ++ x' :: bs') : bs = bs' := by
  have hreverse := congrArg List.reverse h
  simp only [List.reverse_append, List.reverse_cons, List.append_assoc, List.cons_append,
    List.nil_append] at hreverse
  have hbs : ∀ b ∈ bs.reverse, p b := by simpa using hbs
  have hbs' : ∀ b ∈ bs'.reverse, p b := by simpa using hbs'
  exact List.reverse_injective (eq_of_append_cons hbs hbs' hx hx' hreverse)

/-- Parts that do not hold `x` can be told from the list they make, each with an `x` behind it. -/
lemma flatMap_concat_inj {α : Type} [DecidableEq α] {x : α} {as bs : List (List α)}
    (has : ∀ a ∈ as, x ∉ a) (hbs : ∀ b ∈ bs, x ∉ b)
    (h : as.flatMap (· ++ [x]) = bs.flatMap (· ++ [x])) : as = bs := by
  induction as generalizing bs with
  | nil =>
    cases bs with
    | nil => rfl
    | cons b bs => simp at h
  | cons a as ih =>
    cases bs with
    | nil => simp at h
    | cons b bs =>
      rw [List.forall_mem_cons] at has hbs
      rw [List.flatMap_cons, List.flatMap_cons, List.append_assoc, List.append_assoc,
        List.singleton_append, List.singleton_append] at h
      have hother {l : List α} (hl : x ∉ l) : ∀ c ∈ l, (c != x) = true := by
        intro c hc
        rw [bne_iff_ne]
        rintro rfl
        exact hl hc
      obtain rfl : a = b := eq_of_append_cons (hother has.1) (hother hbs.1) (by simp) (by simp) h
      have hrest := List.tail_eq_of_cons_eq (List.append_cancel_left h)
      rw [ih has.2 hbs.2 hrest]

/-- And so they can when each has an `x` in front of it. -/
lemma flatMap_cons_inj {α : Type} [DecidableEq α] {x : α} {as bs : List (List α)}
    (has : ∀ a ∈ as, x ∉ a) (hbs : ∀ b ∈ bs, x ∉ b)
    (h : as.flatMap (x :: ·) = bs.flatMap (x :: ·)) : as = bs := by
  have hshift (ls : List (List α)) :
      ls.flatMap (x :: ·) ++ [x] = x :: ls.flatMap (· ++ [x]) := by
    induction ls with
    | nil => rfl
    | cons l ls ih => simp [List.flatMap_cons, ih]
  have hcons : x :: as.flatMap (· ++ [x]) = x :: bs.flatMap (· ++ [x]) := by
    rw [← hshift, ← hshift, h]
  exact flatMap_concat_inj has hbs (List.tail_eq_of_cons_eq hcons)

/-! ## Cutting a text into lines -/

/-- The lines of a text, as `str::lines` yields them.  A bare `\r` at the end of the text is
part of the last line; one before a `\n` is part of the line ending. -/
def lines : Text → List Text
  | [] => []
  | '\n' :: cs => [] :: lines cs
  | '\r' :: '\n' :: cs => [] :: lines cs
  | c :: cs =>
    match lines cs with
    | [] => [[c]]
    | l :: ls => (c :: l) :: ls

/-- Lines written one after the other, each with its newline. -/
def unlines : List Text → Text
  | [] => []
  | l :: ls => l ++ '\n' :: unlines ls

/-- A line without the `\r` it may end in. -/
def chomp : Text → Text
  | [] => []
  | ['\r'] => []
  | c :: cs => c :: chomp cs

/-- A line holds no line ending of its own: no `\n`, and no `\r` that would merge with the
newline after it. -/
def Clean (l : Text) : Prop := '\n' ∉ l ∧ chomp l = l

instance (l : Text) : Decidable (Clean l) := inferInstanceAs (Decidable (_ ∧ _))

@[simp] lemma lines_nil : lines [] = [] := rfl

@[simp] lemma unlines_nil : unlines [] = [] := rfl

@[simp] lemma unlines_cons (l : Text) (ls : List Text) :
    unlines (l :: ls) = l ++ '\n' :: unlines ls := rfl

lemma unlines_append (ls ms : List Text) : unlines (ls ++ ms) = unlines ls ++ unlines ms := by
  induction ls with
  | nil => rfl
  | cons l ls ih => simp [ih]

@[simp] lemma lines_newline (cs : Text) : lines ('\n' :: cs) = [] :: lines cs := rfl

/-- A character that neither is a newline nor starts a `\r\n` goes in front of the first
line of the rest. -/
lemma lines_cons_of_ne {c : Char} {cs : Text} (hc : c ≠ '\n')
    (hcr : c = '\r' → cs.head? ≠ some '\n') :
    lines (c :: cs) = match lines cs with
      | [] => [[c]]
      | l :: ls => (c :: l) :: ls := by
  rw [lines]
  · exact hc
  · intro cs' h1 h2
    exact hcr h1 (by rw [h2]; rfl)

@[simp] lemma chomp_nil : chomp [] = [] := rfl

@[simp] lemma chomp_cr : chomp ['\r'] = [] := rfl

lemma chomp_cons_cons (c d : Char) (cs : Text) : chomp (c :: d :: cs) = c :: chomp (d :: cs) := by
  rw [chomp]
  intro _ h
  simp at h

lemma chomp_singleton {c : Char} (hc : c ≠ '\r') : chomp [c] = [c] := by
  rw [chomp]
  · rfl
  · intro h _
    exact hc h

/-- The first line of a text that starts with a newline-free `l` and a newline is `l`, without
the `\r` that became part of the line ending. -/
lemma lines_append_newline {l : Text} (hl : '\n' ∉ l) (cs : Text) :
    lines (l ++ '\n' :: cs) = chomp l :: lines cs := by
  induction l with
  | nil => simp
  | cons c l ih =>
    have hc : c ≠ '\n' := fun h => hl (by simp [h])
    have hl' : '\n' ∉ l := fun h => hl (List.mem_cons_of_mem _ h)
    cases l with
    | nil =>
      by_cases hcr : c = '\r'
      · subst hcr
        simp [lines]
      · rw [chomp_singleton hcr, List.cons_append, lines_cons_of_ne hc (fun h => absurd h hcr)]
        simp
    | cons d l =>
      have hd : d ≠ '\n' := fun h => hl' (by simp [h])
      rw [chomp_cons_cons, List.cons_append, lines_cons_of_ne hc (by simp [hd]), ih hl']

/-- Writing newline-free lines and cutting the text again loses exactly the `\r` each line
may end in. -/
theorem lines_unlines {ls : List Text} (h : ∀ l ∈ ls, '\n' ∉ l) :
    lines (unlines ls) = ls.map chomp := by
  induction ls with
  | nil => rfl
  | cons l ls ih =>
    rw [unlines_cons, lines_append_newline (h l (by simp)),
      ih fun m hm => h m (List.mem_cons_of_mem _ hm), List.map_cons]

lemma unlines_eq_flatMap (ls : List Text) : unlines ls = ls.flatMap (· ++ ['\n']) := by
  induction ls with
  | nil => rfl
  | cons l ls ih => simp [ih]

/-- Newline-free lines can be told from the text they make. -/
lemma unlines_inj {ls ms : List Text} (hls : ∀ l ∈ ls, '\n' ∉ l) (hms : ∀ m ∈ ms, '\n' ∉ m)
    (h : unlines ls = unlines ms) : ls = ms := by
  rw [unlines_eq_flatMap, unlines_eq_flatMap] at h
  exact flatMap_concat_inj hls hms h

lemma map_chomp_of_clean {ls : List Text} (h : ∀ l ∈ ls, Clean l) : ls.map chomp = ls := by
  induction ls with
  | nil => rfl
  | cons l ls ih =>
    rw [List.map_cons, (h l (by simp)).2, ih fun m hm => h m (List.mem_cons_of_mem _ hm)]

/-- On clean lines `lines` undoes `unlines`. -/
theorem lines_unlines_of_clean {ls : List Text} (h : ∀ l ∈ ls, Clean l) :
    lines (unlines ls) = ls := by
  rw [lines_unlines fun l hl => (h l hl).1, map_chomp_of_clean h]

/-- No line of a text holds a newline. -/
theorem newline_notMem_of_mem_lines {s l : Text} (h : l ∈ lines s) : '\n' ∉ l := by
  fun_induction lines s generalizing l with
  | case1 => simp at h
  | case2 cs ih =>
    rcases List.mem_cons.mp h with rfl | h
    · simp
    · exact ih h
  | case3 cs ih =>
    rcases List.mem_cons.mp h with rfl | h
    · simp
    · exact ih h
  | case4 c cs hc _ _ _ =>
    obtain rfl : l = [c] := by simpa using h
    simpa using fun h => hc h.symm
  | case5 c cs hc _ m ms hm ih =>
    rcases List.mem_cons.mp h with rfl | h
    · have := ih (l := m) (by simp [hm])
      simpa [this] using fun h => hc h.symm
    · exact ih (by simp [hm, h])

/-! ## What a line starts with -/

/-- `s.starts_with(p)`. -/
def startsWith (s p : Text) : Bool := p.isPrefixOf s

/-- `s.strip_prefix(p)`. -/
def stripPrefix (s p : Text) : Option Text :=
  if startsWith s p then some (s.drop p.length) else none

lemma startsWith_append (p s : Text) : startsWith (p ++ s) p = true := by
  simp [startsWith, List.isPrefixOf_iff_prefix]

lemma stripPrefix_append (p s : Text) : stripPrefix (p ++ s) p = some s := by
  simp [stripPrefix, startsWith_append]

lemma chomp_append_of_ne_nil (p : Text) {s : Text} (hs : s ≠ []) :
    chomp (p ++ s) = p ++ chomp s := by
  induction p with
  | nil => rfl
  | cons c p ih =>
    obtain ⟨d, t, hd⟩ : ∃ d t, p ++ s = d :: t := by
      cases p with
      | nil => exact List.exists_cons_of_ne_nil hs
      | cons d p => exact ⟨d, p ++ s, rfl⟩
    rw [List.cons_append, hd, chomp_cons_cons, ← hd, ih, List.cons_append]

/-- Chomping does not move a prefix that has no `\r` of its own. -/
lemma startsWith_chomp {s p : Text} (hp : '\r' ∉ p) :
    startsWith (chomp s) p = startsWith s p := by
  induction s generalizing p with
  | nil => rfl
  | cons c s ih =>
    cases p with
    | nil => simp [startsWith]
    | cons a p =>
      have ha : a ≠ '\r' := fun h => hp (by simp [h])
      have hp' : '\r' ∉ p := fun h => hp (List.mem_cons_of_mem _ h)
      cases s with
      | nil =>
        by_cases hc : c = '\r'
        · subst hc
          simp [startsWith, List.isPrefixOf_cons_cons, ha]
        · rw [chomp_singleton hc]
      | cons d s =>
        have h := ih hp'
        simp only [startsWith] at h ⊢
        rw [chomp_cons_cons, List.isPrefixOf_cons_cons, List.isPrefixOf_cons_cons, h]

/-! ## Chomping more than once -/

/-- `m` is `l` without some of the `\r`s it ends in. -/
def Chomps (l m : Text) : Prop := ∃ k, m = chomp^[k] l

lemma Chomps.refl (l : Text) : Chomps l l := ⟨0, rfl⟩

lemma chomps_chomp (l : Text) : Chomps l (chomp l) := ⟨1, rfl⟩

lemma Chomps.trans {l m n : Text} (hm : Chomps l m) (hn : Chomps m n) : Chomps l n := by
  obtain ⟨j, rfl⟩ := hm
  obtain ⟨k, rfl⟩ := hn
  exact ⟨k + j, (Function.iterate_add_apply chomp k j l).symm⟩

/-- What chomping once keeps, chomping any number of times keeps. -/
lemma Chomps.induct {P : Text → Prop} (hP : ∀ l, P l → P (chomp l)) {l m : Text}
    (h : Chomps l m) (hl : P l) : P m := by
  obtain ⟨k, rfl⟩ := h
  induction k generalizing l with
  | zero => exact hl
  | succ k ih => exact ih (hP l hl)

/-- A clean line has nothing to lose. -/
lemma Chomps.eq_of_clean {l m : Text} (h : Chomps l m) (hl : Clean l) : m = l :=
  h.induct (P := fun m => m = l) (fun m hm => by rw [hm, hl.2]) rfl

lemma forall₂_chomps_refl (ls : List Text) : List.Forall₂ Chomps ls ls :=
  List.forall₂_same.mpr fun l _ => Chomps.refl l

lemma forall₂_chomps_chomp (ls : List Text) : List.Forall₂ Chomps ls (ls.map chomp) := by
  induction ls with
  | nil => exact List.Forall₂.nil
  | cons l ls ih => exact List.Forall₂.cons (chomps_chomp l) ih

lemma forall₂_chomps_trans {ls ms ns : List Text} (hm : List.Forall₂ Chomps ls ms)
    (hn : List.Forall₂ Chomps ms ns) : List.Forall₂ Chomps ls ns := by
  induction hm generalizing ns with
  | nil => exact hn
  | cons h _ ih =>
    cases hn with
    | cons h' hn => exact List.Forall₂.cons (h.trans h') (ih hn)

/-- Clean lines that were chomped any number of times are the lines they were. -/
lemma eq_of_forall₂_chomps {ls ms : List Text} (h : List.Forall₂ Chomps ls ms)
    (hclean : ∀ l ∈ ls, Clean l) : ms = ls := by
  induction h with
  | nil => rfl
  | cons h _ ih =>
    rw [h.eq_of_clean (hclean _ (by simp)), ih fun l hl => hclean l (List.mem_cons_of_mem _ hl)]

/-! ## White space -/

/-- `char::is_whitespace`: the Unicode property `White_Space`. -/
def isWhitespace (c : Char) : Bool :=
  let n := c.toNat
  (9 ≤ n && n ≤ 13) || n = 32 || n = 0x85 || n = 0xA0 || n = 0x1680 ||
    (0x2000 ≤ n && n ≤ 0x200A) || n = 0x2028 || n = 0x2029 || n = 0x202F || n = 0x205F ||
    n = 0x3000

/-- `str::trim`. -/
def trim (s : Text) : Text :=
  ((s.dropWhile isWhitespace).reverse.dropWhile isWhitespace).reverse

/-- Trimming leaves nothing exactly of texts that are white space throughout. -/
lemma trim_isEmpty (s : Text) : (trim s).isEmpty = s.all isWhitespace := by
  have hback (t : Text) : (t.dropWhile isWhitespace).isEmpty = t.all isWhitespace := by
    induction t with
    | nil => rfl
    | cons c t ih => by_cases hc : isWhitespace c <;> simp_all
  rw [trim, List.isEmpty_reverse, hback, List.all_reverse]
  induction s with
  | nil => rfl
  | cons c s ih => by_cases hc : isWhitespace c <;> simp_all

lemma all_isWhitespace_chomp (s : Text) :
    (chomp s).all isWhitespace = s.all isWhitespace := by
  fun_induction chomp s with
  | case1 => rfl
  | case2 => decide
  | case3 c cs _ ih => simp [ih]

end TextLines
