import CiRunner.TestCompile
import Mathlib.Data.List.DropRight

/-!
# Test files in column-0 layout

What an in-place update means is stated over an abstract test file: a preamble, then blocks,
each a function with its header, its body, its closing line and a *trailer* of blank lines and
comments.  A `Block` carries the shape of its lines as proofs, so the line scans of `updateAt`
cannot go astray on one.

To *bless* a block with an output is to put the output in place of its expectation: the trailer
becomes an empty line, the output as comments, an empty line, and what the old trailer had from
its first indented comment on.  `Layout.edit` blesses the blocks an output is given for and
leaves the others alone.

Lines are compared as `lines` cuts them.  Writing a file back and reading it again takes a `\r`
off the end of every line that has one.  `Block.chomped` is what becomes of a block then; it has
the shape of the block it was, line for line.
-/

namespace CiRunner

open TextLines

/-! ## Lines of a trailer -/

/-- A line that is blank or whose first non-blank character is `;`. -/
def isTrailerLine (l : Text) : Bool :=
  match l.dropWhile isWhitespace with
  | [] => true
  | c :: _ => c = ';'

/-- A line that an update drops: blank, or a comment at column 0. -/
def isDropped (l : Text) : Bool := (trim l).isEmpty || startsWith l commentPrefix

lemma isDropped_eq (l : Text) :
    isDropped l = (l.all isWhitespace || startsWith l commentPrefix) := by
  rw [isDropped, trim_isEmpty]

lemma isDropped_nil : isDropped [] = true := rfl

lemma isDropped_output (o : Text) : isDropped (outputPrefix ++ o) = true := by
  simp [isDropped, outputPrefix, commentPrefix, startsWith]

lemma isTrailerLine_nil : isTrailerLine [] = true := rfl

lemma isTrailerLine_output (o : Text) : isTrailerLine (outputPrefix ++ o) = true := by
  have hsemi : isWhitespace ';' = false := by decide
  simp [isTrailerLine, outputPrefix, hsemi]

/-- The header of a function is no line of a trailer. -/
lemma isTrailerLine_of_function {l : Text} (h : startsWith l functionWord) :
    isTrailerLine l = false := by
  cases l with
  | nil => cases h
  | cons c l =>
    obtain ⟨t, ht⟩ := List.isPrefixOf_iff_prefix.mp h
    obtain rfl : c = 'f' := by simpa [functionWord] using (congrArg List.head? ht).symm
    have hf : isWhitespace 'f' = false := by decide
    simp [isTrailerLine, hf]

/-- Only lines of a trailer are dropped. -/
lemma isTrailerLine_of_isDropped {l : Text} (h : isDropped l) : isTrailerLine l := by
  rw [isDropped_eq, Bool.or_eq_true] at h
  rcases h with h | h
  · have hblank : l.dropWhile isWhitespace = [] := by
      rw [List.dropWhile_eq_nil_iff]
      simpa using h
    simp [isTrailerLine, hblank]
  · obtain ⟨t, rfl⟩ := List.isPrefixOf_iff_prefix.mp h
    have hsemi : isWhitespace ';' = false := by decide
    simp [isTrailerLine, commentPrefix, hsemi]

lemma isDropped_of_code {l : Text} (h : isTrailerLine l = false) : isDropped l = false := by
  by_contra hdropped
  have htrailer := isTrailerLine_of_isDropped (eq_true_of_ne_false hdropped)
  rw [h] at htrailer
  cases htrailer

lemma isDropped_of_function {l : Text} (h : startsWith l functionWord) : isDropped l = false :=
  isDropped_of_code (isTrailerLine_of_function h)

lemma isDropped_chomp (l : Text) : isDropped (chomp l) = isDropped l := by
  rw [isDropped_eq, isDropped_eq, all_isWhitespace_chomp, startsWith_chomp (by decide)]

lemma isTrailerLine_chomp {l : Text} (h : isTrailerLine l) : isTrailerLine (chomp l) := by
  induction l with
  | nil => exact h
  | cons c l ih =>
    cases l with
    | nil =>
      by_cases hc : c = '\r'
      · subst hc
        rfl
      · rw [chomp_singleton hc]
        exact h
    | cons d l =>
      rw [chomp_cons_cons]
      by_cases hc : isWhitespace c
      · have h' : isTrailerLine (d :: l) := by
          simpa [isTrailerLine, List.dropWhile_cons, hc] using h
        have ih' := ih h'
        simpa [isTrailerLine, List.dropWhile_cons, hc] using ih'
      · simpa [isTrailerLine, List.dropWhile_cons, hc] using h

/-! ## Blocks -/

/-- A function of a test file in column-0 layout, with the comments after it. -/
@[ext]
structure Block where
  header : Text
  body : List Text
  closing : Text
  trailer : List Text
  header_function : startsWith header functionWord
  body_open : ∀ l ∈ body, startsWith l closingBrace = false
  closing_brace : startsWith closing closingBrace
  trailer_comments : ∀ l ∈ trailer, isTrailerLine l

namespace Block

/-- The lines of the function itself. -/
def code (b : Block) : List Text := b.header :: (b.body ++ [b.closing])

def lines (b : Block) : List Text := b.code ++ b.trailer

/-- What an update keeps of the trailer: everything from the first indented comment on. -/
def rest (b : Block) : List Text := b.trailer.dropWhile isDropped

/-- An output as comment lines. -/
def outputLines (output : List Text) : List Text := output.map (outputPrefix ++ ·)

/-- The block with its expectation replaced by `output`. -/
def bless (b : Block) (output : List Text) : Block :=
  { b with
    trailer := [] :: (outputLines output ++ [] :: b.rest)
    trailer_comments := by
      intro l hl
      simp only [outputLines, List.mem_cons, List.mem_append, List.mem_map] at hl
      rcases hl with rfl | ⟨o, -, rfl⟩ | rfl | hl
      · exact isTrailerLine_nil
      · exact isTrailerLine_output o
      · exact isTrailerLine_nil
      · exact b.trailer_comments l ((List.dropWhile_sublist _).subset hl) }

/-- The block with every line chomped. -/
def chomped (b : Block) : Block where
  header := chomp b.header
  body := b.body.map chomp
  closing := chomp b.closing
  trailer := b.trailer.map chomp
  header_function := by
    rw [startsWith_chomp (by decide)]
    exact b.header_function
  body_open := by
    intro l hl
    obtain ⟨m, hm, rfl⟩ := List.mem_map.mp hl
    rw [startsWith_chomp (by decide)]
    exact b.body_open m hm
  closing_brace := by
    rw [startsWith_chomp (by decide)]
    exact b.closing_brace
  trailer_comments := by
    intro l hl
    obtain ⟨m, hm, rfl⟩ := List.mem_map.mp hl
    exact isTrailerLine_chomp (b.trailer_comments m hm)

/-- The block with its new output, if there is one. -/
def edit (b : Block) : Option (List Text) → Block
  | none => b
  | some output => b.bless output

variable (b : Block)

lemma length_lines_pos : 2 ≤ b.lines.length := by
  simp only [lines, code, List.length_append, List.length_cons, List.length_nil]
  omega

lemma lines_bless (output : List Text) :
    (b.bless output).lines = b.code ++ [] :: (outputLines output ++ [] :: b.rest) := rfl

/-- Blessing leaves nothing to drop but the blessed expectation. -/
@[simp] lemma rest_bless (output : List Text) : (b.bless output).rest = b.rest := by
  have hout : ∀ l ∈ outputLines output, isDropped l := by
    intro l hl
    obtain ⟨o, -, rfl⟩ := List.mem_map.mp hl
    exact isDropped_output o
  rw [rest, bless]
  simp only [List.dropWhile_cons, isDropped_nil, if_true, List.dropWhile_append_of_pos hout]
  exact List.dropWhile_idempotent isDropped b.trailer

/-- Blessing twice is blessing once. -/
@[simp] lemma bless_bless (out₁ out₂ : List Text) : (b.bless out₁).bless out₂ = b.bless out₂ := by
  have h : (b.bless out₁).rest = b.rest := rest_bless b out₁
  ext1 <;> try rfl
  simp only [bless] at h ⊢
  rw [h]

lemma trailer_nil : ∀ l ∈ ([] : List Text), isTrailerLine l := by simp

/-- A trailer of one comment. -/
lemma trailer_comment (text : Text) : ∀ l ∈ [';' :: text], isTrailerLine l := by
  have hsemi : isWhitespace ';' = false := by decide
  simp [isTrailerLine, hsemi]

lemma startsWith_closingBrace : startsWith closingBrace closingBrace := by decide

/-- The function `%name` without a body. -/
def bare (name : Char) (trailer : List Text) (h : ∀ l ∈ trailer, isTrailerLine l) : Block where
  header := functionWord ++ [' ', '%', name, '(', ')', ' ', '{']
  body := []
  closing := closingBrace
  trailer := trailer
  header_function := startsWith_append _ _
  body_open := by simp
  closing_brace := startsWith_closingBrace
  trailer_comments := h

/-! ### Chomping a block -/

@[simp] lemma code_chomped : b.chomped.code = b.code.map chomp := by
  simp [code, chomped]

@[simp] lemma lines_chomped : b.chomped.lines = b.lines.map chomp := by
  simp [lines, code, chomped]

lemma length_lines_chomped : b.chomped.lines.length = b.lines.length := by simp

lemma rest_chomped : b.chomped.rest = b.rest.map chomp := by
  have h : isDropped ∘ chomp = isDropped := funext isDropped_chomp
  simp only [rest, chomped, List.dropWhile_map, h]

/-- Chomping a block before it is edited makes no difference but for the `\r`s. -/
lemma forall₂_edit_chomped (o : Option (List Text)) :
    List.Forall₂ Chomps (b.edit o).lines (b.chomped.edit o).lines := by
  cases o with
  | none =>
    rw [edit, edit, lines_chomped]
    exact forall₂_chomps_chomp _
  | some output =>
    rw [edit, edit, lines_bless, lines_bless, rest_chomped, code_chomped]
    refine List.rel_append (forall₂_chomps_chomp _) (List.Forall₂.cons (Chomps.refl []) ?_)
    exact List.rel_append (forall₂_chomps_refl _)
      (List.Forall₂.cons (Chomps.refl []) (forall₂_chomps_chomp _))

end Block

/-! ## Whole files -/

/-- The blocks, those an output is given for blessed with it. -/
def editBlocks : List Block → List (Option (List Text)) → List Block
  | b :: bs, o :: os => b.edit o :: editBlocks bs os
  | bs, _ => bs

/-- The lines of the headers, where the first block follows after `base` lines.  Lines count
from 1. -/
def headerLines : ℕ → List Block → List ℕ
  | _, [] => []
  | base, b :: bs => (base + 1) :: headerLines (base + b.lines.length) bs

/-- The lines of the blocks, one after the other. -/
def blockLines (bs : List Block) : List Text := bs.flatMap Block.lines

@[simp] lemma blockLines_nil : blockLines [] = [] := rfl

@[simp] lemma blockLines_cons (b : Block) (bs : List Block) :
    blockLines (b :: bs) = b.lines ++ blockLines bs := rfl

@[simp] lemma blockLines_chomped (bs : List Block) :
    blockLines (bs.map Block.chomped) = (blockLines bs).map chomp := by
  induction bs with
  | nil => rfl
  | cons b bs ih => simp [ih]

lemma headerLines_chomped (base : ℕ) (bs : List Block) :
    headerLines base (bs.map Block.chomped) = headerLines base bs := by
  induction bs generalizing base with
  | nil => rfl
  | cons b bs ih => simp only [List.map_cons, headerLines, Block.length_lines_chomped, ih]

@[simp] lemma editBlocks_nil (bs : List Block) : editBlocks bs [] = bs := by
  cases bs <;> rfl

/-- Without an output to bless with, nothing is edited. -/
lemma editBlocks_of_forall_none (bs : List Block) {os : List (Option (List Text))}
    (h : ∀ o ∈ os, o = none) : editBlocks bs os = bs := by
  induction bs generalizing os with
  | nil => cases os <;> rfl
  | cons b bs ih =>
    cases os with
    | nil => rfl
    | cons o os =>
      rw [editBlocks, h o (by simp), ih fun o ho => h o (List.mem_cons_of_mem _ ho)]
      rfl

lemma length_editBlocks (bs : List Block) (os : List (Option (List Text))) :
    (editBlocks bs os).length = bs.length := by
  induction bs generalizing os with
  | nil => cases os <;> rfl
  | cons b bs ih => cases os <;> simp [editBlocks, ih]

lemma forall₂_editBlocks_chomped (bs : List Block) (os : List (Option (List Text))) :
    List.Forall₂ Chomps (blockLines (editBlocks bs os))
      (blockLines (editBlocks (bs.map Block.chomped) os)) := by
  induction bs generalizing os with
  | nil => cases os <;> exact List.Forall₂.nil
  | cons b bs ih =>
    cases os with
    | nil =>
      rw [editBlocks_nil, editBlocks_nil, blockLines_chomped]
      exact forall₂_chomps_chomp _
    | cons o os =>
      rw [List.map_cons, editBlocks, editBlocks, blockLines_cons, blockLines_cons]
      exact List.rel_append (b.forall₂_edit_chomped o) (ih os)

/-- The blocks after the first begin with a header, so dropping stops before them. -/
lemma dropWhile_blockLines (bs : List Block) :
    (blockLines bs).dropWhile isDropped = blockLines bs := by
  cases bs with
  | nil => rfl
  | cons b bs =>
    have hb : isDropped b.header = false := isDropped_of_function b.header_function
    simp [Block.lines, Block.code, hb]

/-- A test file in column-0 layout. -/
@[ext]
structure Layout where
  preamble : List Text
  blocks : List Block

namespace Layout

variable (L : Layout)

def lines : List Text := L.preamble ++ blockLines L.blocks

/-- The line of each function. -/
def headerLines : List ℕ := CiRunner.headerLines L.preamble.length L.blocks

def edit (os : List (Option (List Text))) : Layout :=
  { L with blocks := editBlocks L.blocks os }

end Layout

end CiRunner
