import CiRunner.Faults
import CiRunner.PlainComments
import CiRunner.Reading

/-!
# Where the heaps of a test are found

The parser of heap annotations and the constructor of the context struct each have their own idea of
where the start and the end of a heap lie in the struct: the parser counts the heaps it has accepted
and expects byte offsets, the constructor lays out pairs of words.  `Describes` says that
annotations fit a struct, byte for byte.  What `RuntestEnvironment.parse` accepts describes the
struct that `RuntestContext.new` builds, wherever the host puts the heaps; and it rejects
annotations of which some offset is missing or designates another word (`parse_describes`).
-/

namespace CiRunner

open LittleEndian

variable {Flags Body : Type} (tc : Toolchain Flags Body)

/-! ## Annotations -/

/-- The heap annotation a comment is, if it is one. -/
def heapCommandOf (comment : Comment) : Option HeapCommand :=
  match tc.parseHeapCommand comment.text with
  | .ok command => command
  | .error _ => none

/-- The heap annotations among comments, in order. -/
def heapCommandsIn (comments : List Comment) : List HeapCommand :=
  comments.filterMap (heapCommandOf tc)

/-- A byte offset designates a word of the struct. -/
def Designates (offset : Option ℕ) (word : ℕ) : Prop := offset = some (8 * word)

/-- The heaps, of which the first is number `k`, have their start and their end where the struct has
them: two words for each heap. -/
def Placed (k : ℕ) (heaps : List HeapCommand) : Prop :=
  ∀ i cmd, heaps[i]? = some cmd →
    Designates cmd.ptrOffset (2 * (k + i)) ∧ Designates cmd.boundOffset (2 * (k + i) + 1)

lemma placed_cons_iff {k : ℕ} {cmd : HeapCommand} {heaps : List HeapCommand} :
    Placed k (cmd :: heaps) ↔ (Designates cmd.ptrOffset (2 * k) ∧
      Designates cmd.boundOffset (2 * k + 1)) ∧ Placed (k + 1) heaps := by
  constructor
  · intro h
    refine ⟨h 0 cmd rfl, fun i c hc => ?_⟩
    rw [Nat.add_assoc, Nat.add_comm 1 i]
    exact h (i + 1) c (by simpa using hc)
  · rintro ⟨hcmd, hheaps⟩ i c hc
    cases i with
    | zero =>
      obtain rfl : cmd = c := by simpa using hc
      exact hcmd
    | succ i =>
      rw [← Nat.add_assoc, Nat.add_right_comm]
      exact hheaps i c (by simpa using hc)

/-! ## The parsing loop -/

/-- One heap annotation is accepted exactly when it is placed next. -/
lemma parseComment_heap {env : RuntestEnvironment} {comment : Comment} {cmd : HeapCommand}
    (h : tc.parseHeapCommand comment.text = .ok (some cmd)) (env' : RuntestEnvironment) :
    RuntestEnvironment.parseComment tc env comment = .ok env' ↔
      (Designates cmd.ptrOffset (2 * env.heaps.length) ∧
        Designates cmd.boundOffset (2 * env.heaps.length + 1)) ∧
      env' = { heaps := env.heaps ++ [cmd] } := by
  have hptr : 8 * (2 * env.heaps.length) = env.heaps.length * 16 := by omega
  have hbound : 8 * (2 * env.heaps.length + 1) = env.heaps.length * 16 + 8 := by omega
  simp only [RuntestEnvironment.parseComment, h, Designates, hptr, hbound]
  by_cases hp : some (env.heaps.length * 16) = cmd.ptrOffset
  · by_cases hb : some (env.heaps.length * 16 + 8) = cmd.boundOffset
    · simp [← hp, ← hb, eq_comm]
    · simp [hp, hb, Ne.symm hb]
  · simp [hp, Ne.symm hp]

/-- **The loop** keeps the annotations it has met, which are placed one after the other, and accepts
comments that go on like this. -/
lemma foldlM_parseComment_eq_ok_iff (comments : List Comment) (env env' : RuntestEnvironment) :
    comments.foldlM (RuntestEnvironment.parseComment tc) env = .ok env' ↔
      (∀ c ∈ comments, ∃ r, tc.parseHeapCommand c.text = .ok r) ∧
        Placed env.heaps.length (heapCommandsIn tc comments) ∧
        env'.heaps = env.heaps ++ heapCommandsIn tc comments := by
  induction comments generalizing env with
  | nil =>
    have hnil : ([] : List Comment).foldlM (RuntestEnvironment.parseComment tc) env = .ok env := rfl
    obtain ⟨heaps⟩ := env
    obtain ⟨heaps'⟩ := env'
    simp [hnil, heapCommandsIn, Placed, eq_comm]
  | cons comment comments ih =>
    rw [List.foldlM_cons, List.forall_mem_cons]
    cases hparse : tc.parseHeapCommand comment.text with
    | error e =>
      have hcomment : RuntestEnvironment.parseComment tc env comment =
          .error (.err (.parse e)) := by simp [RuntestEnvironment.parseComment, hparse]
      simp [hcomment, bind, Except.bind]
    | ok command =>
      cases command with
      | none =>
        have hcomment : RuntestEnvironment.parseComment tc env comment = .ok env := by
          simp [RuntestEnvironment.parseComment, hparse]
        have hcommands : heapCommandsIn tc (comment :: comments) = heapCommandsIn tc comments := by
          simp [heapCommandsIn, heapCommandOf, hparse]
        rw [hcomment, hcommands]
        simpa [bind, Except.bind] using ih env
      | some cmd =>
        have hcommands : heapCommandsIn tc (comment :: comments) =
            cmd :: heapCommandsIn tc comments := by
          simp [heapCommandsIn, heapCommandOf, hparse]
        rw [hcommands, placed_cons_iff]
        have hstep := @parseComment_heap _ _ tc env _ _ hparse
        by_cases hplaced : Designates cmd.ptrOffset (2 * env.heaps.length) ∧
            Designates cmd.boundOffset (2 * env.heaps.length + 1)
        · rw [(hstep { heaps := env.heaps ++ [cmd] }).mpr ⟨hplaced, rfl⟩]
          have hnext := ih { heaps := env.heaps ++ [cmd] }
          simp only [List.length_append, List.length_singleton, List.append_assoc,
            List.singleton_append] at hnext
          simpa [bind, Except.bind, hplaced] using hnext
        · cases hcomment : RuntestEnvironment.parseComment tc env comment with
          | error f => simp [bind, Except.bind, hplaced]
          | ok env₁ => exact absurd ((hstep env₁).mp hcomment).1 hplaced

lemma parse_eq_ok_iff (comments : List Comment) (env : RuntestEnvironment) :
    RuntestEnvironment.parse tc comments = .ok env ↔
      (∀ c ∈ comments, ∃ r, tc.parseHeapCommand c.text = .ok r) ∧
        Placed 0 (heapCommandsIn tc comments) ∧ env.heaps = heapCommandsIn tc comments :=
  foldlM_parseComment_eq_ok_iff tc comments { heaps := [] } env

/-- Comments that are not accepted make an error, and no panic. -/
lemma faultsIn_parse (comments : List Comment) :
    FaultsIn (fun f => ∃ e, f = .err e) (RuntestEnvironment.parse tc comments) := by
  refine FaultsIn.foldlM (fun env comment => ?_) comments _
  unfold RuntestEnvironment.parseComment
  dsimp only
  split
  · exact .error ⟨_, rfl⟩
  · exact .ok env
  · split
    · exact .error ⟨_, rfl⟩
    · split
      · exact .error ⟨_, rfl⟩
      · exact .ok _

/-! ## The struct -/

lemma getElem?_flatMap_pair {α β : Type} (f g : α → β) (xs : List α) (i : ℕ) :
    (xs.flatMap fun x => [f x, g x])[2 * i]? = xs[i]?.map f ∧
      (xs.flatMap fun x => [f x, g x])[2 * i + 1]? = xs[i]?.map g := by
  induction xs generalizing i with
  | nil => simp
  | cons x xs ih =>
    cases i with
    | zero => simp
    | succ i =>
      rw [Nat.mul_succ]
      simpa using ih i

namespace RuntestContext

/-- The bytes of the context struct. -/
def structBytes (self : RuntestContext) : List UInt8 :=
  wordBytes 8 (self.contextStruct.map BitVec.toNat)

/-- The 64-bit word of the context struct at a byte offset. -/
def structWord (self : RuntestContext) (offset : ℕ) : Option ℕ := wordAt 8 self.structBytes offset

lemma structWord_eq (self : RuntestContext) (k : ℕ) :
    self.structWord (8 * k) = self.contextStruct[k]?.map BitVec.toNat := by
  rw [structWord, structBytes, wordAt_wordBytes (by decide), List.getElem?_map]
  intro n hn
  obtain ⟨word, -, rfl⟩ := List.mem_map.mp hn
  exact word.isLt

lemma length_contextStruct (placement : Placement) (env : RuntestEnvironment) :
    (new placement env).contextStruct.length = 2 * env.heaps.length := by
  simp [new, Nat.mul_comm]

/-- Two words for each heap: its start and its end. -/
lemma getElem?_contextStruct (placement : Placement) {env : RuntestEnvironment} {i : ℕ}
    {cmd : HeapCommand} (h : env.heaps[i]? = some cmd) :
    (new placement env).contextStruct[2 * i]? = some (placement.heapStart i) ∧
      (new placement env).contextStruct[2 * i + 1]? =
        some (placement.heapStart i + BitVec.ofNat 64 cmd.size) := by
  have hheap : (env.heaps.map fun cmd => List.replicate cmd.size (0 : UInt8)).zipIdx[i]? =
      some (List.replicate cmd.size 0, i) := by
    simp [List.getElem?_zipIdx, h]
  obtain ⟨hstart, hend⟩ := getElem?_flatMap_pair
    (fun heap : List UInt8 × ℕ => placement.heapStart heap.2)
    (fun heap => placement.heapStart heap.2 + BitVec.ofNat 64 heap.1.length)
    (env.heaps.map fun cmd => List.replicate cmd.size (0 : UInt8)).zipIdx i
  rw [hheap] at hstart hend
  rw [Option.map_some, List.length_replicate] at hend
  exact ⟨hstart, hend⟩

end RuntestContext

/-! ## Annotations that describe the struct -/

/-- The offsets that annotations give. -/
def offsetsOf (heaps : List HeapCommand) : List ℕ :=
  heaps.flatMap fun cmd => cmd.ptrOffset.toList ++ cmd.boundOffset.toList

lemma offsetsOf_of_placed {k : ℕ} {heaps : List HeapCommand} (h : Placed k heaps) :
    offsetsOf heaps = (List.range' (2 * k) (2 * heaps.length)).map (8 * ·) := by
  induction heaps generalizing k with
  | nil => rfl
  | cons cmd heaps ih =>
    obtain ⟨⟨hptr, hbound⟩, hheaps⟩ := placed_cons_iff.mp h
    have hlength : 2 * (heaps.length + 1) = 2 * heaps.length + 1 + 1 := by omega
    have hcons : offsetsOf (cmd :: heaps) =
        8 * (2 * k) :: 8 * (2 * k + 1) :: offsetsOf heaps := by
      rw [Designates] at hptr hbound
      simp [offsetsOf, hptr, hbound]
    rw [hcons, ih hheaps, List.length_cons, hlength, List.range'_succ, List.range'_succ,
      List.map_cons, List.map_cons]
    rfl

/-- No allocation wraps around the address space. -/
def NoWrap (placement : Placement) (env : RuntestEnvironment) : Prop :=
  ∀ i cmd, env.heaps[i]? = some cmd → (placement.heapStart i).toNat + cmd.size < 2 ^ 64

/-- The annotations of the environment describe the struct: each heap is allocated in its size and
zeroed, at its offsets are its start and its end, and the offsets of all heaps are different words
that make up the struct. -/
structure Describes (placement : Placement) (env : RuntestEnvironment) (struct : RuntestContext) :
    Prop where
  heap : ∀ (i : ℕ) (cmd : HeapCommand), env.heaps[i]? = some cmd →
    struct.heaps[i]? = some (List.replicate cmd.size 0)
  start : ∀ i cmd, env.heaps[i]? = some cmd → ∃ offset, cmd.ptrOffset = some offset ∧
    struct.structWord offset = some (placement.heapStart i).toNat
  bound : ∀ i cmd, env.heaps[i]? = some cmd → ∃ offset, cmd.boundOffset = some offset ∧
    struct.structWord offset = some ((placement.heapStart i).toNat + cmd.size)
  distinct : (offsetsOf env.heaps).Nodup
  inside : ∀ offset ∈ offsetsOf env.heaps, offset + 8 ≤ struct.structBytes.length
  covers : ∀ x < struct.structBytes.length, ∃ offset ∈ offsetsOf env.heaps,
    offset ≤ x ∧ x < offset + 8

/-- Heaps that are placed one after the other, from the first on, describe the struct. -/
theorem describes_of_placed {placement : Placement} {env : RuntestEnvironment}
    (hplaced : Placed 0 env.heaps) (hwrap : NoWrap placement env) :
    Describes placement env (RuntestContext.new placement env) := by
  have hoffsets := offsetsOf_of_placed hplaced
  have hbytes : (RuntestContext.new placement env).structBytes.length =
      8 * (2 * env.heaps.length) := by
    rw [RuntestContext.structBytes, length_wordBytes, List.length_map,
      RuntestContext.length_contextStruct]
  refine ⟨fun i cmd h => ?_, fun i cmd h => ?_, fun i cmd h => ?_, ?_, fun offset hmem => ?_,
    fun x hx => ?_⟩
  · simp [RuntestContext.new, h]
  · have hptr := (hplaced i cmd h).1
    rw [Nat.zero_add] at hptr
    refine ⟨_, hptr, ?_⟩
    rw [RuntestContext.structWord_eq, (RuntestContext.getElem?_contextStruct placement h).1]
    rfl
  · have hbound := (hplaced i cmd h).2
    rw [Nat.zero_add] at hbound
    refine ⟨_, hbound, ?_⟩
    have hlt := hwrap i cmd h
    rw [RuntestContext.structWord_eq, (RuntestContext.getElem?_contextStruct placement h).2,
      Option.map_some, BitVec.toNat_add, BitVec.toNat_ofNat]
    congr 1
    omega
  · rw [hoffsets]
    exact List.Nodup.map (fun a b hab => by simpa using hab) List.nodup_range'
  · rw [hoffsets] at hmem
    obtain ⟨k, hk, rfl⟩ := List.mem_map.mp hmem
    rw [List.mem_range'_1] at hk
    omega
  · rw [hbytes] at hx
    refine ⟨8 * (x / 8), ?_, by omega, by omega⟩
    rw [hoffsets]
    apply List.mem_map_of_mem
    rw [List.mem_range'_1]
    omega

/-- **The accepted heap annotations describe the context struct that is built.**  What is accepted
are the heap annotations in order, and they describe the struct wherever the host puts the heaps;
and comments are rejected as soon as an annotation among them lacks an offset or designates another
word with it. -/
theorem parse_describes (comments : List Comment) :
    (∀ env, RuntestEnvironment.parse tc comments = .ok env →
      env.heaps = heapCommandsIn tc comments ∧ ∀ placement, NoWrap placement env →
        Describes placement env (RuntestContext.new placement env)) ∧
    ((∃ i cmd, (heapCommandsIn tc comments)[i]? = some cmd ∧
        ¬ (Designates cmd.ptrOffset (2 * i) ∧ Designates cmd.boundOffset (2 * i + 1))) →
      ∃ e, RuntestEnvironment.parse tc comments = .error (.err e)) := by
  constructor
  · intro env h
    obtain ⟨-, hplaced, hheaps⟩ := (parse_eq_ok_iff tc comments env).mp h
    rw [← hheaps] at hplaced
    exact ⟨hheaps, fun placement hwrap => describes_of_placed hplaced hwrap⟩
  · rintro ⟨i, cmd, hcmd, hother⟩
    cases h : RuntestEnvironment.parse tc comments with
    | ok env =>
      obtain ⟨-, hplaced, -⟩ := (parse_eq_ok_iff tc comments env).mp h
      have hplace := hplaced i cmd hcmd
      rw [Nat.zero_add] at hplace
      exact absurd hplace hother
    | error f =>
      obtain ⟨e, rfl⟩ := faultsIn_parse tc comments f h
      exact ⟨e, rfl⟩

/-- Annotations of a first heap of 16 bytes and of a second one of 32. -/
def firstHeap : Comment where
  text := "; heap: static, size=0x10, ptr=vmctx+0, bound=vmctx+8".toList

def secondHeap : Comment where
  text := "; heap: static, size=0x20, ptr=vmctx+16, bound=vmctx+24".toList

/-- A toolchain that knows these two. -/
def Toolchain.readingHeaps : Toolchain Settings Unit where
  __ := Toolchain.sample
  parseHeapCommand text :=
    if text = firstHeap.text then
      .ok (some { size := 16, ptrOffset := some 0, boundOffset := some 8 })
    else if text = secondHeap.text then
      .ok (some { size := 32, ptrOffset := some 16, boundOffset := some 24 })
    else .ok none

/-- A host that puts the heaps at every 4 KiB, and the context struct in front of them. -/
def Placement.sample : Placement where
  heapStart i := BitVec.ofNat 64 (0x7f0000001000 + 0x1000 * i)
  contextStruct := 0x7f0000000000

/-- Two heaps with another comment between them, and the two in the wrong order. -/
theorem parse_describes_readingHeaps :
    (∃ env, RuntestEnvironment.parse Toolchain.readingHeaps
        [firstHeap, { text := "; nop".toList }, secondHeap] = .ok env ∧
      Describes Placement.sample env (RuntestContext.new Placement.sample env)) ∧
    ∃ e, RuntestEnvironment.parse Toolchain.readingHeaps
      [secondHeap, firstHeap] = .error (.err e) := by
  constructor
  · have hparse : RuntestEnvironment.parse Toolchain.readingHeaps
        [firstHeap, { text := "; nop".toList }, secondHeap] =
        .ok { heaps := [⟨16, some 0, some 8⟩, ⟨32, some 16, some 24⟩] } := rfl
    refine ⟨_, hparse, ((parse_describes Toolchain.readingHeaps _).1 _ hparse).2 _ ?_⟩
    intro i cmd h
    match i with
    | 0 =>
      obtain rfl : HeapCommand.mk 16 (some 0) (some 8) = cmd := by simpa using h
      decide
    | 1 =>
      obtain rfl : HeapCommand.mk 32 (some 16) (some 24) = cmd := by simpa using h
      decide
    | i + 2 => simp at h
  · refine (parse_describes Toolchain.readingHeaps _).2 ⟨0, ⟨32, some 16, some 24⟩, rfl, ?_⟩
    simp [Designates]

end CiRunner
