import EarlyBoot.BlockHeap.Allocate
import Mathlib.Data.List.Chain

/-!
# The layout of a well-formed arena

A list of blocks describes an arena when the blocks lie back to back from its
start to its end and every block has its header in memory: the tag, the size,
and the links to the neighbours on both sides.  A heap is well-formed when such
a list exists in which no two neighbours are free.

All edits of the block list write whole headers at multiples of the header
size, so a header is either rewritten or left alone.  `SameOutside` is the frame
of an edit: every byte outside the headers at the given offsets is kept.
-/

namespace EarlyBoot.BlockHeap

variable {h : BlockHeap} {m m₁ m₂ m₃ : Memory}

def headerAt (h : BlockHeap) (m : Memory) (offset : Nat) : Option Header :=
  Header.read? m (h.base + offset)

def SameOutside (h : BlockHeap) (places : List Nat) (m m' : Memory) : Prop :=
  ∀ a, (∀ o ∈ places, a < h.base + o ∨ h.base + o + headerSize ≤ a) → m'.read a = m.read a

theorem SameOutside.refl (places : List Nat) : h.SameOutside places m m :=
  fun _ _ => rfl

theorem SameOutside.mono {places places' : List Nat} (hs : h.SameOutside places m₁ m₂)
    (hsub : places ⊆ places') : h.SameOutside places' m₁ m₂ :=
  fun a ha => hs a fun o ho => ha o (hsub ho)

theorem SameOutside.trans {places : List Nat} (h₁ : h.SameOutside places m₁ m₂)
    (h₂ : h.SameOutside places m₂ m₃) : h.SameOutside places m₁ m₃ :=
  fun a ha => (h₂ a ha).trans (h₁ a ha)

theorem sameOutside_write (m : Memory) (offset : Nat) (header : Header) :
    h.SameOutside [offset] m (header.write m (h.base + offset)) :=
  fun _ ha => Header.read_write_of_outside (ha offset (by simp))

theorem sameOutside_erase (m : Memory) (offset : Nat) :
    h.SameOutside [offset] m (Header.erase m (h.base + offset)) :=
  fun _ ha => Header.read_erase_of_outside (ha offset (by simp))

theorem SameOutside.read_header {places : List Nat} (hs : h.SameOutside places m₁ m₂)
    (hplaces : ∀ o ∈ places, o % headerSize = 0) {offset : Nat}
    (haligned : offset % headerSize = 0) (hnew : offset ∉ places) {a : Nat}
    (hlow : h.base + offset ≤ a) (hhigh : a < h.base + offset + headerSize) :
    m₂.read a = m₁.read a := by
  apply hs
  intro o ho
  have hne : offset ≠ o := fun heq => hnew (heq ▸ ho)
  have := apart_of_aligned haligned (hplaces o ho) hne
  omega

theorem SameOutside.headerAt_eq {places : List Nat} (hs : h.SameOutside places m₁ m₂)
    (hplaces : ∀ o ∈ places, o % headerSize = 0) {offset : Nat}
    (haligned : offset % headerSize = 0) (hnew : offset ∉ places) :
    h.headerAt m₂ offset = h.headerAt m₁ offset :=
  Header.read?_congr fun _ hlow hhigh => hs.read_header hplaces haligned hnew hlow hhigh

theorem headerAt_write (m : Memory) (offset : Nat) {header : Header} (hs : header.Storable) :
    h.headerAt (header.write m (h.base + offset)) offset = some header :=
  Header.read?_write m _ hs

theorem headerAt_eq_none {offset : Nat} :
    h.headerAt m offset = none ↔
      m.readWord (h.base + offset) ≠ freeTag ∧ m.readWord (h.base + offset) ≠ usedTag := by
  unfold headerAt Header.read?
  by_cases htag : m.readWord (h.base + offset) = freeTag ∨ m.readWord (h.base + offset) = usedTag
  · simp only [htag, if_true, reduceCtorEq, false_iff]
    tauto
  · simp only [htag, if_false, true_iff]
    tauto

theorem tagged_iff_headerAt {offset : Nat} :
    h.tagged m offset = true ↔ h.headerAt m offset ≠ none := by
  rw [ne_eq, headerAt_eq_none]
  unfold tagged
  simp only [decide_eq_true_eq]
  tauto

/-! ## Blocks that lie back to back -/

def Tiles : Nat → Nat → List BlockInfo → Prop
  | start, stop, [] => start = stop
  | start, stop, b :: rest => b.offset = start ∧ b.size % headerSize = 0 ∧ Tiles b.stop stop rest

def Coalesced (blocks : List BlockInfo) : Prop :=
  blocks.IsChain fun b c => ¬ (b.free = true ∧ c.free = true)

def offsets (blocks : List BlockInfo) : List Nat := blocks.map (·.offset)

@[simp] theorem offsets_nil : offsets [] = [] := rfl

@[simp] theorem offsets_cons (b : BlockInfo) (rest : List BlockInfo) :
    offsets (b :: rest) = b.offset :: offsets rest := rfl

@[simp] theorem offsets_append (blocks blocks' : List BlockInfo) :
    offsets (blocks ++ blocks') = offsets blocks ++ offsets blocks' :=
  List.map_append

theorem mem_offsets {blocks : List BlockInfo} {o : Nat} :
    o ∈ offsets blocks ↔ ∃ b ∈ blocks, b.offset = o := by
  simp [offsets]

theorem tiles_append {start stop : Nat} {blocks blocks' : List BlockInfo} :
    Tiles start stop (blocks ++ blocks') ↔
      ∃ middle, Tiles start middle blocks ∧ Tiles middle stop blocks' := by
  induction blocks generalizing start with
  | nil => simp [Tiles]
  | cons b rest ih =>
      simp only [List.cons_append, Tiles, ih]
      constructor
      · rintro ⟨hoffset, hsize, middle, hrest, hrest'⟩
        exact ⟨middle, ⟨hoffset, hsize, hrest⟩, hrest'⟩
      · rintro ⟨middle, ⟨hoffset, hsize, hrest⟩, hrest'⟩
        exact ⟨hoffset, hsize, middle, hrest, hrest'⟩

theorem Tiles.le {start stop : Nat} {blocks : List BlockInfo} (ht : Tiles start stop blocks) :
    start ≤ stop := by
  induction blocks generalizing start with
  | nil => exact Nat.le_of_eq ht
  | cons b rest ih =>
      obtain ⟨hoffset, -, hrest⟩ := ht
      have := ih hrest
      unfold BlockInfo.stop at this
      omega

theorem Tiles.aligned {start stop : Nat} {blocks : List BlockInfo} (ht : Tiles start stop blocks)
    (hstart : start % headerSize = 0) : stop % headerSize = 0 := by
  induction blocks generalizing start with
  | nil => exact ht ▸ hstart
  | cons b rest ih =>
      obtain ⟨hoffset, hsize, hrest⟩ := ht
      apply ih hrest
      unfold BlockInfo.stop headerSize at *
      omega

theorem Tiles.bounds {start stop : Nat} {blocks : List BlockInfo} (ht : Tiles start stop blocks)
    {b : BlockInfo} (hb : b ∈ blocks) :
    start ≤ b.offset ∧ b.stop ≤ stop ∧ b.size % headerSize = 0 := by
  induction blocks generalizing start with
  | nil => simp at hb
  | cons c rest ih =>
      obtain ⟨hoffset, hsize, hrest⟩ := ht
      rcases List.mem_cons.1 hb with rfl | hb
      · exact ⟨Nat.le_of_eq hoffset.symm, hrest.le, hsize⟩
      · obtain ⟨hlow, hhigh, hmod⟩ := ih hrest hb
        unfold BlockInfo.stop at hlow
        exact ⟨by omega, hhigh, hmod⟩

theorem Tiles.offset_aligned {start stop : Nat} {blocks : List BlockInfo}
    (ht : Tiles start stop blocks) (hstart : start % headerSize = 0) {o : Nat}
    (ho : o ∈ offsets blocks) : o % headerSize = 0 := by
  induction blocks generalizing start with
  | nil => simp at ho
  | cons c rest ih =>
      obtain ⟨hoffset, hsize, hrest⟩ := ht
      rcases List.mem_cons.1 ho with rfl | ho
      · rw [← hoffset] at hstart
        exact hstart
      · apply ih hrest _ ho
        unfold BlockInfo.stop headerSize at *
        omega

theorem Tiles.offset_lt {start stop : Nat} {blocks : List BlockInfo} (ht : Tiles start stop blocks)
    {o : Nat} (ho : o ∈ offsets blocks) : start ≤ o ∧ o + headerSize ≤ stop := by
  obtain ⟨b, hb, rfl⟩ := mem_offsets.1 ho
  obtain ⟨hlow, hhigh, -⟩ := ht.bounds hb
  unfold BlockInfo.stop at hhigh
  omega

theorem Tiles.stop_aligned {start stop : Nat} {b : BlockInfo} {rest : List BlockInfo}
    (ht : Tiles start stop (b :: rest)) (haligned : start % headerSize = 0) :
    b.stop % headerSize = 0 := by
  obtain ⟨hoffset, hsize, -⟩ := ht
  simp only [BlockInfo.stop, headerSize] at *
  omega

theorem Tiles.offset_not_mem {start stop : Nat} {b : BlockInfo} {rest : List BlockInfo}
    (ht : Tiles start stop (b :: rest)) : b.offset ∉ offsets rest := by
  intro hmem
  have hlow := (ht.2.2.offset_lt hmem).1
  simp only [BlockInfo.stop, headerSize] at hlow
  omega

theorem Tiles.apart {start stop : Nat} {blocks : List BlockInfo} (ht : Tiles start stop blocks)
    {b c : BlockInfo} (hb : b ∈ blocks) (hc : c ∈ blocks) :
    b = c ∨ b.stop ≤ c.offset ∨ c.stop ≤ b.offset := by
  induction blocks generalizing start with
  | nil => simp at hb
  | cons d rest ih =>
      obtain ⟨-, -, hrest⟩ := ht
      rcases List.mem_cons.1 hb with hbd | hbr <;> rcases List.mem_cons.1 hc with hcd | hcr
      · exact .inl (hbd.trans hcd.symm)
      · exact .inr (.inl (hbd ▸ (hrest.bounds hcr).1))
      · exact .inr (.inr (hcd ▸ (hrest.bounds hbr).1))
      · exact ih hrest hbr hcr

theorem Tiles.eq_of_offset {start stop : Nat} {blocks : List BlockInfo}
    (ht : Tiles start stop blocks) {b c : BlockInfo} (hb : b ∈ blocks) (hc : c ∈ blocks)
    (heq : b.offset = c.offset) : b = c := by
  rcases ht.apart hb hc with rfl | hle | hle
  · rfl
  · unfold BlockInfo.stop headerSize at hle
    omega
  · unfold BlockInfo.stop headerSize at hle
    omega

/-! ## Headers that match the blocks -/

def onward (h : BlockHeap) (stop : Nat) : Option Nat :=
  if stop < h.arenaSize then some stop else none

def headerOf (h : BlockHeap) (previous : Option Nat) (b : BlockInfo) : Header :=
  ⟨b.free, b.size, previous, h.onward b.stop⟩

def Linked (h : BlockHeap) (m : Memory) : Option Nat → List BlockInfo → Prop
  | _, [] => True
  | previous, b :: rest =>
      h.headerAt m b.offset = some (h.headerOf previous b) ∧ h.Linked m (some b.offset) rest

def lastLink (previous : Option Nat) : List BlockInfo → Option Nat
  | [] => previous
  | b :: rest => lastLink (some b.offset) rest

theorem lastLink_append (previous : Option Nat) (blocks blocks' : List BlockInfo) :
    lastLink previous (blocks ++ blocks') = lastLink (lastLink previous blocks) blocks' := by
  induction blocks generalizing previous with
  | nil => rfl
  | cons b rest ih => exact ih _

theorem linked_append {previous : Option Nat} {blocks blocks' : List BlockInfo} :
    h.Linked m previous (blocks ++ blocks') ↔
      h.Linked m previous blocks ∧ h.Linked m (lastLink previous blocks) blocks' := by
  induction blocks generalizing previous with
  | nil => simp [Linked, lastLink]
  | cons b rest ih => simp only [List.cons_append, Linked, lastLink, ih, and_assoc]

theorem Linked.congr {previous : Option Nat} {blocks : List BlockInfo}
    (hl : h.Linked m₁ previous blocks)
    (heq : ∀ o ∈ offsets blocks, h.headerAt m₂ o = h.headerAt m₁ o) :
    h.Linked m₂ previous blocks := by
  induction blocks generalizing previous with
  | nil => trivial
  | cons b rest ih =>
      obtain ⟨hb, hrest⟩ := hl
      refine ⟨?_, ih hrest fun o ho => heq o (by simp [ho])⟩
      rw [heq b.offset (by simp)]
      exact hb

theorem Linked.headerAt {previous : Option Nat} {blocks : List BlockInfo}
    (hl : h.Linked m previous blocks) {b : BlockInfo} (hb : b ∈ blocks) :
    ∃ link, h.headerAt m b.offset = some (h.headerOf link b) := by
  induction blocks generalizing previous with
  | nil => simp at hb
  | cons c rest ih =>
      obtain ⟨hc, hrest⟩ := hl
      rcases List.mem_cons.1 hb with rfl | hb
      · exact ⟨previous, hc⟩
      · exact ih hrest hb

theorem lastLink_lt {start stop : Nat} {blocks : List BlockInfo} (ht : Tiles start stop blocks)
    {previous : Option Nat} (hprevious : ∀ o ∈ previous, o < start) :
    ∀ o ∈ lastLink previous blocks, o < stop := by
  induction blocks generalizing start previous with
  | nil =>
      intro o ho
      exact Nat.lt_of_lt_of_le (hprevious o ho) ht.le
  | cons b rest ih =>
      apply ih ht.2.2
      intro o ho
      have heq : b.offset = o := by simpa using ho
      simp only [BlockInfo.stop, headerSize]
      omega

/-- The arena is aligned and lies in the address space. -/
structure Placed (h : BlockHeap) : Prop where
  base_pos : 0 < h.base
  base_aligned : h.base % headerSize = 0
  arena_pos : 0 < h.arenaSize
  stop_le : h.base + h.arenaSize ≤ Word.limit

structure WellFormed (h : BlockHeap) (m : Memory) (blocks : List BlockInfo) : Prop where
  tiles : Tiles 0 h.arenaSize blocks
  linked : h.Linked m none blocks
  coalesced : Coalesced blocks

theorem Placed.arena_lt (hp : h.Placed) : h.arenaSize < Word.limit := by
  have := hp.base_pos
  have := hp.stop_le
  omega

theorem Placed.isInitialized (hp : h.Placed) : h.isInitialized = true := by
  have := hp.base_pos
  simp [BlockHeap.isInitialized]
  omega

theorem onward_eq_head {stop : Nat} {blocks : List BlockInfo}
    (ht : Tiles stop h.arenaSize blocks) : h.onward stop = blocks.head?.map (·.offset) := by
  unfold onward
  cases blocks with
  | nil =>
      have hend : stop = h.arenaSize := ht
      simp [hend]
  | cons b rest =>
      obtain ⟨hoffset, -, hrest⟩ := ht
      have := hrest.le
      unfold BlockInfo.stop headerSize at this
      rw [if_pos (by omega), List.head?_cons, Option.map_some, hoffset]

theorem headerOf_storable (hp : h.Placed) {previous : Option Nat} {b : BlockInfo}
    (hstop : b.stop ≤ h.arenaSize) (hprevious : ∀ o ∈ previous, o < h.arenaSize) :
    (h.headerOf previous b).Storable := by
  have hlt := hp.arena_lt
  unfold Word.limit at hlt
  refine ⟨?_, ?_, ?_⟩
  · have hsize : b.size ≤ b.stop := by
      unfold BlockInfo.stop
      omega
    change b.size < Word.limit
    unfold Word.limit
    omega
  · intro o ho
    have := hprevious o ho
    unfold noLink
    omega
  · intro o ho
    have honward : (if b.stop < h.arenaSize then some b.stop else none) = some o := ho
    split at honward
    · have heq : b.stop = o := Option.some.inj honward
      unfold noLink
      omega
    · simp at honward

end EarlyBoot.BlockHeap
