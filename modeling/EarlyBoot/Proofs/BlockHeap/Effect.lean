import EarlyBoot.Proofs.BlockHeap.Operations

/-!
# The effect of an operation on its surroundings

`Effect` sums up an operation for the rest of the program: the heap is
well-formed again, at most one block in use has gone and at most one is new,
the payloads of all others and the bytes outside the arena are as before, and
no tag is left behind where no block starts.  It follows from the rewriting of
headers alone, since no header lies inside the payload of a block in use.
-/

namespace EarlyBoot.BlockHeap

variable {h : BlockHeap} {m m₁ m₂ m' : Memory} {b c d : BlockInfo}
  {blocks blocks₁ : List BlockInfo}

def InPayload (h : BlockHeap) (b : BlockInfo) (a : Nat) : Prop :=
  h.base + b.offset + headerSize ≤ a ∧ a < h.base + b.stop

theorem inPayload_iff {a : Nat} :
    h.InPayload b a ↔
      h.payloadAddress b.offset ≤ a ∧ a < h.payloadAddress b.offset + b.size := by
  simp only [InPayload, BlockInfo.stop, payloadAddress]
  omega

theorem inPayload_add {i : Nat} (hi : i < b.size) :
    h.InPayload b (h.payloadAddress b.offset + i) :=
  inPayload_iff.2 ⟨by omega, by omega⟩

def Outside (h : BlockHeap) (a : Nat) : Prop := a < h.base ∨ h.base + h.arenaSize ≤ a

theorem Tiles.apart_from_payload {start stop : Nat} (ht : Tiles start stop blocks)
    (hb : b ∈ blocks) {a : Nat} (ha : h.InPayload b a) {o : Nat} (ho : o ∈ offsets blocks) :
    a < h.base + o ∨ h.base + o + headerSize ≤ a := by
  obtain ⟨c, hc, rfl⟩ := mem_offsets.1 ho
  obtain ⟨hlow, hhigh⟩ := ha
  rcases ht.apart hb hc with rfl | hle | hle
  · exact .inr hlow
  · left
    omega
  · right
    simp only [BlockInfo.stop] at hle
    omega

theorem Tiles.not_offset_of_payload {start stop : Nat} (ht : Tiles start stop blocks)
    (hb : b ∈ blocks) {o : Nat} (ho : h.InPayload b (h.base + o)) : o ∉ offsets blocks := by
  intro hmem
  have := ht.apart_from_payload hb ho hmem
  simp only [headerSize] at this
  omega

theorem Tiles.payload_apart {start stop : Nat} (ht : Tiles start stop blocks) (hb : b ∈ blocks)
    (hc : c ∈ blocks) {a : Nat} (hab : h.InPayload b a) (hac : h.InPayload c a) : b = c := by
  obtain ⟨hlow, hhigh⟩ := hab
  obtain ⟨hlow', hhigh'⟩ := hac
  rcases ht.apart hb hc with heq | hle | hle
  · exact heq
  · omega
  · omega

theorem Rewrites.read_payload {previous : Option Nat} {start stop start' stop' : Nat}
    (hr : h.Rewrites previous m blocks m' blocks₁) (ht : Tiles start stop blocks)
    (ht' : Tiles start' stop' blocks₁) (hb : b ∈ blocks) (hc : c ∈ blocks₁) {a : Nat}
    (hab : h.InPayload b a) (hac : h.InPayload c a) : m'.read a = m.read a := by
  apply hr.same
  intro o ho
  rcases List.mem_append.1 ho with ho | ho
  · exact ht.apart_from_payload hb hab ho
  · exact ht'.apart_from_payload hc hac ho

theorem Rewrites.read_outside {previous : Option Nat}
    (hr : h.Rewrites previous m blocks m' blocks₁) (ht : Tiles 0 h.arenaSize blocks)
    (ht' : Tiles 0 h.arenaSize blocks₁) {a : Nat} (ha : h.Outside a) :
    m'.read a = m.read a := by
  apply hr.same
  intro o ho
  have hhigh : o + headerSize ≤ h.arenaSize := by
    rcases List.mem_append.1 ho with ho | ho
    · exact (ht.offset_lt ho).2
    · exact (ht'.offset_lt ho).2
  rcases ha with ha | ha
  · left
    omega
  · right
    omega

/-- Headers stand only where blocks start. -/
def Clean (h : BlockHeap) (m : Memory) (blocks : List BlockInfo) : Prop :=
  ∀ o, h.InBounds o → o ∉ offsets blocks → h.headerAt m o = none

theorem Rewrites.clean {previous : Option Nat} (hr : h.Rewrites previous m blocks m' blocks₁)
    (ht : Tiles 0 h.arenaSize blocks) (ht' : Tiles 0 h.arenaSize blocks₁)
    (hc : h.Clean m blocks) : h.Clean m' blocks₁ := by
  intro o hbounds hgone
  by_cases ho : o ∈ offsets blocks
  · exact (hr.erased o ho hgone).headerAt
  · rw [hr.same.headerAt_eq _ hbounds.2]
    · exact hc o hbounds ho
    · simp [ho, hgone]
    · intro p hp
      rcases List.mem_append.1 hp with hp | hp
      · exact ht.offset_aligned (Nat.zero_mod _) hp
      · exact ht'.offset_aligned (Nat.zero_mod _) hp

structure Effect (h : BlockHeap) (m : Memory) (blocks : List BlockInfo) (m' : Memory)
    (blocks' : List BlockInfo) (gone new : Option BlockInfo) : Prop where
  wellFormed : h.WellFormed m' blocks'
  mem_inUse : ∀ d, d ∈ inUse blocks' ↔ d ∈ new ∨ (d ∈ inUse blocks ∧ d ∉ gone)
  kept : ∀ d ∈ inUse blocks, d ∉ gone → ∀ a, h.InPayload d a → m'.read a = m.read a
  outside : ∀ a, h.Outside a → m'.read a = m.read a
  clean : h.Clean m blocks → h.Clean m' blocks'

theorem Effect.of_rewrites {gone new : Option BlockInfo} (hw : h.WellFormed m blocks)
    (hw' : h.WellFormed m' blocks₁) (hr : h.Rewrites none m blocks m' blocks₁)
    (hinUse : ∀ d, d ∈ inUse blocks₁ ↔ d ∈ new ∨ (d ∈ inUse blocks ∧ d ∉ gone)) :
    h.Effect m blocks m' blocks₁ gone new := by
  refine ⟨hw', hinUse, ?_, fun a ha => hr.read_outside hw.tiles hw'.tiles ha,
    hr.clean hw.tiles hw'.tiles⟩
  intro d hd hgone a ha
  have hd' := (hinUse d).2 (.inr ⟨hd, hgone⟩)
  exact hr.read_payload hw.tiles hw'.tiles (BlockHeap.mem_inUse.1 hd).1
    (BlockHeap.mem_inUse.1 hd').1 ha ha

def SameOutsidePayload (h : BlockHeap) (b : BlockInfo) (m m' : Memory) : Prop :=
  ∀ a, ¬ h.InPayload b a → m'.read a = m.read a

theorem SameOutsidePayload.headerAt_eq {start stop : Nat}
    (hs : h.SameOutsidePayload b m m') (ht : Tiles start stop blocks) (hb : b ∈ blocks) {o : Nat}
    (ho : o ∈ offsets blocks) : h.headerAt m' o = h.headerAt m o := by
  apply Header.read?_congr
  intro a hlow hhigh
  apply hs
  intro ha
  have := ht.apart_from_payload hb ha ho
  omega

theorem WellFormed.of_payload (hw : h.WellFormed m blocks) (hb : b ∈ blocks)
    (hs : h.SameOutsidePayload b m m') : h.WellFormed m' blocks :=
  ⟨hw.tiles, hw.linked.congr fun _ ho => hs.headerAt_eq hw.tiles hb ho, hw.coalesced⟩

theorem SameOutsidePayload.clean (hs : h.SameOutsidePayload b m m')
    (hnew : ∀ o, h.InBounds o → h.InPayload b (h.base + o) → h.headerAt m' o = none)
    (hc : h.Clean m blocks) (hb : b ∈ blocks)
    (ht : Tiles 0 h.arenaSize blocks) : h.Clean m' blocks := by
  intro o hbounds hgone
  by_cases hin : h.InPayload b (h.base + o)
  · exact hnew o hbounds hin
  · have hheader : h.headerAt m' o = h.headerAt m o := by
      apply Header.read?_congr
      intro a hlow hhigh
      apply hs
      rintro ⟨hbelow, habove⟩
      obtain ⟨-, -, hsize⟩ := ht.bounds hb
      have hoffset := ht.offset_aligned (Nat.zero_mod _) (mem_offsets.2 ⟨b, hb, rfl⟩)
      have ho := hbounds.2
      apply hin
      simp only [InPayload, BlockInfo.stop, headerSize] at *
      omega
    rw [hheader]
    exact hc o hbounds hgone

theorem Effect.fill {gone : Option BlockInfo} (he : h.Effect m blocks m₁ blocks₁ gone (some d))
    (hfresh : ∀ e ∈ inUse blocks, e ∉ gone → e ≠ d) (hs : h.SameOutsidePayload d m₁ m₂)
    (hclean : h.Clean m₁ blocks₁ → h.Clean m₂ blocks₁) :
    h.Effect m blocks m₂ blocks₁ gone (some d) := by
  have hd : d ∈ blocks₁ := (BlockHeap.mem_inUse.1 ((he.mem_inUse d).2 (.inl rfl))).1
  refine ⟨he.wellFormed.of_payload hd hs, he.mem_inUse, ?_, ?_, fun hc => hclean (he.clean hc)⟩
  · intro e hein hgone a ha
    have he' : e ∈ blocks₁ := (BlockHeap.mem_inUse.1 ((he.mem_inUse e).2 (.inr ⟨hein, hgone⟩))).1
    rw [hs a, he.kept e hein hgone a ha]
    intro hd'
    exact hfresh e hein hgone (he.wellFormed.tiles.payload_apart he' hd ha hd')
  · intro a ha
    rw [hs a, he.outside a ha]
    rintro ⟨hlow, hhigh⟩
    have hstop := (he.wellFormed.tiles.bounds hd).2.1
    rcases ha with ha | ha
    · omega
    · omega

end EarlyBoot.BlockHeap
