import EarlyBoot.Proofs.BlockHeap.Effect

/-!
# What the operations do to the blocks in use

Each operation on a well-formed heap either stops with a recoverable error and
the memory it was given, or has the effect that its name promises: one block in
use more, one less, or one replaced by another that starts with the same bytes.
-/

namespace EarlyBoot.BlockHeap

open MemoryM (bind_of_ok bind_of_error inspect_of_ok)

variable {h : BlockHeap} {m m₁ m₂ m' : Memory} {b c d e : BlockInfo}
  {before after rest blocks blocks₁ blocks₂ : List BlockInfo}

theorem mem_inUse_carve (h : BlockHeap) (before after : List BlockInfo) {payload : Nat}
    (hroom : payload ≤ b.size) :
    ∃ size, payload ≤ size ∧ ∀ d, d ∈ inUse (before ++ h.carve b payload after) ↔
      d = ⟨b.offset, size, false⟩ ∨ d ∈ inUse before ∨ d ∈ inUse after := by
  obtain ⟨size, hinUse, hsize⟩ : ∃ size, inUse (h.carve b payload after) =
      ⟨b.offset, size, false⟩ :: inUse after ∧ (payload ≤ b.size → payload ≤ size) := inUse_carve
  refine ⟨size, hsize hroom, fun d => ?_⟩
  rw [inUse_append, hinUse, List.mem_append, List.mem_cons]
  tauto

theorem mem_inUse_around :
    d ∈ inUse (before ++ b :: after) ↔
      (d = b ∧ b.free = false) ∨ d ∈ inUse before ∨ d ∈ inUse after := by
  simp only [BlockHeap.mem_inUse, List.mem_append, List.mem_cons]
  constructor
  · rintro ⟨hd | rfl | hd, hused⟩
    · exact .inr (.inl ⟨hd, hused⟩)
    · exact .inl ⟨rfl, hused⟩
    · exact .inr (.inr ⟨hd, hused⟩)
  · rintro (⟨rfl, hused⟩ | ⟨hd, hused⟩ | ⟨hd, hused⟩)
    · exact ⟨.inr (.inl rfl), hused⟩
    · exact ⟨.inl hd, hused⟩
    · exact ⟨.inr (.inr hd), hused⟩

theorem Around.ne_of_mem (ha : h.Around m before b after) (hd : d ∈ before ∨ d ∈ after) :
    d.offset ≠ b.offset := by
  rcases hd with hd | hd
  · have := (ha.tiles_before.offset_lt (mem_offsets.2 ⟨d, hd, rfl⟩)).2
    simp only [headerSize] at this
    omega
  · intro heq
    exact ha.tiles.offset_not_mem (mem_offsets.2 ⟨d, hd, heq⟩)

theorem mem_inUse_others (ha : h.Around m before b after) :
    (d ∈ inUse (before ++ b :: after) ∧ d ∉ some b) ↔ d ∈ inUse before ∨ d ∈ inUse after := by
  rw [mem_inUse_around]
  constructor
  · rintro ⟨⟨rfl, -⟩ | hd, hne⟩
    · simp at hne
    · exact hd
  · intro hd
    refine ⟨.inr hd, ?_⟩
    intro heq
    apply ha.ne_of_mem (hd.imp (fun hd => (mem_inUse.1 hd).1) fun hd => (mem_inUse.1 hd).1)
    rw [Option.some.inj heq]

/-! ## Allocation and release -/

theorem allocate_effect (hp : h.Placed) (hw : h.WellFormed m blocks) (size : Nat) :
    (∃ error : HeapError, error.isFatal = false ∧
      h.allocate size m = .error (.report error) m) ∨
    ∃ d blocks' m', h.allocate size m = .ok (h.payloadAddress d.offset) m' ∧
      size ≤ d.size ∧ d.free = false ∧ (∀ e ∈ inUse blocks, e.offset ≠ d.offset) ∧
      h.Effect m blocks m' blocks' none (some d) := by
  cases hs : payloadSize? size with
  | none => exact .inl ⟨_, rfl, allocate_overflow hp hs m⟩
  | some payload =>
      rcases firstFit_cases blocks payload with hfits | ⟨before, b, after, rfl, hfits, hfree, hroom⟩
      · exact .inl ⟨_, rfl, allocate_full hp hw hs hfits⟩
      · right
        obtain ⟨hpayload, hsize, -⟩ := payloadSize?_eq_some hs
        obtain ⟨m', hok, hr⟩ := allocate_fit hp hw hs hfits hfree hroom
        obtain ⟨taken, htaken, hinUse⟩ :=
          mem_inUse_carve h before after hroom
        refine ⟨⟨b.offset, taken, false⟩, _, m', hok, Nat.le_trans hsize htaken, rfl, ?_,
          .of_rewrites hw (hw.carve hpayload hr) hr ?_⟩
        · intro e he
          rcases mem_inUse_around.1 he with ⟨rfl, hused⟩ | he | he
          · simp [hfree] at hused
          · exact hw.around.ne_of_mem (.inl (mem_inUse.1 he).1)
          · exact hw.around.ne_of_mem (.inr (mem_inUse.1 he).1)
        · intro d
          rw [hinUse, mem_inUse_around]
          simp only [hfree, Option.mem_def, Option.some.injEq, reduceCtorEq, not_false_eq_true,
            and_true, and_false, false_or, eq_comm]

theorem release_effect (hp : h.Placed) (hw : h.WellFormed m blocks) (hb : b ∈ inUse blocks) :
    ∃ blocks' m', h.release (h.payloadAddress b.offset) m = .ok () m' ∧
      h.Effect m blocks m' blocks' (some b) none := by
  obtain ⟨hmem, hused⟩ := mem_inUse.1 hb
  obtain ⟨before, after, rfl⟩ := List.append_of_mem hmem
  obtain ⟨m', hok, hr⟩ := release_spec hp hw hused
  refine ⟨_, m', hok, .of_rewrites hw (hw.released hr) hr ?_⟩
  intro d
  rw [inUse_merged, mem_inUse_others hw.around, mem_inUse_around]
  simp

/-! ## Resizing -/

theorem recarve_effect {payload size : Nat} (hw : h.WellFormed m (before ++ b :: after))
    (hw' : h.WellFormed m' (before ++ h.carve { b with size } payload rest))
    (hinUse : inUse rest = inUse after) (hroom : payload ≤ size)
    (hr : h.Rewrites none m (before ++ b :: after) m'
      (before ++ h.carve { b with size } payload rest)) :
    ∃ d, d.offset = b.offset ∧ d.free = false ∧ payload ≤ d.size ∧
      (∀ i, i < b.size → i < d.size →
        m'.read (h.payloadAddress d.offset + i) = m.read (h.payloadAddress b.offset + i)) ∧
      h.Effect m (before ++ b :: after) m' (before ++ h.carve { b with size } payload rest)
        (some b) (some d) := by
  obtain ⟨taken, htaken, hmem⟩ :=
    mem_inUse_carve (b := { b with size }) h before rest hroom
  have hd := (mem_inUse.1 ((hmem ⟨b.offset, taken, false⟩).2 (.inl rfl))).1
  refine ⟨⟨b.offset, taken, false⟩, rfl, rfl, htaken, ?_, .of_rewrites hw hw' hr ?_⟩
  · intro i hb hi
    have hnew : h.InPayload ⟨b.offset, taken, false⟩ (h.payloadAddress b.offset + i) :=
      inPayload_add hi
    have hold : h.InPayload b (h.payloadAddress b.offset + i) := inPayload_add hb
    have hmem' : b ∈ before ++ b :: after := by simp
    exact hr.read_payload hw.tiles hw'.tiles hmem' hd hold hnew
  · intro d
    rw [hmem, hinUse, mem_inUse_others hw.around]
    simp [eq_comm]

theorem resize_in_place_effect (hp : h.Placed) (hw : h.WellFormed m (before ++ b :: after))
    (hused : b.free = false) {newSize payload : Nat} (hs : payloadSize? newSize = some payload)
    (hfits : payload ≤ b.size ∨
      ∃ c ∈ after.head?, c.free = true ∧ payload ≤ b.size + headerSize + c.size) :
    ∃ d blocks' m', h.resize (h.payloadAddress b.offset) newSize m =
        .ok (h.payloadAddress b.offset) m' ∧
      d.offset = b.offset ∧ d.free = false ∧ payload ≤ d.size ∧
      (∀ i, i < b.size → i < d.size →
        m'.read (h.payloadAddress d.offset + i) = m.read (h.payloadAddress b.offset + i)) ∧
      h.Effect m (before ++ b :: after) m' blocks' (some b) (some d) := by
  have hpayload := (payloadSize?_eq_some hs).1
  by_cases hroom : payload ≤ b.size
  · obtain ⟨m', hok, hr⟩ := resize_shrink hp hw hused hs hroom
    obtain ⟨d, hd⟩ := recarve_effect hw (hw.carve hpayload hr) rfl hroom hr
    exact ⟨d, _, m', hok, hd⟩
  · obtain ⟨c, hhead, hfree, hroom'⟩ := hfits.resolve_left hroom
    obtain ⟨rest, rfl⟩ : ∃ rest, after = c :: rest :=
      ⟨after.tail, (List.cons_head?_tail hhead).symm⟩
    obtain ⟨m', hok, hr⟩ := resize_grow hp hw hused hfree hs (by omega) hroom'
    have hw' := hw.grown hused hpayload hr
    obtain ⟨d, hd⟩ := recarve_effect hw hw' (inUse_cons_free hfree).symm hroom' hr
    exact ⟨d, _, m', hok, hd⟩

theorem sameOutsidePayload_copy (h : BlockHeap) {count : Nat} (hcount : count ≤ d.size)
    (m : Memory) (source : Nat) :
    h.SameOutsidePayload d m (m.copy source (h.payloadAddress d.offset) count) := by
  intro a ha
  rw [Memory.read_copy, if_neg]
  rintro ⟨hlow, hhigh⟩
  exact ha (inPayload_iff.2 ⟨hlow, by omega⟩)

theorem clean_copy (hw : h.WellFormed m blocks) (hb : b ∈ blocks) (hd : d ∈ blocks)
    (hroom : b.size ≤ d.size) (hc : h.Clean m blocks) :
    h.Clean (m.copy (h.payloadAddress b.offset) (h.payloadAddress d.offset) b.size) blocks := by
  apply (sameOutsidePayload_copy h hroom m _).clean _ hc hd hw.tiles
  intro o hbounds ho
  obtain ⟨-, hbstop, hbsize⟩ := hw.tiles.bounds hb
  have hboffset := hw.tiles.offset_aligned (Nat.zero_mod _) (mem_offsets.2 ⟨b, hb, rfl⟩)
  have hdoffset := hw.tiles.offset_aligned (Nat.zero_mod _) (mem_offsets.2 ⟨d, hd, rfl⟩)
  obtain ⟨hlow, hhigh⟩ := ho
  have haligned := hbounds.2
  -- what is copied to a place was at one before: the alignment of both payloads is the same
  by_cases hcopied : o < d.offset + headerSize + b.size
  · have hplace : h.InPayload b (h.base + (b.offset + (o - d.offset))) ∧
        h.InBounds (b.offset + (o - d.offset)) := by
      simp only [InPayload, InBounds, BlockInfo.stop, headerSize] at *
      omega
    have hword : (m.copy (h.payloadAddress b.offset) (h.payloadAddress d.offset)
        b.size).readWord (h.base + o) = m.readWord (h.base + (b.offset + (o - d.offset))) := by
      apply Memory.readWord_shift
      intro i hi
      rw [Memory.read_copy, if_pos]
      · congr 1
        simp only [payloadAddress] at *
        omega
      · simp only [payloadAddress, headerSize] at *
        omega
    rw [headerAt_eq_none, hword, ← headerAt_eq_none]
    exact hc _ hplace.2 (hw.tiles.not_offset_of_payload hb hplace.1)
  · have hkept : h.headerAt (m.copy (h.payloadAddress b.offset) (h.payloadAddress d.offset)
        b.size) o = h.headerAt m o := by
      apply Header.read?_congr
      intro a habove _
      rw [Memory.read_copy, if_neg]
      simp only [payloadAddress]
      omega
    rw [hkept]
    exact hc o hbounds (hw.tiles.not_offset_of_payload hd ⟨hlow, hhigh⟩)

theorem Effect.copied {blocks₁ : List BlockInfo} (he : h.Effect m blocks m₁ blocks₁ none (some d))
    (hb : b ∈ inUse blocks) (hfresh : ∀ e ∈ inUse blocks, e.offset ≠ d.offset)
    (hlonger : b.size ≤ d.size) :
    h.Effect m blocks (m₁.copy (h.payloadAddress b.offset) (h.payloadAddress d.offset) b.size)
      blocks₁ none (some d) := by
  have hd₁ := (he.mem_inUse d).2 (.inl rfl)
  have hb₁ := (he.mem_inUse b).2 (.inr ⟨hb, by simp⟩)
  exact he.fill (fun e hein _ heq => hfresh e hein (by rw [heq]))
    (sameOutsidePayload_copy h hlonger m₁ (h.payloadAddress b.offset))
    (clean_copy he.wellFormed (BlockHeap.mem_inUse.1 hb₁).1 (BlockHeap.mem_inUse.1 hd₁).1 hlonger)

theorem Effect.then_release {blocks₁ blocks₂ : List BlockInfo}
    (h₁ : h.Effect m blocks m₁ blocks₁ none (some d))
    (h₂ : h.Effect m₁ blocks₁ m₂ blocks₂ (some b) none) (hne : d ≠ b) :
    h.Effect m blocks m₂ blocks₂ (some b) (some d) := by
  refine ⟨h₂.wellFormed, ?_, ?_, fun a ha => (h₂.outside a ha).trans (h₁.outside a ha),
    fun hc => h₂.clean (h₁.clean hc)⟩
  · intro e
    rw [h₂.mem_inUse, h₁.mem_inUse]
    simp only [Option.mem_def, reduceCtorEq, false_or, not_false_eq_true, and_true,
      Option.some.injEq]
    constructor
    · rintro ⟨rfl | he, hneb⟩
      · exact .inl rfl
      · exact .inr ⟨he, hneb⟩
    · rintro (rfl | ⟨he, hneb⟩)
      · exact ⟨.inl rfl, hne.symm⟩
      · exact ⟨.inr he, hneb⟩
  · intro e he hneb a ha
    have he₁ := (h₁.mem_inUse e).2 (.inr ⟨he, by simp⟩)
    rw [h₂.kept e he₁ hneb a ha, h₁.kept e he (by simp) a ha]

theorem min_size_of_move {newSize payload : Nat} (hs : payloadSize? newSize = some payload)
    (hsize : b.size % headerSize = 0) (hbig : b.size < payload) :
    min b.size newSize = b.size := by
  have hpayload := (payloadSize?_eq_some hs).1
  have hlt : payload < max newSize 1 + headerSize := by
    unfold payloadSize? Word.roundUp? at hs
    split at hs
    · rw [← Option.some.inj hs]
      exact Word.roundUp_lt (by decide)
    · simp at hs
  -- both sizes are multiples of the header size
  simp only [headerSize] at *
  omega

theorem resize_move_effect (hp : h.Placed) (hw : h.WellFormed m (before ++ b :: after))
    (hused : b.free = false) {newSize payload : Nat} (hs : payloadSize? newSize = some payload)
    (hbig : b.size < payload)
    (hsmall : ∀ c ∈ after.head?, c.free = true → b.size + headerSize + c.size < payload) :
    (∃ error : HeapError, error.isFatal = false ∧
      h.resize (h.payloadAddress b.offset) newSize m = .error (.report error) m) ∨
    ∃ d blocks' m', h.resize (h.payloadAddress b.offset) newSize m =
        .ok (h.payloadAddress d.offset) m' ∧
      newSize ≤ d.size ∧ d.free = false ∧
      (∀ e ∈ inUse (before ++ b :: after), e.offset ≠ d.offset) ∧
      (∀ i, i < b.size →
        m'.read (h.payloadAddress d.offset + i) = m.read (h.payloadAddress b.offset + i)) ∧
      h.Effect m (before ++ b :: after) m' blocks' (some b) (some d) := by
  rw [resize_move hp hw hused hs hbig hsmall]
  rcases allocate_effect hp hw newSize with
    ⟨error, hrecoverable, hfail⟩ | ⟨d, blocks₁, m₁, hok, hroom, hdused, hfresh, he⟩
  · exact .inl ⟨error, hrecoverable, bind_of_error hfail⟩
  · right
    have hb : b ∈ inUse (before ++ b :: after) := mem_inUse.2 ⟨by simp, hused⟩
    have hbsize := (hw.tiles.bounds (mem_inUse.1 hb).1).2.2
    have hcount := min_size_of_move hs hbsize hbig
    -- the new block was free, so it is not the one that moves
    have hne : b ≠ d := fun heq => hfresh b hb (by rw [heq])
    have hd₁ := (he.mem_inUse d).2 (.inl rfl)
    have hb₁ := (he.mem_inUse b).2 (.inr ⟨hb, by simp⟩)
    have hcopied := he.copied hb hfresh (by omega)
    -- the copy writes to the new payload only, and the old block is still accepted
    obtain ⟨blocks₂, m₂, hrelease, he₂⟩ := release_effect hp hcopied.wellFormed hb₁
    refine ⟨d, blocks₂, m₂, ?_, hroom, hdused, hfresh, ?_, hcopied.then_release he₂ hne.symm⟩
    · refine (bind_of_ok hok).trans ?_
      rw [hcount]
      refine (bind_of_ok rfl).trans ?_
      exact bind_of_ok hrelease
    · intro i hi
      rw [he₂.kept d hd₁ (by simpa using hne) _ (inPayload_add (by omega)), Memory.read_copy,
        if_pos (by omega), Nat.add_sub_cancel_left]
      exact he.kept b hb (by simp) _ (inPayload_add hi)

theorem resize_effect (hp : h.Placed) (hw : h.WellFormed m blocks) (hb : b ∈ inUse blocks)
    (newSize : Nat) :
    (∃ error : HeapError, error.isFatal = false ∧
      h.resize (h.payloadAddress b.offset) newSize m = .error (.report error) m) ∨
    ∃ d blocks' m', h.resize (h.payloadAddress b.offset) newSize m =
        .ok (h.payloadAddress d.offset) m' ∧
      newSize ≤ d.size ∧ d.free = false ∧
      (d.offset = b.offset ∨ ∀ e ∈ inUse blocks, e.offset ≠ d.offset) ∧
      (∀ i, i < b.size → i < newSize →
        m'.read (h.payloadAddress d.offset + i) = m.read (h.payloadAddress b.offset + i)) ∧
      h.Effect m blocks m' blocks' (some b) (some d) := by
  obtain ⟨hmem, hused⟩ := mem_inUse.1 hb
  obtain ⟨before, after, rfl⟩ := List.append_of_mem hmem
  cases hs : payloadSize? newSize with
  | none => exact .inl ⟨_, rfl, resize_overflow hp hw hused hs⟩
  | some payload =>
      have hsize := (payloadSize?_eq_some hs).2.1
      by_cases hfits : payload ≤ b.size ∨
          ∃ c ∈ after.head?, c.free = true ∧ payload ≤ b.size + headerSize + c.size
      · obtain ⟨d, blocks', m', hok, hoffset, hdused, hroom, hkept, he⟩ :=
          resize_in_place_effect hp hw hused hs hfits
        refine .inr ⟨d, blocks', m', ?_, by omega, hdused, .inl hoffset, ?_, he⟩
        · rw [hok, hoffset]
        · exact fun i hi hnew => hkept i hi (by omega)
      · rw [not_or] at hfits
        obtain ⟨hbig, hsmall⟩ := hfits
        have hsuccessor : ∀ c ∈ after.head?, c.free = true →
            b.size + headerSize + c.size < payload := by
          intro c hc hfree
          by_contra hle
          exact hsmall ⟨c, hc, hfree, by omega⟩
        rcases resize_move_effect hp hw hused hs (by omega) hsuccessor with
          hfail | ⟨d, blocks', m', hok, hroom, hdused, hfresh, hkept, he⟩
        · exact .inl hfail
        · exact .inr ⟨d, blocks', m', hok, hroom, hdused, .inr hfresh,
            fun i hi _ => hkept i hi, he⟩

/-! ## Zeroed allocation -/

theorem sameOutsidePayload_fill (h : BlockHeap) (d : BlockInfo) (m : Memory) (byte : UInt8) :
    h.SameOutsidePayload d m (m.fill (h.payloadAddress d.offset) d.size byte) := by
  intro a ha
  rw [Memory.read_fill, if_neg]
  rintro ⟨hlow, hhigh⟩
  exact ha (inPayload_iff.2 ⟨hlow, by omega⟩)

theorem read_fill_payload {i : Nat} (hi : i < d.size) (m : Memory) (byte : UInt8) :
    (m.fill (h.payloadAddress d.offset) d.size byte).read (h.payloadAddress d.offset + i) =
      byte := by
  rw [Memory.read_fill, if_pos (by omega)]

theorem clean_fill (hw : h.WellFormed m blocks) (hd : d ∈ blocks) (hc : h.Clean m blocks) :
    h.Clean (m.fill (h.payloadAddress d.offset) d.size 0) blocks := by
  apply (sameOutsidePayload_fill h d m 0).clean _ hc hd hw.tiles
  intro o hbounds ho
  have hdoffset := hw.tiles.offset_aligned (Nat.zero_mod _) (mem_offsets.2 ⟨d, hd, rfl⟩)
  have hdsize := (hw.tiles.bounds hd).2.2
  have haligned := hbounds.2
  obtain ⟨hlow, hhigh⟩ := ho
  have hzero : (m.fill (h.payloadAddress d.offset) d.size 0).readWord (h.base + o) = 0 := by
    apply Memory.readWord_of_zeros
    intro a habove hbelow
    rw [Memory.read_fill, if_pos]
    simp only [payloadAddress, BlockInfo.stop, headerSize] at *
    omega
  rw [headerAt_eq_none, hzero]
  decide

theorem allocateZeroed_effect (hp : h.Placed) (hw : h.WellFormed m blocks) (count size : Nat) :
    (∃ error : HeapError, error.isFatal = false ∧
      h.allocateZeroed count size m = .error (.report error) m) ∨
    ∃ d blocks' m', h.allocateZeroed count size m = .ok (h.payloadAddress d.offset) m' ∧
      count * size ≤ d.size ∧ d.free = false ∧ (∀ e ∈ inUse blocks, e.offset ≠ d.offset) ∧
      (∀ i, i < d.size → m'.read (h.payloadAddress d.offset + i) = 0) ∧
      h.Effect m blocks m' blocks' none (some d) := by
  cases htotal : Word.mul? count size with
  | none =>
      left
      refine ⟨.sizeOverflow count size, rfl, ?_⟩
      unfold allocateZeroed
      rw [htotal]
      rfl
  | some total =>
      obtain ⟨rfl, -⟩ := Word.mul?_eq_some.1 htotal
      simp only [allocateZeroed, htotal]
      rcases allocate_effect hp hw (count * size) with
        ⟨error, hrecoverable, hfail⟩ | ⟨d, blocks', m', hok, hroom, hused, hfresh, he⟩
      · exact .inl ⟨error, hrecoverable, bind_of_error hfail⟩
      · right
        have hd := (mem_inUse.1 ((he.mem_inUse d).2 (.inl rfl))).1
        refine ⟨d, blocks', _, ?_, hroom, hused, hfresh, fun i hi => read_fill_payload hi m' 0,
          he.fill (fun e hein _ heq => hfresh e hein (by rw [heq]))
            (sameOutsidePayload_fill h d m' 0) (clean_fill he.wellFormed hd)⟩
        obtain ⟨before, after, rfl⟩ := List.append_of_mem hd
        have hresolve := usedBlock_ok hp he.wellFormed hused
        refine (bind_of_ok hok).trans ?_
        rw [bind_of_ok (inspect_of_ok hresolve)]
        rfl

theorem init_eq_ok {h₀ : BlockHeap} {start size : Nat} (hinit : h₀.init start size m = .ok h m') :
    0 < start ∧ start ≤ h.base ∧ h.base % headerSize = 0 ∧ h.base + h.arenaSize ≤ start + size ∧
      h.arenaSize % headerSize = 0 ∧ 2 * headerSize ≤ h.arenaSize ∧
      m' = Header.write m (h.base + 0) ⟨true, h.arenaSize - headerSize, none, none⟩ := by
  have hup : start ≤ Word.roundUp start headerSize := Word.le_roundUp (by decide)
  have hbase := Word.roundUp_mod start headerSize
  unfold init at hinit
  generalize Word.roundUp start headerSize = base at hup hbase hinit
  have hfit := Nat.div_mul_le_self (size - (base - start)) headerSize
  have harena := Nat.mul_mod_left ((size - (base - start)) / headerSize) headerSize
  simp only at hinit
  generalize (size - (base - start)) / headerSize * headerSize = arenaSize at hfit harena hinit
  split at hinit
  · exact absurd hinit MemoryM.stop_ne_ok
  split at hinit
  · exact absurd hinit MemoryM.stop_ne_ok
  split at hinit
  · exact absurd hinit MemoryM.stop_ne_ok
  · rename_i hzero hlarge
    obtain ⟨_, m₁, hstore, hpure⟩ := MemoryM.bind_eq_ok.1 hinit
    obtain ⟨rfl, rfl⟩ := MemoryM.pure_eq_ok.1 hpure
    obtain ⟨-, rfl⟩ := store_eq_ok.1 hstore
    simp only [headerSize] at *
    refine ⟨by omega, by omega, by omega, by omega, harena, by omega, trivial⟩

theorem init_spec {h₀ : BlockHeap} {start size : Nat} (hregion : start + size ≤ Word.limit)
    (hinit : h₀.init start size m = .ok h m') :
    h.Placed ∧ h.WellFormed m' [⟨0, h.arenaSize - headerSize, true⟩] ∧
      h.SameOutside [0] m m' := by
  obtain ⟨hstart, hlow, haligned, hhigh, harena, hlarge, rfl⟩ := init_eq_ok hinit
  have hpos : 0 < h.arenaSize := Nat.lt_of_lt_of_le (by decide) hlarge
  have hp : h.Placed := ⟨by omega, haligned, hpos, by omega⟩
  have hstop : (⟨0, h.arenaSize - headerSize, true⟩ : BlockInfo).stop = h.arenaSize := by
    simp only [BlockInfo.stop]
    omega
  have hheader : h.headerOf none ⟨0, h.arenaSize - headerSize, true⟩ =
      ⟨true, h.arenaSize - headerSize, none, none⟩ := by
    simp [headerOf, hstop, onward]
  have ht : Tiles 0 h.arenaSize [⟨0, h.arenaSize - headerSize, true⟩] := by
    refine ⟨rfl, ?_, hstop⟩
    simp only [headerSize] at *
    omega
  rw [← hheader]
  refine ⟨hp, ⟨ht, ?_, List.isChain_singleton _⟩, sameOutside_write _ _ _⟩
  exact linked_write_cons hp ht (Nat.zero_mod _) (by simp) trivial

end EarlyBoot.BlockHeap
