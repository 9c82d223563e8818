import EarlyBoot.Proofs.BlockHeap.Split

/-!
# The operations on a well-formed heap

What `allocate`, `release` and `resize` do to the list of blocks.  An operation
on a well-formed heap either reports a recoverable error before it writes
anything, or rewrites the arena: `allocate` carves the first free block with
enough room, `release` marks a block free and melts it with its free neighbours,
and `resize` carves the block in place, carves it out of the block and its free
successor together, or moves it.
-/

namespace EarlyBoot.BlockHeap

open MemoryM (bind_of_ok bind_of_error inspect_of_ok lift_of_ok lift_of_error)

variable {h : BlockHeap} {m : Memory} {b c : BlockInfo}
  {blocks before after rest : List BlockInfo}

theorem WellFormed.of_rewrites {m' : Memory} {blocks' : List BlockInfo}
    (hr : h.Rewrites none m blocks m' blocks') (ht : Tiles 0 h.arenaSize blocks')
    (hc : Coalesced blocks') : h.WellFormed m' blocks' :=
  ⟨ht, hr.linked, hc⟩

theorem payloadSize?_eq_some {size payload : Nat} (hs : payloadSize? size = some payload) :
    payload % headerSize = 0 ∧ size ≤ payload ∧ headerSize ≤ payload := by
  unfold payloadSize? Word.roundUp? at hs
  split at hs
  · have heq : Word.roundUp (max size 1) headerSize = payload := Option.some.inj hs
    have hle : max size 1 ≤ Word.roundUp (max size 1) headerSize := Word.le_roundUp (by decide)
    have hmod := Word.roundUp_mod (max size 1) headerSize
    rw [heq] at hle hmod
    simp only [headerSize] at *
    omega
  · simp at hs

theorem requireInitialized_of_placed (hp : h.Placed) (m : Memory) :
    h.requireInitialized m = .ok () m := by
  unfold requireInitialized
  rw [if_pos hp.isInitialized]
  rfl

theorem payloadSize_of_some {size payload : Nat} (hs : payloadSize? size = some payload) :
    payloadSize size = .ok payload := by
  unfold payloadSize
  rw [hs]

theorem payloadSize_of_none {size : Nat} (hs : payloadSize? size = none) :
    payloadSize size = .error (.report (.sizeOverflow 1 size)) := by
  unfold payloadSize
  rw [hs]

structure Around (h : BlockHeap) (m : Memory) (before : List BlockInfo) (b : BlockInfo)
    (after : List BlockInfo) : Prop where
  tiles_before : Tiles 0 b.offset before
  tiles : Tiles b.offset h.arenaSize (b :: after)
  aligned : b.offset % headerSize = 0
  linked_before : h.Linked m none before
  linked : h.Linked m (lastLink none before) (b :: after)
  previous_lt : ∀ o ∈ lastLink none before, o < h.arenaSize

theorem around (ht : Tiles 0 h.arenaSize (before ++ b :: after))
    (hl : h.Linked m none (before ++ b :: after)) : h.Around m before b after := by
  obtain ⟨middle, htbefore, htb⟩ := tiles_append.1 ht
  obtain ⟨hlbefore, hlb⟩ := linked_append.1 hl
  obtain rfl : b.offset = middle := htb.1
  refine ⟨htbefore, htb, htbefore.aligned (Nat.zero_mod _), hlbefore, hlb, ?_⟩
  intro o ho
  exact Nat.lt_of_lt_of_le (lastLink_lt htbefore (by simp) o ho) htb.le

theorem WellFormed.around (hw : h.WellFormed m (before ++ b :: after)) :
    h.Around m before b after :=
  BlockHeap.around hw.tiles hw.linked

theorem Around.prepend {m' : Memory} {blocks' : List BlockInfo} (ha : h.Around m before b after)
    (hr : h.Rewrites (lastLink none before) m (b :: after) m' blocks')
    (ht : Tiles b.offset h.arenaSize blocks') :
    h.Rewrites none m (before ++ b :: after) m' (before ++ blocks') :=
  hr.prepend (Nat.zero_mod _) ha.tiles_before ha.tiles ht ha.linked_before

theorem readWord_of_used {offset : Nat} {header : Header}
    (hh : h.headerAt m offset = some header) (hused : header.free = false) :
    m.readWord (h.base + offset) = usedTag := by
  obtain ⟨htag, rfl⟩ := Header.read?_eq_some.1 hh
  have hne : ¬ m.readWord (h.base + offset) = freeTag := by simpa using hused
  exact htag.resolve_left hne

theorem readWord_of_free {offset : Nat} {header : Header}
    (hh : h.headerAt m offset = some header) (hfree : header.free = true) :
    m.readWord (h.base + offset) = freeTag := by
  obtain ⟨-, rfl⟩ := Header.read?_eq_some.1 hh
  simpa using hfree

theorem verifyPrevious_ok (hp : h.Placed) (hw : h.WellFormed m (before ++ b :: after)) :
    h.verifyPrevious m b.offset (lastLink none before) = .ok () := by
  cases before using List.reverseRecOn with
  | nil =>
      have hzero : b.offset = 0 := hw.tiles.1
      simp [verifyPrevious, lastLink, hzero, pure, Except.pure]
  | append_singleton before a =>
      rw [List.append_assoc] at hw
      have ha := hw.around
      have hnext : h.successor a.offset (h.headerOf (lastLink none before) a) =
          .ok (some b.offset) := by
        rw [successor_headerOf hp ha.tiles.2.2.le, onward_eq_head ha.tiles.2.2]
        rfl
      rw [lastLink_append]
      simp [verifyPrevious, lastLink, load_of_linked ha.tiles ha.aligned ha.linked, hnext, bind,
        Except.bind, pure, Except.pure]

theorem verifyNext_ok (hp : h.Placed) (hw : h.WellFormed m (before ++ b :: after)) :
    h.verifyNext m b.offset (h.headerOf (lastLink none before) b) = .ok () := by
  have ha := hw.around
  unfold verifyNext
  rw [successor_headerOf hp ha.tiles.2.2.le, onward_eq_head ha.tiles.2.2]
  cases after with
  | nil => rfl
  | cons c rest =>
      have hc := load_of_linked ha.tiles.2.2 (ha.tiles.stop_aligned ha.aligned) ha.linked.2
      simp [bind, Except.bind, hc, headerOf, pure, Except.pure]

theorem verifyLinks_ok (hp : h.Placed) (hw : h.WellFormed m (before ++ b :: after)) :
    h.verifyLinks m b.offset (h.headerOf (lastLink none before) b) = .ok () := by
  unfold verifyLinks
  have hprevious := verifyPrevious_ok hp hw
  simp only [headerOf] at hprevious ⊢
  rw [hprevious]
  exact verifyNext_ok hp hw

theorem usedBlock_ok (hp : h.Placed) (hw : h.WellFormed m (before ++ b :: after))
    (hused : b.free = false) :
    h.usedBlock m (h.payloadAddress b.offset) =
      .ok (b.offset, h.headerOf (lastLink none before) b) := by
  have ha := hw.around
  have hoffset : h.payloadAddress b.offset - (h.base + headerSize) = b.offset := by
    simp only [payloadAddress]
    omega
  have hlow : h.base + headerSize ≤ h.payloadAddress b.offset := by
    simp only [payloadAddress]
    omega
  have hinBounds := ha.tiles.inBounds ha.aligned (o := b.offset) (by simp)
  unfold usedBlock
  simp only [hoffset]
  rw [if_pos ⟨hlow, hinBounds⟩, if_pos (readWord_of_used ha.linked.1 hused),
    load_of_linked ha.tiles ha.aligned ha.linked]
  simp only [bind, Except.bind, verifyLinks_ok hp hw]
  rfl

theorem usableSize_ok (hp : h.Placed) (hw : h.WellFormed m blocks) (hb : b ∈ blocks)
    (hused : b.free = false) : h.usableSize m (h.payloadAddress b.offset) = .ok b.size := by
  obtain ⟨before, after, rfl⟩ := List.append_of_mem hb
  unfold usableSize
  simp only [hp.isInitialized, usedBlock_ok hp hw hused]
  rfl

/-! ## Allocation -/

theorem allocate_overflow (hp : h.Placed) {size : Nat} (hs : payloadSize? size = none)
    (m : Memory) : h.allocate size m = .error (.report (.sizeOverflow 1 size)) m := by
  unfold allocate
  rw [bind_of_ok (requireInitialized_of_placed hp m),
    bind_of_error (lift_of_error (payloadSize_of_none hs) m)]

theorem allocate_full (hp : h.Placed) (hw : h.WellFormed m blocks) {size payload : Nat}
    (hs : payloadSize? size = some payload)
    (hfits : ∀ b ∈ blocks, b.free = true → b.size < payload) :
    h.allocate size m = .error (.report (.outOfMemory size)) m := by
  unfold allocate
  rw [bind_of_ok (requireInitialized_of_placed hp m),
    bind_of_ok (lift_of_ok (payloadSize_of_some hs) m),
    bind_of_ok (inspect_of_ok (hw.findFree_none hp hfits))]
  rfl

theorem allocate_fit (hp : h.Placed) (hw : h.WellFormed m (before ++ b :: after))
    {size payload : Nat} (hs : payloadSize? size = some payload)
    (hfits : ∀ c ∈ before, c.free = true → c.size < payload) (hfree : b.free = true)
    (hroom : payload ≤ b.size) :
    ∃ m', h.allocate size m = .ok (h.payloadAddress b.offset) m' ∧
      h.Rewrites none m (before ++ b :: after) m' (before ++ h.carve b payload after) := by
  have ha := hw.around
  have hpayload := (payloadSize?_eq_some hs).1
  have hcarve : h.carve { b with free := false } payload after = h.carve b payload after := rfl
  obtain ⟨m', hsettle, hr⟩ :=
    settle_spec (b := { b with free := false }) hp ha.tiles ha.aligned ha.previous_lt hpayload
      hroom rfl ha.linked.2
  refine ⟨m', ?_, ha.prepend ?_ (hcarve ▸ ha.tiles.carve hpayload)⟩
  · unfold allocate
    rw [bind_of_ok (requireInitialized_of_placed hp m),
      bind_of_ok (lift_of_ok (payloadSize_of_some hs) m),
      bind_of_ok (inspect_of_ok (hw.findFree_some hp hfits hfree hroom))]
    exact bind_of_ok hsettle
  · exact ⟨hr.linked, hr.same, hr.erased⟩

theorem WellFormed.carve (hw : h.WellFormed m (before ++ b :: after)) {m' : Memory}
    {payload : Nat} (hpayload : payload % headerSize = 0)
    (hr : h.Rewrites none m (before ++ b :: after) m' (before ++ h.carve b payload after)) :
    h.WellFormed m' (before ++ h.carve b payload after) := by
  have ha := hw.around
  refine .of_rewrites hr ?_ hw.coalesced.carve
  exact tiles_append.2 ⟨b.offset, ha.tiles_before, ha.tiles.carve hpayload⟩

/-! ## Release -/

theorem push_eq_cons (b : BlockInfo) (rest : List BlockInfo) :
    ∃ size rest', push b rest = { b with size } :: rest' := by
  cases rest with
  | nil => exact ⟨b.size, [], rfl⟩
  | cons c rest =>
      by_cases hfree : b.free = true ∧ c.free = true
      · exact ⟨_, rest, push_of_free hfree.1 hfree.2⟩
      · exact ⟨b.size, c :: rest, push_of_apart (by simpa using hfree)⟩

theorem coalesce_spec (hp : h.Placed) (ht : Tiles 0 h.arenaSize (before ++ b :: after))
    (hl : h.Linked m none (before ++ b :: after)) (hbefore : Coalesced before)
    (hafter : Coalesced after) (hfree : b.free = true) :
    ∃ m', h.coalesce b.offset m = .ok () m' ∧
      h.Rewrites none m (before ++ b :: after) m' (merged (before ++ b :: after)) := by
  have ha := around ht hl
  obtain ⟨m₁, hbehind, hr⟩ :=
    mergeBehind_spec hp ha.tiles ha.aligned ha.previous_lt hfree hafter ha.linked
  have hr₁ := ha.prepend hr ha.tiles.push
  have ht₁ := tiles_append.2 ⟨b.offset, ha.tiles_before, ha.tiles.push⟩
  have hsub : offsets (before ++ push b after) ⊆ offsets (before ++ b :: after) := by
    rw [offsets_append, offsets_append, offsets_cons]
    intro o ho
    rcases List.mem_append.1 ho with ho | ho
    · exact List.mem_append_left _ ho
    · exact List.mem_append_right _ (offsets_push_subset ho)
  have haligned : ∀ o ∈ offsets (before ++ b :: after) ++
      offsets (before.foldr push (push b after)), o % headerSize = 0 := by
    intro o ho
    rcases List.mem_append.1 ho with ho | ho
    · exact ht.offset_aligned (Nat.zero_mod _) ho
    · exact ht₁.foldr_push.offset_aligned (Nat.zero_mod _) ho
  obtain ⟨size, rest, hpush⟩ := push_eq_cons b after
  rw [merged_around hafter]
  rw [hpush] at hr₁ ht₁ hsub haligned ⊢
  obtain ⟨m₂, hahead, hr₂⟩ :=
    mergeAhead_spec (b := { b with size }) hp ht₁ hbefore hfree hr₁.linked
  exact ⟨m₂, (bind_of_ok hbehind).trans hahead, hr₁.trans hr₂ hsub haligned⟩

theorem release_spec (hp : h.Placed) (hw : h.WellFormed m (before ++ b :: after))
    (hused : b.free = false) :
    ∃ m', h.release (h.payloadAddress b.offset) m = .ok () m' ∧
      h.Rewrites none m (before ++ b :: after) m'
        (merged (before ++ { b with free := true } :: after)) := by
  have ha := hw.around
  have hinBounds := ha.tiles.inBounds ha.aligned (o := b.offset) (by simp)
  have htiles : Tiles b.offset h.arenaSize ({ b with free := true } :: after) := ha.tiles
  have hstored : h.Rewrites (lastLink none before) m (b :: after)
      (Header.write m (h.base + b.offset)
        (h.headerOf (lastLink none before) { b with free := true }))
      ({ b with free := true } :: after) := by
    apply Rewrites.store_front hp htiles ha.aligned ha.previous_lt _ ha.linked.2
      (SameOutside.refl _)
    · intro o ho hne hgone
      exact absurd ((List.mem_cons.1 ho).resolve_left hne) hgone
    · exact fun _ ho => ha.tiles.offset_aligned ha.aligned ho
  have hr₁ := ha.prepend hstored htiles
  have ht₁ := tiles_append.2 ⟨b.offset, ha.tiles_before, htiles⟩
  obtain ⟨hbefore, hafter, -⟩ := List.isChain_append.1 hw.coalesced
  obtain ⟨m₂, hcoalesce, hr₂⟩ :=
    coalesce_spec hp ht₁ hr₁.linked hbefore (List.isChain_cons.1 hafter).2 rfl
  refine ⟨m₂, ?_, hr₁.trans hr₂ ?_ ?_⟩
  · unfold release
    rw [bind_of_ok (requireInitialized_of_placed hp m),
      bind_of_ok (inspect_of_ok (usedBlock_ok hp hw hused))]
    exact (bind_of_ok (store_of_inBounds hinBounds _ m)).trans hcoalesce
  · simp
  · intro o ho
    rcases List.mem_append.1 ho with ho | ho
    · exact hw.tiles.offset_aligned (Nat.zero_mod _) ho
    · exact ht₁.merged.offset_aligned (Nat.zero_mod _) ho

theorem WellFormed.released (hw : h.WellFormed m (before ++ b :: after)) {m' : Memory}
    (hr : h.Rewrites none m (before ++ b :: after) m'
      (merged (before ++ { b with free := true } :: after))) :
    h.WellFormed m' (merged (before ++ { b with free := true } :: after)) := by
  have ha := hw.around
  refine .of_rewrites hr (Tiles.merged ?_) (coalesced_merged _)
  exact tiles_append.2 ⟨b.offset, ha.tiles_before, ha.tiles⟩

/-! ## Resizing -/

variable {payload : Nat}

theorem shrink_spec (hp : h.Placed) (hw : h.WellFormed m (before ++ b :: after))
    (hused : b.free = false) (hpayload : payload % headerSize = 0) (hroom : payload ≤ b.size) :
    ∃ m', h.shrink b.offset (h.headerOf (lastLink none before) b) payload m = .ok () m' ∧
      h.Rewrites none m (before ++ b :: after) m' (before ++ h.carve b payload after) := by
  have ha := hw.around
  rw [shrink_eq hroom]
  by_cases hsplits : h.Splits b.size payload
  · obtain ⟨m', hsettle, hr⟩ :=
      settle_spec hp ha.tiles ha.aligned ha.previous_lt hpayload hroom hused ha.linked.2
    rw [settle_eq hroom] at hsettle
    have hcut := (if_pos hsplits).symm.trans hsettle
    exact ⟨m', (if_pos hsplits).trans hcut, ha.prepend hr (ha.tiles.carve hpayload)⟩
  · refine ⟨m, if_neg hsplits, ?_⟩
    rw [carve_of_not_splits hsplits, ← hused]
    exact Rewrites.refl hw.linked

theorem growInPlace_refuse (hp : h.Placed) (hw : h.WellFormed m (before ++ b :: after))
    (hsmall : ∀ c ∈ after.head?, c.free = true → b.size + headerSize + c.size < payload) :
    h.growInPlace b.offset (h.headerOf (lastLink none before) b) payload m = .ok false m := by
  have ha := hw.around
  unfold growInPlace
  simp only [headerOf, onward_eq_head ha.tiles.2.2]
  cases after with
  | nil => rfl
  | cons c rest =>
      obtain ⟨hfirst, hsecond⟩ := add_sizes hp ha.tiles
      have hrefuse : ¬ (c.free = true ∧ payload ≤ b.size + headerSize + c.size) := by
        rintro ⟨hfree, hle⟩
        have := hsmall c (by simp) hfree
        omega
      simp only [List.head?_cons, Option.map_some]
      rw [bind_of_ok (inspect_of_ok (load_of_linked ha.tiles.2.2
        (ha.tiles.stop_aligned ha.aligned) ha.linked.2))]
      rw [bind_of_ok (lift_of_ok hfirst m)]
      refine (bind_of_ok (lift_of_ok hsecond m)).trans ?_
      exact congrFun (if_neg hrefuse) m

theorem growInPlace_fit (hp : h.Placed) (hw : h.WellFormed m (before ++ b :: c :: rest))
    (hused : b.free = false) (hfree : c.free = true) (hpayload : payload % headerSize = 0)
    (hroom : payload ≤ b.size + headerSize + c.size) :
    ∃ m', h.growInPlace b.offset (h.headerOf (lastLink none before) b) payload m = .ok true m' ∧
      h.Rewrites none m (before ++ b :: c :: rest) m'
        (before ++ h.carve { b with size := b.size + headerSize + c.size } payload rest) := by
  have ha := hw.around
  have hstop := ha.tiles.stop_aligned ha.aligned
  have hjoin := ha.tiles.join
  have hcarve := hjoin.carve (h := h) hpayload
  obtain ⟨m₁, hrelink, hlinked, hsame⟩ := absorb_spec hp ha.tiles ha.aligned ha.linked.2.2
  obtain ⟨m', hsettle, hr⟩ :=
    settle_spec (b := { b with size := b.size + headerSize + c.size }) hp hjoin ha.aligned
      ha.previous_lt hpayload hroom hused hlinked
  refine ⟨m', ?_, ha.prepend (hr.after_erasing ?_ ?_ ?_ ?_) hcarve⟩
  · obtain ⟨hfirst, hsecond⟩ := add_sizes hp ha.tiles
    -- the header that is settled is that of the two blocks as one
    have hgrown : h.headerOf (lastLink none before)
        { b with size := b.size + headerSize + c.size } =
          ⟨b.free, b.size + headerSize + c.size, lastLink none before, h.onward c.stop⟩ := by
      simp only [headerOf, ha.tiles.join_stop]
    rw [hgrown] at hsettle
    unfold growInPlace
    simp only [headerOf, onward_eq_head ha.tiles.2.2, List.head?_cons, Option.map_some]
    rw [bind_of_ok (inspect_of_ok (load_of_linked ha.tiles.2.2 hstop ha.linked.2)),
      bind_of_ok (lift_of_ok hfirst m)]
    refine (bind_of_ok (lift_of_ok hsecond m)).trans ?_
    refine (congrFun (if_pos ⟨hfree, hroom⟩) m).trans ?_
    refine (bind_of_ok hrelink).trans ?_
    refine (bind_of_ok (erase_of_inBounds (ha.tiles.2.2.inBounds hstop (by simp)) m₁)).trans ?_
    exact bind_of_ok hsettle
  · apply hsame.mono
    intro o ho
    simp only [offsets_cons, List.mem_append, List.mem_cons] at ho ⊢
    tauto
  · intro o ho hgone
    simp only [offsets_cons, List.mem_cons, not_or] at ho hgone
    have heq : o = c.offset := (ho.resolve_left hgone.1).resolve_right hgone.2
    rw [heq]
    exact erased_erase m₁ c.offset
  · exact List.cons_subset_cons _ (List.subset_cons_self _ _)
  · intro o ho
    rcases List.mem_append.1 ho with ho | ho
    · exact ha.tiles.offset_aligned ha.aligned ho
    · exact hcarve.offset_aligned ha.aligned ho

theorem WellFormed.grown (hw : h.WellFormed m (before ++ b :: c :: rest)) (hused : b.free = false)
    {m' : Memory} (hpayload : payload % headerSize = 0)
    (hr : h.Rewrites none m (before ++ b :: c :: rest) m'
      (before ++ h.carve { b with size := b.size + headerSize + c.size } payload rest)) :
    h.WellFormed m'
      (before ++ h.carve { b with size := b.size + headerSize + c.size } payload rest) := by
  have ha := hw.around
  refine .of_rewrites hr ?_ (hw.coalesced.join_used hused).carve
  exact tiles_append.2 ⟨b.offset, ha.tiles_before, ha.tiles.join.carve hpayload⟩

theorem resize_overflow (hp : h.Placed) (hw : h.WellFormed m (before ++ b :: after))
    (hused : b.free = false) {newSize : Nat} (hs : payloadSize? newSize = none) :
    h.resize (h.payloadAddress b.offset) newSize m =
      .error (.report (.sizeOverflow 1 newSize)) m := by
  unfold resize
  rw [bind_of_ok (requireInitialized_of_placed hp m),
    bind_of_ok (inspect_of_ok (usedBlock_ok hp hw hused))]
  exact bind_of_error (lift_of_error (payloadSize_of_none hs) m)

theorem resize_eq (hp : h.Placed) (hw : h.WellFormed m (before ++ b :: after))
    (hused : b.free = false) {newSize : Nat} (hs : payloadSize? newSize = some payload) :
    h.resize (h.payloadAddress b.offset) newSize m =
      (if payload ≤ b.size then do
        h.shrink b.offset (h.headerOf (lastLink none before) b) payload
        pure (h.payloadAddress b.offset)
      else do
        if ← h.growInPlace b.offset (h.headerOf (lastLink none before) b) payload then
          pure (h.payloadAddress b.offset)
        else
          let target ← h.allocate newSize
          modify (·.copy (h.payloadAddress b.offset) target (min b.size newSize))
          h.release (h.payloadAddress b.offset)
          pure target : HeapM Nat) m := by
  unfold resize
  rw [bind_of_ok (requireInitialized_of_placed hp m),
    bind_of_ok (inspect_of_ok (usedBlock_ok hp hw hused))]
  exact bind_of_ok (lift_of_ok (payloadSize_of_some hs) m)

theorem resize_shrink (hp : h.Placed) (hw : h.WellFormed m (before ++ b :: after))
    (hused : b.free = false) {newSize : Nat} (hs : payloadSize? newSize = some payload)
    (hroom : payload ≤ b.size) :
    ∃ m', h.resize (h.payloadAddress b.offset) newSize m =
        .ok (h.payloadAddress b.offset) m' ∧
      h.Rewrites none m (before ++ b :: after) m' (before ++ h.carve b payload after) := by
  obtain ⟨m', hshrink, hr⟩ := shrink_spec hp hw hused (payloadSize?_eq_some hs).1 hroom
  refine ⟨m', ?_, hr⟩
  rw [resize_eq hp hw hused hs, if_pos hroom]
  exact bind_of_ok hshrink

theorem resize_grow (hp : h.Placed) (hw : h.WellFormed m (before ++ b :: c :: rest))
    (hused : b.free = false) (hfree : c.free = true) {newSize : Nat}
    (hs : payloadSize? newSize = some payload) (hbig : b.size < payload)
    (hroom : payload ≤ b.size + headerSize + c.size) :
    ∃ m', h.resize (h.payloadAddress b.offset) newSize m =
        .ok (h.payloadAddress b.offset) m' ∧
      h.Rewrites none m (before ++ b :: c :: rest) m'
        (before ++ h.carve { b with size := b.size + headerSize + c.size } payload rest) := by
  obtain ⟨m', hgrow, hr⟩ :=
    growInPlace_fit hp hw hused hfree (payloadSize?_eq_some hs).1 hroom
  refine ⟨m', ?_, hr⟩
  rw [resize_eq hp hw hused hs, if_neg (Nat.not_le.2 hbig)]
  exact bind_of_ok hgrow

theorem resize_move (hp : h.Placed) (hw : h.WellFormed m (before ++ b :: after))
    (hused : b.free = false) {newSize : Nat} (hs : payloadSize? newSize = some payload)
    (hbig : b.size < payload)
    (hsmall : ∀ c ∈ after.head?, c.free = true → b.size + headerSize + c.size < payload) :
    h.resize (h.payloadAddress b.offset) newSize m =
      (do
        let target ← h.allocate newSize
        modify (·.copy (h.payloadAddress b.offset) target (min b.size newSize))
        h.release (h.payloadAddress b.offset)
        pure target : HeapM Nat) m := by
  rw [resize_eq hp hw hused hs, if_neg (Nat.not_le.2 hbig)]
  exact bind_of_ok (growInPlace_refuse hp hw hsmall)

end EarlyBoot.BlockHeap
