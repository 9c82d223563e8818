import EarlyBoot.Proofs.BlockHeap.Rewrite

/-!
# Splitting and fusing blocks

The edits behind every operation.  Taking a block into use rewrites it as
`carve` says, fusing two neighbours and the two merging loops rewrite the list
as `push` says.  None of them can fail on a linked arena.
-/

namespace EarlyBoot.BlockHeap

open MemoryM (bind_of_ok inspect_of_ok lift_of_ok)

variable {h : BlockHeap} {m : Memory} {b c : BlockInfo} {after rest : List BlockInfo}

theorem Tiles.head_lt {start : Nat} (ht : Tiles start h.arenaSize (b :: after)) :
    b.offset < h.arenaSize := by
  have hlt := (ht.offset_lt (o := b.offset) (by simp)).2
  simp only [headerSize] at hlt
  omega

theorem Tiles.sizes_lt (hp : h.Placed) {start : Nat}
    (ht : Tiles start h.arenaSize (b :: c :: rest)) :
    b.size + headerSize + c.size < Word.limit := by
  obtain ⟨-, -, hc, -, hrest⟩ := ht
  have hle := hrest.le
  have hlt := hp.arena_lt
  simp only [BlockInfo.stop, Word.limit, headerSize] at *
  omega

theorem add_sizes (hp : h.Placed) {start : Nat} (ht : Tiles start h.arenaSize (b :: c :: rest)) :
    HeapStop.add b.size headerSize = .ok (b.size + headerSize) ∧
      HeapStop.add (b.size + headerSize) c.size = .ok (b.size + headerSize + c.size) := by
  have hlt := ht.sizes_lt hp
  exact ⟨HeapStop.add_of_lt (by omega), HeapStop.add_of_lt hlt⟩

theorem takeOver_spec (hp : h.Placed) {start : Nat} {x : Option Nat}
    (ht : Tiles start h.arenaSize (b :: after)) (haligned : start % headerSize = 0)
    (hfree : b.free = true) (hl : h.Linked m x after) :
    ∃ size rest m₁ m₂,
      push b after = { b with size } :: rest ∧
      h.takeOver b.size (h.onward b.stop) m =
        .ok (size, h.onward ({ b with size } : BlockInfo).stop) m₁ ∧
      h.relinkPrevious (h.onward ({ b with size } : BlockInfo).stop) (some b.offset) m₁ =
        .ok () m₂ ∧
      h.Linked m₂ (some b.offset) rest ∧
      h.SameOutside (offsets after) m m₂ ∧
      ∀ o ∈ offsets after, o ∉ offsets rest → h.Erased m₂ o := by
  have hb : b.offset < h.arenaSize := ht.head_lt
  have hstop := ht.stop_aligned haligned
  by_cases hapart : ∀ c ∈ after.head?, ¬ (b.free = true ∧ c.free = true)
  · obtain ⟨m₂, hrelink, hlinked, hsame⟩ :=
      relinkPrevious_spec hp ht.2.2 hstop hl hb
    refine ⟨b.size, after, m, m₂, push_of_apart hapart, ?_, hrelink, hlinked, hsame,
      fun _ ho hgone => absurd ho hgone⟩
    rw [onward_eq_head ht.2.2]
    cases after with
    | nil => simp [takeOver, pure, EStateM.pure]
    | cons c rest =>
        have hused : c.free = false := by simpa [hfree] using hapart
        simp only [List.head?_cons, Option.map_some, takeOver]
        rw [bind_of_ok (inspect_of_ok (load_of_linked ht.2.2 hstop hl))]
        simp [headerOf, hused, pure, EStateM.pure]
  · -- the successor is free: its header goes, and the block behind it is linked anew
    obtain ⟨c, rest, rfl, hc⟩ : ∃ c rest, after = c :: rest ∧ c.free = true := by
      cases after with
      | nil => simp at hapart
      | cons c rest => exact ⟨c, rest, rfl, by simpa [hfree] using hapart⟩
    obtain ⟨hfirst, hsecond⟩ := add_sizes hp ht
    have herased : h.Linked (Header.erase m (h.base + c.offset)) (some c.offset) rest :=
      Linked.of_front ht.2.2 hstop (sameOutside_erase _ _) hl.2
    obtain ⟨m₂, hrelink, hlinked, hsame⟩ :=
      relinkPrevious_spec hp ht.2.2.2.2 (ht.2.2.stop_aligned hstop) herased hb
    refine ⟨b.size + headerSize + c.size, rest, Header.erase m (h.base + c.offset), m₂,
      push_of_free hfree hc, ?_, by rw [ht.join_stop]; exact hrelink, hlinked, ?_, ?_⟩
    · rw [onward_eq_head ht.2.2, ht.join_stop]
      simp only [List.head?_cons, Option.map_some, takeOver]
      rw [bind_of_ok (inspect_of_ok (load_of_linked ht.2.2 hstop hl))]
      simp only [headerOf, hc, if_true]
      rw [bind_of_ok (lift_of_ok hfirst m), bind_of_ok (lift_of_ok hsecond m),
        bind_of_ok (erase_of_inBounds (ht.2.2.inBounds hstop (by simp)) m)]
      rfl
    · apply SameOutside.trans ((sameOutside_erase m c.offset).mono (by simp))
      exact hsame.mono (List.subset_cons_self _ _)
    · intro o ho hgone
      have heq : o = c.offset := (List.mem_cons.1 ho).resolve_right hgone
      rw [heq]
      apply hsame.erased _ _ ht.2.2.offset_not_mem (erased_erase m c.offset)
      · exact fun p hp => ht.2.2.offset_aligned hstop (by simp [hp])
      · exact ht.2.2.offset_aligned hstop (by simp)

variable {payload : Nat}

theorem splitOff_spec (hp : h.Placed) {start : Nat} (previous : Option Nat) {x : Option Nat}
    (ht : Tiles start h.arenaSize (b :: after)) (haligned : start % headerSize = 0)
    (hpayload : payload % headerSize = 0) (hroom : payload + headerSize ≤ b.size)
    (hl : h.Linked m x after) :
    ∃ m', h.splitOff b.offset (h.headerOf previous b) payload m =
        .ok (h.headerOf previous ⟨b.offset, payload, b.free⟩) m' ∧
      h.Rewrites (some b.offset) m after m' (push (leftover b payload) after) := by
  have htail := ht.leftover hpayload hroom
  -- the leftover stands at a place where a header may stand
  have htail_aligned : (b.offset + headerSize + payload) % headerSize = 0 := by
    have hb := ht.offset_aligned haligned (o := b.offset) (by simp)
    simp only [headerSize] at *
    omega
  have hb : b.offset < h.arenaSize := ht.head_lt
  obtain ⟨size, rest, m₁, m₂, hpush, htake, hrelink, hlinked, hsame, herased⟩ :=
    takeOver_spec hp htail htail_aligned rfl hl
  have hstop : (leftover b payload).stop = b.stop := by
    simp only [leftover, BlockInfo.stop]
    omega
  have hnext : h.onward (b.offset + headerSize + payload) =
      some (b.offset + headerSize + payload) :=
    onward_eq_head htail
  have hrest : Tiles (b.offset + headerSize + payload) h.arenaSize
      ({ leftover b payload with size } :: rest) := hpush ▸ htail.push
  have hlt := hp.arena_lt
  have hle := ht.2.2.le
  simp only [BlockInfo.stop] at hle
  refine ⟨Header.write m₂ (h.base + (leftover b payload).offset)
    (h.headerOf (some b.offset) { leftover b payload with size }), ?_, ?_⟩
  · unfold splitOff
    rw [bind_of_ok (lift_of_ok (HeapStop.add_of_lt (by omega)) m),
      bind_of_ok (lift_of_ok (HeapStop.add_of_lt (by omega)) m),
      bind_of_ok (lift_of_ok (HeapStop.sub_of_le (by simp only [headerOf]; omega)) m),
      bind_of_ok (lift_of_ok (HeapStop.sub_of_le (by simp only [headerOf]; omega)) m)]
    rw [hstop] at htake
    refine (bind_of_ok htake).trans ?_
    refine (bind_of_ok hrelink).trans ?_
    refine (bind_of_ok (store_of_inBounds (hrest.inBounds htail_aligned (by simp)) _ m₂)).trans ?_
    simp only [headerOf, BlockInfo.stop, hnext, leftover]
    rfl
  · rw [hpush]
    apply Rewrites.store_front hp hrest htail_aligned (by simpa using hb) _ hlinked
    · exact hsame.mono (by simp)
    · intro o ho _ hgone
      exact herased o ho hgone
    · intro o ho
      exact htail.offset_aligned htail_aligned (by simp [ho])

def Splits (h : BlockHeap) (size payload : Nat) : Prop :=
  Word.saturatingMul h.splitFactor headerSize < size - payload

instance (h : BlockHeap) (size payload : Nat) : Decidable (h.Splits size payload) :=
  inferInstanceAs (Decidable (_ < _))

theorem carve_of_splits (hsplits : h.Splits b.size payload) :
    h.carve b payload after = ⟨b.offset, payload, false⟩ :: push (leftover b payload) after :=
  if_pos hsplits

theorem carve_of_not_splits (hsplits : ¬ h.Splits b.size payload) :
    h.carve b payload after = { b with free := false } :: after :=
  if_neg hsplits

section Cut

variable {o : Nat} {header : Header}

theorem shouldSplit_eq (hroom : payload ≤ header.size) :
    h.shouldSplit header payload = .ok (decide (h.Splits header.size payload)) := by
  unfold shouldSplit
  rw [HeapStop.sub_of_le hroom]
  rfl

theorem settle_eq (hroom : payload ≤ header.size) (m : Memory) :
    h.settle o header payload m =
      if h.Splits header.size payload then (h.splitOff o header payload >>= h.store o) m
      else h.store o header m := by
  unfold settle
  rw [bind_of_ok (lift_of_ok (shouldSplit_eq hroom) m)]
  by_cases hsplits : h.Splits header.size payload <;> simp only [hsplits] <;> rfl

theorem shrink_eq (hroom : payload ≤ header.size) (m : Memory) :
    h.shrink o header payload m =
      if h.Splits header.size payload then (h.splitOff o header payload >>= h.store o) m
      else .ok () m := by
  unfold shrink
  rw [bind_of_ok (lift_of_ok (shouldSplit_eq hroom) m)]
  by_cases hsplits : h.Splits header.size payload <;> simp only [hsplits] <;> rfl

end Cut

theorem settle_spec (hp : h.Placed) {start : Nat} {previous : Option Nat}
    (ht : Tiles start h.arenaSize (b :: after)) (haligned : start % headerSize = 0)
    (hprevious : ∀ o ∈ previous, o < h.arenaSize) (hpayload : payload % headerSize = 0)
    (hroom : payload ≤ b.size) (hused : b.free = false) (hl : h.Linked m (some b.offset) after) :
    ∃ m', h.settle b.offset (h.headerOf previous b) payload m = .ok () m' ∧
      h.Rewrites previous m (b :: after) m' (h.carve b payload after) := by
  have hinBounds := ht.inBounds haligned (o := b.offset) (by simp)
  have hcarve := ht.carve (h := h) hpayload
  have hplaces : ∀ o ∈ offsets (b :: after), o % headerSize = 0 :=
    fun _ ho => ht.offset_aligned haligned ho
  rw [settle_eq hroom]
  by_cases hsplits : h.Splits b.size payload
  · rw [carve_of_splits hsplits] at *
    obtain ⟨m₁, hsplitOff, hr⟩ := splitOff_spec hp previous ht haligned hpayload
      (header_fits hpayload ht.2.1 hsplits) hl
    refine ⟨_, ?_, Rewrites.store_front hp hcarve haligned hprevious hplaces hr.linked ?_ ?_⟩
    · refine (if_pos hsplits).trans ?_
      rw [bind_of_ok hsplitOff, hused]
      exact store_of_inBounds hinBounds _ m₁
    · exact hr.same.mono (List.subset_cons_self _ _)
    · intro o ho hne hgone
      exact hr.erased o ((List.mem_cons.1 ho).resolve_left hne) hgone
  · have hmark : ({ b with free := false } : BlockInfo) = b := by rw [← hused]
    rw [carve_of_not_splits hsplits, hmark]
    refine ⟨_, ?_, Rewrites.store_front hp ht haligned hprevious hplaces hl
      (SameOutside.refl _) ?_⟩
    · exact (if_neg hsplits).trans (store_of_inBounds hinBounds _ m)
    · intro o ho hne hgone
      exact absurd ((List.mem_cons.1 ho).resolve_left hne) hgone

/-! ## Fusing -/

/-- What fusing and growing have in common: the second block goes, the third is relinked. -/
theorem absorb_spec (hp : h.Placed) {start : Nat} {x : Option Nat}
    (ht : Tiles start h.arenaSize (b :: c :: rest)) (haligned : start % headerSize = 0)
    (hl : h.Linked m x rest) :
    ∃ m₁, h.relinkPrevious (h.onward c.stop) (some b.offset) m = .ok () m₁ ∧
      h.Linked (Header.erase m₁ (h.base + c.offset)) (some b.offset) rest ∧
      h.SameOutside (c.offset :: offsets rest) m (Header.erase m₁ (h.base + c.offset)) := by
  have hstop := ht.stop_aligned haligned
  have hb : b.offset < h.arenaSize := ht.head_lt
  obtain ⟨m₁, hrelink, hlinked, hsame⟩ :=
    relinkPrevious_spec hp ht.2.2.2.2 (ht.2.2.stop_aligned hstop) hl hb
  have herase := sameOutside_erase (h := h) m₁ c.offset
  refine ⟨m₁, hrelink, Linked.of_front ht.2.2 hstop herase hlinked, ?_⟩
  exact (hsame.mono (List.subset_cons_self _ _)).trans (herase.mono (by simp))

theorem fuse_spec (hp : h.Placed) {start : Nat} {previous : Option Nat}
    (ht : Tiles start h.arenaSize (b :: c :: rest)) (haligned : start % headerSize = 0)
    (hprevious : ∀ o ∈ previous, o < h.arenaSize)
    (hl : h.Linked m previous (b :: c :: rest)) :
    ∃ m', h.fuse b.offset c.offset m = .ok () m' ∧
      h.Rewrites previous m (b :: c :: rest) m'
        ({ b with size := b.size + headerSize + c.size } :: rest) := by
  have hstop := ht.stop_aligned haligned
  obtain ⟨m₁, hrelink, hlinked, hsame⟩ := absorb_spec hp ht haligned hl.2.2
  have hjoin := ht.join
  have hnext : h.onward b.stop = some c.offset := onward_eq_head ht.2.2
  refine ⟨_, ?_, Rewrites.store_front hp hjoin haligned hprevious
    (fun _ ho => ht.offset_aligned haligned ho) hlinked ?_ ?_⟩
  · rw [fuse_eq_ok]
    refine ⟨_, _, m₁, load_of_linked ht haligned hl, load_of_linked ht.2.2 hstop hl.2, hnext, rfl,
      ht.sizes_lt hp, hrelink, ?_⟩
    simp only [headerOf, ht.join_stop]
  · apply hsame.mono
    intro o ho
    simp only [offsets_cons, List.mem_append, List.mem_cons] at ho ⊢
    tauto
  · intro o ho hne hgone
    have heq : o = c.offset :=
      (List.mem_cons.1 ((List.mem_cons.1 ho).resolve_left hne)).resolve_right hgone
    rw [heq]
    exact erased_erase m₁ c.offset

theorem mergeBehind_of_last (hp : h.Placed) {start : Nat} {previous : Option Nat}
    (ht : Tiles start h.arenaSize (b :: rest)) (haligned : start % headerSize = 0)
    (hl : h.Linked m previous (b :: rest)) (hhead : ∀ c ∈ rest.head?, c.free = false) :
    h.mergeBehind b.offset m = .ok () m := by
  have hsuccessor : h.successor b.offset (h.headerOf previous b) = .ok (h.onward b.stop) :=
    successor_headerOf hp ht.2.2.le
  rw [onward_eq_head ht.2.2] at hsuccessor
  rw [mergeBehind_eq, bind_of_ok (inspect_of_ok (load_of_linked ht haligned hl)),
    bind_of_ok (lift_of_ok hsuccessor m)]
  cases rest with
  | nil => rfl
  | cons c rest =>
      have hused : c.free = false := hhead c (by simp)
      refine (bind_of_ok (inspect_of_ok (load_of_linked ht.2.2 (ht.stop_aligned haligned)
        hl.2))).trans ?_
      simp only [headerOf, hused, Bool.false_eq_true, if_false]
      rfl

theorem mergeBehind_of_free (hp : h.Placed) {start : Nat} {previous : Option Nat} {m' : Memory}
    (ht : Tiles start h.arenaSize (b :: c :: rest)) (haligned : start % headerSize = 0)
    (hl : h.Linked m previous (b :: c :: rest)) (hfree : c.free = true)
    (hfuse : h.fuse b.offset c.offset m = .ok () m') :
    h.mergeBehind b.offset m = h.mergeBehind b.offset m' := by
  have hsuccessor : h.successor b.offset (h.headerOf previous b) = .ok (h.onward b.stop) :=
    successor_headerOf hp ht.2.2.le
  rw [onward_eq_head ht.2.2] at hsuccessor
  refine (congrFun (mergeBehind_eq h b.offset) m).trans ?_
  rw [bind_of_ok (inspect_of_ok (load_of_linked ht haligned hl)),
    bind_of_ok (lift_of_ok hsuccessor m)]
  refine (bind_of_ok (inspect_of_ok (load_of_linked ht.2.2 (ht.stop_aligned haligned)
    hl.2))).trans ?_
  simp only [headerOf, hfree, if_true]
  exact bind_of_ok hfuse

theorem mergeBehind_spec (hp : h.Placed) {start : Nat} {previous : Option Nat}
    (ht : Tiles start h.arenaSize (b :: rest)) (haligned : start % headerSize = 0)
    (hprevious : ∀ o ∈ previous, o < h.arenaSize) (hfree : b.free = true)
    (hc : Coalesced rest) (hl : h.Linked m previous (b :: rest)) :
    ∃ m', h.mergeBehind b.offset m = .ok () m' ∧
      h.Rewrites previous m (b :: rest) m' (push b rest) := by
  by_cases hhead : ∀ c ∈ rest.head?, c.free = false
  · refine ⟨m, mergeBehind_of_last hp ht haligned hl hhead, ?_⟩
    rw [push_of_apart fun c hc hboth => by simp [hhead c hc] at hboth]
    exact Rewrites.refl hl
  · obtain ⟨c, rest, rfl, hcfree⟩ : ∃ c rest', rest = c :: rest' ∧ c.free = true := by
      cases rest with
      | nil => simp at hhead
      | cons c rest => exact ⟨c, rest, rfl, by simpa using hhead⟩
    obtain ⟨m', hfuse, hr⟩ := fuse_spec hp ht haligned hprevious hl
    refine ⟨m', ?_, by rw [push_of_free hfree hcfree]; exact hr⟩
    rw [mergeBehind_of_free hp ht haligned hl hcfree hfuse]
    apply mergeBehind_of_last (b := { b with size := b.size + headerSize + c.size }) hp ht.join
      haligned hr.linked
    intro d hd
    have := (List.isChain_cons.1 hc).1 d hd
    simpa [hcfree] using this

theorem mergeAhead_of_first {start : Nat} (ht : Tiles start h.arenaSize (b :: rest))
    (haligned : start % headerSize = 0) (hl : h.Linked m none (b :: rest)) :
    h.mergeAhead b.offset m = .ok () m := by
  rw [mergeAhead_eq, bind_of_ok (inspect_of_ok (load_of_linked ht haligned hl))]
  rfl

theorem mergeAhead_of_used {start : Nat} {previous : Option Nat}
    (ht : Tiles start h.arenaSize (b :: c :: rest)) (haligned : start % headerSize = 0)
    (hl : h.Linked m previous (b :: c :: rest)) (hused : b.free = false) :
    h.mergeAhead c.offset m = .ok () m := by
  rw [mergeAhead_eq,
    bind_of_ok (inspect_of_ok (load_of_linked ht.2.2 (ht.stop_aligned haligned) hl.2))]
  refine (bind_of_ok (inspect_of_ok (load_of_linked ht haligned hl))).trans ?_
  simp only [headerOf, hused, Bool.false_eq_true, if_false]
  rfl

theorem mergeAhead_of_free {start : Nat} {previous : Option Nat} {m' : Memory}
    (ht : Tiles start h.arenaSize (b :: c :: rest)) (haligned : start % headerSize = 0)
    (hl : h.Linked m previous (b :: c :: rest)) (hfree : b.free = true)
    (hfuse : h.fuse b.offset c.offset m = .ok () m') :
    h.mergeAhead c.offset m = h.mergeAhead b.offset m' := by
  rw [mergeAhead_eq,
    bind_of_ok (inspect_of_ok (load_of_linked ht.2.2 (ht.stop_aligned haligned) hl.2))]
  refine (bind_of_ok (inspect_of_ok (load_of_linked ht haligned hl))).trans ?_
  simp only [headerOf, hfree, if_true]
  exact bind_of_ok hfuse

theorem mergeAhead_spec (hp : h.Placed) {before : List BlockInfo}
    (ht : Tiles 0 h.arenaSize (before ++ b :: rest)) (hc : Coalesced before)
    (hfree : b.free = true) (hl : h.Linked m none (before ++ b :: rest)) :
    ∃ m', h.mergeAhead b.offset m = .ok () m' ∧
      h.Rewrites none m (before ++ b :: rest) m' (before.foldr push (b :: rest)) := by
  -- from the last block in front: a free one is fused and takes the block's place
  induction before using List.reverseRecOn generalizing b m with
  | nil => exact ⟨m, mergeAhead_of_first ht (Nat.zero_mod _) hl, Rewrites.refl hl⟩
  | append_singleton before a ih =>
      rw [List.append_assoc] at ht hl
      obtain ⟨middle, htbefore, hta⟩ := tiles_append.1 ht
      obtain ⟨hlbefore, hla⟩ := linked_append.1 hl
      have hmiddle := htbefore.aligned (Nat.zero_mod _)
      rw [List.append_assoc, List.foldr_append]
      cases ha : a.free with
      | false =>
          refine ⟨m, mergeAhead_of_used hta hmiddle hla ha, ?_⟩
          rw [List.foldr_cons, List.foldr_nil, push_of_used ha, foldr_push_of_coalesced hc]
          exact Rewrites.refl hl
      | true =>
          have hprevious : ∀ o ∈ lastLink none before, o < h.arenaSize := fun o ho =>
            Nat.lt_of_lt_of_le (lastLink_lt htbefore (by simp) o ho) hta.le
          obtain ⟨m₁, hfuse, hr⟩ := fuse_spec hp hta hmiddle hprevious hla
          have hr₁ := hr.prepend (Nat.zero_mod _) htbefore hta hta.join hlbefore
          have ht₁ := tiles_append.2 ⟨middle, htbefore, hta.join⟩
          obtain ⟨m₂, hahead, hr₂⟩ :=
            ih (b := { a with size := a.size + headerSize + b.size }) ht₁ hc.left_of_append ha
              hr₁.linked
          rw [List.foldr_cons, List.foldr_nil, push_of_free ha hfree]
          refine ⟨m₂, ?_, hr₁.trans hr₂ ?_ ?_⟩
          · rw [List.singleton_append] at hta hla
            rw [mergeAhead_of_free hta hmiddle hla ha hfuse]
            exact hahead
          · intro o ho
            simp only [offsets_append, offsets_cons, List.singleton_append, List.mem_append,
              List.mem_cons] at ho ⊢
            tauto
          · intro o ho
            rcases List.mem_append.1 ho with ho | ho
            · exact ht.offset_aligned (Nat.zero_mod _) ho
            · exact ht₁.foldr_push.offset_aligned (Nat.zero_mod _) ho

end EarlyBoot.BlockHeap
