import EarlyBoot.Proofs.BlockHeap.Contents

/-!
# Clients that share a heap

Several clients may hold pointers of one heap.  A client that holds some of
them and is honest spares the blocks of the others: these stay in use where
they are, with the bytes in them, and no pointer to one of them is handed out.
Every other block in use is one that the client holds.
-/

namespace EarlyBoot.BlockHeap.Session

variable {s s' s'' : Session} {blocks blocks' blocks'' : List BlockInfo} {action : Action}

/-- Every pointer held is that of a block in use; other clients may hold the rest. -/
structure Shares (s : Session) (blocks : List BlockInfo) : Prop where
  placed : s.heap.Placed
  wellFormed : s.heap.WellFormed s.memory blocks
  held : ∀ p ∈ s.live, ∃ b ∈ inUse blocks, s.heap.payloadAddress b.offset = p

/-- The blocks in use that are not held are the same in `s` and `s'`, with the same bytes. -/
structure Spares (s s' : Session) (blocks blocks' : List BlockInfo) : Prop where
  shares : s'.Shares blocks'
  base_eq : s'.heap.base = s.heap.base
  kept : ∀ b ∈ inUse blocks, s.heap.payloadAddress b.offset ∉ s.live →
    b ∈ inUse blocks' ∧ s.heap.payloadAddress b.offset ∉ s'.live ∧
      ∀ a, s.heap.InPayload b a → s'.memory.read a = s.memory.read a
  only : ∀ b ∈ inUse blocks', s.heap.payloadAddress b.offset ∉ s'.live →
    b ∈ inUse blocks ∧ s.heap.payloadAddress b.offset ∉ s.live

theorem Shares.refl (hs : s.Shares blocks) : s.Spares s blocks blocks :=
  ⟨hs, rfl, fun _ hb hp => ⟨hb, hp, fun _ _ => rfl⟩, fun _ hb hp => ⟨hb, hp⟩⟩

theorem Spares.trans (h : s.Spares s' blocks blocks') (h' : s'.Spares s'' blocks' blocks'') :
    s.Spares s'' blocks blocks'' := by
  have haddress : ∀ o, s'.heap.payloadAddress o = s.heap.payloadAddress o := by
    intro o
    unfold payloadAddress
    rw [h.base_eq]
  refine ⟨h'.shares, h'.base_eq.trans h.base_eq, ?_, ?_⟩
  · intro b hb hp
    obtain ⟨hb', hp', hread⟩ := h.kept b hb hp
    have hpayload : ∀ a, s.heap.InPayload b a → s'.heap.InPayload b a := by
      intro a ha
      unfold InPayload at ha ⊢
      rwa [h.base_eq]
    obtain ⟨hb'', hp'', hread'⟩ := h'.kept b hb' (haddress _ ▸ hp')
    exact ⟨hb'', haddress _ ▸ hp'', fun a ha => (hread' a (hpayload a ha)).trans (hread a ha)⟩
  · intro b hb hp
    obtain ⟨hb', hp'⟩ := h'.only b hb (haddress _ ▸ hp)
    exact h.only b hb' (haddress _ ▸ hp')

/-- The same heap, in the hands of one client that holds every block in use. -/
def whole (s : Session) (blocks : List BlockInfo) : Session :=
  { s with live := (inUse blocks).map (s.heap.payloadAddress ·.offset) }

theorem Shares.sound_whole (hs : s.Shares blocks) : (s.whole blocks).Sound blocks :=
  ⟨hs.placed, hs.wellFormed, fun _ => List.mem_map⟩

theorem Shares.mem_whole (hs : s.Shares blocks) {p : Nat} (hp : p ∈ s.live) :
    p ∈ (s.whole blocks).live :=
  List.mem_map.2 (hs.held p hp)

theorem Shares.honest_whole (hs : s.Shares blocks) (hhonest : s.Honest action) :
    (s.whole blocks).Honest action := by
  cases action with
  | call call => exact fun p hp => hs.mem_whole (hhonest p hp)
  | setSplitFactor splitFactor => trivial
  | write address bytes =>
      obtain ⟨p, hp, howns⟩ := hhonest
      exact ⟨p, hs.mem_whole hp, howns⟩

theorem Shares.spares_of_succeeds (hs : s.Shares blocks) {call : Call} {m' : Memory}
    {gone new : Option BlockInfo} (hhonest : s.Honest (.call call))
    (hc : call.Succeeds s.heap s.memory blocks m' blocks' gone new) :
    s.Spares (s.after (.call call)) blocks blocks' := by
  have hw := hs.sound_whole
  -- the block that the call takes is the one whose pointer is given back
  have hback : ∀ b ∈ inUse blocks,
      (call.givenBack = some (s.heap.payloadAddress b.offset) ↔ b ∈ gone) :=
    fun b hb => hw.givenBack_iff hc hb
  rw [(after_of_ok hc.performed).2]
  refine ⟨⟨hs.placed, hc.effect.wellFormed, ?_⟩, rfl, ?_, ?_⟩
  · intro p hp
    rcases List.mem_append.1 hp with hnew | hold
    · obtain ⟨d, hd, rfl⟩ := Option.map_eq_some_iff.1 (Option.mem_toList.1 hnew)
      exact ⟨d, (hc.effect.mem_inUse d).2 (.inl hd), rfl⟩
    · obtain ⟨hlive, hkept⟩ := List.mem_filter.1 hold
      obtain ⟨b, hb, rfl⟩ := hs.held p hlive
      refine ⟨b, (hc.effect.mem_inUse b).2 (.inr ⟨hb, ?_⟩), rfl⟩
      intro hgone
      simp [(hback b hb).2 hgone] at hkept
  · intro b hb hp
    have hgone : b ∉ gone := by
      intro hgone
      exact hp (hhonest _ ((hback b hb).2 hgone))
    refine ⟨(hc.effect.mem_inUse b).2 (.inr ⟨hb, hgone⟩), ?_, hc.effect.kept b hb hgone⟩
    intro hmem
    rcases List.mem_append.1 hmem with hnew | hold
    · obtain ⟨d, hd, haddress⟩ := Option.map_eq_some_iff.1 (Option.mem_toList.1 hnew)
      exact hc.fresh d hd b hb hgone (payloadAddress_inj.1 haddress).symm
    · exact hp (List.mem_filter.1 hold).1
  · intro b hb hp
    rw [List.mem_append, not_or] at hp
    rcases (hc.effect.mem_inUse b).1 hb with hnew | ⟨hb, hgone⟩
    · exact absurd (Option.mem_toList.2 (Option.map_eq_some_iff.2 ⟨b, hnew, rfl⟩)) hp.1
    · refine ⟨hb, fun hlive => hp.2 (List.mem_filter.2 ⟨hlive, decide_eq_true ?_⟩)⟩
      exact fun hgiven => hgone ((hback b hb).1 hgiven)

theorem Shares.call (hs : s.Shares blocks) {call : Call} (hhonest : s.Honest (.call call)) :
    (∃ error, call.Fails s.heap s.memory error) ∨
    ∃ m' blocks' gone new, call.Succeeds s.heap s.memory blocks m' blocks' gone new ∧
      s.Spares (s.after (.call call)) blocks blocks' := by
  rcases hs.sound_whole.call (hs.honest_whole hhonest) with hfail | ⟨m', blocks', gone, new, hc⟩
  · exact .inl hfail
  · exact .inr ⟨m', blocks', gone, new, hc, hs.spares_of_succeeds hhonest hc⟩

theorem Shares.release (hs : s.Shares blocks) {p : Nat} (hp : p ∈ s.live) :
    ∃ m', s.heap.release p s.memory = .ok () m' := by
  obtain ⟨b, hb, rfl⟩ := hs.held p hp
  obtain ⟨blocks', m', hok, -⟩ := release_effect hs.placed hs.wellFormed hb
  exact ⟨m', hok⟩

theorem Shares.write (hs : s.Shares blocks) {address : Nat} {bytes : List UInt8}
    (hhonest : s.Honest (.write address bytes)) :
    s.Spares (s.after (.write address bytes)) blocks blocks := by
  have hafter := hs.sound_whole.after_write (hs.honest_whole hhonest)
  obtain ⟨p, hp, howns⟩ := hhonest
  obtain ⟨b, hb, rfl, hlow, hhigh⟩ :=
    hs.sound_whole.owned_block ⟨hs.mem_whole hp, howns⟩
  refine ⟨⟨hs.placed, hafter.wellFormed, hs.held⟩, rfl, ?_, fun _ hb hp => ⟨hb, hp⟩⟩
  intro c hc hnot
  refine ⟨hc, hnot, ?_⟩
  intro a hac
  apply sameOutsidePayload_writeBytes hlow hhigh
  intro hab
  obtain rfl := hs.wellFormed.tiles.payload_apart (mem_inUse.1 hc).1 (mem_inUse.1 hb).1 hac hab
  exact hnot hp

theorem Shares.after (hs : s.Shares blocks) (hhonest : s.Honest action) :
    ∃ blocks', s.Spares (s.after action) blocks blocks' := by
  cases action with
  | call call =>
      rcases hs.call hhonest with ⟨error, -, hfail⟩ | ⟨m', blocks', gone, new, -, hspares⟩
      · rw [(after_of_error hfail).2]
        exact ⟨blocks, hs.refl⟩
      · exact ⟨blocks', hspares⟩
  | setSplitFactor splitFactor =>
      have hafter := hs.sound_whole.after_setSplitFactor splitFactor
      refine ⟨blocks, ⟨hafter.placed, hafter.wellFormed, hs.held⟩, rfl, ?_, ?_⟩
      · exact fun b hb hp => ⟨hb, hp, fun _ _ => rfl⟩
      · exact fun b hb hp => ⟨hb, hp⟩
  | write address bytes => exact ⟨blocks, hs.write hhonest⟩

theorem Reaches.spares (hrun : Reaches Honest s s') (hs : s.Shares blocks) :
    ∃ blocks', s.Spares s' blocks blocks' := by
  induction hrun with
  | refl => exact ⟨blocks, hs.refl⟩
  | step _ hhonest ih =>
      obtain ⟨blocks₁, hspares⟩ := ih
      obtain ⟨blocks₂, hstep⟩ := hspares.shares.after hhonest
      exact ⟨blocks₂, hspares.trans hstep⟩

end EarlyBoot.BlockHeap.Session
