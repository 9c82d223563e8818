import EarlyBoot.Proofs.BlockHeap.Emptied

/-!
# The order of releases

Releasing a set of pointers leaves the same bytes in every order.  The list of
blocks that a release leaves is a normal form: mark the block free, then melt
all free neighbours.  Marking commutes with melting, so any order of releases
ends in the list that marking all of them at once and melting once would give.
A list of blocks fixes the bytes of all its headers, and every other byte is
either erased or as it was before the first release.
-/

namespace EarlyBoot.BlockHeap

variable {h : BlockHeap} {m m₁ m₂ : Memory} {b c : BlockInfo} {pointers : List Nat}
  {blocks blocks' before after rest : List BlockInfo}

def marked (h : BlockHeap) (pointers : List Nat) (b : BlockInfo) : BlockInfo :=
  { b with free := b.free || decide (h.payloadAddress b.offset ∈ pointers) }

def remaining (h : BlockHeap) (pointers : List Nat) (blocks : List BlockInfo) :
    List BlockInfo :=
  merged (blocks.map (h.marked pointers))

theorem marked_of_free (hfree : b.free = true) : h.marked pointers b = b := by
  unfold marked
  rw [hfree, Bool.true_or, ← hfree]

theorem marked_of_not_mem (hnot : h.payloadAddress b.offset ∉ pointers) :
    h.marked pointers b = b := by
  unfold marked
  rw [decide_eq_false hnot, Bool.or_false]

theorem marked_of_mem (hmem : h.payloadAddress b.offset ∈ pointers) :
    h.marked pointers b = { b with free := true } := by
  unfold marked
  rw [decide_eq_true hmem, Bool.or_true]

theorem marked_cons (p : Nat) (b : BlockInfo) :
    h.marked pointers (h.marked [p] b) = h.marked (p :: pointers) b := by
  simp [marked, Bool.or_assoc]

theorem marked_congr {pointers' : List Nat} (hmem : ∀ p, p ∈ pointers ↔ p ∈ pointers')
    (b : BlockInfo) : h.marked pointers b = h.marked pointers' b := by
  simp only [marked, hmem]

theorem push_push (hb : b.free = true) (hc : c.free = true) :
    push b (push c rest) = push { b with size := b.size + headerSize + c.size } rest := by
  cases rest with
  | nil => exact push_of_free hb hc
  | cons d rest =>
      cases hd : d.free with
      | true =>
          have hc' : ({ c with size := c.size + headerSize + d.size } : BlockInfo).free = true := hc
          rw [push_of_free hc hd, push_of_free hb hc', push_of_free (by exact hb) hd]
          simp only [Nat.add_assoc]
      | false =>
          rw [push_of_apart (b := c) (by simp [hd]), push_of_free hb hc,
            push_of_apart (by simp [hd])]

theorem merged_cons : merged (b :: rest) = push b (merged rest) := rfl

theorem remaining_push :
    h.remaining pointers (push b rest) =
      push (h.marked pointers b) (h.remaining pointers rest) := by
  unfold remaining
  cases rest with
  | nil => rfl
  | cons c rest =>
      by_cases hfree : b.free = true ∧ c.free = true
      · obtain ⟨hb, hc⟩ := hfree
        -- the melted block is free, so that marking leaves it alone
        rw [push_of_free hb hc, List.map_cons, List.map_cons, merged_cons, merged_cons,
          marked_of_free (by exact hb), marked_of_free hb, marked_of_free hc, push_push hb hc]
      · rw [push_of_apart (by simpa using hfree), List.map_cons, merged_cons]

theorem remaining_merged : h.remaining pointers (merged blocks) = h.remaining pointers blocks := by
  induction blocks with
  | nil => rfl
  | cons b rest ih =>
      rw [merged_cons, remaining_push, ih]
      rfl

theorem remaining_cons (p : Nat) (pointers : List Nat) (blocks : List BlockInfo) :
    h.remaining pointers (h.remaining [p] blocks) = h.remaining (p :: pointers) blocks := by
  have hmarked : h.marked pointers ∘ h.marked [p] = h.marked (p :: pointers) :=
    funext (marked_cons p)
  calc h.remaining pointers (h.remaining [p] blocks)
      = h.remaining pointers (blocks.map (h.marked [p])) := remaining_merged
    _ = h.remaining (p :: pointers) blocks := by
        rw [remaining, remaining, List.map_map, hmarked]

theorem remaining_nil (hc : Coalesced blocks) : h.remaining [] blocks = blocks := by
  have hnone : h.marked [] = id := funext fun _ => marked_of_not_mem List.not_mem_nil
  rw [remaining, hnone, List.map_id, merged_of_coalesced hc]

theorem remaining_congr {pointers' : List Nat} (hmem : ∀ p, p ∈ pointers ↔ p ∈ pointers') :
    h.remaining pointers blocks = h.remaining pointers' blocks := by
  rw [remaining, remaining, funext (marked_congr hmem)]

theorem offsets_remaining_subset : offsets (h.remaining pointers blocks) ⊆ offsets blocks := by
  induction blocks with
  | nil => exact List.Subset.refl _
  | cons b rest ih => exact List.Subset.trans offsets_push_subset (List.cons_subset_cons _ ih)

theorem Around.map_marked (ha : h.Around m before b after) :
    (before ++ b :: after).map (h.marked [h.payloadAddress b.offset]) =
      before ++ { b with free := true } :: after := by
  have hothers : ∀ d, d ∈ before ∨ d ∈ after → h.marked [h.payloadAddress b.offset] d = d := by
    intro d hd
    apply marked_of_not_mem
    intro hmem
    apply ha.ne_of_mem hd
    exact Session.payloadAddress_inj.1 (List.mem_singleton.1 hmem)
  have hbefore : before.map (h.marked [h.payloadAddress b.offset]) = before :=
    (List.map_congr_left (g := id) fun d hd => hothers d (.inl hd)).trans (List.map_id _)
  have hafter : after.map (h.marked [h.payloadAddress b.offset]) = after :=
    (List.map_congr_left (g := id) fun d hd => hothers d (.inr hd)).trans (List.map_id _)
  rw [List.map_append, List.map_cons, hbefore, hafter, marked_of_mem (List.mem_singleton_self _)]

theorem Linked.headerAt_eq {previous : Option Nat} (hl₁ : h.Linked m₁ previous blocks)
    (hl₂ : h.Linked m₂ previous blocks) {o : Nat} (ho : o ∈ offsets blocks) :
    ∃ header, h.headerAt m₁ o = some header ∧ h.headerAt m₂ o = some header := by
  induction blocks generalizing previous with
  | nil => simp at ho
  | cons b rest ih =>
      rcases List.mem_cons.1 ho with rfl | ho
      · exact ⟨h.headerOf previous b, hl₁.1, hl₂.1⟩
      · exact ih hl₁.2 hl₂.2 ho

theorem Rewrites.unique {previous : Option Nat} (hr₁ : h.Rewrites previous m blocks m₁ blocks')
    (hr₂ : h.Rewrites previous m blocks m₂ blocks') (a : Nat) : m₁.read a = m₂.read a := by
  -- a byte is in a header that is there now, in one that is gone, or outside all of them
  by_cases hheader : ∃ o ∈ offsets blocks', h.base + o ≤ a ∧ a < h.base + o + headerSize
  · obtain ⟨o, ho, hlow, hhigh⟩ := hheader
    obtain ⟨header, hh₁, hh₂⟩ := hr₁.linked.headerAt_eq hr₂.linked ho
    exact Header.read_eq_of_read?_eq hh₁ hh₂ hlow hhigh
  by_cases hgone : ∃ o ∈ offsets blocks, h.base + o ≤ a ∧ a < h.base + o + headerSize
  · obtain ⟨o, ho, hlow, hhigh⟩ := hgone
    have hnew : o ∉ offsets blocks' := fun hmem => hheader ⟨o, hmem, hlow, hhigh⟩
    rw [hr₁.erased o ho hnew a hlow hhigh, hr₂.erased o ho hnew a hlow hhigh]
  · have hout : ∀ o ∈ offsets blocks ++ offsets blocks',
        a < h.base + o ∨ h.base + o + headerSize ≤ a := by
      intro o ho
      by_contra hin
      rcases List.mem_append.1 ho with ho | ho
      · exact hgone ⟨o, ho, by omega, by omega⟩
      · exact hheader ⟨o, ho, by omega, by omega⟩
    rw [hr₁.same a hout, hr₂.same a hout]

theorem release_remaining (hp : h.Placed) (hw : h.WellFormed m blocks) (hb : b ∈ inUse blocks) :
    ∃ m', h.release (h.payloadAddress b.offset) m = .ok () m' ∧
      h.WellFormed m' (h.remaining [h.payloadAddress b.offset] blocks) ∧
      h.Rewrites none m blocks m' (h.remaining [h.payloadAddress b.offset] blocks) := by
  obtain ⟨hmem, hused⟩ := mem_inUse.1 hb
  obtain ⟨before, after, rfl⟩ := List.append_of_mem hmem
  obtain ⟨m', hok, hr⟩ := release_spec hp hw hused
  have hw' := hw.released hr
  rw [← hw.around.map_marked] at hr hw'
  exact ⟨m', hok, hw', hr⟩

namespace Session

variable {s : Session}

theorem Sound.release_remaining (hs : s.Sound blocks) {p : Nat} (hp : p ∈ s.live) :
    (s.after (.call (.release p))).Sound (s.heap.remaining [p] blocks) ∧
      s.heap.Rewrites none s.memory blocks (s.after (.call (.release p))).memory
        (s.heap.remaining [p] blocks) := by
  obtain ⟨-, hheap, -, blocks', hs'⟩ := hs.release hp
  obtain ⟨b, hb, rfl⟩ := (hs.mem_live p).1 hp
  obtain ⟨m', hok, hw', hr⟩ := BlockHeap.release_remaining hs.placed hs.wellFormed hb
  have hperform : (Call.release (s.heap.payloadAddress b.offset)).perform s.heap s.memory =
      .ok none m' := MemoryM.bind_of_ok hok
  rw [(after_of_ok hperform).2] at hs' ⊢
  have hsame : blocks' = s.heap.remaining [s.heap.payloadAddress b.offset] blocks :=
    (hs'.wellFormed.blocks_eq hs.placed).symm.trans (hw'.blocks_eq hs.placed)
  exact ⟨hsame ▸ hs', hr⟩

theorem Sound.releaseAll_remaining (hs : s.Sound blocks) {order : List Nat}
    (hnodup : order.Nodup) (hlive : ∀ p ∈ order, p ∈ s.live) :
    ∃ s', s.releaseAll order = .ok s' ∧ s'.heap = s.heap ∧
      s.heap.Rewrites none s.memory blocks s'.memory (s.heap.remaining order blocks) := by
  -- each release starts from the normal form of those before it
  induction order generalizing s blocks with
  | nil =>
      refine ⟨s, rfl, rfl, ?_⟩
      rw [remaining_nil hs.wellFormed.coalesced]
      exact Rewrites.refl hs.wellFormed.linked
  | cons p rest ih =>
      obtain ⟨hreply, hheap, -, -⟩ := hs.release (hlive p (by simp))
      obtain ⟨hs₁, hr₁⟩ := hs.release_remaining (hlive p (by simp))
      obtain ⟨s', hok, hheap', hr⟩ := ih hs₁ hnodup.of_cons (hs.rest_live hnodup hlive)
      rw [hheap, remaining_cons] at hr
      refine ⟨s', ?_, hheap'.trans hheap, hr₁.trans hr offsets_remaining_subset ?_⟩
      · rw [Session.releaseAll, hreply]
        exact hok
      · intro o ho
        have haligned := fun ho => hs.wellFormed.tiles.offset_aligned (Nat.zero_mod _) (o := o) ho
        rcases List.mem_append.1 ho with ho | ho
        · exact haligned ho
        · exact haligned (offsets_remaining_subset ho)

/--
After any honest run, any set of live pointers can be released in any order,
and two orders leave the same byte at every address.
-/
theorem release_order_irrelevant {h₀ h : BlockHeap} {start size : Nat} {m₀ m : Memory}
    {s : Session} (hregion : start + size ≤ Word.limit)
    (hinit : h₀.init start size m₀ = .ok h m) (hrun : Reaches Honest ⟨h, m, []⟩ s)
    {order order' : List Nat} (hnodup : order.Nodup) (hlive : ∀ p ∈ order, p ∈ s.live)
    (hperm : order'.Perm order) :
    ∃ s₁ s₂, s.releaseAll order = .ok s₁ ∧ s.releaseAll order' = .ok s₂ ∧
      s₁.heap = s₂.heap ∧ ∀ a, s₁.memory.read a = s₂.memory.read a := by
  obtain ⟨⟨blocks, hs⟩, -⟩ := hrun.confined hregion hinit
  obtain ⟨s₁, hok₁, hheap₁, hr₁⟩ := hs.releaseAll_remaining hnodup hlive
  obtain ⟨s₂, hok₂, hheap₂, hr₂⟩ := hs.releaseAll_remaining (hperm.nodup_iff.2 hnodup)
    fun p hp => hlive p (hperm.mem_iff.1 hp)
  rw [remaining_congr fun p => hperm.mem_iff (a := p)] at hr₂
  exact ⟨s₁, s₂, hok₁, hok₂, hheap₁.trans hheap₂.symm, fun a => hr₁.unique hr₂ a⟩

theorem order_irrelevant_for_three :
    let s := ((smallSession.after (.call (.allocate 40))).after (.call (.allocate 10))).after
      (.call (.allocate 20))
    Reaches Honest smallSession s ∧ s.live = [256, 192, 96] ∧
      ∃ s₁ s₂, s.releaseAll [96, 192, 256] = .ok s₁ ∧ s.releaseAll [256, 96, 192] = .ok s₂ ∧
        s₁.heap = s₂.heap ∧ ∀ a, s₁.memory.read a = s₂.memory.read a := by
  intro s
  have hallocate : ∀ (t : Session) (size : Nat), t.Honest (.call (.allocate size)) := by
    intro t size p hp
    cases hp
  have hrun : Reaches Honest smallSession s :=
    ((Reaches.refl.step (hallocate _ 40)).step (hallocate _ 10)).step (hallocate _ 20)
  have hlive : s.live = [256, 192, 96] := by decide +kernel
  have horder : ∀ p ∈ [96, 192, 256], p ∈ s.live := by
    rw [hlive]
    decide
  exact ⟨hrun, hlive,
    release_order_irrelevant (by decide) init_smallSession hrun (by decide) horder (by decide)⟩

end Session

end EarlyBoot.BlockHeap
